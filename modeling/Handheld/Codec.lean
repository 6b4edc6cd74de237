import Handheld.Bytes

/-!
# Binary codecs

The saved forms of the machine's states are plain sequences of fields: numbers in little-endian
order and fixed width, a truth value as one byte 0 or 1, a choice as a number of 32 bits, a
sequence of varying length behind its length in 64 bits, and a record as its fields in order. A
codec pairs the writer and the reader of one type; the reader goes through the fields in the
order in which they were written, and its first failure is the answer.
-/

namespace Handheld

/-- Why bytes are not the saved form of a value. -/
inductive DecodeError where
  /-- The bytes end inside the value. -/
  | unexpectedEnd
  /-- A truth value is neither 0 nor 1. -/
  | invalidBool (found : UInt8)
  /-- A choice is not among the `count` possible ones. -/
  | invalidTag (found : UInt32) (count : Nat)
  /-- A sequence holds more items than it may. -/
  | tooLong (length capacity : Nat)
  deriving DecidableEq, Repr

/-- Why a saved state cannot be loaded. -/
inductive LoadError where
  | malformed (cause : DecodeError)
  /-- The state is said to be compressed. -/
  | compressed
  deriving DecidableEq, Repr

namespace DecodeError

/-- The cause in words. -/
def reason : DecodeError → String
  | unexpectedEnd => "io error: unexpected end of file"
  | invalidBool found =>
    s!"invalid u8 while decoding bool, expected 0 or 1, found {found}"
  | invalidTag found count =>
    s!"invalid value: integer `{found}`, expected variant index 0 <= i < {count}"
  | tooLong length capacity =>
    s!"invalid length {length}, expected an array with no more than {capacity} items"

end DecodeError

namespace LoadError

/-- The report of a failed load. -/
def message : LoadError → String
  | malformed cause => "failed to encode or decode state: " ++ cause.reason
  | compressed => "state is compressed, but compression support is not enabled"

end LoadError

/-- A writer, which appends to the bytes so far, and a reader, which starts at a position and
returns the position behind the value. -/
structure Codec (α : Type) where
  put : α → ByteArray → ByteArray
  get : ByteArray → Nat → Except DecodeError (α × Nat)

namespace Codec

variable {α β : Type}

/-- The saved form of a value. -/
def encode (c : Codec α) (a : α) : ByteArray := c.put a ByteArray.empty

/-- The value that the bytes start with. What follows it is ignored. -/
def decode (c : Codec α) (bytes : ByteArray) : Except DecodeError α :=
  (c.get bytes 0).map (·.1)

/-- Load a saved state. Compressed states are refused unread. -/
def load (c : Codec α) (bytes : ByteArray) (compressed : Bool) : Except LoadError α :=
  if compressed then .error .compressed
  else match c.decode bytes with
    | .ok a => .ok a
    | .error cause => .error (.malformed cause)

/-! ## Numbers -/

/-- Append the `n` low bytes of a number, lowest first. -/
def putLittleEndian : Nat → Nat → ByteArray → ByteArray
  | 0, _, acc => acc
  | n + 1, x, acc => putLittleEndian n (x / 256) (acc.push (UInt8.ofNat x))

/-- The number in the `n` bytes from a position on, lowest first; bytes beyond the end are 0. -/
def littleEndian : Nat → ByteArray → Nat → Nat
  | 0, _, _ => 0
  | n + 1, bytes, pos => (bytes[pos]?.getD 0).toNat + 256 * littleEndian n bytes (pos + 1)

/-- A number of `n` bytes. -/
def number (n : Nat) : Codec Nat where
  put x acc := putLittleEndian n x acc
  get bytes pos :=
    if pos + n ≤ bytes.size then .ok (littleEndian n bytes pos, pos + n)
    else .error .unexpectedEnd

/-! ## Combining codecs -/

/-- The same bytes read as another type. -/
def imap (c : Codec α) (read : α → β) (write : β → α) : Codec β where
  put b acc := c.put (write b) acc
  get bytes pos := (c.get bytes pos).map fun (a, pos) => (read a, pos)

/-- The same bytes read as another type, unless the value means nothing there. -/
def refine (c : Codec α) (read : α → Except DecodeError β) (write : β → α) : Codec β where
  put b acc := c.put (write b) acc
  get bytes pos := do
    let (a, pos) ← c.get bytes pos
    let b ← read a
    return (b, pos)

/-- One value behind the other. -/
def pair (a : Codec α) (b : Codec β) : Codec (α × β) where
  put x acc := b.put x.2 (a.put x.1 acc)
  get bytes pos := do
    let (x, pos) ← a.get bytes pos
    let (y, pos) ← b.get bytes pos
    return ((x, y), pos)

def u8 : Codec UInt8 := (number 1).imap UInt8.ofNat UInt8.toNat
def u16 : Codec UInt16 := (number 2).imap UInt16.ofNat UInt16.toNat
def u32 : Codec UInt32 := (number 4).imap UInt32.ofNat UInt32.toNat
def u64 : Codec UInt64 := (number 8).imap UInt64.ofNat UInt64.toNat
def i64 : Codec Int64 := u64.imap UInt64.toInt64 Int64.toUInt64

/-- A truth value. -/
def bool : Codec Bool :=
  u8.refine
    (fun x => if x = 0 then .ok false else if x = 1 then .ok true else .error (.invalidBool x))
    (fun b => if b then 1 else 0)

/-- One of finitely many choices, by its place in the list of all. -/
def tag (count : Nat) : Codec (Fin count) :=
  u32.refine
    (fun x => if h : x.toNat < count then .ok ⟨x.toNat, h⟩ else .error (.invalidTag x count))
    (fun i => UInt32.ofNat i)

/-! ## Sequences -/

/-- Append the items of a list, without its length. -/
def putItems (c : Codec α) (items : List α) (acc : ByteArray) : ByteArray :=
  items.foldl (fun acc a => c.put a acc) acc

/-- Read `n` items. -/
def getItems (c : Codec α) : Nat → ByteArray → Nat → Except DecodeError (List α × Nat)
  | 0, _, pos => .ok ([], pos)
  | n + 1, bytes, pos => do
    let (a, pos) ← c.get bytes pos
    let (items, pos) ← getItems c n bytes pos
    return (a :: items, pos)

/-- Read `n` items into a vector. -/
def getVector (c : Codec α) : (n : Nat) → ByteArray → Nat → Except DecodeError (Vector α n × Nat)
  | 0, _, pos => .ok (#v[], pos)
  | n + 1, bytes, pos => do
    let (items, pos) ← getVector c n bytes pos
    let (a, pos) ← c.get bytes pos
    return (items.push a, pos)

/-- A fixed number of items. -/
def vector (n : Nat) (c : Codec α) : Codec (Vector α n) where
  put items acc := c.putItems items.toList acc
  get bytes pos := c.getVector n bytes pos

/-- At most `capacity` items behind their number. A surplus is noticed when the first item too
many has been read. -/
def list (capacity : Nat) (c : Codec α) : Codec (List α) where
  put items acc := c.putItems items ((number 8).put items.length acc)
  get bytes pos := do
    let (count, pos) ← (number 8).get bytes pos
    let (items, pos) ← c.getItems (min count (capacity + 1)) bytes pos
    if capacity < count then throw (.tooLong (capacity + 1) capacity)
    return (items, pos)

/-- Exactly `n` bytes. -/
def block (n : Nat) : Codec (Block n) where
  put x acc := acc ++ x.val
  get bytes pos :=
    let part := bytes.extract pos (pos + n)
    if h : part.size = n then .ok (⟨part, h⟩, pos + n) else .error .unexpectedEnd

/-- Any number of bytes behind their number. -/
def blob : Codec ByteArray where
  put x acc := (number 8).put x.size acc ++ x
  get bytes pos := do
    let (count, pos) ← (number 8).get bytes pos
    if pos + count ≤ bytes.size then return (bytes.extract pos (pos + count), pos + count)
    else throw .unexpectedEnd

end Codec
end Handheld
