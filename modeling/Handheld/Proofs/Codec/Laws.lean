import Mathlib
import Handheld.Codec

/-!
# Laws of the codecs

A codec is lawful on the values of a kind if its writer appends the form of a value to the bytes so
far, and its reader takes exactly the forms of values of that kind: where one lies ahead it is read
whatever comes behind it, where the bytes end inside one they are said to end, and nothing else is
read. Each way of combining codecs keeps these laws.

* `Reads` are the laws of a reader, and `Reads.bind` combines two, one behind the other;
* `Lawful` are the laws of a codec, and a `Faithful` codec is lawful on all values of its type;
* `Exact` is what they come to for whole byte strings.
-/

namespace Handheld.Codec

variable {α β : Type}

/-! ## Positions -/

/-- The bytes from a position on. -/
def Ahead (bytes : ByteArray) (pos : Nat) (ahead : List UInt8) : Prop :=
  ∃ before : List UInt8, before.length = pos ∧ bytes.data.toList = before ++ ahead

namespace Ahead

variable {bytes : ByteArray} {pos : Nat} {front ahead : List UInt8}

theorem start (bytes : ByteArray) : Ahead bytes 0 bytes.data.toList := ⟨[], rfl, rfl⟩

theorem size (h : Ahead bytes pos ahead) : bytes.size = pos + ahead.length := by
  obtain ⟨before, rfl, hbytes⟩ := h
  show bytes.data.size = _
  rw [← Array.length_toList, hbytes, List.length_append]

theorem skip (h : Ahead bytes pos (front ++ ahead)) : Ahead bytes (pos + front.length) ahead := by
  obtain ⟨before, rfl, hbytes⟩ := h
  exact ⟨before ++ front, List.length_append, by rw [hbytes, List.append_assoc]⟩

theorem tail {byte : UInt8} (h : Ahead bytes pos (byte :: ahead)) :
    Ahead bytes (pos + 1) ahead := @skip bytes pos [byte] ahead h

theorem head {byte : UInt8} (h : Ahead bytes pos (byte :: ahead)) :
    bytes[pos]?.getD 0 = byte := by
  have hsize := h.size
  obtain ⟨before, rfl, hbytes⟩ := h
  have hlt : before.length < bytes.size := by
    rw [hsize, List.length_cons]
    omega
  rw [getElem?_pos bytes before.length hlt, Option.getD_some]
  show bytes.data[before.length] = byte
  have hlt' : before.length < bytes.data.toList.length := by rwa [Array.length_toList]
  have hlist : bytes.data.toList[before.length] = byte := by
    simp [hbytes]
  rwa [Array.getElem_toList] at hlist

theorem extract (h : Ahead bytes pos ahead) (n : Nat) :
    (bytes.extract pos (pos + n)).data.toList = ahead.take n := by
  obtain ⟨before, rfl, hbytes⟩ := h
  rw [ByteArray.data_extract, Array.toList_extract, hbytes]
  simp

end Ahead

/-! ## Readers -/

/-- A reader of a type. -/
abbrev Reader (α : Type) := ByteArray → Nat → Except DecodeError (α × Nat)

/-- The reader takes the forms of the valid values. -/
structure Reads (get : Reader α) (form : α → List UInt8) (Valid : α → Prop) : Prop where
  complete : ∀ {a bytes pos tail}, Valid a → Ahead bytes pos (form a ++ tail) →
    get bytes pos = .ok (a, pos + (form a).length)
  cut : ∀ {a bytes pos front missing}, Valid a → Ahead bytes pos front → missing ≠ [] →
    form a = front ++ missing → get bytes pos = .error .unexpectedEnd
  sound : ∀ {a bytes pos ahead pos'}, Ahead bytes pos ahead → get bytes pos = .ok (a, pos') →
    Valid a ∧ pos' = pos + (form a).length ∧ ∃ tail, ahead = form a ++ tail

namespace Reads

theorem of_iff {get : Reader α} {form : α → List UInt8} {P Q : α → Prop}
    (h : Reads get form P) (hiff : ∀ a, P a ↔ Q a) : Reads get form Q := by
  have heq : P = Q := funext fun a => propext (hiff a)
  rwa [heq] at h

theorem of_form {get : Reader α} {f form : α → List UInt8} {P : α → Prop} (h : Reads get f P)
    (hform : ∀ a, P a → form a = f a) : Reads get form P where
  complete := by
    intro a bytes pos tail ha hahead
    rw [hform a ha] at hahead ⊢
    exact h.complete ha hahead
  cut := by
    intro a bytes pos front missing ha hahead hmissing hcut
    rw [hform a ha] at hcut
    exact h.cut ha hahead hmissing hcut
  sound := by
    intro a bytes pos ahead pos' hahead hget
    obtain ⟨ha, hrest⟩ := h.sound hahead hget
    rw [hform a ha]
    exact ⟨ha, hrest⟩

/-- Only positions inside the bytes and at their end count. -/
theorem congr {get get' : Reader α} {form : α → List UInt8} {P : α → Prop}
    (h : Reads get form P)
    (heq : ∀ {bytes pos ahead}, Ahead bytes pos ahead → get' bytes pos = get bytes pos) :
    Reads get' form P where
  complete ha hahead := (heq hahead).trans (h.complete ha hahead)
  cut ha hahead hmissing hcut := (heq hahead).trans (h.cut ha hahead hmissing hcut)
  sound hahead hget := h.sound hahead ((heq hahead).symm.trans hget)

/-- Nothing is read, and the value is already there or is refused. -/
theorem check (value : Except DecodeError α) :
    Reads (fun _ pos => value >>= fun a => pure (a, pos)) (fun _ => []) (value = .ok ·) where
  complete := by
    rintro a bytes pos tail rfl -
    rfl
  cut := by
    intro a bytes pos front missing _ _ hmissing hform
    exact absurd (List.append_eq_nil_iff.mp hform.symm).2 hmissing
  sound := by
    intro a bytes pos ahead pos' _ hget
    cases value with
    | error e => cases hget
    | ok value =>
      obtain ⟨rfl, rfl⟩ := Prod.mk.inj (Except.ok.inj hget)
      exact ⟨rfl, rfl, ahead, rfl⟩

/-- One reader behind another one, which it may go by. -/
theorem bind {first : Reader α} {second : α → Reader β} {f : α → List UInt8}
    {g : α → β → List UInt8} {form : β → List UInt8} {P : α → Prop} {Q : α → β → Prop}
    (hfirst : Reads first f P) (hsecond : ∀ a, P a → Reads (second a) (g a) (Q a))
    (hform : ∀ a b, P a → Q a b → form b = f a ++ g a b) :
    Reads (fun bytes pos => first bytes pos >>= fun p => second p.1 bytes p.2) form
      (fun b => ∃ a, P a ∧ Q a b) where
  complete := by
    rintro b bytes pos tail ⟨a, ha, hb⟩ hahead
    rw [hform a b ha hb, List.append_assoc] at hahead
    rw [hfirst.complete ha hahead, hform a b ha hb, List.length_append, ← Nat.add_assoc]
    exact (hsecond a ha).complete hb hahead.skip
  cut := by
    rintro b bytes pos front missing ⟨a, ha, hb⟩ hahead hmissing hcut
    rw [hform a b ha hb] at hcut
    rcases List.append_eq_append_iff.mp hcut with ⟨rest, rfl, hrest⟩ | ⟨lost, hlost, rfl⟩
    · -- The first value is whole, and the second one is cut.
      rw [hfirst.complete ha hahead]
      exact (hsecond a ha).cut hb hahead.skip hmissing hrest
    · by_cases hnone : lost = []
      · subst hnone
        rw [List.append_nil] at hlost
        have hwhole : Ahead bytes pos (f a ++ []) := by rwa [List.append_nil, hlost]
        rw [hfirst.complete ha hwhole]
        exact (hsecond a ha).cut hb hwhole.skip hmissing rfl
      · rw [hfirst.cut ha hahead hnone hlost]
        rfl
  sound := by
    intro b bytes pos ahead pos' hahead hget
    cases hread : first bytes pos with
    | error e =>
      rw [hread] at hget
      cases hget
    | ok read =>
      obtain ⟨a, mid⟩ := read
      rw [hread] at hget
      obtain ⟨ha, rfl, rest, rfl⟩ := hfirst.sound hahead hread
      obtain ⟨hb, rfl, tail, rfl⟩ := (hsecond a ha).sound hahead.skip hget
      rw [hform a b ha hb, List.length_append]
      exact ⟨⟨a, ha, hb⟩, Nat.add_assoc _ _ _, tail, (List.append_assoc _ _ _).symm⟩

/-- What was read is taken as another value, or refused. -/
theorem refine {first : Reader α} {f : α → List UInt8} {form : β → List UInt8} {P : α → Prop}
    (hfirst : Reads first f P) (read : α → Except DecodeError β)
    (hform : ∀ a b, P a → read a = .ok b → form b = f a) :
    Reads (fun bytes pos => first bytes pos >>= fun p => read p.1 >>= fun b => pure (b, p.2)) form
      (fun b => ∃ a, P a ∧ read a = .ok b) :=
  hfirst.bind (fun a _ => check (read a)) fun a b ha hb => by
    rw [List.append_nil]
    exact hform a b ha hb

/-- What was read is taken as another value. -/
theorem map {first : Reader α} {f : α → List UInt8} {form : β → List UInt8} {P : α → Prop}
    (hfirst : Reads first f P) (k : α → β) (hform : ∀ a, P a → form (k a) = f a) :
    Reads (fun bytes pos => first bytes pos >>= fun p => pure (k p.1, p.2)) form
      (fun b => ∃ a, P a ∧ k a = b) := by
  refine (hfirst.refine (fun a => .ok (k a)) fun a b ha hb => ?_).of_iff fun b => ?_
  · rw [← Except.ok.inj hb]
    exact hform a ha
  · refine exists_congr fun a => and_congr_right fun _ => ?_
    exact ⟨Except.ok.inj, congrArg Except.ok⟩

end Reads

/-! ## Lawful codecs -/

/-- The bytes that a value is written as. -/
def form (c : Codec α) (a : α) : List UInt8 := (c.encode a).data.toList

/-- The writer appends, and the reader takes the forms of the valid values. -/
structure Lawful (c : Codec α) (Valid : α → Prop) : Prop where
  put : ∀ a acc, (c.put a acc).data.toList = acc.data.toList ++ c.form a
  reads : Reads c.get c.form Valid

theorem put_imap (c : Codec α) (read : α → β) (write : β → α) (b : β) (acc : ByteArray) :
    (c.imap read write).put b acc = c.put (write b) acc := rfl

theorem put_pair (c : Codec α) (d : Codec β) (x : α × β) (acc : ByteArray) :
    (c.pair d).put x acc = d.put x.2 (c.put x.1 acc) := rfl

/-- A writer that appends certain bytes has these as its forms. -/
theorem form_eq {c : Codec α} {f : α → List UInt8}
    (h : ∀ a acc, (c.put a acc).data.toList = acc.data.toList ++ f a) : c.form = f := by
  funext a
  exact h a ByteArray.empty

namespace Lawful

variable {c : Codec α} {P Q : α → Prop}

theorem of_form {f : α → List UInt8}
    (hput : ∀ a acc, (c.put a acc).data.toList = acc.data.toList ++ f a)
    (hreads : Reads c.get f P) : Lawful c P := by
  refine ⟨fun a acc => ?_, ?_⟩
  · rw [form_eq hput]
    exact hput a acc
  · rw [form_eq hput]
    exact hreads

theorem of_iff (h : Lawful c P) (hiff : ∀ a, P a ↔ Q a) : Lawful c Q :=
  ⟨h.put, h.reads.of_iff hiff⟩

/-! ### Whole byte strings -/

/-- A value that was written is read, whatever follows. -/
theorem roundTrip (h : Lawful c P) {a : α} (ha : P a) (tail : ByteArray) :
    c.decode (c.encode a ++ tail) = .ok a := by
  have hahead : Ahead (c.encode a ++ tail) 0 (c.form a ++ tail.data.toList) := by
    refine ⟨[], rfl, ?_⟩
    rw [ByteArray.data_append, Array.toList_append]
    rfl
  show (c.get _ 0).map (·.1) = _
  rw [h.reads.complete ha hahead]
  rfl

/-- A part of what was written ends too early. -/
theorem cut (h : Lawful c P) {a : α} (ha : P a) {front missing : ByteArray}
    (hmissing : missing.size ≠ 0) (hcut : c.encode a = front ++ missing) :
    c.decode front = .error .unexpectedEnd := by
  have hform : c.form a = front.data.toList ++ missing.data.toList := by
    unfold form
    rw [hcut, ByteArray.data_append, Array.toList_append]
  have hlost : missing.data.toList ≠ [] := by
    intro hnil
    apply hmissing
    show missing.data.size = 0
    rw [← Array.length_toList, hnil]
    rfl
  show (c.get _ 0).map (·.1) = _
  rw [h.reads.cut ha (.start front) hlost hform]
  rfl

/-- What is read was written so. -/
theorem canonical (h : Lawful c P) {a : α} {bytes : ByteArray} (hread : c.decode bytes = .ok a) :
    P a ∧ ∃ tail, bytes = c.encode a ++ tail := by
  have hmap : (c.get bytes 0).map (·.1) = .ok a := hread
  cases hget : c.get bytes 0 with
  | error e =>
    rw [hget] at hmap
    cases hmap
  | ok read =>
    obtain ⟨a', pos⟩ := read
    rw [hget] at hmap
    obtain rfl : a' = a := Except.ok.inj hmap
    obtain ⟨ha, -, tail, htail⟩ := h.reads.sound (.start bytes) hget
    refine ⟨ha, ⟨tail.toArray⟩, ?_⟩
    apply ByteArray.ext
    apply Array.toList_inj.mp
    rw [htail, ByteArray.data_append, Array.toList_append]
    rfl

end Lawful

/-- The saved forms of the values are exact: each is read back whatever follows it, none of them is
a part of the form of a value, and nothing else is read. -/
structure Exact (c : Codec α) (Value : α → Prop) : Prop where
  roundTrip : ∀ a, Value a → ∀ tail, c.load (c.encode a ++ tail) false = .ok a
  cut : ∀ a, Value a → ∀ front missing, missing.size ≠ 0 → c.encode a = front ++ missing →
    c.load front false = .error (.malformed .unexpectedEnd)
  canonical : ∀ bytes a, c.load bytes false = .ok a → ∃ tail, bytes = c.encode a ++ tail

namespace Lawful

variable {c : Codec α} {P Q : α → Prop}

/-- A lawful codec has exact saved forms. -/
theorem exact (h : Lawful c P) (hvalid : ∀ a, Q a → P a) : Exact c Q where
  roundTrip a ha tail := by
    rw [load, if_neg Bool.false_ne_true, h.roundTrip (hvalid a ha)]
  cut a ha front missing hmissing hcut := by
    rw [load, if_neg Bool.false_ne_true, h.cut (hvalid a ha) hmissing hcut]
  canonical bytes a hload := by
    rw [load, if_neg Bool.false_ne_true] at hload
    cases hdecode : c.decode bytes with
    | error cause =>
      rw [hdecode] at hload
      cases hload
    | ok read =>
      rw [hdecode] at hload
      obtain rfl := Except.ok.inj hload
      exact (h.canonical hdecode).2

/-! ### Combining codecs -/

/-- The same bytes read as another type. -/
theorem imap (h : Lawful c P) {read : α → β} {write : β → α}
    (hread : ∀ a, P a → write (read a) = a) :
    Lawful (c.imap read write) fun b => P (write b) ∧ read (write b) = b := by
  have hget : (c.imap read write).get = fun bytes pos =>
      c.get bytes pos >>= fun p => pure (read p.1, p.2) := by
    funext bytes pos
    show (c.get bytes pos).map _ = _
    cases c.get bytes pos <;> rfl
  have hreads : Reads (c.imap read write).get (fun b => c.form (write b))
      fun b => ∃ a, P a ∧ read a = b := by
    rw [hget]
    exact h.reads.map read fun a ha => by rw [hread a ha]
  refine of_form (fun b acc => h.put (write b) acc) (hreads.of_iff fun b => ⟨?_, ?_⟩)
  · rintro ⟨a, ha, rfl⟩
    rw [hread a ha]
    exact ⟨ha, rfl⟩
  · rintro ⟨hb, heq⟩
    exact ⟨write b, hb, heq⟩

/-- The same bytes read as a type that has a value for each. -/
theorem iso (h : Lawful c P) {read : α → β} {write : β → α} (hread : ∀ a, write (read a) = a)
    (hwrite : ∀ b, read (write b) = b) : Lawful (c.imap read write) fun b => P (write b) :=
  (h.imap fun a _ => hread a).of_iff fun b => and_iff_left (hwrite b)

/-- The same bytes read as another type, unless they are refused. -/
theorem refine (h : Lawful c P) {read : α → Except DecodeError β} {write : β → α}
    (hread : ∀ a b, P a → read a = .ok b → write b = a) :
    Lawful (c.refine read write) fun b => P (write b) ∧ read (write b) = .ok b := by
  have hreads : Reads (c.refine read write).get (fun b => c.form (write b))
      fun b => ∃ a, P a ∧ read a = .ok b :=
    h.reads.refine read fun a b ha hab => by rw [hread a b ha hab]
  refine of_form (fun b acc => h.put (write b) acc) (hreads.of_iff fun b => ⟨?_, ?_⟩)
  · rintro ⟨a, ha, hab⟩
    rw [hread a b ha hab]
    exact ⟨ha, hab⟩
  · rintro ⟨hb, heq⟩
    exact ⟨write b, hb, heq⟩

theorem toList_put_pair {d : Codec β} {R : β → Prop} (hc : Lawful c P) (hd : Lawful d R) (x : α × β)
    (acc : ByteArray) : ((c.pair d).put x acc).data.toList =
      acc.data.toList ++ (c.form x.1 ++ d.form x.2) := by
  rw [put_pair, hd.put, hc.put, List.append_assoc]

/-- One value behind the other. -/
theorem pair {d : Codec β} {R : β → Prop} (hc : Lawful c P) (hd : Lawful d R) :
    Lawful (c.pair d) fun x => P x.1 ∧ R x.2 := by
  have hsecond : ∀ a, P a → Reads
      (fun bytes pos => d.get bytes pos >>= fun p => pure ((a, p.1), p.2))
      (fun x => d.form x.2) fun x => ∃ b, R b ∧ (a, b) = x :=
    fun a _ => hd.reads.map (fun b => (a, b)) fun b _ => rfl
  have hreads : Reads (c.pair d).get (fun x => c.form x.1 ++ d.form x.2)
      fun x => ∃ a, P a ∧ ∃ b, R b ∧ (a, b) = x := by
    refine hc.reads.bind hsecond ?_
    rintro a x - ⟨b, -, rfl⟩
    rfl
  refine of_form (hc.toList_put_pair hd) (hreads.of_iff fun x => ⟨?_, ?_⟩)
  · rintro ⟨a, ha, b, hb, rfl⟩
    exact ⟨ha, hb⟩
  · rintro ⟨ha, hb⟩
    exact ⟨x.1, ha, x.2, hb, rfl⟩

end Lawful

/-! ## Faithful codecs -/

/-- The codec is lawful on all values of its type. -/
abbrev Faithful (c : Codec α) : Prop := Lawful c fun _ => True

/-- A codec of values that are all valid. -/
theorem Lawful.all {c : Codec α} {P : α → Prop} (h : Lawful c P) (hP : ∀ a, P a) : Faithful c :=
  h.of_iff fun a => iff_true_intro (hP a)

namespace Faithful

variable {c : Codec α} {d : Codec β}

theorem pair (hc : Faithful c) (hd : Faithful d) : Faithful (c.pair d) :=
  (Lawful.pair hc hd).all fun _ => ⟨trivial, trivial⟩

theorem iso (h : Faithful c) {read : α → β} {write : β → α} (hread : ∀ a, write (read a) = a)
    (hwrite : ∀ b, read (write b) = b) : Faithful (c.imap read write) :=
  (Lawful.iso h hread hwrite).all fun _ => trivial

end Faithful

end Handheld.Codec
