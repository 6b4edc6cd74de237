import Mathlib
import Handheld.Proofs.Codec.Laws

/-!
# Lawful primitives

The codecs that the saved forms are put together from are lawful: words of every width, truth
values, choices, vectors, sequences behind their length, and regions of bytes. Words, truth values
and choices have a form for every value; a sequence must not be longer than its capacity, and the
length of a region must fit into the 64 bits that it is written in.
-/

namespace Handheld.Codec

variable {α : Type}

/-! ## Numbers -/

/-- The `n` low digits of a number to the base 256, lowest first. -/
def digits : Nat → Nat → List UInt8
  | 0, _ => []
  | n + 1, x => UInt8.ofNat x :: digits n (x / 256)

@[simp] theorem length_digits (n x : Nat) : (digits n x).length = n := by
  induction n generalizing x with
  | zero => rfl
  | succ n ih => rw [digits, List.length_cons, ih]

theorem toList_putLittleEndian (n x : Nat) (acc : ByteArray) :
    (putLittleEndian n x acc).data.toList = acc.data.toList ++ digits n x := by
  induction n generalizing x acc with
  | zero => simp [putLittleEndian, digits]
  | succ n ih => simp [putLittleEndian, digits, ih, ByteArray.data_push]

theorem littleEndian_lt (n : Nat) (bytes : ByteArray) (pos : Nat) :
    littleEndian n bytes pos < 256 ^ n := by
  induction n generalizing pos with
  | zero => exact Nat.one_pos
  | succ n ih =>
    have hbyte : (bytes[pos]?.getD 0).toNat < 256 := (bytes[pos]?.getD 0).toNat_lt
    have hrest := ih (pos + 1)
    rw [littleEndian, pow_succ]
    omega

/-- Digits that were written are read. -/
theorem littleEndian_digits {n x : Nat} {bytes : ByteArray} {pos : Nat} {tail : List UInt8}
    (hx : x < 256 ^ n) (h : Ahead bytes pos (digits n x ++ tail)) :
    littleEndian n bytes pos = x := by
  induction n generalizing x pos with
  | zero =>
    rw [pow_zero] at hx
    rw [littleEndian]
    omega
  | succ n ih =>
    rw [digits, List.cons_append] at h
    have hrest : littleEndian n bytes (pos + 1) = x / 256 := by
      refine ih (Nat.div_lt_of_lt_mul ?_) h.tail
      rwa [← pow_succ']
    have hlow : (UInt8.ofNat x).toNat = x % 256 := rfl
    rw [littleEndian, h.head, hrest, hlow]
    omega

/-- Digits that were read are what lies ahead. -/
theorem digits_littleEndian {n : Nat} {bytes : ByteArray} {pos : Nat} {ahead : List UInt8}
    (h : Ahead bytes pos ahead) (hn : n ≤ ahead.length) :
    digits n (littleEndian n bytes pos) = ahead.take n := by
  induction n generalizing pos ahead with
  | zero => rfl
  | succ n ih =>
    cases ahead with
    | nil => exact absurd hn (by simp)
    | cons byte ahead =>
      have hrest := ih h.tail (by simpa using hn)
      have hbyte : byte.toNat < 256 := byte.toNat_lt
      have hlow : UInt8.ofNat (byte.toNat + 256 * littleEndian n bytes (pos + 1)) = byte := by
        rw [← UInt8.toNat_inj, UInt8.toNat_ofNat']
        omega
      have hhigh : (byte.toNat + 256 * littleEndian n bytes (pos + 1)) / 256 =
          littleEndian n bytes (pos + 1) := by omega
      rw [littleEndian, h.head, digits, hlow, hhigh, hrest, List.take_succ_cons]

theorem reads_number (n : Nat) : Reads (number n).get (digits n) (· < 256 ^ n) where
  complete := by
    intro x bytes pos tail hx hahead
    have hsize := hahead.size
    rw [List.length_append, length_digits] at hsize
    show (if pos + n ≤ bytes.size then _ else _) = _
    rw [if_pos (by omega), littleEndian_digits hx hahead, length_digits]
  cut := by
    intro x bytes pos front missing _ hahead hmissing hcut
    have hsize := hahead.size
    have hlength := congrArg List.length hcut
    rw [length_digits, List.length_append] at hlength
    have hpos := List.length_pos_of_ne_nil hmissing
    show (if pos + n ≤ bytes.size then _ else _) = _
    rw [if_neg (by omega)]
  sound := by
    intro x bytes pos ahead pos' hahead hget
    have hsize := hahead.size
    have hif : (if pos + n ≤ bytes.size then Except.ok (littleEndian n bytes pos, pos + n)
      else Except.error DecodeError.unexpectedEnd) = .ok (x, pos') := hget
    by_cases hfits : pos + n ≤ bytes.size
    · rw [if_pos hfits] at hif
      obtain ⟨rfl, rfl⟩ := Prod.mk.inj (Except.ok.inj hif)
      have hdigits := digits_littleEndian hahead (n := n) (by omega)
      refine ⟨littleEndian_lt n bytes pos, by rw [length_digits], ahead.drop n, ?_⟩
      rw [hdigits, List.take_append_drop]
    · rw [if_neg hfits] at hif
      cases hif

theorem lawful_number (n : Nat) : Lawful (number n) (· < 256 ^ n) :=
  .of_form (toList_putLittleEndian n) (reads_number n)

/-! ## Words -/

theorem faithful_u8 : Faithful u8 :=
  ((lawful_number 1).imap fun _ hx => UInt8.toNat_ofNat_of_lt hx).all fun x =>
    ⟨x.toNat_lt, UInt8.ofNat_toNat⟩

theorem faithful_u16 : Faithful u16 :=
  ((lawful_number 2).imap fun _ hx => UInt16.toNat_ofNat_of_lt hx).all fun x =>
    ⟨x.toNat_lt, UInt16.ofNat_toNat⟩

theorem faithful_u32 : Faithful u32 :=
  ((lawful_number 4).imap fun _ hx => UInt32.toNat_ofNat_of_lt hx).all fun x =>
    ⟨x.toNat_lt, UInt32.ofNat_toNat⟩

theorem faithful_u64 : Faithful u64 :=
  ((lawful_number 8).imap fun _ hx => UInt64.toNat_ofNat_of_lt hx).all fun x =>
    ⟨x.toNat_lt, UInt64.ofNat_toNat⟩

theorem faithful_i64 : Faithful i64 :=
  faithful_u64.iso UInt64.toUInt64_toInt64 Int64.toInt64_toUInt64

/-- A truth value is one byte, 0 or 1, and no other byte is one. -/
theorem faithful_bool : Faithful bool := by
  refine (faithful_u8.refine fun x b _ hread => ?_).all fun b => ⟨trivial, ?_⟩
  · by_cases hzero : x = 0
    · rw [if_pos hzero] at hread
      rw [← Except.ok.inj hread, hzero]
      rfl
    · rw [if_neg hzero] at hread
      by_cases hone : x = 1
      · rw [if_pos hone] at hread
        rw [← Except.ok.inj hread, hone]
        rfl
      · rw [if_neg hone] at hread
        cases hread
  · cases b <;> rfl

/-- A choice is a number of 32 bits below the number of choices, and no other number is one. -/
theorem faithful_tag {count : Nat} (hcount : count ≤ 2 ^ 32) : Faithful (tag count) := by
  have hword : ∀ i : Fin count, (UInt32.ofNat i).toNat = i := fun i =>
    UInt32.toNat_ofNat_of_lt (i.isLt.trans_le hcount)
  refine (faithful_u32.refine fun x i _ hread => ?_).all fun i => ⟨trivial, ?_⟩
  · by_cases hx : x.toNat < count
    · rw [dif_pos hx] at hread
      rw [← Except.ok.inj hread]
      exact UInt32.ofNat_toNat
    · rw [dif_neg hx] at hread
      cases hread
  · have hi : (UInt32.ofNat i).toNat < count := by
      rw [hword i]
      exact i.isLt
    rw [dif_pos hi]
    exact congrArg Except.ok (Fin.ext (hword i))

/-! ## Sequences -/

section Sequences

variable {c : Codec α} {P : α → Prop}

/-- The items one behind the other. -/
def formItems (c : Codec α) (items : List α) : List UInt8 := items.flatMap c.form

theorem toList_putItems (h : Lawful c P) (items : List α) (acc : ByteArray) :
    (c.putItems items acc).data.toList = acc.data.toList ++ c.formItems items := by
  unfold putItems formItems
  induction items generalizing acc with
  | nil => simp
  | cons a items ih => rw [List.foldl_cons, ih, h.put, List.flatMap_cons, List.append_assoc]

/-- A given number of items. -/
theorem reads_items (h : Lawful c P) (n : Nat) :
    Reads (c.getItems n) c.formItems fun items => items.length = n ∧ ∀ a ∈ items, P a := by
  induction n with
  | zero =>
    have hnone : Reads (c.getItems 0) (fun _ => []) fun items => Except.ok [] = .ok items :=
      .check (.ok [])
    refine (hnone.of_form fun items hitems => ?_).of_iff fun items => ⟨?_, ?_⟩
    · rw [← Except.ok.inj hitems]
      rfl
    · intro hitems
      rw [← Except.ok.inj hitems]
      exact ⟨rfl, fun a ha => absurd ha List.not_mem_nil⟩
    · rintro ⟨hlength, -⟩
      rw [List.eq_nil_of_length_eq_zero hlength]
  | succ n ih =>
    have hrest : ∀ a, P a → Reads
        (fun bytes pos => c.getItems n bytes pos >>= fun p => pure (a :: p.1, p.2))
        (fun items => c.formItems items.tail)
        fun items => ∃ rest, (rest.length = n ∧ ∀ b ∈ rest, P b) ∧ a :: rest = items :=
      fun a _ => ih.map (a :: ·) fun rest _ => rfl
    have hboth : Reads (c.getItems (n + 1)) c.formItems fun items => ∃ a, P a ∧
        ∃ rest, (rest.length = n ∧ ∀ b ∈ rest, P b) ∧ a :: rest = items := by
      refine h.reads.bind hrest ?_
      rintro a items - ⟨rest, -, rfl⟩
      exact List.flatMap_cons
    refine hboth.of_iff fun items => ⟨?_, ?_⟩
    · rintro ⟨a, ha, rest, ⟨rfl, hall⟩, rfl⟩
      exact ⟨rfl, List.forall_mem_cons.mpr ⟨ha, hall⟩⟩
    · rintro ⟨hlength, hall⟩
      cases items with
      | nil => cases hlength
      | cons a rest =>
        obtain ⟨ha, hrest⟩ := List.forall_mem_cons.mp hall
        exact ⟨a, ha, rest, ⟨Nat.succ.inj hlength, hrest⟩, rfl⟩

/-- What was read, unless there was said to be a surplus. -/
def bounded (capacity count : Nat) (items : List α) : Except DecodeError (List α) :=
  if capacity < count then .error (.tooLong (capacity + 1) capacity) else .ok items

theorem bounded_eq_ok_iff {capacity count : Nat} {read items : List α} :
    bounded capacity count read = .ok items ↔ count ≤ capacity ∧ read = items := by
  unfold bounded
  by_cases hsurplus : capacity < count
  · rw [if_pos hsurplus]
    exact ⟨nofun, fun h => absurd h.1 (Nat.not_le.mpr hsurplus)⟩
  · rw [if_neg hsurplus]
    exact ⟨fun h => ⟨Nat.not_lt.mp hsurplus, Except.ok.inj h⟩, fun h => congrArg Except.ok h.2⟩

/-- The items are read before a surplus is noticed. -/
theorem get_list (capacity : Nat) (c : Codec α) :
    (c.list capacity).get = fun bytes pos => (number 8).get bytes pos >>= fun p =>
      c.getItems (min p.1 (capacity + 1)) bytes p.2 >>= fun q =>
        bounded capacity p.1 q.1 >>= fun items => pure (items, q.2) := by
  funext bytes pos
  refine bind_congr fun ⟨count, pos⟩ => bind_congr fun ⟨items, pos⟩ => ?_
  dsimp only [bounded]
  by_cases hsurplus : capacity < count
  · rw [if_pos hsurplus, if_pos hsurplus]
    rfl
  · rw [if_neg hsurplus, if_neg hsurplus]
    rfl

/-- At most `capacity` items behind their number. -/
theorem lawful_list {capacity : Nat} (hcapacity : capacity < 256 ^ 8) (h : Lawful c P) :
    Lawful (c.list capacity) fun items => items.length ≤ capacity ∧ ∀ a ∈ items, P a := by
  have hput : ∀ items acc, ((c.list capacity).put items acc).data.toList =
      acc.data.toList ++ ((number 8).form items.length ++ c.formItems items) := by
    intro items acc
    show (c.putItems items ((number 8).put items.length acc)).data.toList = _
    rw [toList_putItems h, (lawful_number 8).put, List.append_assoc]
  have hitems : ∀ count, count < 256 ^ 8 → Reads
      (fun bytes pos => c.getItems (min count (capacity + 1)) bytes pos >>= fun p =>
        bounded capacity count p.1 >>= fun items => pure (items, p.2))
      c.formItems fun items => items.length = count ∧ count ≤ capacity ∧ ∀ a ∈ items, P a := by
    intro count _
    refine ((reads_items h (min count (capacity + 1))).refine (bounded capacity count)
      fun read items _ hread => ?_).of_iff fun items => ⟨?_, ?_⟩
    · rw [(bounded_eq_ok_iff.mp hread).2]
    · rintro ⟨read, ⟨hlength, hall⟩, hread⟩
      obtain ⟨hcount, rfl⟩ := bounded_eq_ok_iff.mp hread
      exact ⟨by omega, hcount, hall⟩
    · rintro ⟨hlength, hcount, hall⟩
      exact ⟨items, ⟨by omega, hall⟩, bounded_eq_ok_iff.mpr ⟨hcount, rfl⟩⟩
  have hreads : Reads (c.list capacity).get
      (fun items => (number 8).form items.length ++ c.formItems items)
      fun items => ∃ count < 256 ^ 8,
        items.length = count ∧ count ≤ capacity ∧ ∀ a ∈ items, P a := by
    rw [get_list]
    refine (lawful_number 8).reads.bind hitems ?_
    rintro count items - ⟨rfl, -⟩
    rfl
  refine .of_form hput (hreads.of_iff fun items => ⟨?_, ?_⟩)
  · rintro ⟨count, -, rfl, hcount, hall⟩
    exact ⟨hcount, hall⟩
  · rintro ⟨hlength, hall⟩
    exact ⟨_, by omega, rfl, hlength, hall⟩

/-- A vector of items is one item behind the others. -/
theorem vector_succ (n : Nat) (c : Codec α) : c.vector (n + 1) =
    ((c.vector n).pair c).imap (fun x => x.1.push x.2) fun items => (items.pop, items.back) := by
  have hput : ∀ (items : Vector α (n + 1)) (acc : ByteArray),
      c.putItems items.toList acc = c.put items.back (c.putItems items.pop.toList acc) := by
    intro items acc
    have hlast : items.toList = items.pop.toList ++ [items.back] := by
      rw [← Vector.toList_push, Vector.push_pop_back]
    rw [hlast, putItems, List.foldl_append]
    rfl
  have hget : (c.vector (n + 1)).get = (((c.vector n).pair c).imap (fun x => x.1.push x.2)
      fun items => (items.pop, items.back)).get := by
    funext bytes pos
    show (c.getVector n bytes pos >>= fun p => c.get bytes p.2 >>= fun q =>
        pure (p.1.push q.1, q.2)) =
      (c.getVector n bytes pos >>= fun p => c.get bytes p.2 >>= fun q =>
        pure ((p.1, q.1), q.2)).map fun x => (x.1.1.push x.1.2, x.2)
    cases c.getVector n bytes pos with
    | error e => rfl
    | ok p =>
      show (c.get bytes p.2 >>= _) = (c.get bytes p.2 >>= _).map _
      cases c.get bytes p.2 <;> rfl
  show Codec.mk _ _ = Codec.mk _ _
  rw [Codec.mk.injEq]
  exact ⟨funext fun items => funext fun acc => hput items acc, hget⟩

/-- A fixed number of items. -/
theorem faithful_vector (h : Faithful c) (n : Nat) : Faithful (c.vector n) := by
  induction n with
  | zero =>
    have hnone : ∀ items : Vector α 0, items = #v[] := fun items => items.eq_empty
    have hreads : Reads (c.vector 0).get (fun _ => []) fun items => Except.ok #v[] = .ok items :=
      .check (.ok #v[])
    refine .of_form (fun items acc => ?_) (hreads.of_iff fun items => ?_)
    · rw [hnone items]
      exact (List.append_nil _).symm
    · rw [hnone items]
      exact iff_true_intro rfl
  | succ n ih =>
    rw [vector_succ]
    refine (ih.pair h).iso (fun x => ?_) fun items => items.push_pop_back
    simp [Vector.back]

end Sequences

/-! ## Regions -/

/-- A given number of bytes. -/
theorem reads_bytes (n : Nat) :
    Reads (fun bytes pos => if pos + n ≤ bytes.size then
        .ok (bytes.extract pos (pos + n), pos + n) else .error .unexpectedEnd)
      (fun region => region.data.toList) (fun region => region.size = n) where
  complete := by
    intro region bytes pos tail hregion hahead
    have hlength : region.data.toList.length = n := hregion
    have hsize := hahead.size
    rw [List.length_append, hlength] at hsize
    rw [if_pos (by omega), hlength]
    have hpart := hahead.extract n
    rw [List.take_left' hlength] at hpart
    rw [ByteArray.ext (Array.toList_inj.mp hpart)]
  cut := by
    intro region bytes pos front missing hregion hahead hmissing hcut
    have hlength : region.data.toList.length = n := hregion
    have hsize := hahead.size
    rw [hcut, List.length_append] at hlength
    have hpos := List.length_pos_of_ne_nil hmissing
    rw [if_neg (by omega)]
  sound := by
    intro region bytes pos ahead pos' hahead hget
    by_cases hfits : pos + n ≤ bytes.size
    · rw [if_pos hfits] at hget
      obtain ⟨rfl, rfl⟩ := Prod.mk.inj (Except.ok.inj hget)
      have hsize := hahead.size
      have hlength : (bytes.extract pos (pos + n)).data.toList.length = n := by
        rw [hahead.extract, List.length_take]
        omega
      refine ⟨hlength, by rw [hlength], ahead.drop n, ?_⟩
      rw [hahead.extract, List.take_append_drop]
    · rw [if_neg hfits] at hget
      cases hget

/-- A region taken as one of a certain size. -/
def sized (n : Nat) (region : ByteArray) : Except DecodeError (Block n) :=
  if h : region.size = n then .ok ⟨region, h⟩ else .error .unexpectedEnd

theorem sized_eq_ok_iff {n : Nat} {region : ByteArray} {b : Block n} :
    sized n region = .ok b ↔ region = b.val := by
  unfold sized
  by_cases h : region.size = n
  · rw [dif_pos h]
    exact ⟨fun heq => congrArg Subtype.val (Except.ok.inj heq), fun heq =>
      congrArg Except.ok (Subtype.ext heq)⟩
  · rw [dif_neg h]
    exact ⟨nofun, fun heq => absurd (heq ▸ b.property) h⟩

/-- Exactly as many bytes as the type says. -/
theorem faithful_block (n : Nat) : Faithful (block n) := by
  have hput : ∀ (b : Block n) (acc : ByteArray),
      ((block n).put b acc).data.toList = acc.data.toList ++ b.val.data.toList := by
    intro b acc
    show (acc ++ b.val).data.toList = _
    rw [ByteArray.data_append, Array.toList_append]
  have hreads : Reads
      (fun bytes pos => (if pos + n ≤ bytes.size then
        Except.ok (bytes.extract pos (pos + n), pos + n) else .error .unexpectedEnd) >>= fun p =>
          sized n p.1 >>= fun b => pure (b, p.2))
      (fun b => b.val.data.toList) fun b => ∃ region, region.size = n ∧ sized n region = .ok b :=
    (reads_bytes n).refine (sized n) fun region b _ hb => by rw [sized_eq_ok_iff.mp hb]
  refine .of_form hput ((hreads.of_iff fun b => ?_).congr fun {bytes pos ahead} hahead => ?_)
  · exact iff_true_intro ⟨b.val, b.property, sized_eq_ok_iff.mpr rfl⟩
  · have hsize := hahead.size
    have hpart : (bytes.extract pos (pos + n)).size = min n ahead.length := by
      show (bytes.extract pos (pos + n)).data.size = _
      rw [← Array.length_toList, hahead.extract, List.length_take]
    by_cases hfits : pos + n ≤ bytes.size
    · have hn : (bytes.extract pos (pos + n)).size = n := by omega
      rw [if_pos hfits]
      show (if h : (bytes.extract pos (pos + n)).size = n then _ else _) = _
      rw [dif_pos hn]
      show _ = (sized n _ >>= _)
      unfold sized
      rw [dif_pos hn]
      rfl
    · have hn : (bytes.extract pos (pos + n)).size ≠ n := by omega
      rw [if_neg hfits]
      show (if h : (bytes.extract pos (pos + n)).size = n then _ else _) = _
      rw [dif_neg hn]
      rfl

/-- Any bytes behind their number. -/
theorem lawful_blob : Lawful blob fun region => region.size < 256 ^ 8 := by
  have hput : ∀ region acc, (blob.put region acc).data.toList =
      acc.data.toList ++ ((number 8).form region.size ++ region.data.toList) := by
    intro region acc
    show ((number 8).put region.size acc ++ region).data.toList = _
    rw [ByteArray.data_append, Array.toList_append, (lawful_number 8).put, List.append_assoc]
  have hreads : Reads blob.get (fun region => (number 8).form region.size ++ region.data.toList)
      fun region => ∃ count < 256 ^ 8, region.size = count := by
    refine (lawful_number 8).reads.bind (fun count _ => reads_bytes count) ?_
    rintro count region - rfl
    rfl
  exact .of_form hput (hreads.of_iff fun region => by simp)


end Handheld.Codec
