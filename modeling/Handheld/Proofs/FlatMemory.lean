import Mathlib
import Handheld.FlatMemory
import Handheld.Proofs.Word

/-!
# Values of a flat memory

Reading a value gives what was stored there last: a store changes the unit of its width that it
goes to and no other. The memory repeats itself every 64 KiB, so units are told apart by where they
lie in it, and a block of words that is shorter than the memory never meets itself.
-/

namespace Handheld

/-! ## Widths -/

namespace Width

theorem bytes_eq_pow (w : Width) : ∃ k ≤ 2, w.bytes.toNat = 2 ^ k := by
  cases w with
  | byte => exact ⟨0, by decide, rfl⟩
  | half => exact ⟨1, by decide, rfl⟩
  | word => exact ⟨2, by decide, rfl⟩

theorem toNat_bytes (w : Width) :
    w.bytes.toNat = 1 ∨ w.bytes.toNat = 2 ∨ w.bytes.toNat = 4 := by
  cases w <;> decide

theorem toNat_truncate (w : Width) (value : UInt32) :
    (w.truncate value).toNat = value.toNat % 256 ^ w.bytes.toNat := by
  cases w with
  | byte =>
    show (value &&& 0xFF).toNat = _
    rw [UInt32.toNat_and]
    exact Nat.and_two_pow_sub_one_eq_mod value.toNat 8
  | half =>
    show (value &&& 0xFFFF).toNat = _
    rw [UInt32.toNat_and]
    exact Nat.and_two_pow_sub_one_eq_mod value.toNat 16
  | word => exact (Nat.mod_eq_of_lt value.toNat_lt).symm

/-- What fits into a width is carried as it is. -/
theorem truncate_of_lt {w : Width} {value : UInt32} (h : value.toNat < 256 ^ w.bytes.toNat) :
    w.truncate value = value := by
  rw [← UInt32.toNat_inj, toNat_truncate, Nat.mod_eq_of_lt h]

theorem truncate_truncate (w : Width) (value : UInt32) :
    w.truncate (w.truncate value) = w.truncate value := by
  apply truncate_of_lt
  rw [toNat_truncate]
  exact Nat.mod_lt _ (by positivity)

end Width

/-! ## Bytes -/

namespace Bytes

theorem byteAt_setByte (bytes : ByteArray) (i j : Nat) (value : UInt8) :
    byteAt (setByte bytes i value) j =
      if j = i ∧ i < bytes.size then value else byteAt bytes j := by
  by_cases hi : i < bytes.size
  · have hset : setByte bytes i value = bytes.set i value hi := dif_pos hi
    have hsize : (bytes.set i value hi).size = bytes.size := Array.size_set ..
    rw [hset]
    unfold byteAt
    by_cases hj : j < bytes.size
    · have hj' : j < (bytes.set i value hi).size := hsize ▸ hj
      have hdata : j < (bytes.data.set i value hi).size := by rwa [Array.size_set]
      rw [dif_pos hj', dif_pos hj]
      show (bytes.data.set i value hi)[j] = _
      rw [Array.getElem_set]
      by_cases hji : j = i
      · rw [if_pos hji.symm, if_pos ⟨hji, hi⟩]
      · rw [if_neg (Ne.symm hji), if_neg fun h => hji h.1]
        rfl
    · rw [dif_neg (hsize ▸ hj), dif_neg hj, if_neg]
      rintro ⟨rfl, -⟩
      exact hj hi
  · have hset : setByte bytes i value = bytes := dif_neg hi
    rw [hset, if_neg fun h => hi h.2]

/-- A store leaves the bytes outside its range alone. -/
theorem byteAt_setValue (bytes : ByteArray) (n i j : Nat) (value : UInt32)
    (h : j < i ∨ i + n ≤ j) : byteAt (setValue bytes n i value) j = byteAt bytes j := by
  induction n generalizing bytes i value with
  | zero => rfl
  | succ n ih =>
    rw [setValue, ih _ _ _ (by omega), byteAt_setByte, if_neg (by omega)]

/-- A value depends on the bytes of its range alone. -/
theorem valueAt_congr {a b : ByteArray} {n i : Nat}
    (h : ∀ j, i ≤ j → j < i + n → byteAt a j = byteAt b j) : valueAt a n i = valueAt b n i := by
  induction n generalizing i with
  | zero => rfl
  | succ n ih =>
    rw [valueAt, valueAt, h i (by omega) (by omega), ih fun j hj hj' => h j (by omega) (by omega)]

/-- The bytes of a value, lowest first, as digits to the base 256. -/
theorem toNat_valueAt_succ (bytes : ByteArray) (n i : Nat)
    (h : (valueAt bytes n (i + 1)).toNat < 2 ^ 24) :
    (valueAt bytes (n + 1) i).toNat =
      (byteAt bytes i).toNat + 256 * (valueAt bytes n (i + 1)).toNat := by
  have hbyte : (byteAt bytes i).toNat < 2 ^ 8 := (byteAt bytes i).toNat_lt
  have hshift : (valueAt bytes n (i + 1) <<< (8 : UInt32)).toNat =
      (valueAt bytes n (i + 1)).toNat <<< 8 := by
    have height : (8 : UInt32).toNat % 32 = 8 := rfl
    rw [UInt32.toNat_shiftLeft, height, Nat.shiftLeft_eq]
    omega
  rw [valueAt, UInt32.toNat_or, UInt8.toNat_toUInt32, hshift, Nat.lor_comm,
    ← Nat.shiftLeft_add_eq_or_of_lt hbyte, Nat.shiftLeft_eq]
  omega

/-- What was stored is read back, cut to the width of the store. -/
theorem toNat_valueAt_setValue (bytes : ByteArray) (n i : Nat) (value : UInt32) (hn : n ≤ 4)
    (hi : i + n ≤ bytes.size) :
    (valueAt (setValue bytes n i value) n i).toNat = value.toNat % 256 ^ n := by
  induction n generalizing bytes i value with
  | zero => simp [valueAt, Nat.mod_one]
  | succ n ih =>
    have hrest : (valueAt (setValue bytes (n + 1) i value) n (i + 1)).toNat =
        value.toNat / 256 % 256 ^ n := by
      rw [setValue, ih _ _ _ (by omega) (by rw [size_setByte]; omega)]
      have hshift : (value >>> (8 : UInt32)).toNat = value.toNat / 256 := by
        rw [UInt32.toNat_shiftRight, Nat.shiftRight_eq_div_pow]
        rfl
      rw [hshift]
    have hbyte : byteAt (setValue bytes (n + 1) i value) i = value.toUInt8 := by
      rw [setValue, byteAt_setValue _ _ _ _ _ (by omega), byteAt_setByte,
        if_pos ⟨rfl, by omega⟩]
    have hpow : 256 ^ n ≤ 2 ^ 24 := by
      calc 256 ^ n ≤ 256 ^ 3 := Nat.pow_le_pow_right (by norm_num) (by omega)
        _ = 2 ^ 24 := by norm_num
    have hlt : value.toNat / 256 % 256 ^ n < 256 ^ n := Nat.mod_lt _ (by positivity)
    rw [toNat_valueAt_succ _ _ _ (by omega), hrest, hbyte, pow_succ', Nat.mod_mul]
    rfl

/-- A value fits into the bytes that it is read from. -/
theorem toNat_valueAt_lt (bytes : ByteArray) {n : Nat} (i : Nat) (hn : n ≤ 4) :
    (valueAt bytes n i).toNat < 256 ^ n := by
  induction n generalizing i with
  | zero => exact Nat.one_pos
  | succ n ih =>
    have hrest := ih (i + 1) (by omega)
    have hbyte : (byteAt bytes i).toNat < 256 := (byteAt bytes i).toNat_lt
    have hpow : 256 ^ n ≤ 256 ^ 3 := Nat.pow_le_pow_right (by norm_num) (by omega)
    rw [toNat_valueAt_succ bytes n i (by omega), pow_succ']
    omega

theorem toNat_valueAt_one (bytes : ByteArray) (i : Nat) :
    (valueAt bytes 1 i).toNat = (byteAt bytes i).toNat := by
  have hnone : (valueAt bytes 0 (i + 1)).toNat = 0 := rfl
  rw [toNat_valueAt_succ bytes 0 i (by rw [hnone]; norm_num), hnone]
  rfl

/-- A value is stored with its lowest byte first. -/
theorem toNat_byteAt_setValue (bytes : ByteArray) (n i j : Nat) (value : UInt32)
    (hi : i + n ≤ bytes.size) (hlow : i ≤ j) (hhigh : j < i + n) :
    (byteAt (setValue bytes n i value) j).toNat = value.toNat / 256 ^ (j - i) % 256 := by
  induction n generalizing bytes i value with
  | zero => omega
  | succ n ih =>
    by_cases hfirst : j = i
    · subst hfirst
      rw [setValue, byteAt_setValue _ _ _ _ _ (by omega), byteAt_setByte,
        if_pos ⟨rfl, by omega⟩, Nat.sub_self, pow_zero, Nat.div_one]
      rfl
    · have hshift : (value >>> (8 : UInt32)).toNat = value.toNat / 256 := by
        rw [UInt32.toNat_shiftRight, Nat.shiftRight_eq_div_pow]
        rfl
      have hlater : j - i = (j - (i + 1)) + 1 := by omega
      rw [setValue, ih _ _ _ (by rw [size_setByte]; omega) (by omega) (by omega), hshift, hlater,
        pow_succ', Nat.div_div_eq_div_mul]

end Bytes

/-! ## Units -/

namespace FlatMemory

/-- A unit starts at a multiple of its width. -/
theorem toNat_offset (w : Width) (address : UInt32) :
    offset w address = address.toNat % 0x10000 / w.bytes.toNat * w.bytes.toNat := by
  obtain ⟨k, -, hbytes⟩ := w.bytes_eq_pow
  have hmask : (0xFFFF : UInt32).toNat = 2 ^ 16 - 1 := rfl
  unfold offset
  rw [Address.toNat_alignDown _ hbytes, UInt32.toNat_and, hmask, Nat.and_two_pow_sub_one_eq_mod,
    hbytes]

/-- A unit ends within the memory. -/
theorem offset_add_le (w : Width) (address : UInt32) :
    offset w address + w.bytes.toNat ≤ 0x10000 := by
  rw [toNat_offset]
  rcases w.toNat_bytes with h | h | h <;> rw [h] <;> omega

/-- Units of one width are the same or apart. -/
theorem offset_apart (w : Width) {address other : UInt32} (h : offset w other ≠ offset w address) :
    offset w other + w.bytes.toNat ≤ offset w address ∨
      offset w address + w.bytes.toNat ≤ offset w other := by
  rw [toNat_offset, toNat_offset] at h ⊢
  rcases w.toNat_bytes with hw | hw | hw <;> rw [hw] at h ⊢ <;> omega

/-- The units of a block of words of at most 64 KiB lie apart from each other. -/
theorem offset_inj (w : Width) (address : UInt32) {i j : Nat} (hi : i < 0x4000) (hj : j < 0x4000)
    (h : offset w (address + 4 * UInt32.ofNat i) = offset w (address + 4 * UInt32.ofNat j)) :
    i = j := by
  have hplace : ∀ k : Nat, k < 0x4000 →
      (address + 4 * UInt32.ofNat k).toNat % 0x10000 = (address.toNat + 4 * k) % 0x10000 := by
    intro k hk
    have hk' : (UInt32.ofNat k).toNat = k := by
      rw [UInt32.toNat_ofNat']
      exact Nat.mod_eq_of_lt (by omega)
    have hfour : (4 : UInt32).toNat = 4 := rfl
    rw [UInt32.toNat_add, UInt32.toNat_mul, hk', hfour]
    omega
  rw [toNat_offset, toNat_offset, hplace i hi, hplace j hj] at h
  rcases w.toNat_bytes with hw | hw | hw <;> rw [hw] at h <;> omega

theorem bytes_record (m : FlatMemory) (request : BusRequest) :
    (m.record request).bytes = m.bytes := rfl

/-- Keeping a request does not change what is read. -/
theorem get_record (m : FlatMemory) (request : BusRequest) (w : Width) (address : UInt32) :
    (m.record request).get w address = m.get w address := by
  rw [get, get, bytes_record]

theorem get_lt (m : FlatMemory) (w : Width) (address : UInt32) :
    (m.get w address).toNat < 256 ^ w.bytes.toNat :=
  Bytes.toNat_valueAt_lt _ _ (by cases w <;> decide)

/-- What is stored is read back, cut to the width, and every other unit stays as it is. -/
theorem get_set (m : FlatMemory) (w : Width) (address other value : UInt32) :
    (m.set w address value).get w other =
      if offset w other = offset w address then w.truncate value else m.get w other := by
  have hfits := offset_add_le w address
  have hsize := m.bytes.property
  have hfour : w.bytes.toNat ≤ 4 := by cases w <;> decide
  show Bytes.valueAt (Bytes.setValue m.bytes.val w.bytes.toNat (offset w address) value)
    w.bytes.toNat (offset w other) = _
  by_cases h : offset w other = offset w address
  · rw [if_pos h, h, ← UInt32.toNat_inj, w.toNat_truncate,
      Bytes.toNat_valueAt_setValue _ _ _ _ hfour (by omega)]
  · rw [if_neg h]
    -- Two units that lie apart share no byte.
    have hapart := offset_apart w h
    refine Bytes.valueAt_congr fun j hj hj' => Bytes.byteAt_setValue _ _ _ _ _ ?_
    omega

theorem get_set_word (m : FlatMemory) (address other value : UInt32) :
    (m.set .word address value).get .word other =
      if offset .word other = offset .word address then value else m.get .word other :=
  m.get_set .word address other value

/-! ## Requests -/

/-- The memory after a request was served. -/
def served (m : FlatMemory) (request : BusRequest) : FlatMemory :=
  match request with
  | .write w address value => (m.record request).set w address value
  | _ => m.record request

theorem trace_served (m : FlatMemory) (requests : List BusRequest) :
    (requests.foldl served m).trace = requests.reverse ++ m.trace := by
  induction requests generalizing m with
  | nil => rfl
  | cons request requests ih =>
    have hfirst : (m.served request).trace = request :: m.trace := by cases request <;> rfl
    rw [List.foldl_cons, ih, hfirst, List.reverse_cons, List.append_assoc, List.singleton_append]

theorem bytes_served_reads (m : FlatMemory) {requests : List BusRequest}
    (h : ∀ q ∈ requests, ∃ w address, q = .read w address) :
    (requests.foldl served m).bytes = m.bytes := by
  induction requests generalizing m with
  | nil => rfl
  | cons q rest ih =>
    obtain ⟨w, address, rfl⟩ := h q List.mem_cons_self
    rw [List.foldl_cons, ih _ fun q' hq' => h q' (List.mem_cons_of_mem _ hq')]
    rfl

variable {w : Width} {address : UInt32}

/-- Whether a request writes a unit of a width other than the one of an address. -/
def WritesApart (w : Width) (address : UInt32) (q : BusRequest) : Prop :=
  ∃ other value, q = .write w other value ∧ offset w address ≠ offset w other

/-- A unit that no request writes stays as it is. -/
theorem get_served_of_apart (m : FlatMemory) {requests : List BusRequest}
    (h : ∀ q ∈ requests, WritesApart w address q) :
    (requests.foldl served m).get w address = m.get w address := by
  induction requests generalizing m with
  | nil => rfl
  | cons q rest ih =>
    obtain ⟨other, value, rfl, hne⟩ := h q List.mem_cons_self
    rw [List.foldl_cons, ih _ fun q' hq' => h q' (List.mem_cons_of_mem _ hq')]
    show ((m.record _).set w other value).get w address = _
    rw [get_set, if_neg hne, get_record]

/-- A unit has what the last request that writes it has stored. -/
theorem get_served (m : FlatMemory) {requests : List BusRequest} {i : Nat} {value : UInt32}
    (hi : i < requests.length) (hwrite : requests[i] = .write w address value)
    (hlater : ∀ j, i < j → (hj : j < requests.length) → WritesApart w address requests[j]) :
    (requests.foldl served m).get w address = w.truncate value := by
  induction requests generalizing m i with
  | nil => cases hi
  | cons q rest ih =>
    rw [List.foldl_cons]
    cases i with
    | zero =>
      have hfirst : q = .write w address value := hwrite
      have hrest : ∀ q' ∈ rest, WritesApart w address q' := by
        intro q' hq'
        obtain ⟨j, hj, rfl⟩ := List.mem_iff_getElem.mp hq'
        exact hlater (j + 1) (by omega) (Nat.succ_lt_succ hj)
      rw [get_served_of_apart _ hrest, hfirst]
      show ((m.record _).set w address value).get w address = _
      rw [get_set, if_pos rfl]
    | succ i =>
      exact ih _ (Nat.lt_of_succ_lt_succ hi) hwrite fun j hij hj =>
        hlater (j + 1) (by omega) (Nat.succ_lt_succ hj)

/-- Values that are written to consecutive words, at their low ends, are all there afterwards, and
nothing else has changed. -/
theorem get_served_writes {α : Type} (m : FlatMemory) (w : Width) (address : UInt32)
    {items : List α} (value : α → UInt32) (hlength : items.length ≤ 0x4000) :
    let place := fun k : Nat => address + 4 * UInt32.ofNat k
    let after :=
      (items.mapIdx fun k a => BusRequest.write w (place k) (value a)).foldl served m
    (∀ (k : Nat) (hk : k < items.length),
      after.get w (place k) = w.truncate (value items[k])) ∧
    ∀ other, (∀ k < items.length, offset w other ≠ offset w (place k)) →
      after.get w other = m.get w other := by
  intro place after
  constructor
  · intro k hk
    apply get_served m (by rwa [List.length_mapIdx]) (List.getElem_mapIdx ..)
    intro j hkj hj
    rw [List.length_mapIdx] at hj
    refine ⟨place j, value items[j], List.getElem_mapIdx .., fun heq => ?_⟩
    have hsame := offset_inj w address (by omega) (by omega) heq
    omega
  · intro other hother
    apply get_served_of_apart
    intro q hq
    obtain ⟨k, hk, rfl⟩ := List.mem_mapIdx.mp hq
    exact ⟨place k, value items[k], rfl, hother k hk⟩

/-- The byte at an odd address is the upper one of the halfword there. -/
theorem get_half_odd (m : FlatMemory) {address : UInt32} (h : address.toNat % 2 = 1) :
    m.get .half address >>> 8 = m.get .byte address := by
  have hhalf := toNat_offset .half address
  have hbyte := toNat_offset .byte address
  have hplace : offset .byte address = offset .half address + 1 := by
    change offset .half address = _ / 2 * 2 at hhalf
    change offset .byte address = _ / 1 * 1 at hbyte
    omega
  have height : (8 : UInt32).toNat % 32 = 8 := rfl
  have hrest : (Bytes.valueAt m.bytes.val 1 (offset .half address + 1)).toNat < 256 :=
    Bytes.toNat_valueAt_lt _ _ (by decide)
  rw [← UInt32.toNat_inj, UInt32.toNat_shiftRight, height, Nat.shiftRight_eq_div_pow]
  show (Bytes.valueAt m.bytes.val 2 (offset .half address)).toNat / 2 ^ 8 =
    (Bytes.valueAt m.bytes.val 1 (offset .byte address)).toNat
  rw [hplace, Bytes.toNat_valueAt_succ _ _ _ (by omega)]
  have hlow := (Bytes.byteAt m.bytes.val (offset .half address)).toNat_lt
  omega

end FlatMemory
end Handheld
