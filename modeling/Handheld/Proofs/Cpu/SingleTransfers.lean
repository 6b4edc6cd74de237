import Handheld.Proofs.Arm.Chart
import Handheld.Proofs.Cpu.Shifts
import Handheld.Proofs.Thumb.Assembly

/-!
# Instructions that load and store single registers

What such an instruction of either set leaves behind, for every width, every form of its offset and
every way of addressing, on a processor of either version whose bus ends in a flat memory.
-/

namespace Handheld

open Word Address Arm

/-! ## What is moved -/

namespace Arm

/-- How far an offset moves the base. -/
def Offset.distance (s : CpuState) : Offset → UInt32
  | .immediate value => value
  | .register m => s.reg m
  | .shiftedRegister m kind amount => shiftedBy kind amount.toNat (s.isFlag .carry) (s.reg m)

/-- Whether an amount is one that an instruction has room for. -/
def Offset.InRange : Offset → Prop
  | .shiftedRegister _ _ amount => amount.toNat < 32
  | _ => True

theorem Offset.distance_eq {offset : Offset} (h : offset.InRange) (s : CpuState) :
    Core.transferOffset s offset = offset.distance s := by
  cases offset with
  | immediate | register => rfl
  | shiftedRegister m kind amount => exact value_byImmediate kind (s.reg m) (s.isFlag .carry) h

namespace TransferKind

/-- How much one access moves. -/
def width : TransferKind → Width
  | loadByte | loadSignedByte | storeByte => .byte
  | loadHalf | loadSignedHalf | storeHalf => .half
  | loadWord | loadDouble | storeWord | storeDouble => .word

/-- The registers that are moved, in the order of their addresses. -/
def registers (kind : TransferKind) (d : Register) : List Register :=
  match kind with
  | loadDouble | storeDouble => [d, d + 1]
  | _ => [d]

theorem nodup_registers (kind : TransferKind) (d : Register) : (kind.registers d).Nodup := by
  have hnext : d ≠ d + 1 := by
    revert d
    decide
  cases kind <;> simp [registers, hnext]

theorem length_registers_le (kind : TransferKind) (d : Register) :
    (kind.registers d).length ≤ 2 := by
  cases kind <;> simp [registers]

/-- What a load from an address gives its register, or the one of its two registers that `k` tells.
ARMv4 minds the lowest bit of a halfword's address. -/
def loaded (kind : TransferKind) (isV5 : Bool) (memory : FlatMemory) (address : UInt32)
    (k : Nat) : UInt32 :=
  let isOdd := !isV5 && decide (address.toNat % 2 = 1)
  match kind with
  | loadByte => memory.get .byte address
  | loadSignedByte => ⟨((memory.get .byte address).toBitVec.setWidth 8).signExtend 32⟩
  | loadHalf =>
    if isOdd then ⟨(memory.get .half address).toBitVec.rotateRight 8⟩
    else memory.get .half address
  | loadSignedHalf =>
    if isOdd then ⟨((memory.get .byte address).toBitVec.setWidth 8).signExtend 32⟩
    else ⟨((memory.get .half address).toBitVec.setWidth 16).signExtend 32⟩
  | loadWord => ⟨(memory.get .word address).toBitVec.rotateRight (8 * (address.toNat % 4))⟩
  | loadDouble => memory.get .word (address + 4 * UInt32.ofNat k)
  | _ => 0

/-- The accesses of a transfer from an address on, in order. A program counter is stored one word
further on. -/
def requests (kind : TransferKind) (d : Register) (address : UInt32) (s : CpuState) :
    List BusRequest :=
  (kind.registers d).mapIdx fun k r =>
    let place := address + 4 * UInt32.ofNat k
    if kind.isLoad then .read kind.width place
    else .write kind.width place
      (kind.width.truncate (if r = Register.pc then s.pc + 4 else s.reg r))

end TransferKind

/-- Whether a transfer that adds its offset afterwards keeps the sum. -/
def TransferMode.Regular (mode : TransferMode) : Prop := mode.pre = true ∨ mode.writeback = true

theorem regular_transferMode (inst : UInt32) (kind : TransferKind) :
    (transferMode inst kind).Regular := by
  unfold TransferMode.Regular transferMode
  cases isBit inst 24 <;> simp

theorem inRange_extraOffset (inst : UInt32) : (extraOffset inst).InRange := by
  unfold extraOffset
  split <;> trivial

theorem regular_of_decode {isV5 : Bool} {inst : UInt32} {n d : Register} {offset : Offset}
    {mode : TransferMode} (h : decode isV5 inst = .transfer n d offset mode) :
    offset.InRange ∧ mode.Regular := by
  unfold decode at h
  split at h
  · unfold decodeUnconditional at h
    split at h
    · cases h
    · split at h <;> cases h
  · obtain hclass | ⟨kind, -, hextra⟩ := class_of_transfer h
    · rw [hclass] at h
      cases h
      refine ⟨?_, regular_transferMode inst _⟩
      split
      · show (bits inst 7 5).toNat < 32
        rw [toNat_bits inst (by decide) (by decide)]
        exact Nat.mod_lt _ (by decide)
      · trivial
    · cases hextra
      exact ⟨inRange_extraOffset inst, regular_transferMode inst _⟩

end Arm

/-! ## The registers -/

namespace CpuState

/-- The state after registers received values, the first register first. -/
def received (registers : List Register) (value : Nat → UInt32) (s : CpuState) : CpuState :=
  registers.zipIdx.foldl (fun s p => s.setReg p.1 (value p.2)) s

theorem loaded_received {registers : List Register} (hfresh : registers.Nodup)
    (hpc : Register.pc ∉ registers) (value : Nat → UInt32) (s : CpuState) :
    s.Loaded s.mode registers (fun r => value (registers.idxOf r))
      (s.received registers value) := by
  -- The places of the later registers count from where the first one leaves off.
  suffices h : ∀ k, s.Loaded s.mode registers (fun r => value (k + registers.idxOf r))
      ((registers.zipIdx k).foldl (fun s p => s.setReg p.1 (value p.2)) s) by
    have hzero := h 0
    simp only [Nat.zero_add] at hzero
    exact hzero
  intro k
  induction registers generalizing k s with
  | nil => exact .nil _ _ _
  | cons r rest ih =>
    obtain ⟨hr, hrest⟩ := List.nodup_cons.mp hfresh
    have hfirst : r ≠ Register.pc := fun h => hpc (h ▸ List.mem_cons_self)
    have hlater := ih hrest (fun h => hpc (List.mem_cons_of_mem r h)) (s.setReg r (value k)) (k + 1)
    refine .cons hfirst hr ?_
    rw [List.idxOf_cons_self, ← setReg_eq]
    apply hlater.congr
    intro r' hr'
    have hne : r ≠ r' := (ne_of_mem_of_not_mem hr' hr).symm
    rw [List.idxOf_cons_ne _ hne, Nat.add_assoc, Nat.add_comm 1]

end CpuState

/-! ## The data of a transfer -/

namespace Core

open MachineM

variable {core : Core FlatMemory}

/-- One register receives what one access gives. -/
theorem receive {act : MachineM FlatMemory UInt32} {m : Machine FlatMemory} {value : UInt32}
    {system : FlatMemory} (d : Register)
    (hact : (act m).1 = value ∧ (act m).2.toBoard = { m.toBoard with system }) :
    ((do putReg d (← act) : MachineM FlatMemory Unit) m).2.toBoard =
      { m.toBoard with cpu := m.cpu.setReg d value, system } := by
  obtain ⟨hvalue, hboard⟩ := hact
  show { (act m).2.toBoard with cpu := (act m).2.toBoard.cpu.setReg d (act m).1 } = _
  rw [hvalue, hboard]

/-- A misaligned word is rotated by a byte for each byte that its address is off. -/
theorem toNat_rotation (address : UInt32) :
    ((address &&& 3) <<< 3).toNat = 8 * (address.toNat % 4) := by
  have hlow : (address &&& 3).toNat = address.toNat % 4 := by
    rw [UInt32.toNat_and]
    exact Nat.and_two_pow_sub_one_eq_mod address.toNat 2
  have hthree : (3 : UInt32).toNat % 32 = 3 := rfl
  rw [UInt32.toNat_shiftLeft, hlow, hthree, Nat.shiftLeft_eq]
  omega

section
variable (hcore : core.OnFlatMemory) (address : UInt32) (access : Access) (m : Machine FlatMemory)
include hcore

theorem OnFlatMemory.load_byte :
    (core.load .byte address access m).1 = m.system.get .byte address ∧
      (core.load .byte address access m).2.toBoard =
        { m.toBoard with system := m.system.record (.read .byte address) } := by
  obtain ⟨hvalue, hboard⟩ := hcore.load .byte address access m
  refine ⟨hvalue.trans (if_neg ?_), hboard⟩
  simp

theorem OnFlatMemory.load_half :
    (core.load .half address access m).1 =
        TransferKind.loadHalf.loaded core.processor.isV5 m.system address 0 ∧
      (core.load .half address access m).2.toBoard =
        { m.toBoard with system := m.system.record (.read .half address) } := by
  obtain ⟨hvalue, hboard⟩ := hcore.load .half address access m
  refine ⟨hvalue.trans ?_, hboard⟩
  rw [isBit_zero, rotateRight_eq (by decide)]
  refine if_congr ?_ rfl rfl
  simp

theorem OnFlatMemory.loadSignedHalf :
    (core.loadSignedHalf address access m).1 =
        TransferKind.loadSignedHalf.loaded core.processor.isV5 m.system address 0 ∧
      (core.loadSignedHalf address access m).2.toBoard =
        { m.toBoard with system := m.system.record (.read .half address) } := by
  have hwait := hcore.wait .half address access m
  obtain ⟨hvalue, hboard⟩ := hcore.peek .half address (core.wait .half address access m).2
  rw [hwait] at hvalue hboard
  refine ⟨?_, hboard⟩
  have hload : (core.loadSignedHalf address access m).1 =
      if !core.processor.isV5 && isBit address 0 then
        signExtend8 ((core.peek .half address (core.wait .half address access m).2).1 >>> 8)
      else signExtend16 (core.peek .half address (core.wait .half address access m).2).1 := rfl
  rw [hload, hvalue, isBit_zero]
  refine ite_congr rfl (fun hodd => ?_) fun _ => rfl
  have hlast : address.toNat % 2 = 1 := by simpa using (Bool.and_eq_true_iff.mp hodd).2
  rw [m.system.get_half_odd hlast]
  rfl

theorem OnFlatMemory.loadRotated :
    (core.loadRotated address access m).1 =
        TransferKind.loadWord.loaded core.processor.isV5 m.system address 0 ∧
      (core.loadRotated address access m).2.toBoard =
        { m.toBoard with system := m.system.record (.read .word address) } := by
  obtain ⟨hvalue, hboard⟩ := hcore.load_word address access m
  refine ⟨?_, hboard⟩
  have hrotation := toNat_rotation address
  show rotateRight (core.load .word address access m).1 ((address &&& 3) <<< 3) = _
  rw [hvalue, rotateRight_eq (by omega), hrotation]
  rfl

end

/-- A load of a single register. -/
theorem OnFlatMemory.transferData_load (hcore : core.OnFlatMemory) {kind : TransferKind}
    {d : Register} (hload : kind.isLoad = true) (hsingle : kind ≠ .loadDouble)
    (hd : d ≠ Register.pc) (address : UInt32) (m : Machine FlatMemory) :
    (core.transferData kind d address m).2.toBoard =
      { m.toBoard with
        cpu := m.cpu.setReg d (kind.loaded core.processor.isV5 m.system address 0)
        system := m.system.record (.read kind.width address) } := by
  have hput : ∀ value, core.setLoaded d value = putReg d value := fun _ => if_neg hd
  let access := Access.nonSequential
  unfold Core.transferData
  cases kind with
  | loadByte =>
    simp only [core.setReg_of_ne_pc hd]
    exact receive d (hcore.load_byte address access m)
  | loadSignedByte =>
    obtain ⟨hvalue, hboard⟩ := hcore.load_byte address access m
    simp only [core.setReg_of_ne_pc hd]
    exact receive d ⟨congrArg signExtend8 hvalue, hboard⟩
  | loadHalf =>
    simp only [core.setReg_of_ne_pc hd]
    exact receive d (hcore.load_half address access m)
  | loadSignedHalf =>
    simp only [core.setReg_of_ne_pc hd]
    exact receive d (hcore.loadSignedHalf address access m)
  | loadWord =>
    simp only [hput]
    exact receive d (hcore.loadRotated address access m)
  | loadDouble => exact absurd rfl hsingle
  | _ => cases hload

/-- A load of two registers: both words are read before the first register is set. -/
theorem OnFlatMemory.transferData_loadDouble (hcore : core.OnFlatMemory) {d : Register}
    (hd : d ≠ Register.pc) (hd' : d + 1 ≠ Register.pc) (address : UInt32)
    (m : Machine FlatMemory) :
    (core.transferData .loadDouble d address m).2.toBoard =
      { m.toBoard with
        cpu := (m.cpu.setReg d (m.system.get .word address)).setReg (d + 1)
          (m.system.get .word (address + 4))
        system := (m.system.record (.read .word address)).record (.read .word (address + 4)) } := by
  let first := core.load .word address Access.nonSequential m
  let second := core.load .word (address + 4) Access.sequential first.2
  obtain ⟨hlow, hfirst⟩ := hcore.load_word address Access.nonSequential m
  obtain ⟨hhigh, hsecond⟩ := hcore.load_word (address + 4) Access.sequential first.2
  have hmemory : first.2.system = m.system.record (.read .word address) :=
    congrArg Board.system hfirst
  have hdata : core.transferData .loadDouble d address m =
      (putReg (d + 1) second.1 (putReg d first.1 second.2).2) := by
    unfold Core.transferData
    simp only [core.setReg_of_ne_pc hd, core.setReg_of_ne_pc hd']
    rfl
  rw [hmemory, FlatMemory.get_record] at hhigh
  rw [hdata]
  show { second.2.toBoard with
    cpu := (second.2.toBoard.cpu.setReg d first.1).setReg (d + 1) second.1 } = _
  rw [hsecond, hfirst, hlow, hhigh]

/-- The data of a transfer: the accesses are made in order, and a load gives its registers what
the memory has. -/
theorem OnFlatMemory.transferData (hcore : core.OnFlatMemory) {kind : TransferKind}
    {d : Register} (hpc : kind.isLoad = true → Register.pc ∉ kind.registers d)
    (address : UInt32) (m : Machine FlatMemory) :
    (core.transferData kind d address m).2.toBoard =
      { m.toBoard with
        cpu :=
          if kind.isLoad then
            m.cpu.received (kind.registers d)
              (kind.loaded core.processor.isV5 m.system address)
          else m.cpu
        system := (kind.requests d address m.cpu).foldl FlatMemory.served m.system } := by
  have hzero : address + 4 * UInt32.ofNat 0 = address := UInt32.add_zero address
  have hone : address + 4 * UInt32.ofNat 1 = address + 4 := rfl
  cases kind with
  | loadByte | loadSignedByte | loadHalf | loadSignedHalf | loadWord =>
    have hd : d ≠ Register.pc := fun h => hpc rfl (h ▸ List.mem_cons_self)
    rw [hcore.transferData_load rfl (by decide) hd]
    simp only [TransferKind.requests, TransferKind.registers, List.mapIdx_cons, hzero]
    rfl
  | loadDouble =>
    have hd : d ≠ Register.pc := fun h => hpc rfl (h ▸ List.mem_cons_self)
    have hd' : d + 1 ≠ Register.pc := fun h => hpc rfl (h ▸ by simp [TransferKind.registers])
    have hlow : TransferKind.loadDouble.loaded core.processor.isV5 m.system address 0 =
        m.system.get .word address := congrArg (m.system.get .word) hzero
    rw [hcore.transferData_loadDouble hd hd', ← hlow]
    simp only [TransferKind.requests, TransferKind.registers, List.mapIdx_cons, hzero]
    rfl
  | storeByte | storeHalf | storeWord =>
    simp only [TransferKind.requests, TransferKind.registers, List.mapIdx_cons, hzero]
    exact hcore.store _ address (m.cpu.lateReg d) Access.nonSequential m
  | storeDouble =>
    let first := (core.store .word address (m.cpu.lateReg d) Access.nonSequential m).2
    have hfirst := hcore.store .word address (m.cpu.lateReg d) Access.nonSequential m
    have hsecond := hcore.store .word (address + 4) (m.cpu.lateReg (d + 1)) Access.sequential first
    rw [show first.toBoard = _ from hfirst] at hsecond
    simp only [TransferKind.requests, TransferKind.registers, List.mapIdx_cons, hzero]
    exact hsecond

theorem loadsBase_iff (kind : TransferKind) (n d : Register) :
    loadsBase kind n d = true ↔ kind.isLoad = true ∧ n ∈ kind.registers d := by
  cases kind <;> simp [loadsBase, TransferKind.isLoad, TransferKind.registers]

/-- A whole transfer: its data are moved, then the base may be. -/
theorem OnFlatMemory.executeTransfer (hcore : core.OnFlatMemory) {n d : Register}
    {offset : Offset} {mode : TransferMode} (hn : n ≠ Register.pc)
    (hpc : mode.kind.isLoad = true → Register.pc ∉ mode.kind.registers d)
    (m : Machine FlatMemory) :
    let s := m.cpu
    let kind := mode.kind
    let moved := move (s.reg n) (transferOffset s offset) mode.up
    let address := if mode.pre then moved else s.reg n
    (core.executeTransfer n d offset mode m).2.toBoard =
      { m.toBoard with
        cpu := settled (mode.writeback && !loadsBase kind n d) n moved
          (if kind.isLoad then
            s.received (kind.registers d) (kind.loaded core.processor.isV5 m.system address)
          else s)
        system := (kind.requests d address s).foldl FlatMemory.served m.system } := by
  intro s kind moved address
  have hdata := hcore.transferData hpc address m
  have hsettle : (core.executeTransfer n d offset mode m).2.toBoard =
      { (core.transferData kind d address m).2.toBoard with
        cpu := settled (mode.writeback && !loadsBase kind n d) n moved
          (core.transferData kind d address m).2.cpu } := by
    unfold Core.executeTransfer
    simp only [core.setReg_of_ne_pc hn]
    show _ = { (core.transferData mode.kind d address m).2.toBoard with
      cpu := settled (mode.writeback && !loadsBase mode.kind n d) n moved
        (core.transferData mode.kind d address m).2.cpu }
    generalize (mode.writeback && !loadsBase mode.kind n d) = moves
    generalize mode.kind.isLoad = load
    cases moves <;> cases load <;> rfl
  rw [hsettle, hdata]

/-! ## Opcodes -/

section

variable {σ : Type}

/-- The single transfer that an opcode stands for, short ones by their long form: its base, the
register it moves, its offset, and how it finds its address. -/
def transfer? (core : Core σ) (thumb : Bool) (inst : UInt32) :
    Option (Register × Register × Offset × TransferMode) :=
  let instruction? :=
    if thumb then (Thumb.decode core.processor.isV5 inst.toUInt16).expansion?
    else some (Arm.decode core.processor.isV5 inst)
  match instruction? with
  | some (.transfer n d offset mode) => some (n, d, offset, mode)
  | _ => none

variable {core : Core σ} {thumb : Bool} {inst : UInt32} {n d : Register} {offset : Offset}
  {mode : TransferMode}

theorem expansion?_of_transfer (h : core.transfer? true inst = some (n, d, offset, mode)) :
    (Thumb.decode core.processor.isV5 inst.toUInt16).expansion? =
      some (.transfer n d offset mode) := by
  simp only [transfer?, ↓reduceIte] at h
  split at h
  · next hexpansion =>
    cases h
    exact hexpansion
  · cases h

theorem decode_of_transfer (h : core.transfer? false inst = some (n, d, offset, mode)) :
    Arm.decode core.processor.isV5 inst = .transfer n d offset mode := by
  simp only [transfer?, Bool.false_eq_true, ↓reduceIte] at h
  split at h
  · next hdecode =>
    cases h
    exact Option.some.inj hdecode
  · cases h

/-- An opcode that stands for a transfer, and is not skipped, is executed as one; apart from that
it is only noted in the log. -/
theorem execute_of_transfer (h : core.transfer? thumb inst = some (n, d, offset, mode))
    {m : Machine σ} (hholds : thumb = true ∨ m.cpu.holds (Arm.condition inst) = true) :
    ∃ log, core.execute thumb inst m = core.executeTransfer n d offset mode { m with log } := by
  refine ⟨(core.noted thumb inst m).log, ?_⟩
  cases thumb with
  | true =>
    rw [core.execute_short, core.runThumb_expansion (expansion?_of_transfer h) _ inst]
    rfl
  | false =>
    rw [core.execute_of_holds (by simpa using hholds), decode_of_transfer h]
    rfl

theorem regular_of_transfer (h : core.transfer? thumb inst = some (n, d, offset, mode)) :
    offset.InRange ∧ mode.Regular := by
  cases thumb with
  | true =>
    -- The long form of a short instruction has a word, so it is no more than the decoder gives.
    obtain ⟨word, -, hword⟩ :=
      (Thumb.small_decode core.processor.isV5 inst.toUInt16).encodable core.processor.isV5
        (expansion?_of_transfer h)
    exact regular_of_decode hword
  | false => exact regular_of_decode (decode_of_transfer h)

end

section

variable {thumb : Bool} {inst : UInt32} {n d : Register} {offset : Offset} {mode : TransferMode}

/-- The registers behind a transfer whose data have been moved: a loaded one keeps what it received,
and the base has the sum where the transfer keeps it. -/
theorem regInMode_transferred {s data : CpuState} {received : Register → UInt32} {moved : UInt32}
    (hpc : mode.kind.isLoad = true → Register.pc ∉ mode.kind.registers d)
    (hregular : mode.Regular)
    (hloaded :
      s.Loaded s.mode (if mode.kind.isLoad then mode.kind.registers d else []) received data)
    (bank : Mode) (r : Register) :
    (settled (mode.writeback && !loadsBase mode.kind n d) n moved data).regInMode bank r =
      if mode.kind.isLoad = true ∧ r ∈ mode.kind.registers d ∧
          r.physical bank = r.physical s.mode then received r
      else if (mode.writeback = true ∨ mode.pre = false) ∧ r.physical bank = n.physical s.mode then
        moved
      else s.regInMode bank r := by
  have hlist : r ∈ (if mode.kind.isLoad then mode.kind.registers d else []) ↔
      mode.kind.isLoad = true ∧ r ∈ mode.kind.registers d := by
    cases mode.kind.isLoad <;> simp
  rw [CpuState.regInMode_eq_view, CpuState.regInMode_eq_view]
  show (settled _ n moved data).physicalValue (r.physical bank) =
    if _ then _ else if _ then _ else s.physicalValue (r.physical bank)
  rw [physicalValue_settled, hloaded.mode, hloaded.contents, Register.number_physical]
  by_cases hmine : mode.kind.isLoad = true ∧ r ∈ mode.kind.registers d ∧
      r.physical bank = r.physical s.mode
  · obtain ⟨hload, hmem, hsee⟩ := hmine
    have hother : r ≠ Register.pc := ne_of_mem_of_not_mem hmem (hpc hload)
    rw [if_neg, if_pos ⟨hlist.mpr ⟨hload, hmem⟩, hother, hsee.symm⟩, if_pos ⟨hload, hmem, hsee⟩]
    rintro ⟨hmoves, heq⟩
    have hbase := (loadsBase_iff mode.kind n d).mpr ⟨hload, Register.eq_of_physical heq ▸ hmem⟩
    simp [hbase] at hmoves
  · have hunloaded : ¬ (r ∈ (if mode.kind.isLoad then mode.kind.registers d else []) ∧
        r ≠ Register.pc ∧ r.physical s.mode = r.physical bank) :=
      fun h => hmine ⟨(hlist.mp h.1).1, (hlist.mp h.1).2, h.2.2.symm⟩
    rw [if_neg hunloaded, if_neg hmine]
    by_cases heq : r.physical bank = n.physical s.mode
    · -- The register is the base, which the transfer does not load.
      obtain rfl := Register.eq_of_physical heq
      have hbase : loadsBase mode.kind r d = false := by
        rw [← Bool.not_eq_true, loadsBase_iff]
        exact fun h => hmine ⟨h.1, h.2, heq⟩
      refine if_congr (and_congr_left fun _ => ?_) rfl rfl
      rw [hbase, Bool.not_false, Bool.and_true]
      exact ⟨.inl, fun h => h.elim id fun hpost => hregular.resolve_left (by simp [hpost])⟩
    · rw [if_neg fun h => heq h.2, if_neg fun h => heq h.2]

/-- **A single transfer.** The base moved by the offset is the address, or the base alone if the
offset is added afterwards. A store writes its registers as they were, cut to the width, there and,
for a doubleword, to the next word, and nothing else; the program counter is stored one word
further on. A load reads the same places and no others: its registers receive the values found
there, extended, rotated and corrected as their kind and the processor's version ask for. The base
keeps the sum where it is to, unless the load gives it another value. Nothing else changes. -/
theorem execute_transfer (hcore : core.OnFlatMemory)
    (htransfer : core.transfer? thumb inst = some (n, d, offset, mode)) (hn : n ≠ Register.pc)
    (hpc : mode.kind.isLoad = true → Register.pc ∉ mode.kind.registers d)
    (m : Machine FlatMemory) (hholds : thumb = true ∨ m.cpu.holds (Arm.condition inst) = true) :
    let s := m.cpu
    let after := (core.execute thumb inst m).2
    let kind := mode.kind
    let registers := kind.registers d
    let base := s.reg n
    let distance := offset.distance s
    let moved := if mode.up then base + distance else base - distance
    let address := if mode.pre then moved else base
    let place := fun k : Nat => address + 4 * UInt32.ofNat k
    let kept := fun r : Register =>
      kind.width.truncate (if r = Register.pc then s.pc + 4 else s.reg r)
    let received := fun r : Register =>
      kind.loaded core.processor.isV5 m.system address (registers.idxOf r)
    after.system.trace = (registers.mapIdx fun k r =>
        if kind.isLoad then BusRequest.read kind.width (place k)
        else .write kind.width (place k) (kept r)).reverse ++ m.system.trace ∧
    (kind.isLoad = true → after.system.bytes = m.system.bytes) ∧
    (kind.isLoad = false →
      (∀ (k : Nat) (hk : k < registers.length),
        after.system.get kind.width (place k) = kept registers[k]) ∧
      ∀ other, (∀ k < registers.length,
          FlatMemory.offset kind.width other ≠ FlatMemory.offset kind.width (place k)) →
        after.system.get kind.width other = m.system.get kind.width other) ∧
    (∀ (bank : Mode) (r : Register), after.cpu.regInMode bank r =
      if kind.isLoad = true ∧ r ∈ registers ∧ r.physical bank = r.physical s.mode then received r
      else if (mode.writeback = true ∨ mode.pre = false) ∧ r.physical bank = n.physical s.mode then
        moved
      else s.regInMode bank r) ∧
    after.cpu.cpsr = s.cpsr ∧ after.cpu.spsr = s.spsr := by
  intro s after kind registers base distance moved address place kept received
  obtain ⟨log, hexecute⟩ := execute_of_transfer htransfer hholds
  obtain ⟨hrange, hregular⟩ := regular_of_transfer htransfer
  let noted : Machine FlatMemory := { m with log }
  let data := if kind.isLoad then
    s.received registers (kind.loaded core.processor.isV5 m.system address) else s
  have hafter : after.toBoard =
      { cpu := settled (mode.writeback && !loadsBase kind n d) n moved data
        system := (kind.requests d address s).foldl FlatMemory.served m.system
        log := log } := by
    show (core.execute thumb inst m).2.toBoard = _
    rw [hexecute, hcore.executeTransfer hn hpc noted, Offset.distance_eq hrange]
    rfl
  have hsystem : after.system = (kind.requests d address s).foldl FlatMemory.served m.system :=
    congrArg Board.system hafter
  have hcpu : after.cpu = settled (mode.writeback && !loadsBase kind n d) n moved data :=
    congrArg Board.cpu hafter
  have hloaded : s.Loaded s.mode (if kind.isLoad then registers else []) received data := by
    cases hload : kind.isLoad with
    | true =>
      rw [if_pos rfl, show data = _ from if_pos hload]
      exact CpuState.loaded_received (kind.nodup_registers d) (hpc hload) _ s
    | false =>
      rw [if_neg Bool.false_ne_true, show data = s from if_neg (by simp [hload])]
      exact .nil s.mode received s
  refine ⟨?_, ?_, ?_, ?_, ?_, ?_⟩
  · rw [hsystem, FlatMemory.trace_served]
    rfl
  · intro hload
    rw [hsystem]
    apply FlatMemory.bytes_served_reads
    intro q hq
    obtain ⟨k, hk, rfl⟩ := List.mem_mapIdx.mp hq
    exact ⟨kind.width, place k, if_pos hload⟩
  · intro hstore
    have hlength : registers.length ≤ 2 := kind.length_registers_le d
    have hwrites : kind.requests d address s =
        registers.mapIdx fun k r => .write kind.width (place k) (kept r) := by
      unfold TransferKind.requests
      simp only [hstore, Bool.false_eq_true, ↓reduceIte]
      rfl
    obtain ⟨hstored, hothers⟩ :=
      FlatMemory.get_served_writes m.system kind.width address kept (hlength.trans (by decide))
    rw [hsystem, hwrites]
    refine ⟨fun k hk => ?_, hothers⟩
    rw [hstored k hk]
    exact kind.width.truncate_truncate _
  · intro bank r
    show after.cpu.regInMode bank r = _
    rw [hcpu]
    exact regInMode_transferred hpc hregular hloaded bank r
  · rw [hcpu, cpsr_settled, hloaded.cpsr]
  · rw [hcpu, spsr_settled, hloaded.spsr]

end

/-- An auxiliary processor about to load a halfword from an odd address below r1. -/
def beforeOddLoad : Machine FlatMemory where
  cpu := (({} : CpuState).setReg 1 0x105).setReg 2 4
  system := ({} : FlatMemory).set .half 0x100 0x8012
  log := {}

/-- The halfword arrives rotated, and the base keeps the odd address. -/
theorem execute_transfer_odd :
    let after := ((FlatMemory.minimalCore .arm7).execute false 0xE13100B2 beforeOddLoad).2
    after.cpu.regInMode .user 0 = 0x12000080 ∧ after.cpu.regInMode .user 1 = 0x101 ∧
      after.system.trace = [.read .half 0x101] := by
  have htransfer : (FlatMemory.minimalCore .arm7).transfer? false 0xE13100B2 =
      some (1, 0, .register 2, { pre := true, up := false, kind := .loadHalf,
                                 writeback := true }) := by decide
  have hhalf : beforeOddLoad.system.get .half 0x101 = 0x8012 :=
    (FlatMemory.get_set {} .half 0x100 0x101 0x8012).trans (if_pos (by decide))
  obtain ⟨htrace, -, -, hregisters, -⟩ := execute_transfer (minimalCore_onFlatMemory .arm7)
    htransfer (by decide) (by decide) beforeOddLoad (by decide)
  refine ⟨?_, (hregisters .user 1).trans ((if_neg (by decide)).trans (if_pos (by decide))), htrace⟩
  refine (hregisters .user 0).trans ((if_pos (by decide)).trans ?_)
  show UInt32.ofBitVec ((beforeOddLoad.system.get .half 0x101).toBitVec.rotateRight 8) = _
  rw [hhalf]
  rfl

end Core
end Handheld
