import Handheld.Proofs.Console.Lowering

/-!
# Lowering the clocks shows nowhere

A session lowers its clocks whenever they have come far enough. Beside it runs a copy that never
does, and both are asked the same things. They answer alike, the same events fire in both and
equally late, and all the while one is the other with its clocks lowered.

* `advanceUnlowered?` is an advance that lowers no clock;
* `Request` is what a program asks of a session, and `Reply` what it is answered;
* `AheadBy` says in what the two sessions differ;
* `rebase_invisible` is the theorem.
-/

namespace Handheld.Console.Session

/-! ## Sessions that never lower their clocks -/

/-- Advance as `advance?` does, and leave the clocks as high as they are: to lower them by nothing
changes nothing (`lowered_zero`). -/
def advanceUnlowered? (s : Session) (log : Log) : Option (Session × Log) := do
  let (s, log) := s.stepCpu s.next log
  let (system, log) ← settle? (min s.clocks.arm7 s.clocks.arm9) s.system log
  return ({ s with system }, log)

/-- The events that an advance fires, in order, each with how late it is. -/
def firedBy (s : Session) (log : Log) : List (Fired Event) :=
  (s.advanceTrace log).filterMap Happening.fired?

/-- What a program asks of a session, one request for each kind of step. -/
inductive Request where
  | advance
  | instruction (p : Processor)
  | read (p : Processor) (w : Width) (address : UInt32)
  | write (p : Processor) (w : Width) (address value : UInt32)
  | interrupt (p : Processor) (i : Interrupt)
  | replaceCpu (p : Processor) (cpu : CpuState)
  | boot (entry9 entry7 : UInt32)
  | prepare (cycles : UInt64)

/-- What a program is answered: the events that fired in an advance, the cycles of an instruction
or the value that was read. -/
inductive Reply where
  | fired (events : List (Fired Event))
  | cycles (cycles : UInt64)
  | value (value : UInt32)
  | done

namespace Request

/-- Do what is asked of a session that advances as given. -/
def perform (advance? : Session → Log → Option (Session × Log)) (s : Session) (log : Log) :
    Request → Option (Reply × Session × Log)
  | advance => (advance? s log).map fun (s', log') => (.fired (s.firedBy log), s', log')
  | instruction p =>
    let (cycles, s', log') := s.onBoard p (core p).step log
    some (.cycles cycles, s', log')
  | read p w address =>
    let (value, s', log') := s.read p w address log
    some (.value value, s', log')
  | write p w address value =>
    let (s', log') := s.write p w address value log
    some (.done, s', log')
  | interrupt p i => some (.done, s.requestInterrupt p i, log)
  | replaceCpu p cpu => some (.done, { s with cpus := s.cpus.set p cpu }, log)
  | boot entry9 entry7 => some (.done, s.directBoot entry9 entry7, log)
  | prepare cycles => some (.done, s.prepare cycles log, log)

/-- Do what is asked, one request after the other. -/
def performAll (advance? : Session → Log → Option (Session × Log)) :
    List Request → Session → Log → Option (List Reply × Session × Log)
  | [], s, log => some ([], s, log)
  | request :: requests, s, log => do
    let (reply, s', log') ← request.perform advance? s log
    let (replies, rest) ← performAll advance? requests s' log'
    return (reply :: replies, rest)

/-- The end of a run, if that is what is asked for, lies within the range of times. -/
def Unsaturated (s : Session) : Request → Prop
  | prepare cycles => s.now.toNat + cycles.toInt64.toInt < 2 ^ 63
  | _ => True

/-- Asked these things, a session that never lowers its clocks keeps them in range, and no delay
saturates. -/
def InBounds : List Request → Session → Log → Prop
  | [], s, _ => s.InRange
  | request :: requests, s, log =>
    s.InRange ∧ request.Unsaturated s ∧
      match request.perform advanceUnlowered? s log with
      | none => True
      | some (_, s', log') => InBounds requests s' log'

instance (s : Session) : Decidable s.InRange :=
  decidable_of_iff ((s.clocks.get .arm7).toNat < 2 ^ 62 ∧ (s.clocks.get .arm9).toNat < 2 ^ 62)
    ⟨fun h p => by cases p; exacts [h.1, h.2], fun h => ⟨h .arm7, h .arm9⟩⟩

instance (s : Session) : (request : Request) → Decidable (request.Unsaturated s)
  | prepare cycles => inferInstanceAs (Decidable (s.now.toNat + cycles.toInt64.toInt < 2 ^ 63))
  | advance | instruction _ | read .. | write .. | interrupt .. | replaceCpu .. | boot .. =>
    inferInstanceAs (Decidable True)

instance decidableInBounds :
    (requests : List Request) → (s : Session) → (log : Log) → Decidable (InBounds requests s log)
  | [], s, _ => inferInstanceAs (Decidable s.InRange)
  | request :: requests, s, log =>
    have : Decidable (match request.perform advanceUnlowered? s log with
      | none => True
      | some (_, s', log') => InBounds requests s' log') :=
      match request.perform advanceUnlowered? s log with
      | none => inferInstanceAs (Decidable True)
      | some (_, s', log') => decidableInBounds requests s' log'
    inferInstanceAs (Decidable (_ ∧ _ ∧ _))

end Request

/-- The second session is the first one with all clocks ahead by some cycles: the processors and
the devices are the same, every register and all memory reads alike, and every clock and every
event that waits is as far ahead. -/
structure AheadBy (ahead : ℕ) (s t : Session) : Prop where
  cpus : t.cpus = s.cpus
  /-- The devices are the same, but for the clock and the starting times of timers. -/
  devices : { t.system with queue := s.system.queue, timers := s.system.timers } = s.system
  registers : ∀ p r, t.system.ioValue p r = s.system.ioValue p r
  reads : ∀ p w address log, (t.read p w address log).1 = (s.read p w address log).1
  now : t.now.toNat = s.now.toNat + ahead
  clocks : ∀ p, (t.clocks.get p).toNat = (s.clocks.get p).toNat + ahead
  events : t.system.queue.events.map (fun e => (e.kind, e.time.toInt)) =
    s.system.queue.events.map fun e => (e.kind, e.time.toInt + (ahead : ℤ))

/-! ## Advances -/

variable {s t : Session} {amount : UInt64} {log : Log}

theorem advanceUnlowered_eq (s : Session) (log : Log) :
    s.advanceUnlowered? log =
      (settle? (s.settleTarget log) (s.stepCpu s.next log).1.system (s.stepCpu s.next log).2).map
        fun p => ({ (s.stepCpu s.next log).1 with system := p.1 }, p.2) := by
  rw [Option.map_eq_bind]
  rfl

/-- An advance is one that lowers no clock, and then the lowering. -/
theorem advance_eq_rebase (s : Session) (log : Log) :
    s.advance? log = (s.advanceUnlowered? log).map (Prod.map rebase id) := by
  rw [advance_eq_bind, advanceUnlowered_eq, Option.map_map, Option.map_eq_bind]
  rfl

/-- No event fires before the instruction is done, and the lowering is no event. -/
theorem firedBy_eq (s : Session) (log : Log) :
    s.firedBy log =
      (settleTrace (eventBound (s.stepCpu s.next log).1.system.queue (s.settleTarget log))
        (s.settleTarget log) (s.stepCpu s.next log).1.system
        (s.stepCpu s.next log).2).filterMap Happening.fired? := by
  have hmonitor : Monitor fun _ trace => trace.filterMap Happening.fired? = [] :=
    ⟨fun _ h => h, fun _ h => h, fun _ h => h, fun p lanes log r h => by
      rw [List.filterMap_append, h]
      rfl⟩
  have hinstruction : (s.instructionTrace s.next log).filterMap Happening.fired? = [] :=
    hmonitor.instruction (s := s) (t := []) s.next rfl log
  unfold firedBy advanceTrace
  dsimp only
  rw [List.filterMap_append, List.filterMap_append, hinstruction, List.nil_append]
  refine (congrArg (_ ++ ·) ?_).trans (List.append_nil _)
  split <;> rfl

/-- An advance that lowers no clock returns and keeps a session consistent, with all that waits
ahead of the clock. -/
theorem Consistent.advanceUnlowered_returns (h : s.Consistent) (hnow : s.now.toNat < 2 ^ 62)
    (hrange : (s.settleTarget log).toNat < clockBound) :
    ∃ s' log', s.advanceUnlowered? log = some (s', log') ∧ s'.Consistent ∧
      s'.now = s.settleTarget log ∧
      ∀ e ∈ s'.system.queue.events, (s'.now.toNat : ℤ) < e.time.toInt := by
  obtain ⟨hpunctual, hle⟩ := h.stepped hnow log
  obtain ⟨settled, log', hsettle⟩ := settle_returns hpunctual hrange hle (s.stepCpu s.next log).2
  obtain ⟨hsound, htime, hlater⟩ := h.fired hnow hrange hsettle
  have hahead : ∀ e ∈ settled.queue.events, (settled.queue.now.toNat : ℤ) < e.time.toInt := by
    rwa [htime]
  refine ⟨{ (s.stepCpu s.next log).1 with system := settled }, log', ?_,
    ⟨⟨hsound, fun e he _ => ?_⟩, htime⟩, htime, hahead⟩
  · rw [advanceUnlowered_eq, hsettle]
    rfl
  · have hlt := hahead e he
    show (settled.queue.now.toNat : ℤ) + 1 ≤ _
    omega

/-! ## Two sessions side by side -/

/-- The first session is the second one with all clocks lowered. The second one is consistent, as a
session is that a console can come to, but its clocks may be higher than any such session's. -/
structure Tandem (amount : UInt64) (s t : Session) : Prop where
  eq : s = t.lowered amount
  consistent : t.Consistent
  lowerable : t.system.queue.Lowerable amount

namespace Tandem

/-- Every session goes along with itself. -/
theorem refl (h : s.Consistent) (hnow : s.now.toNat < 2 ^ 62) : Tandem 0 s s := by
  refine ⟨(lowered_zero h.punctual.sound).symm, h, h.punctual.sound.coherent, Nat.zero_le _, ?_, ?_⟩
  · exact hnow.trans (by decide)
  · intro e he
    exact e.time.le_toInt

theorem now_lt (h : Tandem amount s t) (inRange : t.InRange) : t.now.toNat < 2 ^ 62 := by
  have h7 := inRange .arm7
  have hmin := toNat_min_clocks t.clocks .arm7
  rw [← h.consistent.clock] at hmin
  omega

theorem le_clocks (h : Tandem amount s t) (p : Processor) :
    amount.toNat ≤ (t.clocks.get p).toNat := by
  have hmin := toNat_min_clocks t.clocks p
  have hclock := h.lowerable.clock
  rw [← h.consistent.clock] at hmin
  unfold now at hmin
  omega

/-! ### Advances -/

/-- Lowering the clocks of a lowered session once more. -/
theorem rebase (h : Tandem amount s t)
    (hpositive : ∀ e ∈ t.system.queue.events, t.now.toNat ≤ e.time.toInt) :
    ∃ amount', Tandem amount' s.rebase t := by
  obtain ⟨rfl, hconsistent, hlowerable⟩ := h
  have hnow := hlowerable.toNat_now
  change (t.lowered amount).system.queue.now.toNat = _ at hnow
  by_cases hlow : (t.lowered amount).system.queue.now < EventQueue.rebaseAt
  · exact ⟨amount, rebase_of_lt hlow, hconsistent, hlowerable⟩
  · have hrange := hlowerable.range
    have hclock := hlowerable.clock
    have hbias : EventQueue.rebaseAt.toNat = 0xF0000000 := rfl
    have hle := hlow
    rw [UInt64.lt_iff_toNat_lt, not_lt] at hle
    have hsum : (amount + EventQueue.rebaseAt).toNat = amount.toNat + 0xF0000000 := by
      rw [UInt64.toNat_add, hbias]
      omega
    refine ⟨amount + EventQueue.rebaseAt, ?_, hconsistent, hlowerable.coherent, by omega, hrange,
      fun e he => ?_⟩
    · rw [rebase_eq_lowered hlow, lowered_lowered]
    · have hahead := hpositive e he
      unfold now at hahead
      omega

/-- The processor that is behind is the same one, and takes the same step. -/
theorem stepped (h : Tandem amount s t) (inRange : t.InRange) (log : Log) :
    s.stepCpu s.next log = Prod.map (lowered amount) id (t.stepCpu t.next log) ∧
      s.settleTarget log = t.settleTarget log - amount ∧
      amount.toNat ≤ (t.settleTarget log).toNat ∧
      (t.stepCpu t.next log).1.system.queue.Lowerable amount := by
  have hclock : clockBound = 2 ^ 62 + 2 ^ 32 := rfl
  have hnow := h.now_lt inRange
  obtain ⟨hstep, hlowerable⟩ := stepCpu_lowered h.lowerable
    (show t.now.toNat < clockBound by omega) h.le_clocks inRange t.next log
  rw [← next_lowered h.le_clocks, ← h.eq] at hstep
  have hnext : s.next = t.next := by
    rw [h.eq, next_lowered h.le_clocks]
  rw [hnext] at hstep
  -- The step takes neither clock back, so that both can still be lowered after it.
  have hforward := le_stepCpu_clock log (inRange t.next)
  have hother := t.stepCpu_clock_other t.next log
  have hmin := toNat_min_clocks (t.stepCpu t.next log).1.clocks t.next
  rw [hother] at hmin
  have hown := h.le_clocks t.next
  have hbehind := h.le_clocks t.next.other
  have hle : amount.toNat ≤ (t.settleTarget log).toNat := by
    rw [settleTarget_eq]
    omega
  refine ⟨by rw [hnext, hstep], ?_, hle, hlowerable⟩
  have hclocks : (s.stepCpu s.next log).1.clocks =
      (t.stepCpu t.next log).1.clocks.map (· - amount) := by
    rw [hnext, hstep]
    rfl
  have hget := FreeRun.get_map (t.stepCpu t.next log).1.clocks (· - amount)
  rw [← UInt64.toNat_inj, settleTarget_eq, toNat_min_clocks _ t.next, hclocks, hget, hget, hother,
    EventQueue.toNat_sub_amount hle, EventQueue.toNat_sub_amount hbehind,
    EventQueue.toNat_sub_amount (hown.trans hforward), settleTarget_eq]
  omega

/-- Without the lowering of clocks both advance alike, and the same events fire. -/
theorem advanceUnlowered (h : Tandem amount s t) (inRange : t.InRange) (log : Log) :
    s.advanceUnlowered? log =
      (t.advanceUnlowered? log).map (Prod.map (lowered amount) id) ∧
    s.firedBy log = t.firedBy log := by
  obtain ⟨hstep, htarget, hle, hlowerable⟩ := h.stepped inRange log
  obtain ⟨hpunctual, hnow⟩ := h.consistent.stepped (h.now_lt inRange) log
  have hsystem : (s.stepCpu s.next log).1.system =
      (t.stepCpu t.next log).1.system.lowered amount := congrArg (·.1.system) hstep
  have hlog : (s.stepCpu s.next log).2 = (t.stepCpu t.next log).2 := by
    rw [hstep]
    rfl
  have hbound : eventBound (s.stepCpu s.next log).1.system.queue (s.settleTarget log) =
      eventBound (t.stepCpu t.next log).1.system.queue (t.settleTarget log) := by
    rw [hsystem, htarget]
    exact eventBound_lowered hlowerable hle
  obtain ⟨hsettled, hfired⟩ := settleWithin_lowered
    (eventBound (t.stepCpu t.next log).1.system.queue (t.settleTarget log)) hpunctual hlowerable
    hnow (settleTarget_lt inRange log) (t.stepCpu t.next log).2
  constructor
  · rw [advanceUnlowered_eq, advanceUnlowered_eq]
    unfold settle?
    rw [hbound, hsystem, hlog, htarget, hsettled, hstep, Option.map_map, Option.map_map]
    rfl
  · rw [firedBy_eq, firedBy_eq, hbound, hsystem, hlog, htarget]
    exact hfired

/-- **One advance of both sessions.** -/
theorem advance (h : Tandem amount s t) (inRange : t.InRange) (log : Log) :
    ∃ s' t' log' amount', s.advance? log = some (s', log') ∧
      t.advanceUnlowered? log = some (t', log') ∧ Tandem amount' s' t' ∧
      s.firedBy log = t.firedBy log := by
  obtain ⟨-, -, hle, -⟩ := h.stepped inRange log
  obtain ⟨hsame, hfired⟩ := h.advanceUnlowered inRange log
  obtain ⟨t', log', hreturned, hconsistent, hnow, hahead⟩ :=
    h.consistent.advanceUnlowered_returns (h.now_lt inRange) (settleTarget_lt inRange log)
  have hrange := settleTarget_lt inRange log
  -- Nothing overdue waits any more, so lowering the clocks further carries no time out of range.
  have htandem : Tandem amount (t'.lowered amount) t' := by
    have hclock : clockBound = 2 ^ 62 + 2 ^ 32 := rfl
    refine ⟨rfl, hconsistent, hconsistent.punctual.sound.coherent, ?_, ?_, fun e he => ?_⟩
    · exact hle.trans_eq (congrArg UInt64.toNat hnow).symm
    · show t'.now.toNat < 2 ^ 63
      rw [hnow]
      omega
    · have hlt := hahead e he
      omega
  obtain ⟨amount', hrebased⟩ := htandem.rebase fun e he => (hahead e he).le
  refine ⟨_, t', log', amount', ?_, hreturned, hrebased, hfired⟩
  rw [advance_eq_rebase, hsame, hreturned]
  rfl

/-! ### Other requests -/

/-- What a board does that sees no clock, it does on both sides. -/
theorem onBoard {α : Type} (h : Tandem amount s t) (hnow : t.now.toNat < 2 ^ 62) (p : Processor)
    {act : BoardM System α} (hact : Agree (Paired (Lowering amount)) act act) (log : Log) :
    s.onBoard p act log = Prod.map id (Prod.map (lowered amount) id) (t.onBoard p act log) ∧
      (t.onBoard p act log).2.1.system.queue.Lowerable amount := by
  have hclock : clockBound = 2 ^ 62 + 2 ^ 32 := rfl
  have hstart : Paired (Lowering amount) (t.board p log) ((t.lowered amount).board p log) :=
    ⟨rfl, ⟨rfl, h.lowerable, show t.now.toNat < clockBound by omega⟩, rfl⟩
  obtain ⟨hanswer, hcpu, hsystem, hlog⟩ := hact _ _ hstart
  refine ⟨?_, hsystem.lowerable⟩
  rw [h.eq]
  exact Prod.ext hanswer.symm
    (Prod.ext (eq_of_parts (congrArg (t.cpus.set p) hcpu.symm) hsystem.eq rfl) hlog.symm)

/-- **One request to both sessions.** -/
theorem perform (h : Tandem amount s t) (inRange : t.InRange) {request : Request}
    (hdelay : request.Unsaturated t) (log : Log) :
    ∃ reply s' t' log' amount', request.perform advance? s log = some (reply, s', log') ∧
      request.perform advanceUnlowered? t log = some (reply, t', log') ∧
      Tandem amount' s' t' := by
  have hclock : clockBound = 2 ^ 62 + 2 ^ 32 := rfl
  have hnow := h.now_lt inRange
  have hbelow : t.now.toNat < clockBound := by omega
  have hmonitor := System.punctual_monitor (k := 1) (by omega) hbelow
  have hlockstep := lockstep_lowering amount
  cases request with
  | advance =>
    obtain ⟨s', t', log', amount', hs, ht, htandem, hfired⟩ := h.advance inRange log
    refine ⟨.fired (t.firedBy log), s', t', log', amount', ?_, ?_, htandem⟩
    · show (s.advance? log).map _ = _
      rw [hs, hfired]
      rfl
    · show (t.advanceUnlowered? log).map _ = _
      rw [ht]
      rfl
  | instruction p =>
    have hstep : Agree (Paired (Lowering amount)) (core p).step (core p).step :=
      fun _ _ hpair => (fullSimulation_lowering amount p).step hpair
    obtain ⟨heq, hlowerable⟩ := h.onBoard hnow p hstep log
    let done := t.onBoard p (core p).step log
    refine ⟨.cycles done.1, done.2.1.lowered amount, done.2.1, done.2.2, amount,
      congrArg (fun done : UInt64 × Session × Log => some (Reply.cycles done.1, done.2)) heq, rfl,
      rfl, ?_, hlowerable⟩
    exact h.consistent.devices rfl
      (hmonitor.instruction (t := []) p ⟨h.consistent.punctual, rfl⟩ log)
  | read p w address =>
    obtain ⟨heq, hlowerable⟩ := h.onBoard hnow p (hlockstep.read p w address) log
    let done := t.read p w address log
    have hsame : done.2.1.system = t.system := Monitor.hostRead p w address log
    exact ⟨.value done.1, done.2.1.lowered amount, done.2.1, done.2.2, amount,
      congrArg (fun done : UInt32 × Session × Log => some (Reply.value done.1, done.2)) heq, rfl,
      rfl, h.consistent.congr (congrArg System.queue hsame) rfl, hlowerable⟩
  | write p w address value =>
    obtain ⟨heq, hlowerable⟩ := h.onBoard hnow p (hlockstep.write p w address value) log
    let done := t.write p w address value log
    refine ⟨.done, done.1.lowered amount, done.1, done.2, amount,
      congrArg (fun done : Unit × Session × Log => some (Reply.done, done.2)) heq, rfl, rfl, ?_,
      hlowerable⟩
    exact h.consistent.devices rfl
      (hmonitor.hostWrite (t := []) p w address value ⟨h.consistent.punctual, rfl⟩ log)
  | interrupt p i =>
    refine ⟨_, _, _, _, amount, rfl, rfl, ?_, h.consistent.congr rfl rfl, h.lowerable⟩
    rw [h.eq]
    rfl
  | replaceCpu p cpu =>
    refine ⟨_, _, _, _, amount, rfl, rfl, ?_, h.consistent.congr rfl rfl, h.lowerable⟩
    rw [h.eq]
    rfl
  | boot entry9 entry7 =>
    refine ⟨_, _, _, _, amount, rfl, rfl, ?_, h.consistent.congr rfl rfl, h.lowerable⟩
    rw [h.eq]
    rfl
  | prepare cycles =>
    obtain ⟨hscheduled, hlowerable⟩ := h.lowerable.schedule_lowered Event.pause hdelay
    have hpunctual : System.Punctual 1
        { t.system with queue := t.system.queue.schedule .pause cycles.toInt64 } :=
      h.consistent.punctual.schedule hbelow Event.pause_known fun hpause => absurd rfl hpause
    refine ⟨_, _, _, _, amount, rfl, rfl, ?_, h.consistent.devices rfl
      ⟨hpunctual.congr rfl, EventQueue.now_schedule _ _ _⟩, hlowerable⟩
    rw [h.eq]
    exact eq_of_parts rfl
      (congrArg (fun queue => { (t.lowered amount).system with queue, running := true }) hscheduled)
      rfl

/-- **All requests to both sessions.** -/
theorem performAll {requests : List Request} (h : Tandem amount s t)
    (hbounds : Request.InBounds requests t log) :
    ∃ replies s' t' log' amount', Request.performAll advance? requests s log =
        some (replies, s', log') ∧
      Request.performAll advanceUnlowered? requests t log = some (replies, t', log') ∧
      Tandem amount' s' t' ∧ t'.InRange := by
  induction requests generalizing s t log amount with
  | nil => exact ⟨[], s, t, log, amount, rfl, rfl, h, hbounds⟩
  | cons request requests ih =>
    obtain ⟨inRange, hdelay, hrest⟩ := hbounds
    obtain ⟨reply, s₁, t₁, log₁, amount₁, hs, ht, htandem⟩ := h.perform inRange hdelay log
    rw [ht] at hrest
    obtain ⟨replies, s', t', log', amount', hs', ht', hend⟩ := ih htandem hrest
    refine ⟨reply :: replies, s', t', log', amount', ?_, ?_, hend⟩
    · rw [Request.performAll, hs]
      show (Request.performAll advance? requests s₁ log₁).bind _ = _
      rw [hs']
      rfl
    · rw [Request.performAll, ht]
      show (Request.performAll advanceUnlowered? requests t₁ log₁).bind _ = _
      rw [ht']
      rfl

/-- What the two sessions have in common and in what they differ. -/
theorem aheadBy (h : Tandem amount s t) (inRange : t.InRange) : AheadBy amount.toNat s t where
  cpus := by
    rw [h.eq]
    rfl
  devices := by
    rw [h.eq]
    rfl
  registers p r := by
    rw [h.eq]
    exact (System.ioValue_lowered p r).symm
  reads p w address log := by
    have hread := (h.onBoard (h.now_lt inRange) p
      ((lockstep_lowering amount).read p w address) log).1
    exact (congrArg Prod.fst hread).symm
  now := by
    have hnow := h.lowerable.toNat_now
    have hclock := h.lowerable.clock
    rw [h.eq]
    show t.system.queue.now.toNat = (t.system.queue.lowered amount).now.toNat + _
    omega
  clocks p := by
    have hle := h.le_clocks p
    have hget : s.clocks.get p = t.clocks.get p - amount := by
      rw [h.eq]
      exact FreeRun.get_map _ _ p
    rw [hget, EventQueue.toNat_sub_amount hle]
    omega
  events := by
    rw [h.eq]
    show _ = (t.system.queue.events.map (Pending.lower · amount.toInt64)).map _
    rw [List.map_map]
    refine List.map_congr_left fun e he => ?_
    have htime := h.lowerable.toInt_time he
    show _ = (e.kind, (e.lower amount.toInt64).time.toInt + (amount.toNat : ℤ))
    rw [htime, sub_add_cancel]

end Tandem

/-- **Lowering the clocks shows nowhere.** Whatever is asked of a session that a console can come
to, and of a copy of it that never lowers its clocks: both answer, and alike, the same events fire
in the same order and equally late, and both write the same log. In the end, and so after every
request, they are the same but for the clocks, all of which are ahead by one amount in the copy: the
queue's, both processors' and the times of the events that wait. -/
theorem rebase_invisible (reachable : Reachable s) (requests : List Request) (log : Log)
    (inBounds : Request.InBounds requests s log) :
    ∃ replies lowering unlowered log' ahead,
      Request.performAll advance? requests s log = some (replies, lowering, log') ∧
      Request.performAll advanceUnlowered? requests s log = some (replies, unlowered, log') ∧
      AheadBy ahead lowering unlowered := by
  obtain ⟨replies, lowering, unlowered, log', amount, hlowering, hunlowered, htandem, inRange⟩ :=
    (Tandem.refl reachable.consistent reachable.sound.2).performAll inBounds
  exact ⟨replies, lowering, unlowered, log', amount.toNat, hlowering, hunlowered,
    htandem.aheadBy inRange⟩

/-- A long sleep, at the end of which the clocks are lowered, and then a timer that is switched on
and runs over. -/
def longSleep : List Request :=
  [.prepare 0xF0000000, .advance, .advance, .write .arm9 .half 0x4000102 0x80, .advance, .advance,
    .read .arm9 .half 0x4000100]

theorem rebase_invisible_longSleep :
    Reachable asleep ∧ Request.InBounds longSleep asleep {} ∧
    ∃ replies lowering unlowered log',
      Request.performAll advance? longSleep asleep {} = some (replies, lowering, log') ∧
      Request.performAll advanceUnlowered? longSleep asleep {} =
        some (replies, unlowered, log') ∧
      AheadBy 0xF0000000 lowering unlowered := by
  have hbounds : Request.InBounds longSleep asleep {} := by decide +kernel
  obtain ⟨replies, lowering, unlowered, log', ahead, hlowering, hunlowered, hahead⟩ :=
    rebase_invisible reachable_asleep longSleep {} hbounds
  -- The clocks of one were lowered on the way, those of the other were not.
  have hlow : (Request.performAll advance? longSleep asleep {}).map (·.2.1.now) =
      some 131072 := by decide +kernel
  have hhigh : (Request.performAll advanceUnlowered? longSleep asleep {}).map (·.2.1.now) =
      some (0xF0000000 + 131072) := by decide +kernel
  rw [hlowering] at hlow
  rw [hunlowered] at hhigh
  have hlowered : lowering.now = 131072 := Option.some.inj hlow
  have hraised : unlowered.now = 0xF0000000 + 131072 := Option.some.inj hhigh
  have hnow := hahead.now
  rw [hlowered, hraised] at hnow
  obtain rfl : ahead = 0xF0000000 := by
    change 0xF0020000 = 0x20000 + ahead at hnow
    omega
  exact ⟨reachable_asleep, hbounds, replies, lowering, unlowered, log', hlowering, hunlowered,
    hahead⟩

end Handheld.Console.Session
