import Mathlib.Logic.Function.Iterate
import NesMachine.Proofs.Console.Accounting
import NesMachine.Proofs.Console.Faults
import NesMachine.Proofs.Cpu.Composition
import NesMachine.Proofs.Cpu.FailedWrites

/-!
# Steps and ticks in lock step

A step is a tick with the interrupt timing around it.  As long as the timer does not fire, the
timing changes only the timer and the interrupt gate, neither of which a tick looks at.

* `paced`: a console with another gate and another timer;
* `step_cases`, `tick_paced`: what one step makes of its tick, and that ticks ignore the timing;
* `not_firing_of_rooms`: a timer with room for seven cycles a step does not fire;
* `FailedTick`: what a failed tick leaves;
* `steps_follow_ticks`: any number of steps and of ticks, and the failures among them.
-/

namespace NesMachine

namespace Console

variable {console left : Console} {fault : Fault} {n : Nat}

/-- The timer fires during the next step. -/
def Firing (console : Console) : Prop :=
  ∃ cycles executed, tick console = .ok cycles executed ∧ console.vblank.fires cycles = true

/-- The console with another gate and another timer. -/
def paced (console : Console) (gate : NmiGate) (timer : VblankTimer) : Console :=
  { console with nmi := gate, vblank := timer }

theorem paced_paced (console : Console) (gate gate' : NmiGate) (timer timer' : VblankTimer) :
    (console.paced gate timer).paced gate' timer' = console.paced gate' timer' := rfl

/-! ### One step and one tick -/

/-- A failed tick ends its step. -/
theorem step_eq_error_of_tick (h : tick console = .error fault left) :
    step console = .error fault left := by
  rw [step, Attempt.bind_apply, stepEvents, Attempt.bind_apply, h]

/-- A step and its tick fail together, or else the tick takes at most seven cycles, and as long as
these do not make the timer fire, the step adds to it what only concerns the timing. -/
theorem step_cases (console : Console) :
    (∃ fault left, tick console = .error fault left ∧ step console = .error fault left ∧
      left.nmi = console.nmi ∧ left.vblank = console.vblank) ∨
    ∃ cycles executed, tick console = .ok cycles executed ∧ cycles ≤ 7 ∧
      (console.vblank.fires cycles = false → ∃ gate,
        step console = .ok cycles (executed.paced gate (console.vblank.advance cycles))) := by
  cases hexecute : Board.execute console.board with
  | error e board =>
    have htick := tick_eq_error.mpr ⟨board, hexecute, rfl⟩
    exact .inl ⟨e, _, htick, step_eq_error_of_tick htick, rfl, rfl⟩
  | ok instruction board =>
    refine .inr ⟨_, _, tick_eq_ok.mpr ⟨instruction, board, hexecute, rfl, rfl⟩,
      (Board.execute_cycles_bounds hexecute).2, ?_⟩
    intro hquiet
    have hevents := stepEvents_of_execute hexecute
    rw [hquiet, if_neg Bool.false_ne_true] at hevents
    exact ⟨_, step_eq_ok.mpr ⟨_, hevents, rfl⟩⟩

/-- While the timer does not fire, a step delivers what a tick delivers, and only the timing differs
afterwards. -/
theorem step_of_not_firing (h : ¬ console.Firing) :
    step.outcome console = tick.outcome console ∧
      ∃ gate timer, step.after console = (tick.after console).paced gate timer := by
  unfold Attempt.outcome Attempt.after
  obtain ⟨fault, left, htick, hstep, -, -⟩ | ⟨cycles, executed, htick, -, hstep⟩ :=
    step_cases console
  · rw [htick, hstep]
    exact ⟨rfl, left.nmi, left.vblank, rfl⟩
  · have hquiet := Bool.eq_false_iff.mpr fun hfires => h ⟨cycles, executed, htick, hfires⟩
    obtain ⟨gate, hstep⟩ := hstep hquiet
    rw [htick, hstep]
    exact ⟨rfl, gate, _, rfl⟩

/-- A tick ignores the timing. -/
theorem tick_paced (console : Console) (gate : NmiGate) (timer : VblankTimer) :
    tick.outcome (console.paced gate timer) = tick.outcome console ∧
      tick.after (console.paced gate timer) = (tick.after console).paced gate timer := by
  have hboard : (console.paced gate timer).board = console.board := rfl
  cases hexecute : Board.execute console.board with
  | error e board =>
    have htick := tick_eq_error.mpr ⟨board, hexecute, rfl⟩
    rw [← hboard] at hexecute
    have hpaced := tick_eq_error.mpr ⟨board, hexecute, rfl⟩
    rw [Attempt.outcome, Attempt.outcome, Attempt.after, Attempt.after, htick, hpaced]
    exact ⟨rfl, rfl⟩
  | ok instruction board =>
    have htick := tick_eq_ok.mpr ⟨instruction, board, hexecute, rfl, rfl⟩
    rw [← hboard] at hexecute
    have hpaced := tick_eq_ok.mpr ⟨instruction, board, hexecute, rfl, rfl⟩
    rw [Attempt.outcome, Attempt.outcome, Attempt.after, Attempt.after, htick, hpaced]
    exact ⟨rfl, rfl⟩

/-! ### Runs -/

/-- While the timer does not fire, ticks lead where steps lead, but for the timing. -/
theorem ticks_eq_paced (hquiet : ∀ i < n, ¬ (step.after^[i] console).Firing) :
    tick.after^[n] console = (step.after^[n] console).paced console.nmi console.vblank := by
  induction n with
  | zero => rfl
  | succ n ih =>
    have hbefore := ih fun i hi => hquiet i (Nat.lt_succ_of_lt hi)
    obtain ⟨-, gate, timer, hstep⟩ := step_of_not_firing (hquiet n (Nat.lt_succ_self n))
    rw [Function.iterate_succ_apply', Function.iterate_succ_apply', hbefore, hstep,
      (tick_paced _ _ _).2, paced_paced]

/-- A step whose timer has room for seven cycles uses at most those. -/
theorem not_firing_of_room (hroom : console.vblank.elapsed + 7 ≤ console.vblank.threshold) :
    ¬ console.Firing ∧ (step.after console).vblank.threshold = console.vblank.threshold ∧
      (step.after console).vblank.elapsed ≤ console.vblank.elapsed + 7 := by
  unfold Firing Attempt.after
  obtain ⟨fault, left, htick, hstep, -, hvblank⟩ | ⟨cycles, executed, htick, hcycles, hstep⟩ :=
    step_cases console
  · rw [htick, hstep]
    refine ⟨?_, congrArg VblankTimer.threshold hvblank, ?_⟩
    · intro h
      obtain ⟨cycles, executed, hok, -⟩ := h
      cases hok
    · exact Nat.le_add_right_of_le (Nat.le_of_eq (congrArg VblankTimer.elapsed hvblank))
  · have hquiet : ¬ console.vblank.fires cycles = true := by
      rw [VblankTimer.fires, decide_eq_true_iff]
      omega
    obtain ⟨gate, hstep⟩ := hstep (Bool.eq_false_iff.mpr hquiet)
    rw [htick, hstep]
    refine ⟨?_, rfl, ?_⟩
    · intro h
      obtain ⟨cycles', executed', hok, hfires⟩ := h
      cases hok
      exact hquiet hfires
    · show (console.vblank.advance cycles).elapsed ≤ _
      rw [(VblankTimer.advance_of_not_fires hquiet).2]
      exact Nat.add_le_add_left hcycles _

/-- The timer does not fire while it has room for seven cycles a step. -/
theorem not_firing_of_rooms
    (hroom : console.vblank.elapsed + 7 * n ≤ console.vblank.threshold) :
    ∀ i < n, ¬ (step.after^[i] console).Firing := by
  -- the time that the first steps have used
  have hused : ∀ i < n, (step.after^[i] console).vblank.threshold = console.vblank.threshold ∧
      (step.after^[i] console).vblank.elapsed ≤ console.vblank.elapsed + 7 * i := by
    intro i
    induction i with
    | zero => exact fun _ => ⟨rfl, Nat.le_refl _⟩
    | succ i ih =>
      intro hi
      obtain ⟨hthreshold, helapsed⟩ := ih (by omega)
      have hnext : (step.after^[i] console).vblank.elapsed + 7 ≤
          (step.after^[i] console).vblank.threshold := by omega
      obtain ⟨-, hthreshold', helapsed'⟩ := not_firing_of_room hnext
      rw [Function.iterate_succ_apply']
      omega
  intro i hi
  obtain ⟨hthreshold, helapsed⟩ := hused i hi
  exact (not_firing_of_room (by omega)).1

/-! ### Failed ticks -/

/-- What a tick leaves that fails. -/
structure FailedTick (console left : Console) : Prop where
  trace : left.trace = console.trace
  total : left.cpu.cycles = console.cpu.cycles
  vblank : left.vblank = console.vblank
  nmi : left.nmi = console.nmi
  /-- The bus has seen reads, and pushes of the program. -/
  reaches : Board.Reaches (Board.StackSlot console.cpu.regs) console.bus left.bus
  /-- The vertical blanking of the status register is as it was, unless a push has changed it. -/
  inVblank : left.bus.inVblank = console.bus.inVblank ∨
    ∃ a value bus, Board.StackSlot console.cpu.regs a ∧
      Board.Reaches (Board.StackSlot console.cpu.regs) console.bus bus ∧
      (bus.write a value).inVblank ≠ bus.inVblank
  /-- As the console is wired, no push does. -/
  inVblank_wired : console.bus.Wired → left.bus.inVblank = console.bus.inVblank

end Console

namespace SystemBus

variable {bus bus' : SystemBus} {W : UInt16 → Prop}

theorem inVblank_read (bus : SystemBus) (a : UInt16) :
    (bus.read a).2.inVblank = bus.inVblank := by
  rw [inVblank, inVblank, peek, peek, space_read]

/-- Only a write changes vertical blanking. -/
theorem inVblank_reaches (h : Board.Reaches W bus bus') :
    bus'.inVblank = bus.inVblank ∨ ∃ a value mid, W a ∧ Board.Reaches W bus mid ∧
      (mid.write a value).inVblank ≠ mid.inVblank := by
  induction h with
  | refl => exact .inl rfl
  | @tail mid last hmid haccess ih =>
    obtain hsame | hchanged := ih
    · cases haccess with
      | read hread =>
        cases hread
        exact .inl ((inVblank_read _ _).trans hsame)
      | @write a value _ _ ha hwrite =>
        cases hwrite
        by_cases hkept : (mid.write a value).inVblank = mid.inVblank
        · exact .inl (hkept.trans hsame)
        · exact .inr ⟨a, value, mid, ha, hmid, hkept⟩
    · exact .inr hchanged

/-- The stack does not lie on the status register. -/
theorem Wired.inVblank_reaches_stack {regs : Registers} (h : bus.Wired)
    (hreach : Board.Reaches (Board.StackSlot regs) bus bus') : bus'.inVblank = bus.inVblank := by
  have hstatus : IsStorage statusAddress := by decide
  have howner := h.owner_of_storage hstatus
  have hpeek := h.peek_reaches (b := statusAddress) (by rw [howner]; decide) ?_ hreach
  · rw [inVblank, inVblank, hpeek]
  · intro a ha
    obtain ⟨slot, -, rfl⟩ := ha
    rw [howner, h.owner_of_storage (isStorage_slot slot)]
    exact slot_ne slot (by decide)

end SystemBus

namespace Console

variable {console left : Console} {fault : Fault}

/-- A failed tick has booked nothing, and on the bus it has at most pushed. -/
theorem failedTick (h : tick console = .error fault left) : FailedTick console left := by
  obtain ⟨board, hexecute, rfl⟩ := tick_eq_error.mp h
  have hreaches := Board.execute_error_reaches hexecute
  have hspared := Board.booked_execute.spares_total console.board fault
  rw [Attempt.outcome, Attempt.after, hexecute] at hspared
  exact ⟨rfl, hspared rfl, rfl, rfl, hreaches, SystemBus.inVblank_reaches hreaches,
    fun hwired => hwired.inVblank_reaches_stack hreaches⟩

/-- **Steps follow ticks.**  As long as the timer does not fire, steps and ticks deliver the same
results and lead to the same console, but for the interrupt gate and the timer.  A failed tick, in a
step too, has changed neither trace nor cycle total nor timing, and vertical blanking only by a push
of the program. -/
theorem steps_follow_ticks (console : Console) :
    (∀ n, (∀ i < n, ¬ (step.after^[i] console).Firing) →
      (∀ i < n, step.outcome (step.after^[i] console) = tick.outcome (tick.after^[i] console)) ∧
      tick.after^[n] console =
        { step.after^[n] console with nmi := console.nmi, vblank := console.vblank }) ∧
    ∀ fault left, tick console = .error fault left →
      step console = .error fault left ∧ FailedTick console left := by
  refine ⟨?_, ?_⟩
  · intro n hquiet
    refine ⟨?_, ticks_eq_paced hquiet⟩
    intro i hi
    rw [ticks_eq_paced fun j hj => hquiet j (hj.trans hi), (tick_paced _ _ _).1]
    exact (step_of_not_firing (hquiet i hi)).1
  · intro fault left h
    exact ⟨step_eq_error_of_tick h, failedTick h⟩

/-- A hundred steps from a no-operation on, none of which fills the frame, and a break with room for
two bytes only, which has pushed them when it fails. -/
theorem poised_consoles_follow :
    (∀ i < 100, step.outcome (step.after^[i] (poised 0xEA 2)) =
      tick.outcome (tick.after^[i] (poised 0xEA 2))) ∧
    ∃ left, tick (poised 0x00 2) = .error (.stackOverflow 0) left ∧
      step (poised 0x00 2) = .error (.stackOverflow 0) left ∧ left.cpu.cycles = 0 ∧
      left.bus.inVblank = true := by
  have hroom : (poised 0xEA 2).vblank.elapsed + 7 * 100 ≤ (poised 0xEA 2).vblank.threshold := by
    rw [show (poised 0xEA 2).vblank = .start Settings.default.region.cyclesPerFrame from rfl]
    decide
  refine ⟨((steps_follow_ticks (poised 0xEA 2)).1 100 (not_firing_of_rooms (n := 100) hroom)).1, ?_⟩
  have hdue : dueFault (poised 0x00 2).cpu.regs 0x00 = some (.stackOverflow 0) := by
    unfold dueFault
    rw [Opcode.decode_eq_find?]
    rfl
  obtain ⟨left, htick⟩ := tick_error_iff.mpr
    ((congrArg (dueFault (poised 0x00 2).cpu.regs) (read_poised 0x00 2)).trans hdue)
  obtain ⟨hstep, hfailed⟩ := (steps_follow_ticks (poised 0x00 2)).2 _ left htick
  have hstart := wired_powerOn Settings.default parkingCartridge
  have hbus : (poised 0x00 2).bus =
      (powerOn Settings.default parkingCartridge).bus.poke 0x0200 0x00 := rfl
  have hflag : (poised 0x00 2).bus.inVblank = true := by
    rw [← inVblank_powerOn Settings.default parkingCartridge, hbus, SystemBus.inVblank,
      hstart.peek_poke, if_neg (by decide), SystemBus.inVblank]
  exact ⟨left, htick, hstep, hfailed.total, (hfailed.inVblank_wired (hstart.poke _ _)).trans hflag⟩

end Console

end NesMachine
