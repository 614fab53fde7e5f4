import Mathlib.Algebra.Group.Nat.Even
import Mathlib.Algebra.Ring.Nat
import Mathlib.Data.List.DropRight
import NesMachine.Proofs.Console.Idle
import NesMachine.Proofs.Cpu.Composition

/-!
# Cycles and frames

A console counts in four places: the processor has its cycle total, each step delivers the cycles of
its instruction, the timer has the cycles since it last fired, and the status register turns over when
it fires.  This file ties them together along a run of steps and resets.

* `Move` and `Moves`: a successful step or reset, and a run of them from a console;
* `Move.returnedBy`, `Move.sinceFire`, `Move.entries`, `Move.resets`, `Move.fires`: what a list of moves
  adds up to;
* `Balanced`: the cycle total and the timer agree with the moves so far, which every move keeps;
* `moves_account`: what the counters show after a run from a console that has just been switched on,
  and `two_frames_and_reset_account`: two frames of a program that waits.
-/

namespace NesMachine

/-- A successful reset. -/
structure ResetTaken where
  before : Console
  after : Console
  resets : Console.reset before = .ok () after

/-- A successful step or reset. -/
inductive Move where
  | step (taken : StepTaken)
  | reset (taken : ResetTaken)

instance (taken : StepTaken) : Decidable taken.Enters :=
  decidable_of_iff _ taken.enters_iff.symm

namespace Move

def before : Move → Console
  | step taken => taken.before
  | reset taken => taken.before

def after : Move → Console
  | step taken => taken.after
  | reset taken => taken.after

/-- The cycles that a move delivers; a reset delivers none. -/
def returned : Move → Nat
  | step taken => taken.instruction.cycles
  | reset _ => 0

/-- The timer fires. -/
def firing : Move → Bool
  | step taken => decide taken.Fires
  | reset _ => false

/-- An interrupt is taken. -/
def entering : Move → Bool
  | step taken => decide taken.Enters
  | reset _ => false

def resetting : Move → Bool
  | step _ => false
  | reset _ => true

/-- A store of the move reaches the status register or a copy of it. -/
def StoresStatus : Move → Prop
  | step taken =>
    ∃ a, taken.before.board.StoresAt a ∧ SystemBus.fold a = SystemBus.statusAddress
  | reset _ => False

/-! ### Lists of moves -/

/-- The cycles that moves deliver. -/
def returnedBy (moves : List Move) : Nat := (moves.map returned).sum

/-- The moves since the timer last fired, or since the start. -/
def sinceFire (moves : List Move) : List Move := moves.rtakeWhile fun move => !move.firing

/-- How many interrupts are taken. -/
def entries (moves : List Move) : Nat := moves.countP entering

/-- How many resets there are. -/
def resets (moves : List Move) : Nat := moves.countP resetting

/-- How often the timer fires. -/
def fires (moves : List Move) : Nat := moves.countP firing

theorem returnedBy_concat (moves : List Move) (move : Move) :
    returnedBy (moves ++ [move]) = returnedBy moves + move.returned := by
  simp [returnedBy]

theorem entries_concat (moves : List Move) (move : Move) :
    entries (moves ++ [move]) = entries moves + move.entering.toNat := by
  cases h : move.entering <;> simp [entries, h]

theorem resets_concat (moves : List Move) (move : Move) :
    resets (moves ++ [move]) = resets moves + move.resetting.toNat := by
  cases h : move.resetting <;> simp [resets, h]

theorem fires_concat (moves : List Move) (move : Move) :
    fires (moves ++ [move]) = fires moves + move.firing.toNat := by
  cases h : move.firing <;> simp [fires, h]

theorem returnedBy_append (moves later : List Move) :
    returnedBy (moves ++ later) = returnedBy moves + returnedBy later := by
  rw [returnedBy, List.map_append, List.sum_append]
  rfl

theorem entries_append (moves later : List Move) :
    entries (moves ++ later) = entries moves + entries later := List.countP_append

theorem resets_append (moves later : List Move) :
    resets (moves ++ later) = resets moves + resets later := List.countP_append

theorem fires_append (moves later : List Move) :
    fires (moves ++ later) = fires moves + fires later := List.countP_append

theorem resets_steps (records : List StepTaken) : resets (records.map .step) = 0 := by
  rw [resets, List.countP_map, List.countP_eq_zero]
  intro taken _ hresetting
  cases hresetting

theorem sinceFire_concat (moves : List Move) (move : Move) :
    sinceFire (moves ++ [move]) = if move.firing then [] else sinceFire moves ++ [move] := by
  rw [sinceFire, List.rtakeWhile_concat]
  cases move.firing <;> rfl

/-- The moves after the last one that fires. -/
theorem sinceFire_of_quiet {earlier middle : List Move} {move : Move} (hmove : move.firing = true)
    (hmiddle : ∀ other ∈ middle, other.firing = false) :
    sinceFire (earlier ++ move :: middle) = middle := by
  induction middle using List.reverseRecOn with
  | nil => rw [sinceFire_concat, if_pos hmove]
  | append_singleton middle other ih =>
    have hother := hmiddle other (by simp)
    rw [← List.cons_append, ← List.append_assoc, sinceFire_concat, hother, if_neg Bool.false_ne_true,
      ih fun o ho => hmiddle o (List.mem_append_left _ ho)]

end Move

/-! ### What a move does to the counters -/

theorem StepTaken.cycles_after (taken : StepTaken) : taken.after.cpu.cycles =
    taken.before.cpu.cycles + taken.instruction.cycles
      + if taken.Enters then interruptCycles else 0 := by
  have hexecuted : taken.executed.cpu.cycles =
      taken.before.cpu.cycles + taken.instruction.cycles := Board.execute_cycles taken.executes
  by_cases henters : taken.Enters
  · obtain ⟨-, bus₁, bus₂, bus₃, bus₄, low, high, -, -, -, -, -, hcpu⟩ := Board.nmi_eq_ok.mp henters
    have hentered := congrArg Cpu.cycles hcpu
    rw [if_pos henters, ← hexecuted]
    exact hentered
  · rw [cpu_after_of_not_enters henters, hexecuted, if_neg henters]
    rfl

/-- A reset takes as many cycles as an interrupt, and changes nothing outside the processor. -/
theorem ResetTaken.after_eq (taken : ResetTaken) (hwired : taken.before.bus.Wired) :
    taken.after.cpu.cycles = taken.before.cpu.cycles + interruptCycles ∧
      taken.after.vblank = taken.before.vblank ∧ taken.after.bus = taken.before.bus := by
  obtain ⟨board, hreset, hafter⟩ := Console.onBoard_eq_ok.mp taken.resets
  obtain ⟨low, high, bus, hlow, hhigh, hcpu⟩ := Board.reset_eq_ok.mp hreset
  -- the vector lies in the program, so that reading it leaves the bus alone
  obtain ⟨-, rfl⟩ := SystemBus.read_storage_ok hwired (SystemBus.isStorage_program (by decide)) hlow
  obtain ⟨-, hbus⟩ := SystemBus.read_storage_ok hwired (SystemBus.isStorage_program (by decide)) hhigh
  rw [hafter]
  exact ⟨congrArg Cpu.cycles hcpu, rfl, hbus⟩

/-- Unless the instruction stores there, it leaves the status register as it was. -/
theorem StepTaken.executed_status {taken : StepTaken} (hwired : taken.before.bus.Wired)
    (h : ¬ (Move.step taken).StoresStatus) :
    taken.executed.bus.peek SystemBus.statusAddress =
      taken.before.bus.peek SystemBus.statusAddress := by
  have hstatus : SystemBus.fold SystemBus.statusAddress = SystemBus.statusAddress := by decide
  refine hwired.peek_reaches ?_ ?_ (Board.execute_reaches taken.executes)
  · rw [hwired.owner_eq_fold, hstatus]
    decide
  · intro a ha
    rw [hwired.owner_eq_fold, hwired.owner_eq_fold, hstatus]
    rcases ha with ⟨slot, -, rfl⟩ | hstores
    · rw [(SystemBus.isStorage_slot slot).fold_eq]
      exact SystemBus.slot_ne slot (by decide)
    · exact fun halias => h ⟨a, hstores, halias⟩

namespace Move

variable {move : Move}

theorem wired_after (hwired : move.before.bus.Wired) : move.after.bus.Wired := by
  cases move with
  | step taken => exact StepTaken.after_wired hwired
  | reset taken =>
    obtain ⟨-, -, hbus⟩ := taken.after_eq hwired
    show taken.after.bus.Wired
    rw [hbus]
    exact hwired

/-- A move adds the cycles that it delivers to the total, and those of an interrupt or a reset. -/
theorem cycles_after (hwired : move.before.bus.Wired) : move.after.cpu.cycles =
    move.before.cpu.cycles + move.returned + interruptCycles * move.entering.toNat
      + interruptCycles * move.resetting.toNat := by
  cases move with
  | step taken =>
    show taken.after.cpu.cycles = _
    rw [taken.cycles_after]
    by_cases henters : taken.Enters
    · simp [before, returned, entering, resetting, henters]
    · simp [before, returned, entering, resetting, henters]
  | reset taken => exact (taken.after_eq hwired).1

/-- The timer counts the cycles that a move delivers, and starts again when it fires. -/
theorem vblank_after (hwired : move.before.bus.Wired) : move.after.vblank =
    ⟨if move.firing then 0 else move.before.vblank.elapsed + move.returned,
      move.before.vblank.threshold⟩ := by
  cases move with
  | step taken =>
    show taken.after.vblank = _
    rw [taken.after_vblank, VblankTimer.advance]
    by_cases hfires : taken.before.vblank.fires taken.instruction.cycles = true
    · rw [if_pos hfires, firing, decide_eq_true (show taken.Fires from hfires)]
      rfl
    · rw [if_neg hfires, firing, decide_eq_false (show ¬ taken.Fires from hfires)]
      rfl
  | reset taken => exact (taken.after_eq hwired).2.1

/-- The timer fires as soon as more cycles than its threshold have passed. -/
theorem firing_iff (hmove : move.before.vblank.elapsed ≤ move.before.vblank.threshold) :
    move.firing = true ↔
      move.before.vblank.threshold < move.before.vblank.elapsed + move.returned := by
  cases move with
  | step taken =>
    rw [firing, decide_eq_true_iff, StepTaken.Fires, VblankTimer.fires, decide_eq_true_iff]
    rfl
  | reset taken =>
    refine ⟨fun h => ?_, fun h => ?_⟩
    · cases h
    · exact absurd hmove (Nat.not_le_of_lt h)

/-- The vertical blanking of the status register turns over when the timer fires. -/
theorem inVblank_after (hwired : move.before.bus.Wired) (h : ¬ move.StoresStatus) :
    move.after.bus.inVblank = (move.before.bus.inVblank ^^ move.firing) := by
  have hflip (status : UInt8) : ((status ^^^ 0x80) &&& 0x80 != 0) = !(status &&& 0x80 != 0) := by
    obtain ⟨bits⟩ := status
    revert bits
    decide +kernel
  cases move with
  | step taken =>
    have hstatus := taken.peek_status hwired
    rw [StepTaken.executed_status hwired h] at hstatus
    show taken.after.bus.inVblank = (taken.before.bus.inVblank ^^ _)
    rw [SystemBus.inVblank, SystemBus.inVblank, hstatus]
    by_cases hfires : taken.Fires
    · rw [if_pos hfires, hflip, firing, decide_eq_true hfires, Bool.xor_true]
    · rw [if_neg hfires, firing, decide_eq_false hfires, Bool.xor_false]
  | reset taken =>
    obtain ⟨-, -, hbus⟩ := taken.after_eq hwired
    show taken.after.bus.inVblank = (taken.before.bus.inVblank ^^ false)
    rw [hbus, Bool.xor_false]

/-- No move delivers more than seven cycles. -/
theorem returned_le (move : Move) : move.returned ≤ 7 := by
  cases move with
  | step taken => exact (Board.execute_cycles_bounds taken.executes).2
  | reset taken => exact Nat.zero_le 7

end Move

namespace Console

/-! ### Runs -/

/-- A run of moves with button changes between them. -/
inductive Moves : Console → List Move → Console → Prop
  | start (console : Console) : Moves console [] console
  | button {console final pressed : Console} {moves : List Move} (pad : Nat) (button : UInt8)
      (on : Bool) :
      Moves console moves final → final.setButton pad button on = some pressed →
        Moves console moves pressed
  | move (move : Move) {console : Console} {moves : List Move} :
      Moves console moves move.before → Moves console (moves ++ [move]) move.after

variable {console start middle final : Console} {moves : List Move} {records : List StepTaken}

/-- A reset succeeds.  It changes only the processor, and takes the vector from the program. -/
theorem exists_resetTaken (hwired : console.bus.Wired) :
    ∃ taken : ResetTaken, taken.before = console ∧ taken.after.bus = console.bus ∧
      taken.after.cpu.regs = { console.cpu.regs with
        s := 0xFD
        p := .ofByte (console.cpu.regs.p.byte ||| Flag.interruptDisable)
        pc := wordOf (console.bus.peek resetVector) (console.bus.peek (resetVector + 1)) } := by
  have hlow := hwired.bus_read (SystemBus.isStorage_program (a := resetVector) (by decide))
  have hhigh := hwired.bus_read (SystemBus.isStorage_program (a := resetVector + 1) (by decide))
  have hreset : Board.reset console.board =
      .ok () ⟨⟨{ console.cpu.regs with
          s := 0xFD
          p := .ofByte (console.cpu.regs.p.byte ||| Flag.interruptDisable)
          pc := wordOf (console.bus.peek resetVector) (console.bus.peek (resetVector + 1)) },
        console.cpu.cycles + interruptCycles⟩, console.bus⟩ :=
    Board.reset_eq_ok.mpr ⟨_, _, _, hlow, hhigh, rfl⟩
  exact ⟨⟨console, _, onBoard_eq_ok.mpr ⟨_, hreset, rfl⟩⟩, rfl, rfl, rfl⟩

/-- The run before a move. -/
theorem Moves.before {earlier later : List Move} {move : Move}
    (h : Moves start (earlier ++ move :: later) final) : Moves start earlier move.before := by
  generalize hmoves : earlier ++ move :: later = moves at h
  induction h generalizing later with
  | start console => simp at hmoves
  | button pad button on _ _ ih => exact ih hmoves
  | move last hbefore ih =>
    obtain rfl | ⟨other, later, rfl⟩ := List.eq_nil_or_concat later
    · obtain ⟨rfl, hlast⟩ := List.append_inj' hmoves rfl
      obtain ⟨rfl, -⟩ := List.cons.inj hlast
      exact hbefore
    · rw [List.concat_eq_append, ← List.cons_append, ← List.append_assoc] at hmoves
      exact ih (List.append_inj' hmoves rfl).1

/-- A run goes on with steps. -/
theorem Moves.drives (h : Moves start moves middle) (hdrives : Drives middle records final) :
    Moves start (moves ++ records.map .step) final := by
  induction hdrives generalizing moves with
  | done console =>
    rw [List.map_nil, List.append_nil]
    exact h
  | button pad button on hpressed _ ih => exact ih (h.button pad button on hpressed)
  | step taken _ ih =>
    rw [List.map_cons, List.append_cons]
    exact ih (.move (.step taken) h)

/-! ### The books -/

/-- After the given moves, the cycle total and the timer of a console with frames of the given length
are what the moves add up to. -/
structure Balanced (length : Nat) (moves : List Move) (console : Console) : Prop where
  wired : console.bus.Wired
  total : console.cpu.cycles = Move.returnedBy moves + interruptCycles * Move.entries moves
    + interruptCycles * Move.resets moves
  threshold : console.vblank.threshold = length
  elapsed : console.vblank.elapsed = Move.returnedBy (Move.sinceFire moves)
  elapsed_le : console.vblank.elapsed ≤ length

variable {length : Nat}

theorem Balanced.button {pressed : Console} {pad : Nat} {button : UInt8} {on : Bool}
    (h : Balanced length moves final) (hpressed : final.setButton pad button on = some pressed) :
    Balanced length moves pressed := by
  obtain ⟨hcpu, hspace, -, hvblank⟩ := setButton_eq_some hpressed
  refine ⟨?_, ?_, ?_, ?_, ?_⟩
  · rw [SystemBus.Wired, hspace]
    exact h.wired
  · rw [hcpu]
    exact h.total
  · rw [hvblank]
    exact h.threshold
  · rw [hvblank]
    exact h.elapsed
  · rw [hvblank]
    exact h.elapsed_le

theorem Balanced.move {move : Move} (h : Balanced length moves move.before) :
    Balanced length (moves ++ [move]) move.after := by
  have hvblank := Move.vblank_after h.wired
  refine ⟨Move.wired_after h.wired, ?_, ?_, ?_, ?_⟩
  · rw [Move.cycles_after h.wired, h.total, Move.returnedBy_concat, Move.entries_concat,
      Move.resets_concat, Nat.mul_add, Nat.mul_add]
    omega
  · rw [hvblank]
    exact h.threshold
  · rw [hvblank, Move.sinceFire_concat, h.elapsed]
    cases move.firing with
    | true => rfl
    | false =>
      rw [if_neg Bool.false_ne_true, if_neg Bool.false_ne_true, Move.returnedBy_concat]
  · have hle := h.elapsed_le
    rw [← h.threshold] at hle
    have hfiring := Move.firing_iff hle
    rw [hvblank, ← h.threshold]
    by_cases hfires : move.firing = true
    · rw [if_pos hfires]
      exact Nat.zero_le _
    · rw [if_neg hfires]
      exact Nat.le_of_not_lt fun h => hfires (hfiring.mpr h)

/-- **The books balance** along every run from a console whose books balance. -/
theorem Balanced.of_moves (hstart : Balanced length [] start) (h : Moves start moves final) :
    Balanced length moves final := by
  induction h with
  | start console => exact hstart
  | button pad button on _ hpressed ih => exact (ih hstart).button hpressed
  | move move _ ih => exact (ih hstart).move

/-- As long as no store reaches the status register, its vertical blanking shows whether the timer has
fired an even number of times. -/
theorem Moves.inVblank (hstart : start.bus.Wired) (hon : start.bus.inVblank = true)
    (h : Moves start moves final) (hquiet : ∀ move ∈ moves, ¬ move.StoresStatus) :
    final.bus.Wired ∧ (final.bus.inVblank = true ↔ Even (Move.fires moves)) := by
  induction h with
  | start console => exact ⟨hstart, iff_of_true hon Even.zero⟩
  | button pad button on _ hpressed ih =>
    obtain ⟨hwired, hparity⟩ := ih hstart hon hquiet
    obtain ⟨-, hspace, -⟩ := setButton_eq_some hpressed
    rw [SystemBus.Wired, SystemBus.inVblank, SystemBus.peek, hspace]
    exact ⟨hwired, hparity⟩
  | move move _ ih =>
    obtain ⟨hwired, hparity⟩ := ih hstart hon fun other hother =>
      hquiet other (List.mem_append_left _ hother)
    refine ⟨Move.wired_after hwired, ?_⟩
    rw [Move.inVblank_after hwired (hquiet move (by simp)), Move.fires_concat]
    cases move.firing with
    | false => simpa using hparity
    | true =>
      rw [Bool.xor_true, Bool.toNat_true, Nat.even_add_one, ← hparity]
      simp

/-! ### Waiting -/

namespace Lingers

variable {waiting : List StepTaken} {last : StepTaken}

/-- A parked program counts three cycles for each of its jumps. -/
theorem returnedBy_eq (h : Lingers console waiting last) :
    Move.returnedBy ((waiting ++ [last]).map .step) = (waiting.length + 1) * 3 := by
  have hcycles : ((waiting ++ [last]).map Move.step).map Move.returned =
      List.replicate (waiting.length + 1) 3 := by
    rw [List.eq_replicate_iff]
    refine ⟨by simp, ?_⟩
    simp only [List.map_map, List.forall_mem_map]
    intro taken hmem
    exact congrArg Step.cycles (h.jumps taken hmem)
  rw [Move.returnedBy, hcycles, List.sum_replicate_nat]

theorem entries_eq (h : Lingers console waiting last) :
    Move.entries ((waiting ++ [last]).map .step) = (decide last.Enters).toNat := by
  have hnone : Move.entries (waiting.map .step) = 0 := by
    rw [Move.entries, List.countP_map, List.countP_eq_zero]
    exact fun taken hmem => by simpa [Move.entering] using h.not_enters taken hmem
  rw [List.map_append, List.map_singleton, Move.entries_concat, hnone, Nat.zero_add]
  rfl

theorem fires_eq (h : Lingers console waiting last) :
    Move.fires ((waiting ++ [last]).map .step) = 1 := by
  have hnone : Move.fires (waiting.map .step) = 0 := by
    rw [Move.fires, List.countP_map, List.countP_eq_zero]
    exact fun taken hmem => by simpa [Move.firing] using h.quiet taken hmem
  rw [List.map_append, List.map_singleton, Move.fires_concat, hnone, Move.firing,
    decide_eq_true h.fires]
  rfl

theorem not_storesStatus (h : Lingers console waiting last) :
    ∀ move ∈ (waiting ++ [last]).map Move.step, ¬ move.StoresStatus := by
  rw [List.forall_mem_map]
  intro taken hmem hstatus
  obtain ⟨a, hstores, -⟩ := hstatus
  have hjmp := hstores.stores taken.executes
  rw [h.jumps taken hmem] at hjmp
  cases hjmp

end Lingers

/-! ### From power-on -/

/-- A console that has just been switched on, with frames of the given length. -/
def framed (length : Nat) (settings : Settings) (cartridge : Cartridge) : Console :=
  { powerOn settings cartridge with vblank := VblankTimer.start length }

/-- The region settles how long the frames of a console are. -/
theorem framed_cyclesPerFrame (settings : Settings) (cartridge : Cartridge) :
    framed settings.region.cyclesPerFrame settings cartridge = powerOn settings cartridge := rfl

theorem balanced_framed (length : Nat) (settings : Settings) (cartridge : Cartridge) :
    Balanced length [] (framed length settings cartridge) :=
  ⟨wired_powerOn settings cartridge, rfl, rfl, rfl, Nat.zero_le length⟩

/-- A console starts during vertical blanking. -/
theorem inVblank_powerOn (settings : Settings) (cartridge : Cartridge) :
    (powerOn settings cartridge).bus.inVblank = true := by
  have hset (status : UInt8) : ((status ||| 0x80) &&& 0x80 != 0) = true := by
    obtain ⟨bits⟩ := status
    revert bits
    decide +kernel
  rw [bus_powerOn, SystemBus.inVblank,
    (wired_insert _ (SystemBus.wired_powerOn _)).peek_setVblank, if_pos (by decide), if_pos rfl]
  exact hset _

/-- What the counters of a console with frames of the given length show after some moves. -/
structure Accounts (length : Nat) (moves : List Move) (final : Console) : Prop where
  /-- The cycle total is what the steps have delivered, and seven for each interrupt and reset. -/
  total : final.cpu.cycles =
    Move.returnedBy moves + 7 * Move.entries moves + 7 * Move.resets moves
  /-- The timer shows what the steps have delivered since it last fired. -/
  elapsed : final.vblank.elapsed = Move.returnedBy (Move.sinceFire moves)
  elapsed_le : final.vblank.elapsed ≤ length
  /-- A step makes the timer fire as soon as that sum exceeds the length of a frame. -/
  fires_iff : ∀ earlier taken later, moves = earlier ++ .step taken :: later →
    (taken.Fires ↔
      length < Move.returnedBy (Move.sinceFire earlier) + taken.instruction.cycles)
  /-- From one firing to the next, the steps deliver a frame and at most seven cycles more. -/
  between : ∀ earlier first middle second later,
    moves = earlier ++ .step first :: middle ++ .step second :: later →
    first.Fires → (∀ taken, .step taken ∈ middle → ¬ taken.Fires) → second.Fires →
    length + 1 ≤ Move.returnedBy (middle ++ [.step second]) ∧
      Move.returnedBy (middle ++ [.step second]) ≤ length + 7
  /-- Vertical blanking goes on and off by turns, unless a program meddles with it. -/
  inVblank : (∀ move ∈ moves, ¬ move.StoresStatus) →
    (final.bus.inVblank = true ↔ Even (Move.fires moves))

/-- **Cycles and frames.**  Let a console be switched on with any cartridge, and let it take steps and
resets in any order, all of which succeed.  Then its counters agree. -/
theorem moves_account {settings : Settings} {cartridge : Cartridge}
    (h : Moves (framed length settings cartridge) moves final) : Accounts length moves final := by
  have hstart := balanced_framed length settings cartridge
  have hbooks := hstart.of_moves h
  refine ⟨hbooks.total, hbooks.elapsed, hbooks.elapsed_le, ?_, ?_, ?_⟩
  · intro earlier taken later hmoves
    subst hmoves
    have hbefore := hstart.of_moves h.before
    have hle := hbefore.elapsed_le
    rw [← hbefore.threshold] at hle
    have hfiring := Move.firing_iff hle
    rw [hbefore.threshold, hbefore.elapsed, Move.firing, decide_eq_true_iff] at hfiring
    exact hfiring
  · intro earlier first middle second later hmoves hfirst hmiddle hsecond
    subst hmoves
    have hbefore := hstart.of_moves h.before
    have hle := hbefore.elapsed_le
    rw [← hbefore.threshold] at hle
    have hfiring := Move.firing_iff hle
    have hquiet (move : Move) (hmove : move ∈ middle) : move.firing = false := by
      cases move with
      | step taken => exact decide_eq_false (hmiddle taken hmove)
      | reset taken => rfl
    have hsince : Move.sinceFire (earlier ++ .step first :: middle) = middle :=
      Move.sinceFire_of_quiet (decide_eq_true hfirst) hquiet
    rw [hbefore.threshold, hbefore.elapsed, hsince] at hfiring hle
    have hexceeds := hfiring.mp (decide_eq_true hsecond)
    have hmost := (Move.step second).returned_le
    rw [Move.returnedBy_concat]
    omega
  · exact fun hquiet =>
      (Moves.inVblank hstart.wired (inVblank_powerOn settings cartridge) h hquiet).2

/-- Two frames of a program that jumps to itself, in its handler too, and a reset. -/
theorem two_frames_and_reset_account :
    ∃ (waiting between : List StepTaken) (first second : StepTaken) (reset : ResetTaken),
      Moves (powerOn Settings.default steadyCartridge)
        ((waiting ++ [first]).map .step ++ (between ++ [second]).map .step ++ [.reset reset])
        reset.after ∧
      first.Fires ∧ (∀ taken ∈ between, ¬ taken.Fires) ∧ second.Fires ∧
      29782 ≤ Move.returnedBy (between.map .step ++ [.step second]) ∧
      Move.returnedBy (between.map .step ++ [.step second]) ≤ 29788 ∧
      reset.after.cpu.cycles = 59582 ∧ reset.after.vblank.elapsed = 0 ∧
      reset.after.bus.inVblank = true := by
  obtain ⟨waiting, first, hwaits, henters, -, hlevel, hshown, hhandler, hs⟩ :=
    exists_steady_entry Settings.default
  obtain ⟨between, second, hholds⟩ := hhandler.exists_lingers (by rw [hs]; decide)
  have hnone : ¬ second.Enters := by
    rw [hholds.enters_iff, hs, first.after_nmi_of_enters henters, hlevel]
    decide
  obtain ⟨reset, hreset, -⟩ :=
    exists_resetTaken (StepTaken.after_wired (hholds.wired_before hshown.wired))
  have hmoves : Moves (powerOn Settings.default steadyCartridge)
      ((waiting ++ [first]).map .step ++ (between ++ [second]).map .step ++ [.reset reset])
      reset.after := by
    have hsteps := ((Moves.start _).drives hwaits.drives).drives hholds.drives
    rw [← hreset] at hsteps
    exact .move (.reset reset) hsteps
  have hframed := hmoves
  rw [← framed_cyclesPerFrame] at hframed
  have haccount : Accounts 29781 _ reset.after := moves_account hframed
  have hbetween := haccount.between (waiting.map .step) first (between.map .step) second
    [.reset reset] (by simp) hwaits.fires (by simpa using hholds.quiet) hholds.fires
  refine ⟨waiting, between, first, second, reset, hmoves, hwaits.fires, hholds.quiet, hholds.fires,
    hbetween.1, hbetween.2, ?_, ?_, ?_⟩
  · have hlength : waiting.length = 9927 ∧ between.length = 9927 := by
      rw [hwaits.length, hholds.length, hwaits.vblank]
      exact ⟨rfl, rfl⟩
    rw [haccount.total, Move.returnedBy_concat, Move.returnedBy_append, hwaits.returnedBy_eq,
      hholds.returnedBy_eq, hlength.1, hlength.2, Move.entries_concat, Move.entries_append,
      hwaits.entries_eq, hholds.entries_eq, decide_eq_true henters, decide_eq_false hnone,
      Move.resets_concat, Move.resets_append, Move.resets_steps, Move.resets_steps]
    rfl
  · -- the second frame is the last, and the reset delivers nothing
    have hlast : (waiting ++ [first]).map Move.step ++ (between ++ [second]).map .step
        ++ [.reset reset] = (waiting ++ [first] ++ between).map .step
          ++ .step second :: [.reset reset] := by
      simp
    have hfiring : (Move.step second).firing = true := decide_eq_true hholds.fires
    rw [haccount.elapsed, hlast, Move.sinceFire_of_quiet hfiring]
    · rfl
    · intro other hmem
      rw [List.mem_singleton.mp hmem]
      rfl
  · have hquiet : ∀ move ∈ (waiting ++ [first]).map Move.step ++ (between ++ [second]).map .step
        ++ [.reset reset], ¬ move.StoresStatus := by
      simp only [List.forall_mem_append, List.forall_mem_singleton]
      exact ⟨⟨hwaits.not_storesStatus, hholds.not_storesStatus⟩, id⟩
    rw [haccount.inVblank hquiet, Move.fires_concat, Move.fires_append, hwaits.fires_eq,
      hholds.fires_eq]
    exact ⟨1, rfl⟩

end Console

end NesMachine
