import NesMachine.Proofs.Console.Idle
import NesMachine.Proofs.Console.RunUntilIdle
import NesMachine.Proofs.Cpu.Composition

/-!
# Undisturbed stretches

Between two vertical blankings a console does what its processor does on the board.  What a program
does there can be found out from its instructions alone, and the console is left out until the end.

* `Board.Works board instructions final`: the processor executes instructions one after the other,
  none of which jumps to itself;
* `Board.Works.steps`: if the timer leaves room for their cycles, a console makes the same steps, and
  the timer fires on none of them;
* `Board.Works.runUntilIdle`: where they lead to a jump to itself, a run until idle ends there.
-/

namespace NesMachine

namespace Board

variable {board mid final : Board SystemBus} {instructions later : List Step}

/-- The instruction at the program counter is a jump to itself. -/
def Idle (board : Board SystemBus) : Prop :=
  board.bus.peek board.cpu.regs.pc = Console.jumpOpcode ∧
    wordOf (board.bus.peek (board.cpu.regs.pc + 1)) (board.bus.peek (board.cpu.regs.pc + 2))
      = board.cpu.regs.pc

/-- The processor executes instructions one after the other, none of which jumps to itself. -/
inductive Works : Board SystemBus → List Step → Board SystemBus → Prop
  | done (board : Board SystemBus) : Works board [] board
  | step {board mid final : Board SystemBus} {instruction : Step} {later : List Step} :
      ¬ board.Idle → execute board = .ok instruction mid → Works mid later final →
        Works board (instruction :: later) final

/-- The cycles of instructions. -/
def cyclesOf : List Step → Nat
  | [] => 0
  | instruction :: later => instruction.cycles + cyclesOf later

theorem cyclesOf_append (instructions later : List Step) :
    cyclesOf (instructions ++ later) = cyclesOf instructions + cyclesOf later := by
  induction instructions with
  | nil => rw [List.nil_append, cyclesOf, Nat.zero_add]
  | cons instruction instructions ih =>
    rw [List.cons_append, cyclesOf, cyclesOf, ih, Nat.add_assoc]

theorem Works.single {instruction : Step} (hbusy : ¬ board.Idle)
    (h : execute board = .ok instruction mid) : Works board [instruction] mid :=
  .step hbusy h (.done mid)

theorem Works.append (h : Works board instructions mid) (hlater : Works mid later final) :
    Works board (instructions ++ later) final := by
  induction h with
  | done board => exact hlater
  | step hbusy hexecute _ ih => exact .step hbusy hexecute (ih hlater)

/-- They have taken their cycles. -/
theorem Works.total (h : Works board instructions final) :
    final.cpu.cycles = board.cpu.cycles + cyclesOf instructions := by
  induction h with
  | done board => rfl
  | step _ hexecute _ ih => rw [ih, execute_cycles hexecute, cyclesOf, Nat.add_assoc]

end Board

namespace Console

variable {console : Console}

theorem isIdle_iff_board : console.isIdle = true ↔ console.board.Idle := isIdle_iff

theorem isIdle_eq_false (h : ¬ console.board.Idle) : console.isIdle = false :=
  Bool.eq_false_iff.mpr fun hidle => h (isIdle_iff_board.mp hidle)

end Console

namespace Board

open Console

variable {console : Console} {final : Board SystemBus} {instructions : List Step}

/-- **An undisturbed stretch.**  If the timer leaves room for the cycles of the instructions, a console
makes the steps that its processor would make, and the timer fires on none of them. -/
theorem Works.steps (h : Works console.board instructions final)
    (hroom : console.vblank.elapsed + cyclesOf instructions ≤ console.vblank.threshold) :
    ∃ last, Console.steps instructions.length console = .ok () last ∧ last.board = final ∧
      ∀ (n : Nat) (hn : n < instructions.length), ∃ taken : StepTaken,
        Console.steps n console = .ok () taken.before ∧ taken.instruction = instructions[n] ∧
        ¬ taken.before.board.Idle ∧ ¬ taken.Fires := by
  generalize hboard : console.board = board at h
  induction h generalizing console with
  | done board => exact ⟨console, rfl, hboard, fun n hn => absurd hn (Nat.not_lt_zero n)⟩
  | step hbusy hexecute _ ih =>
    subst hboard
    rw [cyclesOf] at hroom
    obtain ⟨first, rfl, rfl, -, hquiet, hafter, hvblank⟩ :=
      exists_stepTaken_of_room hexecute (by omega)
    obtain ⟨last, hlast, hfinal, hrest⟩ := ih (by rw [hvblank]; dsimp only; omega) hafter
    have hfirst {n : Nat} {mid : Console} (hsteps : Console.steps n first.after = .ok () mid) :
        Console.steps (n + 1) first.before = .ok () mid :=
      Attempt.bind_eq_ok.mpr ⟨_, _, first.steps, hsteps⟩
    refine ⟨last, hfirst hlast, hfinal, ?_⟩
    intro n hn
    cases n with
    | zero => exact ⟨first, rfl, rfl, hbusy, hquiet⟩
    | succ n =>
      obtain ⟨taken, hsteps, hinstruction, hstill, hnone⟩ := hrest n (Nat.lt_of_succ_lt_succ hn)
      exact ⟨taken, hfirst hsteps, hinstruction, hstill, hnone⟩

/-- A run until idle ends where the instructions have led to a jump to itself. -/
theorem Works.runUntilIdle (h : Works console.board instructions final) (hidle : final.Idle)
    (hroom : console.vblank.elapsed + cyclesOf instructions ≤ console.vblank.threshold)
    {clock : Nat → Nat} {bound : Nat} (hbound : instructions.length ≤ bound)
    (hclock : ∀ n < instructions.length, clock n < console.timeout) :
    ∃ last, Console.runUntilIdle (m := Id) clock bound console = (.idle instructions.length, last) ∧
      last.board = final ∧ ∀ n < instructions.length, ∃ taken : StepTaken,
        Console.steps n console = .ok () taken.before ∧ ¬ taken.Enters := by
  obtain ⟨last, hlast, hfinal, hsteps⟩ := h.steps hroom
  refine ⟨last, EndsAs.run_eq ⟨hbound, ⟨hlast, ?_⟩, isIdle_iff_board.mpr ?_⟩, hfinal, ?_⟩
  · intro n hn
    obtain ⟨taken, hbefore, -, hbusy, -⟩ := hsteps n hn
    exact ⟨hclock n hn, taken.before, hbefore, isIdle_eq_false hbusy⟩
  · rw [hfinal]
    exact hidle
  · intro n hn
    obtain ⟨taken, hbefore, -, -, hquiet⟩ := hsteps n hn
    exact ⟨taken, hbefore, fun henters => hquiet (taken.enters_iff.mp henters).1⟩

end Board

end NesMachine
