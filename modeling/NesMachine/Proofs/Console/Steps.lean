import NesMachine.Console.Basic
import NesMachine.Proofs.Cpu.Frames
import NesMachine.Proofs.Device.SystemBus

/-!
# Steps and runs of a console

A step executes an instruction, notes whether a handler has returned, lets the cycles pass, and
takes an interrupt if the timer fires and no handler is running.  `StepTaken` records a successful
step together with the console between the instruction and the rest, and `Drives` is a run: such
steps, one after the other, with button changes between them.

* `StepTaken.enters_iff`: when a step takes an interrupt;
* `StepTaken.after_nmi_of_enters`, `StepTaken.after_nmi_of_not_enters`: what the gate remembers;
* `StepTaken.regs_after_of_enters`, `StepTaken.regs_executed_of_rti`: the registers with which a
  handler starts and ends;
* `StepTaken.peek_status`: the status register turns over whenever the timer fires;
* `Drives.before_of_keeps`: what buttons and steps keep holds along a run;
* `Drives.gate_of_quiet`: the gate along a run without interrupts.
-/

namespace NesMachine

/-- A successful step. -/
structure StepTaken where
  before : Console
  /-- The record of the instruction. -/
  instruction : Step
  /-- The console after the instruction, before its cycles pass. -/
  executed : Console
  after : Console
  executes : Board.execute before.board = .ok instruction executed.board
  ticks : Console.tick before = .ok instruction.cycles executed
  steps : Console.step before = .ok instruction.cycles after

namespace Console

/-! ### The parts of a step -/

theorem onBoard_eq_ok {α : Type} {action : Run SystemBus α} {console console' : Console} {a : α} :
    onBoard action console = .ok a console' ↔
      ∃ board, action console.board = .ok a board ∧ console' = { console with board := board } := by
  rw [onBoard_apply]
  cases action console.board with
  | ok a' board =>
    refine ⟨?_, ?_⟩
    · intro h
      cases h
      exact ⟨board, rfl, rfl⟩
    · intro hparts
      obtain ⟨board', h, rfl⟩ := hparts
      cases h
      rfl
  | error e board =>
    refine ⟨?_, ?_⟩
    · intro h
      cases h
    · intro hparts
      obtain ⟨board', h, -⟩ := hparts
      cases h

theorem tick_eq_ok {console executed : Console} {cycles : Nat} :
    tick console = .ok cycles executed ↔
      ∃ instruction board, Board.execute console.board = .ok instruction board ∧
        cycles = instruction.cycles ∧
        executed = record instruction { console with board := board } := by
  refine ⟨?_, ?_⟩
  · intro h
    obtain ⟨instruction, mid, hexecute, h⟩ := Attempt.bind_eq_ok.mp h
    obtain ⟨board, hboard, rfl⟩ := onBoard_eq_ok.mp hexecute
    cases h
    exact ⟨instruction, board, hboard, rfl, rfl⟩
  · intro hparts
    obtain ⟨instruction, board, hexecute, rfl, rfl⟩ := hparts
    exact Attempt.bind_eq_ok.mpr
      ⟨instruction, _, onBoard_eq_ok.mpr ⟨board, hexecute, rfl⟩, rfl⟩

/-- The status register turns over, and then an interrupt is taken unless a handler is running. -/
theorem blank_apply (console : Console) :
    blank console =
      if console.nmi.inFlight then .ok false (flipVblank console)
      else
        match Board.nmi (flipVblank console).board with
        | .ok _ board => .ok true { startNmi (flipVblank console) with board := board }
        | .error e board => .error e { startNmi (flipVblank console) with board := board } := by
  rw [blank]
  simp only [Attempt.bind_apply, Attempt.modify_apply, Attempt.get_apply]
  rw [show (flipVblank console).nmi = console.nmi from rfl]
  cases console.nmi.inFlight with
  | true => rfl
  | false =>
    simp only [Bool.false_eq_true, if_false, Attempt.bind_apply, Attempt.modify_apply,
      onBoard_apply]
    rw [show (startNmi (flipVblank console)).board = (flipVblank console).board from rfl]
    cases Board.nmi (flipVblank console).board <;> rfl

/-- A console whose processor has just executed an instruction, once its cycles have passed. -/
def rested (console : Console) (instruction : Step) (board : Board SystemBus) : Console :=
  elapse instruction.cycles (retire (record instruction { console with board := board }))

/-- What a step makes of an instruction that succeeds. -/
theorem stepEvents_of_execute {console : Console} {instruction : Step} {board : Board SystemBus}
    (h : Board.execute console.board = .ok instruction board) :
    stepEvents console =
      if console.vblank.fires instruction.cycles then
        if (console.rested instruction board).nmi.inFlight then
          .ok ⟨instruction.cycles, true, false⟩ (flipVblank (console.rested instruction board))
        else
          match Board.nmi (flipVblank (console.rested instruction board)).board with
          | .ok _ entered => .ok ⟨instruction.cycles, true, true⟩
            { startNmi (flipVblank (console.rested instruction board)) with board := entered }
          | .error e failed => .error e
            { startNmi (flipVblank (console.rested instruction board)) with board := failed }
      else .ok ⟨instruction.cycles, false, false⟩ (console.rested instruction board) := by
  rw [stepEvents]
  simp only [Attempt.bind_apply, Attempt.modify_apply, Attempt.get_apply,
    tick_eq_ok.mpr ⟨instruction, board, h, rfl, rfl⟩]
  rw [show (retire (record instruction { console with board := board })).vblank = console.vblank
    from rfl]
  cases console.vblank.fires instruction.cycles with
  | false => rfl
  | true =>
    simp only [if_true, Attempt.bind_apply]
    rw [show elapse instruction.cycles (retire (record instruction { console with board := board }))
      = console.rested instruction board from rfl, blank_apply]
    cases (console.rested instruction board).nmi.inFlight with
    | true => rfl
    | false =>
      cases Board.nmi (flipVblank (console.rested instruction board)).board <;> rfl

theorem step_eq_ok {console after : Console} {cycles : Nat} :
    step console = .ok cycles after ↔
      ∃ events, stepEvents console = .ok events after ∧ cycles = events.cycles := by
  refine ⟨?_, ?_⟩
  · intro h
    obtain ⟨events, mid, hevents, hpure⟩ := Attempt.bind_eq_ok.mp h
    cases hpure
    exact ⟨events, hevents, rfl⟩
  · intro h
    obtain ⟨events, hevents, rfl⟩ := h
    exact Attempt.bind_eq_ok.mpr ⟨events, after, hevents, rfl⟩

end Console

namespace SystemBus

variable {bus bus' : SystemBus} {W : UInt16 → Prop} {b : UInt16}

theorem Wired.reaches (h : bus.Wired) (hreach : Board.Reaches W bus bus') : bus'.Wired := by
  refine hreach.keeps (I := Wired) ?_ ?_ h
  · intro a value bus bus' hwired hread
    cases hread
    exact hwired.read a
  · intro a value bus bus' _ hwired hwrite
    cases hwrite
    exact hwired.write a value

/-- A stored byte that no allowed write can reach stays as it is. -/
theorem Wired.peek_reaches (h : bus.Wired) (hb : bus.space.owner b ≠ oamIndexAddress)
    (hW : ∀ a, W a → bus.space.owner a ≠ bus.space.owner b)
    (hreach : Board.Reaches W bus bus') : bus'.peek b = bus.peek b := by
  have howner (other : SystemBus) (hother : other.Wired) (a : UInt16) :
      other.space.owner a = bus.space.owner a := by
    rw [AddressSpace.owner, AddressSpace.owner, show other.space.routes = _ from hother,
      show bus.space.routes = _ from h]
  refine (hreach.keeps (I := fun other => other.Wired ∧ other.peek b = bus.peek b) ?_ ?_
    ⟨h, rfl⟩).2
  · intro a value other other' hkept hread
    obtain ⟨hother, hpeek⟩ := hkept
    cases hread
    refine ⟨hother.read a, ?_⟩
    rw [peek, space_read]
    exact hpeek
  · intro a value other other' ha hkept hwrite
    obtain ⟨hother, hpeek⟩ := hkept
    cases hwrite
    refine ⟨hother.write a value, ?_⟩
    rw [hother.peek_write_of_ne ?_ ?_ value]
    · exact hpeek
    · rw [howner other hother, howner other hother]
      exact hW a ha
    · rw [howner other hother]
      exact hb

/-- What an interrupt sequence leaves behind: the registers, with the vector as the next program
counter, and the bytes of its frame. -/
theorem Wired.nmi_ok {board board' : Board SystemBus} (h : board.bus.Wired)
    (hnmi : Board.nmi board = .ok () board') :
    board'.cpu.regs =
      { board.cpu.regs with
        s := board.cpu.regs.s - 3
        p := board.cpu.regs.p.put Flag.interruptDisable true
        pc := wordOf (board'.bus.peek nmiVector) (board'.bus.peek (nmiVector + 1)) } ∧
    board'.bus.peek (wordOf board.cpu.regs.s 1) = highByte board.cpu.regs.pc ∧
    board'.bus.peek (wordOf (board.cpu.regs.s - 1) 1) = lowByte board.cpu.regs.pc ∧
    board'.bus.peek (wordOf (board.cpu.regs.s - 2) 1) = board.cpu.regs.p.pushedByInterrupt := by
  obtain ⟨-, bus₁, bus₂, bus₃, bus₄, low, high, hwrite₁, hwrite₂, hwrite₃, hread₁, hread₂, hcpu⟩ :=
    Board.nmi_eq_ok.mp hnmi
  obtain ⟨hwired₁, hpeek₁⟩ := peek_write_slot h hwrite₁
  obtain ⟨hwired₂, hpeek₂⟩ := peek_write_slot hwired₁ hwrite₂
  obtain ⟨hwired₃, hpeek₃⟩ := peek_write_slot hwired₂ hwrite₃
  -- the vector lies in the program, so that reading it leaves the bus alone
  obtain ⟨hlow, hbus₄⟩ := read_storage_ok hwired₃ (isStorage_program (by decide)) hread₁
  rw [hbus₄] at hread₂
  obtain ⟨hhigh, hbus'⟩ := read_storage_ok hwired₃ (isStorage_program (by decide)) hread₂
  have hne₁ : board.cpu.regs.s - 1 ≠ board.cpu.regs.s := by grind
  have hne₂ : board.cpu.regs.s - 2 ≠ board.cpu.regs.s := by grind
  have hne₃ : board.cpu.regs.s - 2 ≠ board.cpu.regs.s - 1 := by grind
  rw [hbus', hcpu, hlow, hhigh]
  refine ⟨rfl, ?_, ?_, ?_⟩
  · rw [hpeek₃, if_neg hne₂, hpeek₂, if_neg hne₁, hpeek₁, if_pos rfl]
  · rw [hpeek₃, if_neg hne₃, hpeek₂, if_pos rfl]
  · rw [hpeek₃, if_pos rfl]

end SystemBus

/-- Every successful step can be recorded. -/
theorem exists_stepTaken {console after : Console} {cycles : Nat}
    (h : Console.step console = .ok cycles after) :
    ∃ taken : StepTaken, taken.before = console ∧ taken.after = after ∧
      taken.instruction.cycles = cycles := by
  obtain ⟨events, hevents, rfl⟩ := Console.step_eq_ok.mp h
  obtain ⟨count, executed, htick, hrest⟩ := Attempt.bind_eq_ok.mp hevents
  obtain ⟨instruction, board, hexecute, rfl, rfl⟩ := Console.tick_eq_ok.mp htick
  have hcycles : instruction.cycles = events.cycles := by
    rw [Console.stepEvents_of_execute hexecute] at hevents
    split at hevents
    · split at hevents
      · cases hevents
        rfl
      · split at hevents <;> cases hevents
        rfl
    · cases hevents
      rfl
  rw [← hcycles] at h
  exact ⟨⟨console, instruction, _, after, hexecute, htick, h⟩, rfl, rfl, hcycles⟩

/-- An interrupt sequence on this bus fails only for want of stack. -/
theorem SystemBus.exists_nmi {board : Board SystemBus} (hs : 3 ≤ board.cpu.regs.s.toNat) :
    ∃ entered, Board.nmi board = .ok () entered :=
  ⟨⟨_, _⟩, Board.nmi_eq_ok.mpr ⟨hs, _, _, _, _, _, _, rfl, rfl, rfl, rfl, rfl, rfl⟩⟩

/-- A step succeeds if its instruction does and leaves room for the frame of an interrupt. -/
theorem exists_stepTaken_of_execute {console : Console} {instruction : Step}
    {board : Board SystemBus} (h : Board.execute console.board = .ok instruction board)
    (hs : 3 ≤ board.cpu.regs.s.toNat) :
    ∃ taken : StepTaken, taken.before = console ∧ taken.instruction = instruction ∧
      taken.executed.board = board := by
  have hevents : ∃ events after, Console.stepEvents console = .ok events after ∧
      instruction.cycles = events.cycles := by
    rw [Console.stepEvents_of_execute h]
    split
    · split
      · exact ⟨_, _, rfl, rfl⟩
      · have hroom : 3 ≤ (Console.flipVblank
            (console.rested instruction board)).board.cpu.regs.s.toNat := hs
        obtain ⟨entered, hnmi⟩ := SystemBus.exists_nmi hroom
        rw [hnmi]
        exact ⟨_, _, rfl, rfl⟩
    · exact ⟨_, _, rfl, rfl⟩
  obtain ⟨events, after, hevents, hcycles⟩ := hevents
  exact ⟨⟨console, instruction, _, after, h, Console.tick_eq_ok.mpr ⟨_, _, h, rfl, rfl⟩,
    Console.step_eq_ok.mpr ⟨events, hevents, hcycles⟩⟩, rfl, rfl, rfl⟩

namespace StepTaken

variable (taken : StepTaken)

/-- The timer fires when the cycles of the instruction have passed. -/
def Fires : Prop := taken.before.vblank.fires taken.instruction.cycles = true

/-- The board after the instruction, with the vertical blanking of the status register turned
over. -/
def flipped : Board SystemBus :=
  ⟨taken.executed.cpu, taken.executed.bus.setVblank (!taken.executed.bus.inVblank)⟩

/-- The step goes through the interrupt sequence. -/
def Enters : Prop := Board.nmi taken.flipped = .ok () taken.after.board

theorem executed_eq : taken.executed =
    Console.record taken.instruction { taken.before with board := taken.executed.board } := by
  obtain ⟨instruction, board, hexecute, -, hexecuted⟩ := Console.tick_eq_ok.mp taken.ticks
  have hsame := taken.executes.symm.trans hexecute
  cases hsame
  exact hexecuted

theorem executed_nmi : taken.executed.nmi = taken.before.nmi := by
  rw [executed_eq]
  rfl

/-- An interrupt sequence takes cycles, so that a board that has spent none has not gone through
it. -/
theorem not_enters_of_cpu (h : taken.after.board.cpu = taken.executed.board.cpu) :
    ¬ taken.Enters := by
  intro henters
  obtain ⟨-, bus₁, bus₂, bus₃, bus₄, low, high, -, -, -, -, -, hcpu⟩ := Board.nmi_eq_ok.mp henters
  have hcycles := congrArg Cpu.cycles hcpu
  rw [h] at hcycles
  have hspent : taken.executed.cpu.cycles = taken.executed.cpu.cycles + interruptCycles := hcycles
  unfold interruptCycles at hspent
  omega

/-- The console once the cycles of the instruction have passed. -/
def rested : Console := taken.before.rested taken.instruction taken.executed.board

/-- The three courses that a step can take after its instruction. -/
theorem after_eq :
    (¬ taken.Fires ∧ taken.after = taken.rested) ∨
    (taken.Fires ∧ taken.rested.nmi.inFlight = true ∧
      taken.after = Console.flipVblank taken.rested) ∨
    (taken.Fires ∧ taken.rested.nmi.inFlight = false ∧
      ∃ board, Board.nmi taken.flipped = .ok () board ∧
        taken.after = { Console.startNmi (Console.flipVblank taken.rested) with board := board }) := by
  obtain ⟨events, hevents, -⟩ := Console.step_eq_ok.mp taken.steps
  have hstep := (Console.stepEvents_of_execute taken.executes).symm.trans hevents
  rw [← rested] at hstep
  by_cases hfires : taken.before.vblank.fires taken.instruction.cycles = true
  · rw [if_pos hfires] at hstep
    cases hbusy : taken.rested.nmi.inFlight with
    | true =>
      rw [hbusy, if_pos rfl] at hstep
      injection hstep with _ hafter
      exact .inr (.inl ⟨hfires, rfl, hafter.symm⟩)
    | false =>
      rw [hbusy, if_neg Bool.false_ne_true] at hstep
      cases hnmi : Board.nmi (Console.flipVblank taken.rested).board with
      | error e board =>
        rw [hnmi] at hstep
        cases hstep
      | ok u board =>
        rw [hnmi] at hstep
        injection hstep with _ hafter
        exact .inr (.inr ⟨hfires, rfl, board, hnmi, hafter.symm⟩)
  · rw [if_neg hfires] at hstep
    injection hstep with _ hafter
    exact .inl ⟨hfires, hafter.symm⟩

theorem rested_nmi : taken.rested.nmi = taken.before.nmi.finish taken.executed.cpu.regs.s := rfl

theorem after_vblank : taken.after.vblank = taken.before.vblank.advance taken.instruction.cycles := by
  rcases taken.after_eq with ⟨-, h⟩ | ⟨-, -, h⟩ | ⟨-, -, board, -, h⟩
  · rw [h]
    rfl
  · rw [h]
    rfl
  · rw [h]
    rfl

/-- The three courses, by what they do to the board and to the gate. -/
theorem after_cases :
    (¬ taken.Fires ∧ ¬ taken.Enters ∧ taken.after.board = taken.executed.board ∧
      taken.after.nmi = taken.rested.nmi) ∨
    (taken.Fires ∧ ¬ taken.Enters ∧ taken.rested.nmi.inFlight = true ∧
      taken.after.board = taken.flipped ∧ taken.after.nmi = taken.rested.nmi) ∨
    (taken.Fires ∧ taken.Enters ∧ taken.rested.nmi.inFlight = false ∧
      taken.after.nmi = ⟨true, taken.executed.cpu.regs.s⟩) := by
  rcases taken.after_eq with ⟨hfires, h⟩ | ⟨hfires, hbusy, h⟩ | ⟨hfires, hidle, board, hnmi, h⟩
  · have hboard : taken.after.board = taken.executed.board := by
      rw [h]
      rfl
    refine .inl ⟨hfires, taken.not_enters_of_cpu (by rw [hboard]), hboard, ?_⟩
    rw [h]
  · have hboard : taken.after.board = taken.flipped := by
      rw [h]
      rfl
    refine .inr (.inl ⟨hfires, taken.not_enters_of_cpu (by rw [hboard]; rfl), hbusy, hboard, ?_⟩)
    rw [h]
    rfl
  · refine .inr (.inr ⟨hfires, ?_, hidle, ?_⟩)
    · rw [Enters, hnmi, h]
    · rw [h]
      rfl

/-- **When a step takes an interrupt.** -/
theorem enters_iff : taken.Enters ↔
    taken.Fires ∧ (taken.executed.nmi.inFlight = false ∨
      taken.executed.cpu.regs.s = taken.executed.nmi.capturedSp) := by
  rw [← NmiGate.inFlight_finish_eq_false, executed_nmi, ← rested_nmi]
  rcases taken.after_cases with ⟨hfires, henters, -, -⟩ | ⟨-, henters, hbusy, -, -⟩ |
    ⟨hfires, henters, hidle, -⟩
  · exact ⟨fun h => absurd h henters, fun h => absurd h.1 hfires⟩
  · refine ⟨fun h => absurd h henters, fun h => ?_⟩
    rw [hbusy] at h
    cases h.2
  · exact ⟨fun _ => ⟨hfires, hidle⟩, fun _ => henters⟩

theorem after_nmi_of_enters (h : taken.Enters) :
    taken.after.nmi = ⟨true, taken.executed.cpu.regs.s⟩ := by
  rcases taken.after_cases with ⟨-, henters, -⟩ | ⟨-, henters, -⟩ | ⟨-, -, -, hnmi⟩
  · exact absurd h henters
  · exact absurd h henters
  · exact hnmi

theorem after_nmi_of_not_enters (h : ¬ taken.Enters) :
    taken.after.nmi = taken.before.nmi.finish taken.executed.cpu.regs.s := by
  rcases taken.after_cases with ⟨-, -, -, hnmi⟩ | ⟨-, -, -, -, hnmi⟩ | ⟨-, henters, -⟩
  · exact hnmi
  · exact hnmi
  · exact absurd henters h

/-! ### The bus along a step -/

variable {taken : StepTaken}

theorem executed_wired (h : taken.before.bus.Wired) : taken.executed.bus.Wired :=
  h.reaches (Board.execute_reaches taken.executes)

theorem flipped_wired (h : taken.before.bus.Wired) : taken.flipped.bus.Wired :=
  (executed_wired h).setVblank _

theorem after_wired (h : taken.before.bus.Wired) : taken.after.bus.Wired := by
  show taken.after.board.bus.Wired
  rcases taken.after_cases with ⟨-, -, hboard, -⟩ | ⟨-, -, -, hboard, -⟩ | ⟨-, henters, -⟩
  · rw [hboard]
    exact executed_wired h
  · rw [hboard]
    exact flipped_wired h
  · exact (flipped_wired h).reaches (Board.nmi_reaches henters)

instance (taken : StepTaken) : Decidable taken.Fires :=
  inferInstanceAs (Decidable (taken.before.vblank.fires taken.instruction.cycles = true))

theorem cpu_after_of_not_enters (h : ¬ taken.Enters) : taken.after.cpu = taken.executed.cpu := by
  show taken.after.board.cpu = taken.executed.cpu
  rcases taken.after_cases with ⟨-, -, hboard, -⟩ | ⟨-, -, -, hboard, -⟩ | ⟨-, henters, -⟩
  · rw [hboard]
    rfl
  · rw [hboard]
    rfl
  · exact absurd henters h

/-- The registers with which a handler starts. -/
theorem regs_after_of_enters (hwired : taken.before.bus.Wired) (h : taken.Enters) :
    taken.after.cpu.regs =
      { taken.executed.cpu.regs with
        s := taken.executed.cpu.regs.s - 3
        p := taken.executed.cpu.regs.p.put Flag.interruptDisable true
        pc := wordOf (taken.after.bus.peek nmiVector) (taken.after.bus.peek (nmiVector + 1)) } :=
  ((flipped_wired hwired).nmi_ok h).1

/-- The registers with which a handler ends. -/
theorem regs_executed_of_rti (hwired : taken.before.bus.Wired)
    (hrti : taken.instruction.mnemonic = .rti) :
    taken.executed.cpu.regs =
      { taken.before.cpu.regs with
        s := taken.before.cpu.regs.s + 3
        p := .ofStack (taken.before.bus.peek (wordOf (taken.before.cpu.regs.s + 1) 1))
        pc := wordOf (taken.before.bus.peek (wordOf (taken.before.cpu.regs.s + 2) 1))
          (taken.before.bus.peek (wordOf (taken.before.cpu.regs.s + 3) 1)) } := by
  obtain ⟨bus, byte, status, low, high, bus₁, bus₂, hread, hread₁, hread₂, hread₃, hregs⟩ :=
    Board.execute_rti_ok taken.executes hrti
  -- reading the opcode may have moved a controller, but no stored byte
  cases hread
  have hopened : (taken.before.bus.read taken.before.cpu.regs.pc).2.Wired := hwired.read _
  have hpeek (a : UInt16) : (taken.before.bus.read taken.before.cpu.regs.pc).2.peek a
      = taken.before.bus.peek a := by
    rw [SystemBus.peek, SystemBus.space_read, SystemBus.peek]
  obtain ⟨hstatus, hbus₁⟩ := SystemBus.read_storage_ok hopened (SystemBus.isStorage_slot _) hread₁
  rw [hbus₁] at hread₂
  obtain ⟨hlow, hbus₂⟩ := SystemBus.read_storage_ok hopened (SystemBus.isStorage_slot _) hread₂
  rw [hbus₂] at hread₃
  obtain ⟨hhigh, -⟩ := SystemBus.read_storage_ok hopened (SystemBus.isStorage_slot _) hread₃
  rw [hstatus.trans (hpeek _), hlow.trans (hpeek _), hhigh.trans (hpeek _)] at hregs
  exact hregs

/-- The frame that an interrupt pushes lies in page one. -/
theorem peek_after_of_enters {b : UInt16} (hwired : taken.before.bus.Wired) (h : taken.Enters)
    (hb : SystemBus.IsStorage b) (hpage : 0x0200 ≤ b.toNat) (hindex : b ≠ SystemBus.oamIndexAddress) :
    taken.after.bus.peek b = taken.flipped.bus.peek b := by
  have hflipped := flipped_wired hwired
  have howner := hflipped.owner_of_storage hb
  refine hflipped.peek_reaches ?_ ?_ (Board.nmi_reaches h)
  · rw [howner]
    exact hindex
  · intro a ha
    obtain ⟨slot, rfl⟩ := Board.slot_of_mem_interruptFrame ha
    rw [howner, hflipped.owner_of_storage (SystemBus.isStorage_slot slot)]
    exact SystemBus.slot_ne slot hpage

/-- **Vertical blanking turns over** whenever the timer fires, whether or not an interrupt is
taken. -/
theorem peek_status (h : taken.before.bus.Wired) :
    taken.after.bus.peek SystemBus.statusAddress =
      if taken.Fires then taken.executed.bus.peek SystemBus.statusAddress ^^^ 0x80
      else taken.executed.bus.peek SystemBus.statusAddress := by
  have hflip : taken.flipped.bus.peek SystemBus.statusAddress
      = taken.executed.bus.peek SystemBus.statusAddress ^^^ 0x80 :=
    taken.executed.bus.peek_setVblank_not
  have hafter : taken.after.bus = taken.after.board.bus := rfl
  rcases taken.after_cases with ⟨hfires, -, hboard, -⟩ | ⟨hfires, -, -, hboard, -⟩ |
    ⟨hfires, henters, -⟩
  · rw [if_neg hfires, hafter, hboard]
    rfl
  · rw [if_pos hfires, hafter, hboard, hflip]
  · rw [if_pos hfires, peek_after_of_enters h henters (by decide) (by decide) (by decide), hflip]

/-- What is stored outside page one and the video registers is what the instruction has left. -/
theorem peek_after_of_program {b : UInt16} (h : taken.before.bus.Wired) (hb : 0x8000 ≤ b.toNat) :
    taken.after.bus.peek b = taken.executed.bus.peek b := by
  have hstorage := SystemBus.isStorage_program hb
  have hne {d : UInt16} (hd : d.toNat < 0x8000) : d ≠ b := by
    intro heq
    subst heq
    omega
  have hstatus : SystemBus.IsStorage SystemBus.statusAddress := by decide
  have howner : taken.executed.bus.space.owner SystemBus.statusAddress
      ≠ taken.executed.bus.space.owner b := by
    rw [(executed_wired h).owner_of_storage hstorage, (executed_wired h).owner_of_storage hstatus]
    exact hne (by decide)
  have hflip : taken.flipped.bus.peek b = taken.executed.bus.peek b :=
    SystemBus.peek_setVblank_of_ne howner _
  have hafter : taken.after.bus = taken.after.board.bus := rfl
  rcases taken.after_cases with ⟨-, -, hboard, -⟩ | ⟨-, -, -, hboard, -⟩ | ⟨-, henters, -⟩
  · rw [hafter, hboard]
    rfl
  · rw [hafter, hboard, hflip]
  · rw [peek_after_of_enters h henters hstorage (by omega) (hne (by decide)).symm, hflip]

end StepTaken

/-- A step on which the timer does not fire does what its instruction does, and counts its cycles. -/
theorem exists_stepTaken_of_room {console : Console} {instruction : Step} {board : Board SystemBus}
    (h : Board.execute console.board = .ok instruction board)
    (hroom : console.vblank.elapsed + instruction.cycles ≤ console.vblank.threshold) :
    ∃ taken : StepTaken, taken.before = console ∧ taken.instruction = instruction ∧
      taken.executed.board = board ∧ ¬ taken.Fires ∧ taken.after.board = board ∧
      taken.after.vblank = ⟨console.vblank.elapsed + instruction.cycles, console.vblank.threshold⟩ := by
  have hquiet : ¬ console.vblank.fires instruction.cycles = true := by
    rw [VblankTimer.fires, decide_eq_true_iff]
    omega
  have hevents := Console.stepEvents_of_execute h
  rw [if_neg hquiet] at hevents
  refine ⟨⟨console, instruction, _, _, h, Console.tick_eq_ok.mpr ⟨_, _, h, rfl, rfl⟩,
    Console.step_eq_ok.mpr ⟨_, hevents, rfl⟩⟩, rfl, rfl, rfl, hquiet, rfl, ?_⟩
  exact (VblankTimer.advance_of_not_fires hquiet).2

namespace Console

/-! ### Runs -/

/-- A run of steps with button changes between them, and the records of its steps. -/
inductive Drives : Console → List StepTaken → Console → Prop
  | done (console : Console) : Drives console [] console
  | button {console pressed final : Console} {records : List StepTaken} (pad : Nat)
      (button : UInt8) (on : Bool) :
      console.setButton pad button on = some pressed → Drives pressed records final →
        Drives console records final
  | step (taken : StepTaken) {final : Console} {records : List StepTaken} :
      Drives taken.after records final → Drives taken.before (taken :: records) final

/-- Runs follow one another. -/
theorem Drives.append {start middle final : Console} {records later : List StepTaken}
    (h : Drives start records middle) (hlater : Drives middle later final) :
    Drives start (records ++ later) final := by
  induction h with
  | done console => exact hlater
  | button pad button on hpressed _ ih => exact .button pad button on hpressed (ih hlater)
  | step taken _ ih => exact .step taken (ih hlater)

/-- The run before a step. -/
theorem Drives.before {start final : Console} {earlier later : List StepTaken} {taken : StepTaken}
    (h : Drives start (earlier ++ taken :: later) final) : Drives start earlier taken.before := by
  generalize hrecords : earlier ++ taken :: later = records at h
  induction h generalizing earlier with
  | done console => simp at hrecords
  | button pad button on hpressed _ ih => exact .button pad button on hpressed (ih hrecords)
  | step first _ ih =>
    cases earlier with
    | nil =>
      cases hrecords
      exact .done _
    | cons other earlier =>
      cases hrecords
      exact .step first (ih rfl)

/-- A button changes only its controller. -/
theorem setButton_eq_some {console pressed : Console} {pad : Nat} {button : UInt8} {on : Bool}
    (h : console.setButton pad button on = some pressed) :
    pressed.cpu = console.cpu ∧ pressed.bus.space = console.bus.space ∧
      pressed.nmi = console.nmi ∧ pressed.vblank = console.vblank := by
  obtain ⟨⟨cpu, ⟨space, video, oam, latch, pad1, pad2⟩⟩, nmi, vblank, trace, cartridge, region,
    timeout⟩ := console
  obtain ⟨bus, hbus, rfl⟩ := Option.map_eq_some_iff.mp h
  match pad, hbus with
  | 0, hbus => cases hbus; exact ⟨rfl, rfl, rfl, rfl⟩
  | 1, hbus => cases hbus; exact ⟨rfl, rfl, rfl, rfl⟩

/-- What the buttons keep, and the steps before a given one, holds before that step. -/
theorem Drives.before_of_keeps {I : Console → Prop} {start final : Console}
    {body rest : List StepTaken} {taken : StepTaken}
    (h : Drives start (body ++ taken :: rest) final) (hI : I start)
    (hbutton : ∀ console pressed pad button on,
      console.setButton pad button on = some pressed → I console → I pressed)
    (hstep : ∀ other ∈ body, I other.before → I other.after) : I taken.before := by
  generalize hrecords : body ++ taken :: rest = records at h
  induction h generalizing body with
  | done console => simp at hrecords
  | button pad button on hpressed _ ih => exact ih (hbutton _ _ pad button on hpressed hI) hstep hrecords
  | step first _ ih =>
    cases body with
    | nil =>
      cases hrecords
      exact hI
    | cons other body =>
      cases hrecords
      exact ih (hstep first List.mem_cons_self hI)
        (fun other hmem => hstep other (List.mem_cons_of_mem _ hmem)) rfl

theorem Drives.wired {start final : Console} {records : List StepTaken} {taken : StepTaken}
    (h : Drives start records final) (hstart : start.bus.Wired) (hmem : taken ∈ records) :
    taken.before.bus.Wired := by
  obtain ⟨body, rest, rfl⟩ := List.append_of_mem hmem
  refine h.before_of_keeps (I := fun console => console.bus.Wired) hstart ?_
    (fun _ _ => StepTaken.after_wired)
  intro console pressed pad button on hpressed hwired
  obtain ⟨-, hspace, -⟩ := setButton_eq_some hpressed
  rw [SystemBus.Wired, hspace]
  exact hwired

/-- While no interrupt is taken, the gate remembers the same stack pointer, and its mark is cleared as
soon as an instruction leaves the stack pointer there. -/
theorem Drives.gate_of_quiet {start final : Console} {records : List StepTaken}
    (h : Drives start records final) (hquiet : ∀ taken ∈ records, ¬ taken.Enters) :
    final.nmi.capturedSp = start.nmi.capturedSp ∧
      (final.nmi.inFlight = false ↔ start.nmi.inFlight = false ∨
        ∃ taken ∈ records, taken.executed.cpu.regs.s = start.nmi.capturedSp) := by
  induction h with
  | done console => simp
  | button pad button on hpressed _ ih =>
    obtain ⟨-, -, hnmi, -⟩ := setButton_eq_some hpressed
    rw [← hnmi]
    exact ih hquiet
  | step first _ ih =>
    obtain ⟨hsp, hmark⟩ := ih fun taken hmem => hquiet taken (List.mem_cons_of_mem _ hmem)
    have hfirst := first.after_nmi_of_not_enters (hquiet first List.mem_cons_self)
    rw [hfirst, NmiGate.capturedSp_finish] at hsp hmark
    refine ⟨hsp, ?_⟩
    rw [hmark, NmiGate.inFlight_finish_eq_false, or_assoc, List.exists_mem_cons_iff]

/-- The last step of a run without interrupts, if the timer fires on it, takes an interrupt unless a
handler was running at the start and no instruction has brought the stack pointer back. -/
theorem Drives.enters_iff_of_quiet {console : Console} {quiet : List StepTaken}
    {last : StepTaken} (h : Drives console quiet last.before)
    (hquiet : ∀ taken ∈ quiet, ¬ taken.Enters) (hlast : last.Fires) :
    last.Enters ↔ console.nmi.inFlight = false ∨
      ∃ taken ∈ quiet ++ [last], taken.executed.cpu.regs.s = console.nmi.capturedSp := by
  obtain ⟨hsp, hmark⟩ := h.gate_of_quiet hquiet
  rw [last.enters_iff, last.executed_nmi, hmark, hsp]
  simp only [hlast, true_and, or_assoc, List.mem_append, List.mem_singleton, or_and_right,
    exists_or, exists_eq_left]

theorem wired_insert (banks : Banks) {bus : SystemBus} (h : bus.Wired) :
    (insert banks bus).Wired := by
  rw [SystemBus.Wired, ← show bus.space.routes = _ from h]
  show ((bus.space.store lowerWindow _).store upperWindow _).routes = bus.space.routes
  rw [AddressSpace.routes_store, AddressSpace.routes_store]

/-- A console that has just been switched on is wired as it was made. -/
theorem wired_powerOn (settings : Settings) (cartridge : Cartridge) :
    (powerOn settings cartridge).bus.Wired :=
  (wired_insert _ (SystemBus.wired_powerOn _)).setVblank true

end Console

end NesMachine
