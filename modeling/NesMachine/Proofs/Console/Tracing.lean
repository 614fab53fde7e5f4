import NesMachine.Proofs.Console.Listings
import NesMachine.Proofs.Console.LockStep

/-!
# What a trace shows

A trace forgets.  It shows the end of a history that it does not hold: all the instructions that a
console has executed, turn by turn, of which only the latest still count.  A turn is a tick or a step.
One that fails with its instruction has no part in that history; a step that fails behind it, when an
interrupt does not fit on the stack, has.

* `Trace.Bounded.steps_recordAll`: what a trace shows after any records;
* `Turn.execution?`: the instruction that a turn executes, if it does;
* `Turn.trace_after`, `trace_afterTurns`: what one turn records, whether it succeeds or not, and
  what any turns record;
* `Execution.faithful`: what the record of an executed instruction says;
* `Parked.executions_steps_fail`: a step that fails behind its instruction;
* `trace_shows_latest`: what the trace shows after any turns.
-/

namespace NesMachine

namespace Trace

/-! ### Records -/

/-- Records instructions, the oldest first. -/
def recordAll (trace : Trace) (steps : List Step) : Trace := steps.foldl record trace

/-- **A trace shows the latest records**, as many as its depth allows. -/
theorem Bounded.steps_recordAll {trace : Trace} (h : trace.Bounded) (steps : List Step) :
    (trace.recordAll steps).steps = (steps.reverse ++ trace.steps).take trace.depth := by
  induction steps generalizing trace with
  | nil => exact (List.take_of_length_le h).symm
  | cons step steps ih =>
    -- cutting what lies behind the latest records does not show
    have hcut (latest older : List Step) :
        (latest ++ older.take trace.depth).take trace.depth
          = (latest ++ older).take trace.depth := by
      rw [List.take_append, List.take_append, List.take_take, Nat.min_eq_left (Nat.sub_le _ _)]
    show ((trace.record step).recordAll steps).steps = _
    rw [ih (h.record step), depth_record, h.steps_record, hcut, List.reverse_cons,
      List.append_assoc]
    rfl

end Trace

namespace Console

variable {console : Console} {instruction : Step} {board : Board SystemBus}

/-! ### Turns and the instructions that they execute -/

/-- The two ways to let a console execute an instruction. -/
inductive Turn where
  | tick
  | step
deriving DecidableEq

/-- What a turn attempts. -/
def Turn.attempt : Turn → Attempt Fault Console Nat
  | tick => Console.tick
  | step => Console.step

/-- An instruction that a turn has executed. -/
structure Execution where
  turn : Turn
  /-- The console before the turn. -/
  before : Console
  /-- The record of the instruction. -/
  instruction : Step
  /-- The board after the instruction. -/
  board : Board SystemBus
  executes : Board.execute before.board = .ok instruction board

/-- The instruction that a turn executes, unless it fails there. -/
def Turn.execution? (turn : Turn) (console : Console) : Option Execution :=
  match h : Board.execute console.board with
  | .ok instruction board => some ⟨turn, console, instruction, board, h⟩
  | .error _ _ => none

/-- A console after turns, of which some may have failed. -/
def afterTurns (console : Console) (turns : List Turn) : Console :=
  turns.foldl (fun console turn => turn.attempt.after console) console

theorem afterTurns_cons (console : Console) (turn : Turn) (turns : List Turn) :
    console.afterTurns (turn :: turns) = (turn.attempt.after console).afterTurns turns := rfl

/-- The instructions that turns execute, the oldest first. -/
def executions : Console → List Turn → List Execution
  | _, [] => []
  | console, turn :: turns =>
    (turn.execution? console).toList ++ executions (turn.attempt.after console) turns

theorem Turn.execution?_of_ok (turn : Turn)
    (h : Board.execute console.board = .ok instruction board) :
    turn.execution? console = some ⟨turn, console, instruction, board, h⟩ := by
  unfold execution?
  split
  · next hexecute =>
    cases hexecute.symm.trans h
    rfl
  · next hexecute =>
    cases hexecute.symm.trans h

theorem Turn.execution?_of_error (turn : Turn) {fault : Fault}
    (h : Board.execute console.board = .error fault board) : turn.execution? console = none := by
  unfold execution?
  split
  · next hexecute =>
    cases hexecute.symm.trans h
  · rfl

theorem executions_cons_of_ok (turn : Turn) (turns : List Turn)
    (h : Board.execute console.board = .ok instruction board) :
    console.executions (turn :: turns) =
      ⟨turn, console, instruction, board, h⟩ :: (turn.attempt.after console).executions turns := by
  rw [executions, turn.execution?_of_ok h]
  rfl

/-! ### What turns record -/

/-- A turn that has executed its instruction has recorded it, even where it fails afterwards. -/
theorem Turn.trace_after_of_ok (turn : Turn)
    (h : Board.execute console.board = .ok instruction board) :
    (turn.attempt.after console).trace = console.trace.record instruction := by
  cases turn with
  | tick =>
    rw [attempt, Attempt.after, tick_eq_ok.mpr ⟨instruction, board, h, rfl, rfl⟩]
    rfl
  | step =>
    -- whatever the timer and the interrupt do afterwards, they leave the trace alone
    rw [attempt, Console.step, Attempt.after_bind, stepEvents_of_execute h]
    by_cases hfires : console.vblank.fires instruction.cycles = true
    · rw [if_pos hfires]
      cases (console.rested instruction board).nmi.inFlight with
      | true => rfl
      | false =>
        rw [if_neg Bool.false_ne_true]
        cases Board.nmi (flipVblank (console.rested instruction board)).board <;> rfl
    · rw [if_neg hfires]
      rfl

theorem Turn.trace_after_of_error (turn : Turn) {fault : Fault}
    (h : Board.execute console.board = .error fault board) :
    (turn.attempt.after console).trace = console.trace := by
  have htick := tick_eq_error.mpr ⟨board, h, rfl⟩
  cases turn with
  | tick => rw [attempt, Attempt.after, htick]
  | step => rw [attempt, Attempt.after, step_eq_error_of_tick htick]

theorem Turn.trace_after (turn : Turn) (console : Console) :
    (turn.attempt.after console).trace =
      console.trace.recordAll ((turn.execution? console).toList.map Execution.instruction) := by
  cases h : Board.execute console.board with
  | ok instruction board =>
    rw [turn.trace_after_of_ok h, turn.execution?_of_ok h]
    rfl
  | error fault board =>
    rw [turn.trace_after_of_error h, turn.execution?_of_error h]
    rfl

/-- Calls record what they have executed, and nothing else. -/
theorem trace_afterTurns (console : Console) (turns : List Turn) :
    (console.afterTurns turns).trace =
      console.trace.recordAll ((console.executions turns).map Execution.instruction) := by
  induction turns generalizing console with
  | nil => rfl
  | cons turn turns ih =>
    rw [afterTurns_cons, ih, turn.trace_after, executions, List.map_append, Trace.recordAll, Trace.recordAll,
      ← List.foldl_append, Trace.recordAll]

/-- Each executed instruction belongs to a turn, and starts from what the turns before it have
left. -/
theorem exists_turn_of_mem_executions {execution : Execution} {turns : List Turn}
    (h : execution ∈ console.executions turns) :
    ∃ earlier later, turns = earlier ++ execution.turn :: later ∧
      execution.before = console.afterTurns earlier := by
  induction turns generalizing console with
  | nil => cases h
  | cons turn turns ih =>
    rw [executions, List.mem_append, Option.mem_toList] at h
    obtain hfirst | hlater := h
    · refine ⟨[], turns, ?_⟩
      cases hexecute : Board.execute console.board with
      | ok instruction board =>
        rw [turn.execution?_of_ok hexecute] at hfirst
        cases hfirst
        exact ⟨rfl, rfl⟩
      | error fault board =>
        rw [turn.execution?_of_error hexecute] at hfirst
        cases hfirst
    · obtain ⟨earlier, later, rfl, hbefore⟩ := ih hlater
      exact ⟨turn :: earlier, later, rfl, hbefore⟩

/-! ### What records say -/

/-- The record of an executed instruction tells what was executed. -/
structure Execution.Faithful (execution : Execution) : Prop where
  pc : execution.instruction.pc = execution.before.cpu.regs.pc
  /-- The opcode is the byte that a read delivers there. -/
  opcode : (execution.before.bus.read execution.instruction.pc).1 = execution.instruction.opcode
  decoded : (Opcode.decode execution.instruction.opcode).map (fun o => (o.mnemonic, o.mode)) =
    some (execution.instruction.mnemonic, execution.instruction.mode)
  /-- The cycles are those that the instruction adds to the total. -/
  spent : execution.board.cpu.cycles =
    execution.before.cpu.cycles + execution.instruction.cycles
  /-- They are what the turn delivers, if it does not fail after the instruction. -/
  delivered : ∀ cycles after, execution.turn.attempt execution.before = .ok cycles after →
    cycles = execution.instruction.cycles

theorem Turn.cycles_of_ok (turn : Turn) {cycles : Nat} {after : Console}
    (h : Board.execute console.board = .ok instruction board)
    (hturn : turn.attempt console = .ok cycles after) : cycles = instruction.cycles := by
  cases turn with
  | tick =>
    obtain ⟨other, board', hexecute, rfl, -⟩ := tick_eq_ok.mp hturn
    cases h.symm.trans hexecute
    rfl
  | step =>
    obtain ⟨taken, rfl, -, rfl⟩ := exists_stepTaken hturn
    cases h.symm.trans taken.executes
    rfl

theorem Execution.faithful (execution : Execution) : execution.Faithful := by
  obtain ⟨turn, before, instruction, board, hexecute⟩ := execution
  obtain ⟨byte, bus, opcode, operand, resolved, extra, done, hread, hdecode, -, -, hstep, -⟩ :=
    Board.execute_eq_ok.mp hexecute
  refine ⟨congrArg Step.pc hstep, ?_, ?_, Board.execute_cycles hexecute, ?_⟩
  · subst hstep
    cases hread
    rfl
  · subst hstep
    exact congrArg (Option.map _) hdecode
  · exact fun cycles after => turn.cycles_of_ok hexecute

/-! ### A step that fails behind its instruction -/

/-- Turns follow one another. -/
theorem afterTurns_append (console : Console) (turns later : List Turn) :
    console.afterTurns (turns ++ later) = (console.afterTurns turns).afterTurns later :=
  List.foldl_append

theorem executions_append (console : Console) (turns later : List Turn) :
    console.executions (turns ++ later) =
      console.executions turns ++ (console.afterTurns turns).executions later := by
  induction turns generalizing console with
  | nil => rfl
  | cons turn turns ih =>
    rw [List.cons_append, executions, executions, ih, List.append_assoc]
    rfl

/-- Ticks do what the processor does on the board, and leave the timing alone. -/
theorem executions_ticks {instructions : List Step} {final : Board SystemBus}
    (h : Board.Works console.board instructions final) :
    (console.executions (List.replicate instructions.length .tick)).map Execution.instruction =
        instructions ∧
      ∃ trace, console.afterTurns (List.replicate instructions.length .tick) =
        { console with board := final, trace := trace } := by
  generalize hboard : console.board = board at h
  induction h generalizing console with
  | done board =>
    subst hboard
    exact ⟨rfl, console.trace, rfl⟩
  | @step board mid final instruction later hbusy hexecute hlater ih =>
    subst hboard
    have hticked : Turn.tick.attempt.after console =
        record instruction { console with board := mid } := by
      rw [Turn.attempt, Attempt.after, tick_eq_ok.mpr ⟨instruction, mid, hexecute, rfl, rfl⟩]
    have hmid : (record instruction { console with board := mid }).board = mid := rfl
    obtain ⟨hexecutions, trace, hafter⟩ := ih hmid
    rw [List.length_cons, List.replicate_succ]
    refine ⟨?_, trace, ?_⟩
    · rw [executions_cons_of_ok .tick _ hexecute, List.map_cons, hticked, hexecutions]
    · rw [afterTurns_cons, hticked, hafter]
      rfl

/-- As long as the timer has room, each step of a parked program executes its jump. -/
theorem Parked.executions_steps (h : Parked console) (hidle : console.nmi.inFlight = false) {n : Nat}
    (hroom : console.vblank.elapsed + 3 * n ≤ console.vblank.threshold) :
    (console.executions (List.replicate n .step)).map Execution.instruction =
        List.replicate n ⟨console.cpu.regs.pc, 0x4C, .jmp, .absolute, 3⟩ ∧
      ∃ last, console.afterTurns (List.replicate n .step) = last ∧ Parked last ∧
        last.cpu.regs = console.cpu.regs ∧ last.nmi.inFlight = false ∧
        last.vblank = ⟨console.vblank.elapsed + 3 * n, console.vblank.threshold⟩ := by
  induction n generalizing console with
  | zero => exact ⟨rfl, console, rfl, h, rfl, hidle, rfl⟩
  | succ n ih =>
    obtain ⟨taken, rfl, -, -, hquiet, hafter, hvblank⟩ :=
      exists_stepTaken_of_room h.execute (by dsimp only; omega)
    have hstepped : Turn.step.attempt.after taken.before = taken.after := by
      rw [Turn.attempt, Attempt.after, taken.steps]
    have hregs : taken.after.cpu.regs = taken.before.cpu.regs := by rw [cpu, hafter]
    have hbus : taken.after.bus = taken.before.bus := by rw [bus, hafter]
    have hnmi : taken.after.nmi.inFlight = false := by
      rw [taken.after_nmi_of_not_enters fun henters => hquiet (taken.enters_iff.mp henters).1,
        NmiGate.inFlight_finish_eq_false]
      exact .inl hidle
    obtain ⟨hexecutions, last, hlast, hparked, hlastRegs, hlastNmi, hlastVblank⟩ :=
      ih (h.congr hregs hbus) hnmi (by rw [hvblank]; dsimp only; omega)
    rw [List.replicate_succ, List.replicate_succ]
    refine ⟨?_, last, ?_, hparked, hlastRegs.trans hregs, hlastNmi, ?_⟩
    · rw [executions_cons_of_ok .step _ h.execute, List.map_cons, hstepped, hexecutions, hregs]
    · rw [afterTurns_cons, hstepped, hlast]
    · rw [hlastVblank, hvblank]
      dsimp only
      rw [Nat.mul_succ, Nat.add_assoc, Nat.add_comm (3 * n)]

/-- Where the stack has no room for the frame of an interrupt, the step on which the timer fires
executes its jump too, and then fails. -/
theorem Parked.executions_steps_fail (h : Parked console) (hidle : console.nmi.inFlight = false)
    (hs : console.cpu.regs.s.toNat < 3) {n : Nat}
    (hroom : console.vblank.elapsed + 3 * n ≤ console.vblank.threshold)
    (hlast : console.vblank.threshold < console.vblank.elapsed + 3 * n + 3) :
    (console.executions (List.replicate n .step ++ [.step])).map Execution.instruction =
        List.replicate (n + 1) ⟨console.cpu.regs.pc, 0x4C, .jmp, .absolute, 3⟩ ∧
      ∃ left, step (console.afterTurns (List.replicate n .step)) =
        .error (.stackOverflow 0) left := by
  obtain ⟨hsteps, last, hafter, hparked, hregs, hfree, hclock⟩ := h.executions_steps hidle hroom
  have hjump : (last.executions [.step]).map Execution.instruction =
      [⟨console.cpu.regs.pc, 0x4C, .jmp, .absolute, 3⟩] := by
    rw [executions_cons_of_ok .step [] hparked.execute, executions, List.map_singleton, ← hregs]
  rw [executions_append, List.map_append, hsteps, hafter, hjump, List.replicate_succ']
  refine ⟨rfl, step_error_iff.mpr (.inr ⟨rfl, 3, _, tick_eq_ok.mpr
    ⟨_, _, hparked.execute, rfl, rfl⟩, ?_, ?_, ?_⟩)⟩
  · rw [hclock, VblankTimer.fires, decide_eq_true_iff]
    exact hlast
  · show (last.nmi.finish last.cpu.regs.s).inFlight = false
    rw [NmiGate.inFlight_finish_eq_false]
    exact .inl hfree
  · show last.cpu.regs.s.toNat < 3
    rw [hregs]
    exact hs

/-- A program that leaves room for two bytes on the stack and then jumps to itself. -/
def crowdedProgram : List (Nat × UInt8) :=
  [(0x0000, 0xA2), (0x0001, 0x02), (0x0002, 0x9A), (0x0003, 0x4C), (0x0004, 0x03), (0x0005, 0x80)]

/-- A cartridge with that program alone. -/
def crowdedCartridge : Cartridge := cartridgeOf crowdedProgram

/-- How that program starts. -/
def crowdedLines : List Line :=
  [⟨⟨0xA2, .ldx, .immediate, 2⟩, 2⟩, ⟨⟨0x9A, .txs, .implicit, 2⟩, 0⟩]

/-- Two ticks park it. -/
theorem executions_crowded (settings : Settings) :
    ((powerOn settings crowdedCartridge).executions (List.replicate 2 .tick)).length = 2 ∧
      ∃ last, (powerOn settings crowdedCartridge).afterTurns (List.replicate 2 .tick) = last ∧
        Parked last ∧ last.cpu.regs.pc = 0x8003 ∧ last.cpu.regs.s = 2 ∧
        last.nmi.inFlight = false ∧
        last.vblank = VblankTimer.start settings.region.cyclesPerFrame := by
  have hshows : ShowsProgram crowdedProgram (powerOn settings crowdedCartridge).bus :=
    showsProgram_powerOn settings crowdedProgram
  have hbytes : ∀ (i : Nat) (hi : i < (Line.codeOf crowdedLines).length),
      0x8000 ≤ ((0x8000 : UInt16) + UInt16.ofNat i).toNat ∧
        bankByte crowdedProgram (((0x8000 : UInt16) + UInt16.ofNat i).toNat % 0x4000) =
          (Line.codeOf crowdedLines)[i] := by
    decide
  have hstraight : Line.Straight crowdedLines := by decide
  have hcode : (powerOn settings crowdedCartridge).board.bus.Shows
      (powerOn settings crowdedCartridge).board.cpu.regs.pc (Line.codeOf crowdedLines) :=
    fun i hi => ⟨(hbytes i hi).1, (hshows.byte _ (hbytes i hi).1).trans (hbytes i hi).2⟩
  obtain ⟨instructions, hworks, hlength, -⟩ := Line.works hstraight hshows.wired hcode
  obtain ⟨hexecutions, trace, hafter⟩ := executions_ticks hworks
  rw [show instructions.length = 2 from hlength] at hexecutions hafter
  refine ⟨?_, _, hafter, ?_, rfl, rfl, rfl, rfl⟩
  · rw [← List.length_map Execution.instruction, hexecutions, hlength]
    rfl
  · -- the two lines have stored nothing
    have hstored (regs : Registers) (bytes : Memory) :
        (Line.applyAll crowdedLines (regs, bytes)).2 = bytes := rfl
    have hshown : ShowsProgram crowdedProgram
        ((powerOn settings crowdedCartridge).bus.withBytes (Line.applyAll crowdedLines
          ((powerOn settings crowdedCartridge).cpu.regs,
            (powerOn settings crowdedCartridge).bus.space.bytes)).2) := by
      rw [hstored, SystemBus.withBytes_bytes]
      exact hshows
    exact ShowsProgram.parked hshown (a := 0x8003) rfl (by decide) (by decide) (by decide)

/-! ### The whole history -/

/-- **What the trace shows.**  Let a console with an empty trace take any number of turns, ticks and
steps, of which some may fail.  Then its trace, newest first, is the reverse of the list of all the
instructions that were executed, cut after as many as the trace is deep; the newest record and the
number of records are those of that list.  Each record tells the address of its instruction, the byte
that was read there, what that byte stands for, and the cycles that the instruction took and its turn
delivered. -/
theorem trace_shows_latest {console : Console} {depth : Nat}
    (hstart : console.trace = Trace.ofDepth depth) (turns : List Turn) :
    let executions := console.executions turns
    let trace := (console.afterTurns turns).trace
    trace.steps = ((executions.map Execution.instruction).reverse).take depth ∧
    trace.latest? = trace.steps.head? ∧
    (0 < depth → trace.latest? = executions.getLast?.map Execution.instruction) ∧
    trace.length = min depth executions.length ∧
    ∀ execution ∈ executions, execution.Faithful ∧
      ∃ earlier later, turns = earlier ++ execution.turn :: later ∧
        execution.before = console.afterTurns earlier := by
  intro executions trace
  have hsteps : trace.steps = ((executions.map Execution.instruction).reverse).take depth := by
    show (console.afterTurns turns).trace.steps = _
    rw [trace_afterTurns, hstart, (Trace.bounded_ofDepth depth).steps_recordAll]
    show (_ ++ []).take depth = _
    rw [List.append_nil]
  refine ⟨hsteps, rfl, ?_, ?_, ?_⟩
  · intro hdepth
    rw [Trace.latest?, hsteps, List.head?_take, if_neg (Nat.ne_of_gt hdepth), List.head?_reverse,
      List.getLast?_map]
  · rw [Trace.length, hsteps, List.length_take, List.length_reverse, List.length_map]
  · intro execution hmem
    exact ⟨execution.faithful, exists_turn_of_mem_executions hmem⟩

/-- The two ticks and the steps after them execute one instruction each.  The timer fires on the last
step, which fails behind its jump because the interrupt does not fit on the stack.  The trace has room
for a hundred of the records, and holds that of the failed step. -/
theorem failed_step_traced :
    let start := powerOn Settings.default crowdedCartridge
    let turns := List.replicate 2 Turn.tick ++ List.replicate 9927 .step
    (start.afterTurns (turns ++ [.step])).trace.steps =
        List.replicate 100 ⟨0x8003, 0x4C, .jmp, .absolute, 3⟩ ∧
      (start.afterTurns (turns ++ [.step])).trace.length = 100 ∧
      (start.executions (turns ++ [.step])).length = 9930 ∧
      ∃ left, step (start.afterTurns turns) = .error (.stackOverflow 0) left := by
  intro start turns
  obtain ⟨hticks, mid, hmid, hparked, hpc, hs, hidle, hvblank⟩ :=
    executions_crowded Settings.default
  obtain ⟨hsteps, hfails⟩ := hparked.executions_steps_fail hidle (by rw [hs]; decide) (n := 9927)
    (by rw [hvblank]; decide) (by rw [hvblank]; decide)
  -- the jumps of the steps stand behind the two ticks
  obtain ⟨ticked, hticked, hexecutions⟩ : ∃ ticked : List Step, ticked.length = 2 ∧
      (start.executions (turns ++ [.step])).map Execution.instruction =
        ticked ++ List.replicate (9927 + 1) ⟨0x8003, 0x4C, .jmp, .absolute, 3⟩ := by
    refine ⟨(start.executions (List.replicate 2 .tick)).map Execution.instruction, ?_, ?_⟩
    · rw [List.length_map, hticks]
    · rw [List.append_assoc, executions_append, hmid, List.map_append, hsteps, hpc]
  have hlength : (start.executions (turns ++ [.step])).length = 9930 := by
    rw [← List.length_map Execution.instruction, hexecutions, List.length_append, hticked,
      List.length_replicate]
  obtain ⟨htrace, -, -, hcount, -⟩ :=
    trace_shows_latest (show start.trace = Trace.ofDepth 100 from rfl) (turns ++ [.step])
  refine ⟨?_, ?_, hlength, ?_⟩
  · have hlatest {n depth : Nat} (hdepth : depth ≤ n) (earlier : List Step) (jump : Step) :
        (earlier ++ List.replicate n jump).reverse.take depth = List.replicate depth jump := by
      rw [List.reverse_append, List.reverse_replicate, List.take_append_of_le_length
        (by rw [List.length_replicate]; exact hdepth), List.take_replicate, Nat.min_eq_left hdepth]
    rw [htrace, hexecutions]
    exact hlatest (by decide) _ _
  · rw [hcount, hlength]
    exact Nat.min_eq_left (by decide)
  · rw [afterTurns_append, hmid]
    exact hfails

end Console

end NesMachine
