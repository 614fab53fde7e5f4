import NesMachine.Cpu.Instruction

/-!
# Execution

`execute` carries out the instruction at the program counter and delivers a record of it;
`nmi` and `reset` are the two interrupt sequences. An undocumented opcode leaves the program
counter on it. The cycle total grows only when an instruction or a sequence completes.
-/

namespace NesMachine

/-- The record of an executed instruction. -/
structure Step where
  /-- The address that the opcode was read from. -/
  pc : UInt16
  opcode : UInt8
  mnemonic : Mnemonic
  mode : Mode
  /-- The cycles taken, with those for a taken branch or a page crossing. -/
  cycles : Nat
deriving DecidableEq

/-- The line of a listing for an executed instruction. -/
def Step.render (step : Step) : String :=
  "$" ++ Text.hexWord step.pc ++ "  " ++ Text.hexByte step.opcode ++ "  " ++ step.mnemonic.name
    ++ " " ++ step.mode.name

/-- Where the program counter is loaded from by a non-maskable interrupt. -/
def nmiVector : UInt16 := 0xFFFA

/-- Where the program counter is loaded from by a reset. -/
def resetVector : UInt16 := 0xFFFC

/-- The cycles of an interrupt sequence. -/
def interruptCycles : Nat := 7

namespace Board

variable {β : Type} [Bus β]

/-- Executes one instruction. -/
def execute : Run β Step := do
  let pc := (← registers).pc
  let byte ← read pc
  match Opcode.decode byte with
  | none => throw (.unknownOpcode byte pc)
  | some opcode =>
    jumpTo (pc + 1)
    let operand ← resolve opcode.mode opcode.fetch
    let extra ← perform opcode.mnemonic operand
    let penalty := if opcode.pagePenalty && operand.pageCrossed then 1 else 0
    let cycles := opcode.cycles + extra + penalty
    spend cycles
    return ⟨pc, byte, opcode.mnemonic, opcode.mode, cycles⟩

/-- A board on which an opcode has just been read, with the bus as the read has left it. -/
def opened (board : Board β) (bus : β) : Board β :=
  ⟨⟨{ board.cpu.regs with pc := board.cpu.regs.pc + 1 }, board.cpu.cycles⟩, bus⟩

/-- The phases of an instruction: reading the opcode, resolving the operand, carrying it out. -/
theorem execute_eq_ok {board board' : Board β} {step : Step} :
    execute board = .ok step board' ↔
      ∃ byte bus opcode operand resolved extra done,
        Bus.read board.cpu.regs.pc board.bus = .ok byte bus ∧
        Opcode.decode byte = some opcode ∧
        resolve opcode.mode opcode.fetch (board.opened bus) = .ok operand resolved ∧
        perform opcode.mnemonic operand resolved = .ok extra done ∧
        step = ⟨board.cpu.regs.pc, byte, opcode.mnemonic, opcode.mode, opcode.cycles + extra
          + if opcode.pagePenalty && operand.pageCrossed then 1 else 0⟩ ∧
        board' = ⟨⟨done.cpu.regs, done.cpu.cycles + step.cycles⟩, done.bus⟩ := by
  refine ⟨?_, ?_⟩
  · intro h
    obtain ⟨regs, mid, hregs, h⟩ := Attempt.bind_eq_ok.mp h
    cases hregs
    obtain ⟨byte, mid, hread, h⟩ := Attempt.bind_eq_ok.mp h
    obtain ⟨bus, hbus, rfl⟩ := onBus_eq_ok.mp hread
    cases hdecode : Opcode.decode byte with
    | none =>
      simp only [hdecode] at h
      cases h
    | some opcode =>
      simp only [hdecode] at h
      obtain ⟨u, mid, hjump, h⟩ := Attempt.bind_eq_ok.mp h
      cases hjump
      obtain ⟨operand, resolved, hresolve, h⟩ := Attempt.bind_eq_ok.mp h
      obtain ⟨extra, done, hperform, h⟩ := Attempt.bind_eq_ok.mp h
      obtain ⟨u, mid, hspend, h⟩ := Attempt.bind_eq_ok.mp h
      cases hspend
      cases h
      exact ⟨byte, bus, opcode, operand, resolved, extra, done, hbus, hdecode, hresolve,
        hperform, rfl, rfl⟩
  · intro hparts
    obtain ⟨byte, bus, opcode, operand, resolved, extra, done, hbus, hdecode, hresolve, hperform,
      rfl, rfl⟩ := hparts
    refine Attempt.bind_eq_ok.mpr ⟨_, _, rfl, ?_⟩
    refine Attempt.bind_eq_ok.mpr ⟨byte, _, onBus_eq_ok.mpr ⟨bus, hbus, rfl⟩, ?_⟩
    simp only [hdecode]
    refine Attempt.bind_eq_ok.mpr ⟨(), board.opened bus, rfl, ?_⟩
    refine Attempt.bind_eq_ok.mpr ⟨operand, resolved, hresolve, ?_⟩
    exact Attempt.bind_eq_ok.mpr ⟨extra, done, hperform, rfl⟩

/-- Enters the handler of a non-maskable interrupt. -/
def nmi : Run β Unit := do
  let regs ← registers
  pushWord regs.pc
  let regs ← registers
  push regs.p.pushedByInterrupt
  change fun regs => regs.putFlag Flag.interruptDisable true
  let pc ← readWord nmiVector
  jumpTo pc
  spend interruptCycles

/-- Starts from the reset vector. The stack pointer becomes `$FD`, as if three bytes had been
pushed. -/
def reset : Run β Unit := do
  change fun regs =>
    { regs with s := 0xFD, p := .ofByte (regs.p.byte ||| Flag.interruptDisable) }
  let pc ← readWord resetVector
  jumpTo pc
  spend interruptCycles

end Board

end NesMachine
