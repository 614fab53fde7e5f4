import NesMachine.Cpu.Operand
import NesMachine.Cpu.Stack

/-!
# What instructions do

Each of the 56 instructions stands for an `Action`; instructions that differ only in a
register or a flag share one. `perform` carries an instruction out on a resolved operand and
delivers the cycles it takes beyond the base count of its opcode, which is one for a taken
branch and none otherwise. Instructions that work on an address fault when the operand has
none.
-/

namespace NesMachine

/-- The bitwise operations. -/
inductive Logic where
  | and
  | or
  | xor
deriving DecidableEq

/-- Applies a bitwise operation. -/
def Logic.apply : Logic → UInt8 → UInt8 → UInt8
  | .and, a, b => a &&& b
  | .or, a, b => a ||| b
  | .xor, a, b => a ^^^ b

/-- The shifts and rotations by one bit. -/
inductive Shift where
  | left
  | right
  | rotateLeft
  | rotateRight
deriving DecidableEq

namespace Shift

/-- The result of a shift; a rotation brings the old carry in. -/
def output (shift : Shift) (value : UInt8) (carryIn : UInt16) : AluOutput :=
  let wide := value.toUInt16
  match shift with
  | .left => ⟨wide <<< 1, value, 0⟩
  | .rotateLeft => ⟨wide <<< 1 ||| carryIn, value, 0⟩
  | .right => ⟨wide >>> 1, value, 0⟩
  | .rotateRight => ⟨wide >>> 1 ||| carryIn <<< 7, value, 0⟩

/-- The bit that a shift moves out. -/
def carryOut (shift : Shift) (out : AluOutput) : Bool :=
  match shift with
  | .left | .rotateLeft => out.carry
  | .right | .rotateRight => out.carryShiftRight

end Shift

/-- What an instruction does. -/
inductive Action where
  /-- Loads a register with the operand. -/
  | load (dst : Reg)
  /-- Stores a register. -/
  | store (src : Reg)
  /-- Copies one data register to another. -/
  | transfer (src dst : Reg)
  /-- Copies the stack pointer to X. -/
  | fromStackPointer
  /-- Copies X to the stack pointer, without any flag. -/
  | toStackPointer
  | pushA
  | pushStatus
  | pullA
  | pullStatus
  | add
  | subtract
  /-- Compares a register with the operand. -/
  | compare (left : Reg)
  /-- Combines A with the operand bit by bit. -/
  | combine (logic : Logic)
  | bitTest
  /-- Adds to the operand in memory. -/
  | adjust (delta : UInt8)
  /-- Adds to a register. -/
  | adjustReg (reg : Reg) (delta : UInt8)
  | shift (shift : Shift)
  /-- Jumps if a flag has the given value. -/
  | branch (mask : UInt8) (on : Bool)
  | jump
  | call
  | leaveCall
  | leaveInterrupt
  | softwareInterrupt
  /-- Sets or clears a flag. -/
  | putFlag (mask : UInt8) (on : Bool)
  | nothing

/-- The action of each instruction. -/
def Mnemonic.action : Mnemonic → Action
  | .lda => .load .a
  | .ldx => .load .x
  | .ldy => .load .y
  | .sta => .store .a
  | .stx => .store .x
  | .sty => .store .y
  | .tax => .transfer .a .x
  | .tay => .transfer .a .y
  | .txa => .transfer .x .a
  | .tya => .transfer .y .a
  | .tsx => .fromStackPointer
  | .txs => .toStackPointer
  | .pha => .pushA
  | .php => .pushStatus
  | .pla => .pullA
  | .plp => .pullStatus
  | .adc => .add
  | .sbc => .subtract
  | .cmp => .compare .a
  | .cpx => .compare .x
  | .cpy => .compare .y
  | .and => .combine .and
  | .ora => .combine .or
  | .eor => .combine .xor
  | .bit => .bitTest
  | .inc => .adjust 1
  | .dec => .adjust 0xFF
  | .inx => .adjustReg .x 1
  | .dex => .adjustReg .x 0xFF
  | .iny => .adjustReg .y 1
  | .dey => .adjustReg .y 0xFF
  | .asl => .shift .left
  | .lsr => .shift .right
  | .rol => .shift .rotateLeft
  | .ror => .shift .rotateRight
  | .bcc => .branch Flag.carry false
  | .bcs => .branch Flag.carry true
  | .bne => .branch Flag.zero false
  | .beq => .branch Flag.zero true
  | .bpl => .branch Flag.negative false
  | .bmi => .branch Flag.negative true
  | .bvc => .branch Flag.overflow false
  | .bvs => .branch Flag.overflow true
  | .jmp => .jump
  | .jsr => .call
  | .rts => .leaveCall
  | .rti => .leaveInterrupt
  | .brk => .softwareInterrupt
  | .clc => .putFlag Flag.carry false
  | .sec => .putFlag Flag.carry true
  | .cli => .putFlag Flag.interruptDisable false
  | .sei => .putFlag Flag.interruptDisable true
  | .cld => .putFlag Flag.decimal false
  | .sed => .putFlag Flag.decimal true
  | .clv => .putFlag Flag.overflow false
  | .nop => .nothing

/-- Where the program counter is loaded from after a BRK. -/
def breakVector : UInt16 := 0xFFFE

namespace Board

variable {β : Type}

/-- The effective address that an instruction works on. -/
def requireAddress (m : Mnemonic) (op : Operand) : Run β UInt16 :=
  match op.address with
  | some a => return a
  | none => throw (.missingEffectiveAddress m op.mode)

theorem requireAddress_eq_ok {m : Mnemonic} {op : Operand} {a : UInt16}
    {board board' : Board β} :
    requireAddress m op board = .ok a board' ↔ op.address = some a ∧ board = board' := by
  rw [requireAddress]
  cases op.address with
  | none => simp
  | some address => simp

/-- Takes the branch if the flag has the given value; delivers the cycles that this adds. -/
def branch (m : Mnemonic) (op : Operand) (mask : UInt8) (on : Bool) : Run β Nat := do
  let regs ← registers
  if regs.p.has mask == on then
    jumpTo (← requireAddress m op)
    return 1
  else
    return 0

variable [Bus β]

/-- Stores a register at the effective address. -/
def storeReg (m : Mnemonic) (op : Operand) (src : Reg) : Run β Unit := do
  let a ← requireAddress m op
  let regs ← registers
  write a (regs.get src)

/-- Puts a modified operand back to where it came from. -/
def writeBack (m : Mnemonic) (op : Operand) (value : UInt8) : Run β Unit :=
  if op.accumulator then
    change fun regs => { regs with a := value }
  else do
    let a ← requireAddress m op
    write a value

/-- Shifts or rotates the operand. The flags are set before the result is written back. -/
def shiftOperand (m : Mnemonic) (op : Operand) (shift : Shift) : Run β Unit := do
  let regs ← registers
  let out := shift.output op.value regs.carryIn
  change fun regs =>
    let regs := regs.putFlag Flag.carry (shift.carryOut out)
    regs.setStatus (regs.p.delivered out.byte)
  writeBack m op out.byte

/-- Adds to the operand in memory, and sets the flags once the sum is written. -/
def adjustMemory (m : Mnemonic) (op : Operand) (delta : UInt8) : Run β Unit := do
  let value := op.value + delta
  let a ← requireAddress m op
  write a value
  change fun regs => regs.setStatus (regs.p.delivered value)

/-- Calls the subroutine at the effective address; the last byte of the calling instruction
is what is pushed. -/
def call (m : Mnemonic) (op : Operand) : Run β Unit := do
  let target ← requireAddress m op
  let regs ← registers
  pushWord (regs.pc - 1)
  jumpTo target

/-- Returns behind the calling instruction. -/
def leaveCall : Run β Unit := do
  let pc ← pullWord
  jumpTo (pc + 1)

/-- Restores the status and the program counter from the stack. -/
def leaveInterrupt : Run β Unit := do
  let status ← pull
  change fun regs => regs.setStatus (.ofStack status)
  let pc ← pullWord
  jumpTo pc

/-- Pushes the address behind the padding byte and the status, and jumps through the vector
with interrupts disabled. -/
def softwareInterrupt : Run β Unit := do
  let regs ← registers
  pushWord (regs.pc + 1)
  let regs ← registers
  push regs.p.pushedByProgram
  change fun regs => regs.putFlag Flag.interruptDisable true
  let pc ← readWord breakVector
  jumpTo pc

/-- Carries out every action but a branch. -/
def act (m : Mnemonic) (op : Operand) : Action → Run β Unit
  | .load dst => change fun regs => regs.load dst op.value
  | .store src => storeReg m op src
  | .transfer src dst => change fun regs => regs.load dst (regs.get src)
  | .fromStackPointer => change fun regs => regs.load .x regs.s
  | .toStackPointer => change fun regs => { regs with s := regs.x }
  | .pushA => do push (← registers).a
  | .pushStatus => do push (← registers).p.pushedByProgram
  | .pullA => do
    let value ← pull
    change fun regs => regs.load .a value
  | .pullStatus => do
    let value ← pull
    change fun regs => regs.setStatus (.ofStack value)
  | .add => change fun regs => regs.add op.value
  | .subtract => change fun regs => regs.subtract op.value
  | .compare left => change fun regs => regs.compare (regs.get left) op.value
  | .combine logic => change fun regs => regs.load .a (logic.apply regs.a op.value)
  | .bitTest => change fun regs => regs.bitTest op.value
  | .adjust delta => adjustMemory m op delta
  | .adjustReg reg delta => change fun regs => regs.load reg (regs.get reg + delta)
  | .shift shift => shiftOperand m op shift
  | .branch _ _ => return ()
  | .jump => do jumpTo (← requireAddress m op)
  | .call => call m op
  | .leaveCall => leaveCall
  | .leaveInterrupt => leaveInterrupt
  | .softwareInterrupt => softwareInterrupt
  | .putFlag mask on => change fun regs => regs.putFlag mask on
  | .nothing => return ()

/-- Carries out an instruction and delivers the cycles beyond its base count. -/
def perform (m : Mnemonic) (op : Operand) : Run β Nat :=
  match m.action with
  | .branch mask on => branch m op mask on
  | action => do
    act m op action
    return 0

/-- Only a branch can take more cycles than its base count. -/
theorem perform_ok {m : Mnemonic} {op : Operand} {extra : Nat} {board board' : Board β}
    (h : perform m op board = .ok extra board') :
    (∃ mask on, m.action = .branch mask on ∧ branch m op mask on board = .ok extra board') ∨
      extra = 0 ∧ act m op m.action board = .ok () board' := by
  unfold perform at h
  generalize m.action = action at h ⊢
  split at h
  · exact .inl ⟨_, _, rfl, h⟩
  · obtain ⟨u, mid, hact, hpure⟩ := Attempt.bind_eq_ok.mp h
    obtain ⟨rfl, rfl⟩ := Attempt.pure_eq_ok.mp hpure
    exact .inr ⟨rfl, hact⟩

end Board

end NesMachine
