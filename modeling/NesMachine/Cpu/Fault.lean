import NesMachine.Bus.Basic
import NesMachine.Cpu.Mnemonic
import NesMachine.Cpu.Mode

/-!
# Faults

The reasons why an instruction or an interrupt sequence cannot complete. Each stops the
program for good; the processor and the bus are left as they were at the point of failure.
-/

namespace NesMachine

/-- Why the processor stops. -/
inductive Fault where
  /-- The bus refused an access. -/
  | bus (error : BusError)
  /-- A push found the stack full. -/
  | stackOverflow (sp : UInt8)
  /-- A pull found the stack empty. -/
  | stackUnderflow (sp : UInt8)
  /-- The instruction works on an address, and its operand has none. -/
  | missingEffectiveAddress (mnemonic : Mnemonic) (mode : Mode)
  /-- The byte at the program counter is not a documented opcode. -/
  | unknownOpcode (opcode : UInt8) (pc : UInt16)
deriving DecidableEq

/-- The wording of a fault. -/
def Fault.message : Fault → String
  | .bus error => error.message
  | .stackOverflow sp => "stack overflow: push with SP=$" ++ Text.hexByte sp
  | .stackUnderflow sp => "stack underflow: pull with SP=$" ++ Text.hexByte sp
  | .missingEffectiveAddress mnemonic mode =>
    mnemonic.name ++ " needs an effective address but " ++ mode.name ++ " mode supplied none"
  | .unknownOpcode opcode pc =>
    "unknown opcode $" ++ Text.hexByte opcode ++ " at $" ++ Text.hexWord pc

end NesMachine
