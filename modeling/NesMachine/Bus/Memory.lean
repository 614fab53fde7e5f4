import NesMachine.Bus.Basic
import NesMachine.Memory.Cells

/-!
# Flat memory

The plainest bus: one byte of storage at each address, no aliases and no devices. Its
accesses never fail and its reads change nothing.
-/

namespace NesMachine

/-- One byte of storage for each address. -/
abbrev Memory := Cells UInt8

namespace Memory

/-- Memory that holds only zeros. -/
def zeros : Memory := Cells.fill 0

/-- Stores bytes at consecutive addresses, going on at `$0000` after `$FFFF`. -/
def store : Memory → UInt16 → List UInt8 → Memory
  | memory, _, [] => memory
  | memory, a, byte :: bytes => store (memory.set a byte) (a + 1) bytes

end Memory

instance : Bus Memory where
  read a := fun memory => .ok memory[a] memory
  write a value := fun memory => .ok () (memory.set a value)

theorem Memory.read_eq (a : UInt16) (memory : Memory) :
    Bus.read a memory = .ok memory[a] memory := rfl

theorem Memory.write_eq (a : UInt16) (value : UInt8) (memory : Memory) :
    Bus.write a value memory = .ok () (Cells.set memory a value) := rfl

end NesMachine
