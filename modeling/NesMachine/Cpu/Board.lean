import NesMachine.Cpu.Fault
import NesMachine.Cpu.Registers
import NesMachine.Memory.Word

/-!
# A processor on its board

A board joins the processor with a bus. `Run β` is what the processor does on a board whose
bus has states in `β`: it changes the board and delivers a value or a fault, and after a
fault the board is as the failed action left it. The actions here are the only ones that
touch the board, so each instruction is a sequence of them.
-/

namespace NesMachine

/-- The processor: its registers and the cycles it has spent since power-on. -/
structure Cpu where
  regs : Registers
  cycles : Nat
deriving DecidableEq

/-- The processor after power-on. -/
def Cpu.powerOn : Cpu := ⟨Registers.powerOn, 0⟩

/-- A processor and the bus it is connected to. -/
structure Board (β : Type) where
  cpu : Cpu
  bus : β

/-- What the processor does on a board. -/
abbrev Run (β : Type) := Attempt Fault (Board β)

namespace Board

variable {β : Type}

/-! ### The processor's side -/

/-- The registers. -/
def registers : Run β Registers := fun board => .ok board.cpu.regs board

/-- Changes the registers. -/
def change (f : Registers → Registers) : Run β Unit
  | ⟨cpu, bus⟩ => .ok () ⟨⟨f cpu.regs, cpu.cycles⟩, bus⟩

/-- Sets the program counter. -/
def jumpTo (pc : UInt16) : Run β Unit := change fun regs => { regs with pc := pc }

/-- Adds to the cycle total. -/
def spend (count : Nat) : Run β Unit
  | ⟨cpu, bus⟩ => .ok () ⟨⟨cpu.regs, cpu.cycles + count⟩, bus⟩

@[simp] theorem registers_apply (board : Board β) :
    registers board = .ok board.cpu.regs board := rfl

@[simp] theorem change_apply (f : Registers → Registers) (cpu : Cpu) (bus : β) :
    change f ⟨cpu, bus⟩ = .ok () ⟨⟨f cpu.regs, cpu.cycles⟩, bus⟩ := rfl

/-! ### The bus side -/

/-- Lets the bus act, turning its error into a fault. -/
def onBus {α : Type} (action : Attempt BusError β α) : Run β α
  | ⟨cpu, bus⟩ =>
    match action bus with
    | .ok a bus => .ok a ⟨cpu, bus⟩
    | .error e bus => .error (.bus e) ⟨cpu, bus⟩

theorem onBus_eq_ok {α : Type} {action : Attempt BusError β α} {board board' : Board β} {a : α} :
    onBus action board = .ok a board' ↔
      ∃ bus, action board.bus = .ok a bus ∧ board' = ⟨board.cpu, bus⟩ := by
  obtain ⟨cpu, bus⟩ := board
  rw [onBus]
  cases action bus with
  | ok value bus' =>
    refine ⟨?_, ?_⟩
    · intro h
      cases h
      exact ⟨bus', rfl, rfl⟩
    · intro hparts
      obtain ⟨bus'', haction, rfl⟩ := hparts
      cases haction
      rfl
  | error e bus' =>
    refine ⟨?_, ?_⟩
    · intro h
      cases h
    · intro hparts
      obtain ⟨bus'', haction, -⟩ := hparts
      cases haction

variable [Bus β]

/-- Reads the byte at an address. -/
def read (a : UInt16) : Run β UInt8 := onBus (Bus.read a)

/-- Writes a byte to an address. -/
def write (a : UInt16) (value : UInt8) : Run β Unit := onBus (Bus.write a value)

/-- Reads two bytes, at an address and at the one that holds the high byte. -/
def readPair (low high : UInt16) : Run β UInt16 := do
  let first ← read low
  let second ← read high
  return wordOf first second

theorem readPair_eq_ok {low high value : UInt16} {board board' : Board β} :
    readPair low high board = .ok value board' ↔
      ∃ first second bus₁ bus₂, Bus.read low board.bus = .ok first bus₁ ∧
        Bus.read high bus₁ = .ok second bus₂ ∧ value = wordOf first second ∧
        board' = ⟨board.cpu, bus₂⟩ := by
  refine ⟨?_, ?_⟩
  · intro h
    obtain ⟨first, mid, hfirst, h⟩ := Attempt.bind_eq_ok.mp h
    obtain ⟨bus₁, hread₁, rfl⟩ := onBus_eq_ok.mp hfirst
    obtain ⟨second, mid', hsecond, hpure⟩ := Attempt.bind_eq_ok.mp h
    obtain ⟨bus₂, hread₂, rfl⟩ := onBus_eq_ok.mp hsecond
    cases hpure
    exact ⟨first, second, bus₁, bus₂, hread₁, hread₂, rfl, rfl⟩
  · intro hparts
    obtain ⟨first, second, bus₁, bus₂, hread₁, hread₂, rfl, rfl⟩ := hparts
    refine Attempt.bind_eq_ok.mpr ⟨first, _, onBus_eq_ok.mpr ⟨bus₁, hread₁, rfl⟩, ?_⟩
    exact Attempt.bind_eq_ok.mpr ⟨second, _, onBus_eq_ok.mpr ⟨bus₂, hread₂, rfl⟩, rfl⟩

/-- Reads a word, the low byte first. -/
def readWord (a : UInt16) : Run β UInt16 := readPair a (a + 1)

/-- Reads the byte at the program counter and moves on to the next one. -/
def fetch : Run β UInt8 := do
  let value ← read (← registers).pc
  change fun regs => { regs with pc := regs.pc + 1 }
  return value

/-- Reads the word at the program counter and moves on behind it. -/
def fetchWord : Run β UInt16 := do
  let low ← fetch
  let high ← fetch
  return wordOf low high

end Board

end NesMachine
