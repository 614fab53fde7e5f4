import NesMachine.Cpu.Board

/-!
# The stack

The stack lies in page one and grows downwards; the stack pointer names the next free slot.
It never wraps. A push with the pointer at `$00` faults before anything is written, so the
slot `$0100` stays unused, and a pull with the pointer at `$FF` faults before anything is
read. Words are pushed high byte first and therefore lie low byte first in memory.
-/

namespace NesMachine

namespace Board

/-- A pointer that has room for `n` bytes can go down by them. -/
theorem toNat_sub_add {s n : UInt8} (hn : n.toNat ≤ s.toNat) :
    (s - n).toNat + n.toNat = s.toNat := by
  rw [UInt8.toNat_sub_of_le s n (UInt8.le_iff_toNat_le.mpr hn)]
  omega

/-- A pointer that has `n` bytes above it can go up by them. -/
theorem toNat_add_of_le {s n : UInt8} (hn : s.toNat + n.toNat ≤ 255) :
    (s + n).toNat = s.toNat + n.toNat := by
  rw [UInt8.toNat_add]
  omega

theorem ne_zero_iff {s : UInt8} : s ≠ 0 ↔ 1 ≤ s.toNat := by
  rw [ne_eq, ← UInt8.toNat_inj, show (0 : UInt8).toNat = 0 from rfl]
  omega

theorem ne_top_iff {s : UInt8} : s ≠ 0xFF ↔ s.toNat + 1 ≤ 255 := by
  have hlt := s.toNat_lt
  rw [ne_eq, ← UInt8.toNat_inj, show (0xFF : UInt8).toNat = 255 from rfl]
  omega

/-- A pointer that can go down goes down by one. -/
theorem toNat_pred {s : UInt8} (hs : s ≠ 0) : (s - 1).toNat + 1 = s.toNat :=
  toNat_sub_add (ne_zero_iff.mp hs)

/-- A pointer that can go up goes up by one. -/
theorem toNat_succ {s : UInt8} (hs : s ≠ 0xFF) : (s + 1).toNat = s.toNat + 1 :=
  toNat_add_of_le (ne_top_iff.mp hs)

variable {β : Type} [Bus β]

/-- Pushes a byte. -/
def push (value : UInt8) : Run β Unit := do
  let regs ← registers
  if regs.s = 0 then
    throw (.stackOverflow regs.s)
  else
    write regs.stackAddress value
    change fun regs => { regs with s := regs.s - 1 }

/-- Pulls a byte. -/
def pull : Run β UInt8 := do
  let regs ← registers
  if regs.s = 0xFF then
    throw (.stackUnderflow regs.s)
  else
    change fun regs => { regs with s := regs.s + 1 }
    read { regs with s := regs.s + 1 }.stackAddress

/-- A push on a full stack changes nothing. -/
theorem push_full {board : Board β} (hs : board.cpu.regs.s = 0) (value : UInt8) :
    push value board = .error (.stackOverflow 0) board := by
  rw [push, Attempt.bind_apply, registers_apply]
  simp [hs]

/-- A pull from an empty stack changes nothing. -/
theorem pull_empty {board : Board β} (hs : board.cpu.regs.s = 0xFF) :
    pull board = .error (.stackUnderflow 0xFF) board := by
  rw [pull, Attempt.bind_apply, registers_apply]
  simp [hs]

theorem push_eq_ok {value : UInt8} {board board' : Board β} {u : Unit} :
    push value board = .ok u board' ↔
      board.cpu.regs.s ≠ 0 ∧ ∃ bus,
        Bus.write board.cpu.regs.stackAddress value board.bus = .ok () bus ∧
          board' = ⟨⟨{ board.cpu.regs with s := board.cpu.regs.s - 1 }, board.cpu.cycles⟩, bus⟩ := by
  rw [push, Attempt.bind_apply, registers_apply]
  by_cases h : board.cpu.regs.s = 0
  · simp [h]
  · simp only [h, if_false, ne_eq, not_false_eq_true, true_and]
    refine ⟨?_, ?_⟩
    · intro hpush
      obtain ⟨⟨⟩, mid, hwrite, hchange⟩ := Attempt.bind_eq_ok.mp hpush
      obtain ⟨bus, hbus, rfl⟩ := onBus_eq_ok.mp hwrite
      cases hchange
      exact ⟨bus, hbus, rfl⟩
    · intro hparts
      obtain ⟨bus, hbus, rfl⟩ := hparts
      exact Attempt.bind_eq_ok.mpr ⟨(), _, onBus_eq_ok.mpr ⟨bus, hbus, rfl⟩, rfl⟩

theorem pull_eq_ok {value : UInt8} {board board' : Board β} :
    pull board = .ok value board' ↔
      board.cpu.regs.s ≠ 0xFF ∧ ∃ bus,
        Bus.read (wordOf (board.cpu.regs.s + 1) 1) board.bus = .ok value bus ∧
          board' = ⟨⟨{ board.cpu.regs with s := board.cpu.regs.s + 1 }, board.cpu.cycles⟩, bus⟩ := by
  rw [pull, Attempt.bind_apply, registers_apply]
  by_cases h : board.cpu.regs.s = 0xFF
  · simp [h]
  · simp only [h, if_false, ne_eq, not_false_eq_true, true_and]
    refine ⟨?_, ?_⟩
    · intro hpull
      obtain ⟨⟨⟩, mid, hchange, hread⟩ := Attempt.bind_eq_ok.mp hpull
      cases hchange
      exact onBus_eq_ok.mp hread
    · intro hparts
      obtain ⟨bus, hbus, rfl⟩ := hparts
      exact Attempt.bind_eq_ok.mpr ⟨(), _, rfl, onBus_eq_ok.mpr ⟨bus, hbus, rfl⟩⟩

/-- Pushes a word, high byte first. -/
def pushWord (value : UInt16) : Run β Unit := do
  push (highByte value)
  push (lowByte value)

/-- Pulls a word, low byte first. -/
def pullWord : Run β UInt16 := do
  let low ← pull
  let high ← pull
  return wordOf low high

end Board

end NesMachine
