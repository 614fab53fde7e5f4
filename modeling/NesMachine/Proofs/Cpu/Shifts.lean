import NesMachine.Cpu.Execute
import NesMachine.Proofs.Cpu.Addressing
import NesMachine.Proofs.Cpu.Calls
import NesMachine.Proofs.Cpu.Flags
import NesMachine.Proofs.Cpu.Numbers

/-!
# Shifts of several bytes

A program shifts a number by one bit byte by byte: upwards to the left and downwards to the right,
and the carry flag takes the bit that leaves one byte into the next.

* `Shift.rotateLeft_value` and its companions: what one shift does to a byte and the carry;
* `Board.shiftThrough`: the shifts of a number;
* `Board.rotate_up`, `Board.rotate_down`: what they add up to, by induction on the bytes;
* `Board.execute_shift_forms`: a shift does the same to a byte in memory as to one in A;
* `Board.multibyte_shifts`: doubling, halving, rotating there and back, and the forms of a shift.
-/

namespace NesMachine

/-! ### One byte -/

namespace Shift

variable (value : UInt8) (carry : Bool)

/-- The byte that a shift leaves. -/
def byteOf (shift : Shift) : UInt8 := (shift.output value (if carry then 1 else 0)).byte

/-- The bit that a shift moves out. -/
def bitOf (shift : Shift) : Bool := shift.carryOut (shift.output value (if carry then 1 else 0))

theorem rotateLeft_value : (rotateLeft.byteOf value carry).toNat
    + 256 * (rotateLeft.bitOf value carry).toNat = 2 * value.toNat + carry.toNat := by
  obtain ⟨bits⟩ := value
  revert bits carry
  decide +kernel

theorem left_value : (left.byteOf value carry).toNat + 256 * (left.bitOf value carry).toNat =
    2 * value.toNat := by
  obtain ⟨bits⟩ := value
  revert bits carry
  decide +kernel

theorem rotateRight_value : 2 * (rotateRight.byteOf value carry).toNat
    + (rotateRight.bitOf value carry).toNat = value.toNat + 256 * carry.toNat := by
  obtain ⟨bits⟩ := value
  revert bits carry
  decide +kernel

theorem right_value : 2 * (right.byteOf value carry).toNat + (right.bitOf value carry).toNat =
    value.toNat := by
  obtain ⟨bits⟩ := value
  revert bits carry
  decide +kernel

/-- The status after a shift. -/
def statusOf (shift : Shift) (p : Status) : Status :=
  (p.put Flag.carry (shift.bitOf value (p.has Flag.carry))).delivered
    (shift.byteOf value (p.has Flag.carry))

theorem carry_statusOf (shift : Shift) (p : Status) :
    (shift.statusOf value p).has Flag.carry = shift.bitOf value (p.has Flag.carry) := by
  rw [statusOf, Status.has_delivered_of_disjoint (by decide) (by decide),
    Status.has_put_self (by decide)]

end Shift

namespace Board

variable {m : Mnemonic} {shift : Shift} {op : Operand}

/-- A shift in memory writes at the effective address. -/
theorem perform_shift_memory (hm : m.action = .shift shift) {a : UInt16}
    (haccumulator : op.accumulator = false) (ha : op.address = some a) (regs : Registers)
    (cycles : Nat) (memory : Memory) :
    perform m op (⟨⟨regs, cycles⟩, memory⟩ : Board Memory) =
      .ok 0 ⟨⟨{ regs with p := shift.statusOf op.value regs.p }, cycles⟩,
        Cells.set memory a (shift.byteOf op.value (regs.p.has Flag.carry))⟩ := by
  rw [perform, hm]
  simp only [act, shiftOperand, writeBack, haccumulator, requireAddress, ha]
  rfl

/-- A shift of the accumulator writes no memory. -/
theorem perform_shift_accumulator (hm : m.action = .shift shift)
    (haccumulator : op.accumulator = true) (regs : Registers) (cycles : Nat) (memory : Memory) :
    perform m op (⟨⟨regs, cycles⟩, memory⟩ : Board Memory) =
      .ok 0 ⟨⟨{ regs with
        a := shift.byteOf op.value (regs.p.has Flag.carry)
        p := shift.statusOf op.value regs.p }, cycles⟩, memory⟩ := by
  rw [perform, hm]
  simp only [act, shiftOperand, writeBack, haccumulator]
  rfl

/-! ### Rows of bytes -/

/-- Shifts the byte at an address. -/
def shiftAt (m : Mnemonic) (a : UInt16) : Run Memory Unit := do
  let op ← locate .absolute a false .value
  let _ ← perform m op

/-- Shifts the bytes at some addresses, one after the other. -/
def shiftThrough (first next : Mnemonic) : List UInt16 → Run Memory Unit
  | [] => return ()
  | a :: addresses => do
    shiftAt first a
    shiftThrough next next addresses

/-- The board after a shift of the byte at an address. -/
def shifted (shift : Shift) (a : UInt16) (board : Board Memory) : Board Memory :=
  ⟨⟨{ board.cpu.regs with p := shift.statusOf board.bus[a] board.cpu.regs.p }, board.cpu.cycles⟩,
    Cells.set board.bus a (shift.byteOf board.bus[a] board.carry)⟩

variable {a : UInt16} {addresses : List UInt16} {board after : Board Memory}

theorem shiftAt_apply (hm : m.action = .shift shift) (a : UInt16) (board : Board Memory) :
    shiftAt m a board = .ok () (board.shifted shift a) := by
  rw [shiftAt, Attempt.bind_apply, locate_memory]
  simp only [Attempt.bind_apply]
  rw [perform_shift_memory hm rfl rfl]
  rfl

theorem bus_shifted : (board.shifted shift a).bus =
    Cells.set board.bus a (shift.byteOf board.bus[a] board.carry) := rfl

theorem carry_shifted : (board.shifted shift a).carry = shift.bitOf board.bus[a] board.carry :=
  shift.carry_statusOf _ _

/-- The first shift of a run leads to where the others start. -/
theorem shiftThrough_cons {first next : Mnemonic} (hm : first.action = .shift shift)
    (h : shiftThrough next next addresses (board.shifted shift a) = .ok () after) :
    shiftThrough first next (a :: addresses) board = .ok () after :=
  Attempt.bind_eq_ok.mpr ⟨(), _, shiftAt_apply hm a board, h⟩

/-- One more byte below a run to the left. -/
theorem up_cons (low : Nat) {first : Mnemonic} (hm : first.action = .shift shift)
    (ha : a ∉ addresses)
    (hbyte : (shift.byteOf board.bus[a] board.carry).toNat
      + 256 * (shift.bitOf board.bus[a] board.carry).toNat = 2 * board.bus[a].toNat + low)
    (h : ∃ after, shiftThrough .rol .rol addresses (board.shifted shift a) = .ok () after ∧
      numberOf (bytesAt addresses after.bus) + 256 ^ addresses.length * after.carry.toNat =
        2 * numberOf (bytesAt addresses (board.shifted shift a).bus)
          + (board.shifted shift a).carry.toNat ∧
      Memory.SameBut addresses (board.shifted shift a).bus after.bus) :
    ∃ after, shiftThrough first .rol (a :: addresses) board = .ok () after ∧
      numberOf (bytesAt (a :: addresses) after.bus)
        + 256 ^ (a :: addresses).length * after.carry.toNat =
        2 * numberOf (bytesAt (a :: addresses) board.bus) + low ∧
      Memory.SameBut (a :: addresses) board.bus after.bus := by
  obtain ⟨after, hrun, hvalue, hothers⟩ := h
  refine ⟨after, shiftThrough_cons hm hrun, ?_, hothers.cons⟩
  rw [bus_shifted, bytesAt_set ha, carry_shifted] at hvalue
  rw [numberOf_bytesAt_cons, numberOf_bytesAt_cons, hothers.written ha, List.length_cons, pow_succ',
    Nat.mul_assoc]
  omega

/-- **Upwards to the left.**  The bytes and the last carry are twice the bytes and the first
carry. -/
theorem rotate_up (hnodup : addresses.Nodup) (board : Board Memory) :
    ∃ after, shiftThrough .rol .rol addresses board = .ok () after ∧
      numberOf (bytesAt addresses after.bus) + 256 ^ addresses.length * after.carry.toNat =
        2 * numberOf (bytesAt addresses board.bus) + board.carry.toNat ∧
      Memory.SameBut addresses board.bus after.bus := by
  induction addresses generalizing board with
  | nil =>
    refine ⟨board, rfl, ?_, fun _ _ => rfl⟩
    simp [bytesAt, numberOf_nil]
  | cons a addresses ih =>
    obtain ⟨ha, hrest⟩ := List.nodup_cons.mp hnodup
    exact up_cons board.carry.toNat rfl ha (Shift.rotateLeft_value _ _) (ih hrest _)

/-- A run to the left that brings no carry in doubles the number. -/
theorem exists_doubled (hne : addresses ≠ []) (hnodup : addresses.Nodup) (board : Board Memory) :
    ∃ after, shiftThrough .asl .rol addresses board = .ok () after ∧
      numberOf (bytesAt addresses after.bus) + 256 ^ addresses.length * after.carry.toNat =
        2 * numberOf (bytesAt addresses board.bus) ∧
      Memory.SameBut addresses board.bus after.bus := by
  obtain ⟨a, addresses, rfl⟩ := List.exists_cons_of_ne_nil hne
  obtain ⟨ha, hrest⟩ := List.nodup_cons.mp hnodup
  exact up_cons 0 rfl ha (Shift.left_value _ _) (rotate_up hrest _)

/-- One more byte above a run to the right. -/
theorem down_cons (high : Nat) {first : Mnemonic} (hm : first.action = .shift shift)
    (ha : a ∉ addresses)
    (hbyte : 2 * (shift.byteOf board.bus[a] board.carry).toNat
      + (shift.bitOf board.bus[a] board.carry).toNat = board.bus[a].toNat + 256 * high)
    (h : ∃ after, shiftThrough .ror .ror addresses (board.shifted shift a) = .ok () after ∧
      2 * numberOf (bytesAt addresses.reverse after.bus) + after.carry.toNat =
        numberOf (bytesAt addresses.reverse (board.shifted shift a).bus)
          + 256 ^ addresses.length * (board.shifted shift a).carry.toNat ∧
      Memory.SameBut addresses (board.shifted shift a).bus after.bus) :
    ∃ after, shiftThrough first .ror (a :: addresses) board = .ok () after ∧
      2 * numberOf (bytesAt (a :: addresses).reverse after.bus) + after.carry.toNat =
        numberOf (bytesAt (a :: addresses).reverse board.bus)
          + 256 ^ (a :: addresses).length * high ∧
      Memory.SameBut (a :: addresses) board.bus after.bus := by
  obtain ⟨after, hrun, hvalue, hothers⟩ := h
  refine ⟨after, shiftThrough_cons hm hrun, ?_, hothers.cons⟩
  have hmem : a ∉ addresses.reverse := fun hmem => ha (List.mem_reverse.mp hmem)
  have hscaled := congrArg (256 ^ addresses.length * ·) hbyte
  rw [bus_shifted, bytesAt_set hmem, carry_shifted] at hvalue
  rw [numberOf_reverse_cons, numberOf_reverse_cons, hothers.written ha, List.length_cons, pow_succ]
  linarith

/-- **Downwards to the right.**  Twice the bytes and the last carry are the bytes below the first
carry. -/
theorem rotate_down (hnodup : addresses.Nodup) (board : Board Memory) :
    ∃ after, shiftThrough .ror .ror addresses board = .ok () after ∧
      2 * numberOf (bytesAt addresses.reverse after.bus) + after.carry.toNat =
        numberOf (bytesAt addresses.reverse board.bus)
          + 256 ^ addresses.length * board.carry.toNat ∧
      Memory.SameBut addresses board.bus after.bus := by
  induction addresses generalizing board with
  | nil =>
    refine ⟨board, rfl, ?_, fun _ _ => rfl⟩
    simp [bytesAt, numberOf_nil]
  | cons a addresses ih =>
    obtain ⟨ha, hrest⟩ := List.nodup_cons.mp hnodup
    exact down_cons board.carry.toNat rfl ha (Shift.rotateRight_value _ _) (ih hrest _)

/-- A run to the right that brings no carry in halves the number. -/
theorem exists_halved (hne : addresses ≠ []) (hnodup : addresses.Nodup) (board : Board Memory) :
    ∃ after, shiftThrough .lsr .ror addresses board = .ok () after ∧
      2 * numberOf (bytesAt addresses.reverse after.bus) + after.carry.toNat =
        numberOf (bytesAt addresses.reverse board.bus) ∧
      Memory.SameBut addresses board.bus after.bus := by
  obtain ⟨a, addresses, rfl⟩ := List.exists_cons_of_ne_nil hne
  obtain ⟨ha, hrest⟩ := List.nodup_cons.mp hnodup
  exact down_cons 0 rfl ha (Shift.right_value _ _) (rotate_down hrest _)

/-- **There and back.**  Rotating to the left and then to the right restores every byte and the
carry. -/
theorem rotate_up_down (hnodup : addresses.Nodup) (board : Board Memory) :
    ∃ up after, shiftThrough .rol .rol addresses board = .ok () up ∧
      shiftThrough .ror .ror addresses.reverse up = .ok () after ∧
      after.bus = board.bus ∧ after.carry = board.carry := by
  obtain ⟨up, hup, hupValue, hupOthers⟩ := rotate_up hnodup board
  obtain ⟨after, hdown, hdownValue, hdownOthers⟩ := rotate_down (List.nodup_reverse.mpr hnodup) up
  rw [List.reverse_reverse, List.length_reverse, hupValue] at hdownValue
  have hafter := Bool.toNat_lt after.carry
  have hboard := Bool.toNat_lt board.carry
  have hcarry : after.carry.toNat = board.carry.toNat := by omega
  refine ⟨up, after, hup, hdown, Cells.ext fun b => ?_, ?_⟩
  · by_cases hb : b ∈ addresses
    · have hbytes : bytesAt addresses after.bus = bytesAt addresses board.bus :=
        numberOf_inj (by rw [bytesAt, bytesAt, List.length_map, List.length_map]) (by omega)
      exact List.map_inj_left.mp hbytes b hb
    · exact (hdownOthers b fun h => hb (List.mem_reverse.mp h)).trans (hupOthers b hb)
  · rw [← Bool.ofNat_toNat after.carry, hcarry, Bool.ofNat_toNat]

end Board

/-! ### The forms of a shift -/

/-- The shifts and rotations. -/
def Mnemonic.shifts : List Mnemonic := [.asl, .lsr, .rol, .ror]

/-- The modes in which they work on memory. -/
def Mode.shiftable : List Mode := [.zeroPage, .zeroPageX, .absolute, .absoluteX]

theorem Mnemonic.exists_shift {m : Mnemonic} (h : m ∈ shifts) :
    ∃ shift, m.action = .shift shift ∧ m.fetch = .value := by
  simp only [shifts, List.mem_cons, List.not_mem_nil, or_false] at h
  obtain rfl | rfl | rfl | rfl := h <;> exact ⟨_, rfl, rfl⟩

theorem Mode.of_shiftable {mode : Mode} (h : mode ∈ shiftable) :
    mode.reads = true ∧ (mode == .accumulator) = false := by
  simp only [shiftable, List.mem_cons, List.not_mem_nil, or_false] at h
  obtain rfl | rfl | rfl | rfl := h <;> exact ⟨rfl, rfl⟩

/-- Shifts of one byte with one carry set the same flags. -/
theorem Shift.has_statusOf_congr (shift : Shift) (value : UInt8) {p p' : Status}
    (hcarry : p.has Flag.carry = p'.has Flag.carry) :
    ∀ flag ∈ [Flag.carry, Flag.zero, Flag.negative],
      (shift.statusOf value p).has flag = (shift.statusOf value p').has flag := by
  intro flag hflag
  simp only [List.mem_cons, List.not_mem_nil, or_false] at hflag
  obtain rfl | rfl | rfl := hflag
  · rw [carry_statusOf, carry_statusOf, hcarry]
  · rw [statusOf, statusOf, Status.has_zero_delivered, Status.has_zero_delivered, hcarry]
  · rw [statusOf, statusOf, Status.has_negative_delivered, Status.has_negative_delivered, hcarry]

namespace Board

/-- A form of a shift in memory does to the byte at the effective address what the form on the
accumulator does to the same byte in A, with the same flags. The one leaves A, the other memory as
it was. -/
def FormsAgree (o o' : Opcode) : Prop :=
  ∀ board board' : Board Memory, board.bus[board.cpu.regs.pc] = o.byte →
    board'.bus[board'.cpu.regs.pc] = o'.byte → board.carry = board'.carry →
    ∃ a, o.mode.place (board.opened board.bus).cpu.regs board.bus = some a ∧
      (board'.cpu.regs.a = board.bus[UInt16.ofNat a] →
        ∃ step step' after after', execute board = .ok step after ∧
          execute board' = .ok step' after' ∧
          after.bus = Cells.set board.bus (UInt16.ofNat a) after'.cpu.regs.a ∧
          after.cpu.regs.a = board.cpu.regs.a ∧ after'.bus = board'.bus ∧
          ∀ flag ∈ [Flag.carry, Flag.zero, Flag.negative],
            after.cpu.regs.p.has flag = after'.cpu.regs.p.has flag)

variable {o o' : Opcode} {board : Board Memory} {shift : Shift}

/-- A shift in memory, from its opcode. -/
theorem execute_shift_memory (ho : Opcode.decode o.byte = some o)
    (haction : o.mnemonic.action = .shift shift) (hfetch : o.mnemonic.fetch = .value)
    (hmode : o.mode ∈ Mode.shiftable) (hbyte : board.bus[board.cpu.regs.pc] = o.byte) {a : Nat}
    (hplace : o.mode.place (board.opened board.bus).cpu.regs board.bus = some a) :
    ∃ step after, execute board = .ok step after ∧
      after.bus = Cells.set board.bus (UInt16.ofNat a)
        (shift.byteOf board.bus[UInt16.ofNat a] board.carry) ∧
      after.cpu.regs.a = board.cpu.regs.a ∧
      after.cpu.regs.p = shift.statusOf board.bus[UInt16.ofNat a] board.cpu.regs.p := by
  obtain ⟨hreads, hmemory⟩ := Mode.of_shiftable hmode
  have hresolve := resolve_memory o.mode o.fetch (board.opened board.bus).cpu.regs
    board.cpu.cycles board.bus
  have hvalue : (o.mode.operand o.fetch (board.opened board.bus).cpu.regs board.bus).value =
      board.bus[UInt16.ofNat a] := by
    refine (Mode.delivered_of_reads hreads hplace).trans (if_pos ?_)
    rw [Opcode.fetch, hfetch]
  have haddress : (o.mode.operand o.fetch (board.opened board.bus).cpu.regs board.bus).address =
      some (UInt16.ofNat a) := congrArg (Option.map UInt16.ofNat) hplace
  have hperform := perform_shift_memory haction hmemory haddress
    (o.mode.behind (board.opened board.bus).cpu.regs) board.cpu.cycles board.bus
  rw [hvalue] at hperform
  exact ⟨_, _, (execute_memory_eq_ok hbyte ho).mpr ⟨_, _, _, _, hresolve, hperform, rfl, rfl⟩, rfl,
    rfl, rfl⟩

/-- A shift of the accumulator, from its opcode. -/
theorem execute_shift_accumulator (ho : Opcode.decode o.byte = some o)
    (haction : o.mnemonic.action = .shift shift) (hmode : o.mode = .accumulator)
    (hbyte : board.bus[board.cpu.regs.pc] = o.byte) :
    ∃ step after, execute board = .ok step after ∧ after.bus = board.bus ∧
      after.cpu.regs.a = shift.byteOf board.cpu.regs.a board.carry ∧
      after.cpu.regs.p = shift.statusOf board.cpu.regs.a board.cpu.regs.p := by
  have hresolve := resolve_memory o.mode o.fetch (board.opened board.bus).cpu.regs
    board.cpu.cycles board.bus
  have hoperand : (o.mode.operand o.fetch (board.opened board.bus).cpu.regs board.bus).accumulator
      = true ∧ (o.mode.operand o.fetch (board.opened board.bus).cpu.regs board.bus).value =
      board.cpu.regs.a := by
    rw [hmode]
    exact ⟨rfl, rfl⟩
  have hperform := perform_shift_accumulator haction hoperand.1
    (o.mode.behind (board.opened board.bus).cpu.regs) board.cpu.cycles board.bus
  rw [hoperand.2] at hperform
  exact ⟨_, _, (execute_memory_eq_ok hbyte ho).mpr ⟨_, _, _, _, hresolve, hperform, rfl, rfl⟩, rfl,
    rfl, rfl⟩

theorem execute_shift_forms (ho : o ∈ Opcode.all) (ho' : o' ∈ Opcode.all)
    (hshift : o.mnemonic ∈ Mnemonic.shifts) (hsame : o'.mnemonic = o.mnemonic)
    (hmode : o.mode ∈ Mode.shiftable) (hmode' : o'.mode = .accumulator) : FormsAgree o o' := by
  intro board board' hbyte hbyte' hcarry
  obtain ⟨shift, haction, hfetch⟩ := Mnemonic.exists_shift hshift
  obtain ⟨a, hplace⟩ : ∃ a, o.mode.place (board.opened board.bus).cpu.regs board.bus = some a :=
    Mode.exists_place (Mode.of_shiftable hmode).1
  refine ⟨a, hplace, fun ha => ?_⟩
  obtain ⟨step, after, hexecute, hbus, hA, hp⟩ :=
    execute_shift_memory (Opcode.decode_byte ho) haction hfetch hmode hbyte hplace
  obtain ⟨step', after', hexecute', hbus', hA', hp'⟩ :=
    execute_shift_accumulator (Opcode.decode_byte ho') (by rw [hsame, haction]) hmode' hbyte'
  rw [ha, ← hcarry] at hA'
  rw [ha] at hp'
  refine ⟨step, step', after, after', hexecute, hexecute', ?_, hA, hbus', ?_⟩
  · rw [hbus, hA']
  · rw [hp, hp']
    exact shift.has_statusOf_congr _ hcarry

/-- **Shifts of several bytes.**  Shifting to the left from the lowest byte on doubles a number, and
shifting to the right from the highest byte on halves it; the last carry is the bit that has left
the number. Rotating there and back restores all bytes and the carry. Each shift and rotation does
the same in memory as in A. -/
theorem multibyte_shifts (addresses : List UInt16) (hne : addresses ≠ []) (hnodup : addresses.Nodup)
    (board : Board Memory) :
    (∃ after, shiftThrough .asl .rol addresses board = .ok () after ∧
      numberOf (bytesAt addresses after.bus) =
        2 * numberOf (bytesAt addresses board.bus) % 256 ^ addresses.length ∧
      after.carry = (numberOf (bytesAt addresses board.bus)).testBit (8 * addresses.length - 1) ∧
      Memory.SameBut addresses board.bus after.bus) ∧
    (∃ after, shiftThrough .lsr .ror addresses.reverse board = .ok () after ∧
      numberOf (bytesAt addresses after.bus) = numberOf (bytesAt addresses board.bus) / 2 ∧
      after.carry = (numberOf (bytesAt addresses board.bus)).testBit 0 ∧
      Memory.SameBut addresses board.bus after.bus) ∧
    (∃ up after, shiftThrough .rol .rol addresses board = .ok () up ∧
      shiftThrough .ror .ror addresses.reverse up = .ok () after ∧
      after.bus = board.bus ∧ after.carry = board.carry) ∧
    ∀ m ∈ Mnemonic.shifts,
      (∀ mode ∈ Mode.accumulator :: Mode.shiftable,
        ∃ o ∈ Opcode.all, o.mnemonic = m ∧ o.mode = mode) ∧
      ∀ o ∈ Opcode.all, ∀ o' ∈ Opcode.all, o.mnemonic = m → o'.mnemonic = m →
        o.mode ∈ Mode.shiftable → o'.mode = .accumulator → FormsAgree o o' := by
  refine ⟨?_, ?_, rotate_up_down hnodup board, ?_⟩
  · obtain ⟨after, hrun, hvalue, hothers⟩ := exists_doubled hne hnodup board
    have hlt := numberOf_bytesAt_lt addresses after.bus
    refine ⟨after, hrun, ?_, ?_, hothers⟩
    · rw [← hvalue, Nat.add_mul_mod_self_left, Nat.mod_eq_of_lt hlt]
    · rw [top_bit (List.length_pos_of_ne_nil hne) (numberOf_bytesAt_lt _ _), ← hvalue]
      cases after.carry with
      | false => simpa using hlt
      | true => simp
  · obtain ⟨after, hrun, hvalue, hothers⟩ :=
      exists_halved (fun h => hne (List.reverse_eq_nil_iff.mp h)) (List.nodup_reverse.mpr hnodup)
        board
    rw [List.reverse_reverse] at hvalue
    have hcarry := Bool.toNat_lt after.carry
    refine ⟨after, hrun, by omega, ?_, fun b hb => hothers b fun h => hb (List.mem_reverse.mp h)⟩
    rw [Nat.testBit_zero, ← hvalue, Nat.mul_add_mod]
    cases after.carry <;> rfl
  · intro m hm
    refine ⟨?_, ?_⟩
    · revert m
      decide +kernel
    · intro o ho o' ho' hom ho'm hmode hmode'
      exact execute_shift_forms ho ho' (hom ▸ hm) (ho'm.trans hom.symm) hmode hmode'

/-- A number of two bytes whose top bit is set: doubling it moves that bit into the carry. -/
theorem top_bit_leaves :
    let memory := (Memory.zeros.set 0x0300 0x80).set 0x0301 0x81
    ∃ after, shiftThrough .asl .rol [0x0300, 0x0301] (⟨Cpu.powerOn, memory⟩ : Board Memory) =
        .ok () after ∧ numberOf (bytesAt [0x0300, 0x0301] after.bus) = 0x0300 ∧
      after.carry = true := by
  intro memory
  obtain ⟨after, hrun, hvalue, hcarry, -⟩ :=
    (multibyte_shifts [0x0300, 0x0301] (List.cons_ne_nil _ _) (by decide) ⟨Cpu.powerOn, memory⟩).1
  have hbytes : bytesAt [0x0300, 0x0301] memory = [0x80, 0x81] := by
    simp [bytesAt, memory, Cells.getElem_set]
  rw [hbytes] at hvalue hcarry
  exact ⟨after, hrun, hvalue, hcarry⟩

end Board

end NesMachine
