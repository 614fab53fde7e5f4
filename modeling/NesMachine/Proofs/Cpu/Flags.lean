import Mathlib.Data.Nat.Bitwise
import NesMachine.Cpu.Board

/-!
# What the flags tell

The flags are bits that the rules test with masks.  This file says what they tell about numbers, and
that a flag keeps its value while others are changed.

* `AluOutput.carry_eq` and its companions: the flag rules in terms of the result and the operands;
* `Status.has_put_self`, `Status.has_put_of_disjoint`: reading a flag back, and reading another one;
* `Status.put_comm`: flags can be changed in any order.
-/

namespace NesMachine

/-! ### The rules -/

namespace AluOutput

variable (r : AluOutput)

theorem toNat_byte : r.byte.toNat = r.result.toNat % 256 := UInt16.toNat_toUInt8 _

/-- A bit of a word, tested by its mask. -/
theorem and_bit_ne_zero (w : UInt16) {i : Nat} (mask : UInt16) (hmask : mask.toNat = 2 ^ i) :
    (w &&& mask != 0) = decide (w.toNat / 2 ^ i % 2 = 1) := by
  rw [← Nat.testBit_eq_decide_div_mod_eq, Bool.eq_iff_iff, bne_iff_ne, ne_eq, ← UInt16.toNat_inj,
    UInt16.toNat_and, hmask, Nat.and_two_pow]
  cases w.toNat.testBit i <;> simp

theorem carry_eq : r.carry = decide (r.result.toNat / 256 % 2 = 1) :=
  and_bit_ne_zero r.result (i := 8) 0x100 rfl

theorem carrySubtract_eq : r.carrySubtract = !r.carry := by
  rw [carrySubtract, carry, bne, Bool.not_not]

theorem zero_eq : r.zero = (r.byte == 0) := by
  rw [Bool.eq_iff_iff, zero, beq_iff_eq, beq_iff_eq, ← UInt16.toNat_inj, ← UInt8.toNat_inj,
    toNat_byte, UInt16.toNat_and]
  exact iff_of_eq (congrArg (· = 0) (Nat.and_two_pow_sub_one_eq_mod _ 8))

theorem negative_eq : r.negative = decide (128 ≤ r.byte.toNat) := by
  refine (and_bit_ne_zero r.result (i := 7) 0x80 rfl).trans ?_
  rw [Bool.eq_iff_iff, decide_eq_true_iff, decide_eq_true_iff, toNat_byte]
  omega

theorem and_sign_eq_zero (value : UInt8) : (value &&& 0x80 == 0) = decide (value.toNat < 128) := by
  obtain ⟨bits⟩ := value
  revert bits
  decide +kernel

/-- The sign of a bitwise difference. -/
theorem xor_sign_eq_zero (left right : UInt8) :
    ((left ^^^ right) &&& 0x80 == 0) =
      (decide (left.toNat < 128) == decide (right.toNat < 128)) := by
  have hmsb (value : UInt8) : (value &&& 0x80 == 0) = !value.toBitVec.msb := by
    obtain ⟨bits⟩ := value
    revert bits
    decide +kernel
  rw [← and_sign_eq_zero, ← and_sign_eq_zero, hmsb, hmsb, hmsb, UInt8.toBitVec_xor, BitVec.msb_xor]
  cases left.toBitVec.msb <;> cases right.toBitVec.msb <;> rfl

theorem overflow_eq : r.overflow =
    ((decide (r.a.toNat < 128) == decide (r.b.toNat < 128)) &&
      (decide (r.a.toNat < 128) != decide (r.byte.toNat < 128))) := by
  rw [overflow, bne, xor_sign_eq_zero, xor_sign_eq_zero, bne]

end AluOutput

/-! ### Reading and changing flags -/

namespace Status

variable {p : Status} {mask mask' : UInt8} {on on' : Bool}

theorem has_put_self (hmask : mask ≠ 0) : (p.put mask on).has mask = on := by
  have hset : (p.byte ||| mask) &&& mask = mask := by
    apply UInt8.toBitVec_inj.mp
    ext i hi
    simp
    exact Or.inr
  have hclear : (p.byte &&& ~~~mask) &&& mask = 0 := by
    rw [UInt8.and_assoc, UInt8.not_and_self, UInt8.and_zero]
  cases on with
  | true => exact (congrArg (· != 0) hset).trans (bne_iff_ne.mpr hmask)
  | false => exact (congrArg (· != 0) hclear).trans rfl

/-- A flag keeps its value while others are changed. -/
theorem byte_put_and (h : mask &&& mask' = 0) :
    (p.put mask on).byte &&& mask' = p.byte &&& mask' := by
  have hbits := congrArg UInt8.toBitVec h
  apply UInt8.toBitVec_inj.mp
  ext i hi
  have hbit := congrArg (·[i]) hbits
  cases on <;> simp [put, set, clear] at hbit ⊢ <;> grind

theorem has_put_of_disjoint (h : mask &&& mask' = 0) : (p.put mask on).has mask' = p.has mask' :=
  congrArg (· != 0) (byte_put_and h)

theorem put_comm (h : mask &&& mask' = 0) :
    (p.put mask on).put mask' on' = (p.put mask' on').put mask on := by
  have hbits := congrArg UInt8.toBitVec h
  suffices hbyte : ((p.put mask on).put mask' on').byte = ((p.put mask' on').put mask on).byte by
    obtain ⟨byte⟩ := p
    exact congrArg Status.mk hbyte
  apply UInt8.toBitVec_inj.mp
  ext i hi
  have hbit := congrArg (·[i]) hbits
  cases on <;> cases on' <;> simp [put, set, clear] at hbit ⊢ <;> grind

/-! ### The flags of a delivered byte -/

variable (p : Status) (value : UInt8)

theorem has_zero_delivered : (p.delivered value).has Flag.zero = (value == 0) := by
  rw [delivered, has_put_of_disjoint (by decide), has_put_self (by decide), AluOutput.zero_eq,
    AluOutput.byte_ofByte]

theorem has_negative_delivered :
    (p.delivered value).has Flag.negative = decide (128 ≤ value.toNat) := by
  rw [delivered, has_put_self (by decide), AluOutput.negative_eq, AluOutput.byte_ofByte]

variable {p value}

theorem has_delivered_of_disjoint (hzero : Flag.zero &&& mask = 0)
    (hnegative : Flag.negative &&& mask = 0) :
    (p.delivered value).has mask = p.has mask := by
  rw [delivered, has_put_of_disjoint hnegative, has_put_of_disjoint hzero]

theorem delivered_put (hzero : Flag.zero &&& mask = 0) (hnegative : Flag.negative &&& mask = 0) :
    (p.put mask on).delivered value = (p.delivered value).put mask on := by
  rw [delivered, delivered, ← put_comm hzero, ← put_comm hnegative]

end Status

/-- The carry flag of the processor on a board. -/
def Board.carry {β : Type} (board : Board β) : Bool := board.cpu.regs.p.has Flag.carry

end NesMachine
