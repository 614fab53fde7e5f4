import Mathlib.Data.Nat.Digits.Defs
import Mathlib.Data.Nat.Digits.Lemmas
import Mathlib.Tactic.Ring
import NesMachine.Bus.Memory

/-!
# Numbers of several bytes

Programs for an eight-bit processor keep larger numbers in rows of bytes, the least significant one
first.

* `numberOf`: the number that a row of bytes writes;
* `signedOf`: the number that it writes in two's complement;
* `Fits`: the numbers that a row of a given length can write in this way;
* `bytesAt`: the row that a memory holds at given addresses.
-/

namespace NesMachine

/-- The number that bytes write, the least significant one first. -/
def numberOf (bytes : List UInt8) : Nat := Nat.ofDigits 256 (bytes.map UInt8.toNat)

/-- The number that bytes write in two's complement. -/
def signedOf (bytes : List UInt8) : Int :=
  (BitVec.ofNat (8 * bytes.length) (numberOf bytes)).toInt

/-- The number can be written by `n` bytes in two's complement. -/
def Fits (n : Nat) (value : Int) : Prop := -2 ^ (8 * n - 1) ≤ value ∧ value < 2 ^ (8 * n - 1)

variable {byte : UInt8} {bytes : List UInt8} {n : Nat} {value : Int}

theorem numberOf_nil : numberOf [] = 0 := rfl

theorem numberOf_cons (byte : UInt8) (bytes : List UInt8) :
    numberOf (byte :: bytes) = byte.toNat + 256 * numberOf bytes := by
  rw [numberOf, List.map_cons, Nat.ofDigits_cons, numberOf]

theorem numberOf_append (bytes higher : List UInt8) :
    numberOf (bytes ++ higher) = numberOf bytes + 256 ^ bytes.length * numberOf higher := by
  rw [numberOf, List.map_append, Nat.ofDigits_append, List.length_map, numberOf, numberOf]

theorem digit_lt {digit : Nat} (h : digit ∈ bytes.map UInt8.toNat) : digit < 256 := by
  obtain ⟨byte, -, rfl⟩ := List.mem_map.mp h
  exact byte.toNat_lt

theorem numberOf_lt (bytes : List UInt8) : numberOf bytes < 256 ^ bytes.length := by
  have hlt := Nat.ofDigits_lt_base_pow_length (l := bytes.map UInt8.toNat) (by decide)
    fun _ => digit_lt
  rw [List.length_map] at hlt
  exact hlt

/-- Rows of one length that write the same number are equal. -/
theorem numberOf_inj {bytes bytes' : List UInt8} (hlength : bytes.length = bytes'.length)
    (h : numberOf bytes = numberOf bytes') : bytes = bytes' := by
  have hdigits : bytes.map UInt8.toNat = bytes'.map UInt8.toNat := by
    refine Nat.ofDigits_inj_of_len_eq (b := 256) (by decide) ?_ (fun _ => digit_lt)
      (fun _ => digit_lt) h
    rw [List.length_map, List.length_map, hlength]
  exact List.map_injective_iff.mpr (fun _ _ => UInt8.toNat_inj.mp) hdigits

theorem toNat_complement (byte : UInt8) : (~~~byte).toNat + byte.toNat = 255 := by
  have hlt := byte.toNat_lt
  rw [UInt8.toNat_not, show UInt8.size = 256 from rfl]
  omega

/-- The complements of all bytes write the complement. -/
theorem numberOf_complement (bytes : List UInt8) :
    numberOf (bytes.map (~~~·)) + numberOf bytes + 1 = 256 ^ bytes.length := by
  induction bytes with
  | nil => rfl
  | cons byte bytes ih =>
    have hbyte := toNat_complement byte
    rw [List.map_cons, numberOf_cons, numberOf_cons, List.length_cons, pow_succ]
    omega

/-! ### Signed numbers -/

/-- Half of the numbers of a row count as negative. -/
theorem signedOf_eq (bytes : List UInt8) :
    signedOf bytes =
      if 2 * numberOf bytes < 256 ^ bytes.length then (numberOf bytes : Int)
      else numberOf bytes - 256 ^ bytes.length := by
  have hpow : 2 ^ (8 * bytes.length) = 256 ^ bytes.length := pow_mul 2 8 bytes.length
  have hnumber : (BitVec.ofNat (8 * bytes.length) (numberOf bytes)).toNat = numberOf bytes := by
    rw [BitVec.toNat_ofNat, hpow, Nat.mod_eq_of_lt (numberOf_lt bytes)]
  rw [signedOf, BitVec.toInt_eq_toNat_cond, hnumber, hpow]
  push_cast
  rfl

/-- The numbers that a row can write are even in number. -/
theorem exists_half (hn : 1 ≤ n) : ∃ half : Nat, 256 ^ n = 2 * half := by
  obtain ⟨m, rfl⟩ := Nat.exists_eq_add_of_le hn
  exact ⟨128 * 256 ^ m, by rw [pow_add]; omega⟩

/-- A lower byte counts as it is. -/
theorem signedOf_cons (byte : UInt8) (hne : bytes ≠ []) :
    signedOf (byte :: bytes) = byte.toNat + 256 * signedOf bytes := by
  have hbyte := byte.toNat_lt
  obtain ⟨half, hhalf⟩ := exists_half (List.length_pos_of_ne_nil hne)
  have hpow : (256 : Int) ^ bytes.length = 2 * half := by exact_mod_cast hhalf
  have hsign : 2 * (byte.toNat + 256 * numberOf bytes) < 2 * half * 256 ↔
      2 * numberOf bytes < 2 * half := by omega
  rw [signedOf_eq, signedOf_eq, numberOf_cons, List.length_cons, pow_succ, pow_succ, hpow, hhalf]
  simp only [hsign]
  split <;> push_cast <;> omega

/-- The complements of all bytes write the signed complement. -/
theorem signedOf_complement (hne : bytes ≠ []) :
    signedOf (bytes.map (~~~·)) = -1 - signedOf bytes := by
  have hcomplement := numberOf_complement bytes
  obtain ⟨half, hhalf⟩ := exists_half (List.length_pos_of_ne_nil hne)
  have hpow : (256 : Int) ^ bytes.length = 2 * half := by exact_mod_cast hhalf
  rw [signedOf_eq, signedOf_eq, List.length_map, hpow, hhalf]
  rw [hhalf] at hcomplement
  split <;> split <;> omega

theorem fits_iff (hn : 1 ≤ n) : Fits n value ↔ -256 ^ n ≤ 2 * value ∧ 2 * value < 256 ^ n := by
  have hpow : (256 : Int) ^ n = 2 * 2 ^ (8 * n - 1) := by
    rw [← pow_succ', show 8 * n - 1 + 1 = 8 * n by omega, pow_mul]
    rfl
  rw [Fits, hpow]
  omega

/-- A byte below does not matter. -/
theorem fits_succ (hn : 1 ≤ n) (byte : UInt8) :
    Fits (n + 1) (byte.toNat + 256 * value) ↔ Fits n value := by
  have hbyte := byte.toNat_lt
  obtain ⟨half, hhalf⟩ := exists_half hn
  have hpow : (256 : Int) ^ n = 2 * half := by exact_mod_cast hhalf
  rw [fits_iff (by omega), fits_iff hn, pow_succ, hpow]
  omega

/-- The top bit tells whether the double has a carry. -/
theorem top_bit (hn : 1 ≤ n) {x : Nat} (hx : x < 256 ^ n) :
    x.testBit (8 * n - 1) = decide (256 ^ n ≤ 2 * x) := by
  have hpow : 256 ^ n = 2 * 2 ^ (8 * n - 1) := by
    rw [← pow_succ', show 8 * n - 1 + 1 = 8 * n by omega, pow_mul]
    rfl
  rw [hpow] at hx ⊢
  rw [Nat.testBit_eq_decide_div_mod_eq, decide_eq_decide]
  by_cases htop : 2 ^ (8 * n - 1) ≤ x
  · have hdiv : x / 2 ^ (8 * n - 1) = 1 := Nat.div_eq_of_lt_le (by omega) (by omega)
    omega
  · rw [Nat.div_eq_of_lt (by omega)]
    omega

/-! ### Rows in memory -/

/-- The bytes at some addresses. -/
def bytesAt (addresses : List UInt16) (memory : Memory) : List UInt8 :=
  addresses.map fun a => memory[a]

/-- Memory holds the same bytes as before at all but some addresses. -/
def Memory.SameBut (addresses : List UInt16) (before after : Memory) : Prop :=
  ∀ b, b ∉ addresses → after[b] = before[b]

variable {a : UInt16} {addresses : List UInt16} {memory after : Memory}

theorem length_bytesAt : (bytesAt addresses memory).length = addresses.length := List.length_map _

theorem numberOf_bytesAt_cons (a : UInt16) (addresses : List UInt16) (memory : Memory) :
    numberOf (bytesAt (a :: addresses) memory) =
      memory[a].toNat + 256 * numberOf (bytesAt addresses memory) := by
  rw [bytesAt, List.map_cons, numberOf_cons, bytesAt]

/-- The number at some addresses, the most significant byte first. -/
theorem numberOf_reverse_cons (a : UInt16) (addresses : List UInt16) (memory : Memory) :
    numberOf (bytesAt (a :: addresses).reverse memory) =
      numberOf (bytesAt addresses.reverse memory) + 256 ^ addresses.length * memory[a].toNat := by
  rw [bytesAt, List.reverse_cons, List.map_append, numberOf_append, List.length_map,
    List.length_reverse, List.map_singleton, numberOf_cons, numberOf_nil, bytesAt]
  rfl

theorem numberOf_bytesAt_lt (addresses : List UInt16) (memory : Memory) :
    numberOf (bytesAt addresses memory) < 256 ^ addresses.length := by
  have hlt := numberOf_lt (bytesAt addresses memory)
  rw [length_bytesAt] at hlt
  exact hlt

/-- A write elsewhere does not change the bytes at some addresses. -/
theorem bytesAt_set (ha : a ∉ addresses) {byte : UInt8} :
    bytesAt addresses (Cells.set memory a byte) = bytesAt addresses memory :=
  List.map_congr_left fun _ hb => Cells.getElem_set_of_ne _ (ne_of_mem_of_not_mem hb ha).symm _

namespace Memory

/-- A write before the changes at some addresses is one more change. -/
theorem SameBut.cons {byte : UInt8} (h : SameBut addresses (Cells.set memory a byte) after) :
    SameBut (a :: addresses) memory after := by
  intro b hb
  rw [List.mem_cons, not_or] at hb
  exact (h b hb.2).trans (Cells.getElem_set_of_ne _ (Ne.symm hb.1) _)

/-- What was written there stays. -/
theorem SameBut.written {byte : UInt8} (h : SameBut addresses (Cells.set memory a byte) after)
    (ha : a ∉ addresses) : after[a] = byte :=
  (h a ha).trans (Cells.getElem_set_self _ _ _)

end Memory

end NesMachine
