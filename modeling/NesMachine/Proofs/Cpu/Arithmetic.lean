import NesMachine.Bus.Memory
import NesMachine.Cpu.Instruction
import NesMachine.Proofs.Cpu.Flags
import NesMachine.Proofs.Cpu.Numbers

/-!
# Sums and differences of several bytes

A program adds two numbers byte by byte: it loads a byte of the first, adds the byte of the second
and stores the sum, and the carry flag takes the carry on to the next bytes.  Subtraction adds the
complement of the second byte.

* `Registers.add_value`, `Registers.add_overflow`: the carry and the overflow of one addition;
* `Board.chain`: the additions or subtractions of a number;
* `Board.chain_sums`: what they add up to, by induction on the bytes;
* `Board.multibyte_arithmetic`: sums, differences and comparisons.
-/

namespace NesMachine

/-! ### One byte -/

namespace Registers

variable (r : Registers) (value : UInt8)

theorem toNat_carryIn : r.carryIn.toNat = (r.p.has Flag.carry).toNat := by
  unfold carryIn
  cases r.p.has Flag.carry <;> rfl

/-- What the adder delivers. -/
def sum : AluOutput := ⟨r.a.toUInt16 + value.toUInt16 + r.carryIn, r.a, value⟩

theorem toNat_sum : (r.sum value).result.toNat =
    r.a.toNat + value.toNat + (r.p.has Flag.carry).toNat := by
  have ha := r.a.toNat_lt
  have hvalue := value.toNat_lt
  have hcarry := Bool.toNat_lt (r.p.has Flag.carry)
  rw [sum, UInt16.toNat_add, UInt16.toNat_add, UInt8.toNat_toUInt16, UInt8.toNat_toUInt16,
    toNat_carryIn]
  omega

theorem a_add : (r.add value).a = (r.sum value).byte := rfl

theorem p_add : (r.add value).p =
    ((r.p.put Flag.carry (r.sum value).carry).put Flag.overflow (r.sum value).overflow).delivered
      (r.sum value).byte := rfl

theorem carry_add : (r.add value).p.has Flag.carry = (r.sum value).carry := by
  rw [p_add, Status.has_delivered_of_disjoint (by decide) (by decide),
    Status.has_put_of_disjoint (by decide), Status.has_put_self (by decide)]

theorem overflow_add : (r.add value).p.has Flag.overflow = (r.sum value).overflow := by
  rw [p_add, Status.has_delivered_of_disjoint (by decide) (by decide),
    Status.has_put_self (by decide)]

/-- The sum of two bytes and the carry is the byte in A and the new carry. -/
theorem add_value : (r.add value).a.toNat + 256 * ((r.add value).p.has Flag.carry).toNat =
    r.a.toNat + value.toNat + (r.p.has Flag.carry).toNat := by
  have ha := r.a.toNat_lt
  have hvalue := value.toNat_lt
  have hcarry := Bool.toNat_lt (r.p.has Flag.carry)
  have hsum := r.toNat_sum value
  rw [carry_add, AluOutput.carry_eq, a_add, AluOutput.toNat_byte, hsum]
  by_cases hout : (r.a.toNat + value.toNat + (r.p.has Flag.carry).toNat) / 256 % 2 = 1
  · simp only [hout, decide_true, Bool.toNat_true]
    omega
  · simp only [hout, decide_false, Bool.toNat_false]
    omega

/-- The overflow flag tells that the signed sum is no signed byte. -/
theorem add_overflow : (r.add value).p.has Flag.overflow = true ↔
    ¬ Fits 1 (signedOf [r.a] + signedOf [value] + (r.p.has Flag.carry).toNat) := by
  have ha := r.a.toNat_lt
  have hvalue := value.toNat_lt
  have hcarry := Bool.toNat_lt (r.p.has Flag.carry)
  have hsum := r.toNat_sum value
  have hbyte := (r.sum value).toNat_byte
  rw [overflow_add, AluOutput.overflow_eq, fits_iff (Nat.le_refl 1), signedOf_eq, signedOf_eq]
  simp only [numberOf_cons, numberOf_nil, List.length_singleton, Bool.and_eq_true, beq_iff_eq,
    bne_iff_ne, ne_eq, decide_eq_decide, show (r.sum value).a = r.a from rfl,
    show (r.sum value).b = value from rfl]
  split <;> split <;> omega

/-! ### What does not matter, and comparisons -/

variable {r value} {on : Bool}

/-- The decimal flag makes no difference to a load. -/
theorem load_decimal : (r.putFlag Flag.decimal on).load .a value =
    (r.load .a value).putFlag Flag.decimal on :=
  congrArg (Registers.mk value r.x r.y r.s r.pc) (Status.delivered_put (by decide) (by decide))

/-- The decimal flag makes no difference to an addition. -/
theorem add_decimal : (r.putFlag Flag.decimal on).add value =
    (r.add value).putFlag Flag.decimal on := by
  have hsum : (r.putFlag Flag.decimal on).sum value = r.sum value := by
    have hcarry : (r.p.put Flag.decimal on).has Flag.carry = r.p.has Flag.carry :=
      Status.has_put_of_disjoint (by decide)
    rw [sum, sum, carryIn, carryIn, putFlag, setStatus, hcarry]
  have hp : ((r.putFlag Flag.decimal on).add value).p = (r.add value).p.put Flag.decimal on := by
    rw [p_add, p_add, hsum, ← Status.delivered_put (by decide) (by decide),
      Status.put_comm (show Flag.overflow &&& Flag.decimal = 0 by decide),
      Status.put_comm (show Flag.carry &&& Flag.decimal = 0 by decide)]
    rfl
  have ha : ((r.putFlag Flag.decimal on).add value).a = (r.add value).a := by
    rw [a_add, a_add, hsum]
  exact congrArg₂ (fun a p => (⟨a, r.x, r.y, r.s, r.pc, p⟩ : Registers)) ha hp

variable (r) (left right : UInt8)

/-- The registers with a byte in A, about to subtract without a borrow. -/
def poisedToSubtract : Registers := ({ r with a := left } : Registers).putFlag Flag.carry true

/-- What the comparison looks at. -/
def difference : AluOutput := ⟨left.toUInt16 - right.toUInt16, left, right⟩

theorem toNat_difference :
    (difference left right).result.toNat = (65536 - right.toNat + left.toNat) % 65536 := by
  rw [difference, UInt16.toNat_sub, UInt8.toNat_toUInt16, UInt8.toNat_toUInt16]

/-- The subtraction without a borrow and the comparison look at the same low byte and the same
carry. -/
theorem sum_poisedToSubtract :
    ((r.poisedToSubtract left).sum (~~~right)).byte = (difference left right).byte ∧
      ((r.poisedToSubtract left).sum (~~~right)).carry = (difference left right).carrySubtract := by
  have hleft := left.toNat_lt
  have hright := right.toNat_lt
  have hcomplement := toNat_complement right
  have hcarry : (r.poisedToSubtract left).p.has Flag.carry = true :=
    Status.has_put_self (by decide)
  have hsum := (r.poisedToSubtract left).toNat_sum (~~~right)
  rw [hcarry, Bool.toNat_true, show (r.poisedToSubtract left).a = left from rfl] at hsum
  have hdifference := toNat_difference left right
  refine ⟨?_, ?_⟩
  · apply UInt8.toNat_inj.mp
    rw [AluOutput.toNat_byte, AluOutput.toNat_byte, hsum, hdifference]
    omega
  · rw [AluOutput.carrySubtract_eq, AluOutput.carry_eq, AluOutput.carry_eq, hsum, hdifference,
      Bool.eq_iff_iff]
    simp only [decide_eq_true_iff, Bool.not_eq_true', decide_eq_false_iff_not]
    omega

theorem p_compare : (r.compare left right).p =
    ((r.p.put Flag.carry (difference left right).carrySubtract).put Flag.zero
      (difference left right).zero).put Flag.negative (difference left right).negative := rfl

/-- **A comparison** sets carry, zero and negative as a subtraction without a borrow would. -/
theorem compare_flags :
    (r.compare left right).p.has Flag.carry =
        ((r.poisedToSubtract left).subtract right).p.has Flag.carry ∧
      (r.compare left right).p.has Flag.zero =
        ((r.poisedToSubtract left).subtract right).p.has Flag.zero ∧
      (r.compare left right).p.has Flag.negative =
        ((r.poisedToSubtract left).subtract right).p.has Flag.negative := by
  obtain ⟨hbyte, hcarry⟩ := r.sum_poisedToSubtract left right
  refine ⟨?_, ?_, ?_⟩
  · rw [subtract, carry_add, hcarry, p_compare, Status.has_put_of_disjoint (by decide),
      Status.has_put_of_disjoint (by decide), Status.has_put_self (by decide)]
  · rw [subtract, p_add, Status.has_zero_delivered, hbyte, p_compare,
      Status.has_put_of_disjoint (by decide), Status.has_put_self (by decide), AluOutput.zero_eq]
  · rw [subtract, p_add, Status.has_negative_delivered, hbyte, p_compare,
      Status.has_put_self (by decide), AluOutput.negative_eq]

/-- A comparison changes no other flag. -/
theorem compare_others {mask : UInt8} (hcarry : Flag.carry &&& mask = 0)
    (hzero : Flag.zero &&& mask = 0) (hnegative : Flag.negative &&& mask = 0) :
    (r.compare left right).p.has mask = r.p.has mask := by
  rw [p_compare, Status.has_put_of_disjoint hnegative, Status.has_put_of_disjoint hzero,
    Status.has_put_of_disjoint hcarry]

end Registers

/-! ### Rows of bytes -/

/-- One place of two numbers: the operands that deliver their bytes, and where the result goes. -/
structure Column where
  left : Operand
  right : Operand
  dest : UInt16

namespace Column

variable (columns : List Column)

/-- The bytes of the first number. -/
def lefts : List UInt8 := columns.map fun column => column.left.value

/-- The bytes of the second number. -/
def rights : List UInt8 := columns.map fun column => column.right.value

/-- Where the bytes of the result go. -/
def dests : List UInt16 := columns.map Column.dest

end Column

/-- The byte that an instruction adds to A for its operand: SBC adds the complement. -/
def Mnemonic.addend (m : Mnemonic) (value : UInt8) : UInt8 := if m = .sbc then ~~~value else value

namespace Board

/-- The instructions for one place: load, add or subtract, store. -/
def chainStep (m : Mnemonic) (column : Column) : Run Memory Unit := do
  let _ ← perform .lda column.left
  let _ ← perform m column.right
  let _ ← perform .sta (.located .absolute 0 column.dest false)

/-- The instructions for all places of a number, the least significant one first. -/
def chain (m : Mnemonic) : List Column → Run Memory Unit
  | [] => return ()
  | column :: columns => do
    chainStep m column
    chain m columns

/-- The registers after one place. -/
def added (m : Mnemonic) (column : Column) (regs : Registers) : Registers :=
  (regs.load .a column.left.value).add (m.addend column.right.value)

variable {m : Mnemonic} {column : Column} {columns : List Column} {board : Board Memory}

/-- The board after one place. -/
def afterStep (m : Mnemonic) (column : Column) (board : Board Memory) : Board Memory :=
  ⟨⟨added m column board.cpu.regs, board.cpu.cycles⟩,
    Cells.set board.bus column.dest (added m column board.cpu.regs).a⟩

theorem chainStep_apply (hm : m = .adc ∨ m = .sbc) (column : Column) (board : Board Memory) :
    chainStep m column board = .ok () (board.afterStep m column) := by
  obtain rfl | rfl := hm <;> rfl

/-- Loading the first byte keeps the carry. -/
theorem carry_load (regs : Registers) (value : UInt8) :
    (regs.load .a value).p.has Flag.carry = regs.p.has Flag.carry :=
  Status.has_delivered_of_disjoint (by decide) (by decide)

theorem afterStep_value (m : Mnemonic) (column : Column) (board : Board Memory) :
    (added m column board.cpu.regs).a.toNat + 256 * (board.afterStep m column).carry.toNat =
      column.left.value.toNat + (m.addend column.right.value).toNat + board.carry.toNat := by
  rw [carry, afterStep, added, Registers.add_value, carry_load]
  rfl

theorem afterStep_overflow (m : Mnemonic) (column : Column) (board : Board Memory) :
    (board.afterStep m column).cpu.regs.p.has Flag.overflow = true ↔
      ¬ Fits 1 (signedOf [column.left.value] + signedOf [m.addend column.right.value]
        + board.carry.toNat) := by
  rw [afterStep, added, Registers.add_overflow, carry_load]
  rfl

/-- **A chain adds up.**  The result and the last carry are the sum of the numbers and the first
carry, and the last overflow flag tells that the signed sum is too large or too small. -/
theorem chain_sums (hm : m = .adc ∨ m = .sbc) (hdests : (Column.dests columns).Nodup)
    (board : Board Memory) :
    ∃ after, chain m columns board = .ok () after ∧
      numberOf (bytesAt (Column.dests columns) after.bus)
        + 256 ^ columns.length * after.carry.toNat =
        numberOf (Column.lefts columns) + numberOf ((Column.rights columns).map m.addend)
          + board.carry.toNat ∧
      (columns ≠ [] → (after.cpu.regs.p.has Flag.overflow = true ↔
        ¬ Fits columns.length (signedOf (Column.lefts columns)
          + signedOf ((Column.rights columns).map m.addend) + board.carry.toNat))) ∧
      Memory.SameBut (Column.dests columns) board.bus after.bus := by
  induction columns generalizing board with
  | nil =>
    refine ⟨board, rfl, ?_, fun h => absurd rfl h, fun _ _ => rfl⟩
    simp [Column.dests, Column.lefts, Column.rights, bytesAt, numberOf_nil]
  | cons column columns ih =>
    obtain ⟨hdest, hrest⟩ := List.nodup_cons.mp hdests
    have hvalue := afterStep_value m column board
    obtain ⟨after, hchain, hsum, hoverflow, hothers⟩ := ih hrest (board.afterStep m column)
    have hstored : after.bus[column.dest] = (added m column board.cpu.regs).a :=
      hothers.written hdest
    refine ⟨after, Attempt.bind_eq_ok.mpr ⟨(), _, chainStep_apply hm column board, hchain⟩, ?_, ?_,
      hothers.cons⟩
    · have hpow : 256 ^ (columns.length + 1) * after.carry.toNat =
          256 * (256 ^ columns.length * after.carry.toNat) := by ring
      simp only [Column.dests, Column.lefts, Column.rights, List.map_cons, numberOf_cons,
        numberOf_bytesAt_cons, List.length_cons, hstored, hpow] at hsum ⊢
      omega
    · intro _
      cases columns with
      | nil =>
        cases hchain
        exact afterStep_overflow m column board
      | cons next columns =>
        -- the lowest byte does not decide whether the signed sum fits
        rw [hoverflow (List.cons_ne_nil _ _), List.length_cons,
          ← fits_succ (Nat.succ_pos _) (added m column board.cpu.regs).a]
        have hlefts : signedOf (Column.lefts (column :: next :: columns)) =
            column.left.value.toNat + 256 * signedOf (Column.lefts (next :: columns)) :=
          signedOf_cons _ (List.cons_ne_nil _ _)
        have hrights : signedOf ((Column.rights (column :: next :: columns)).map m.addend) =
            (m.addend column.right.value).toNat
              + 256 * signedOf ((Column.rights (next :: columns)).map m.addend) :=
          signedOf_cons _ (List.cons_ne_nil _ _)
        rw [hlefts, hrights]
        refine not_congr (iff_of_eq (congrArg (Fits _) ?_))
        omega

/-- The board with the decimal flag set or cleared. -/
def decimal (on : Bool) (board : Board Memory) : Board Memory :=
  ⟨⟨board.cpu.regs.putFlag Flag.decimal on, board.cpu.cycles⟩, board.bus⟩

/-- **The decimal flag does not matter**: with another one, a chain leads to the same board but for
that flag. -/
theorem chain_decimal (hm : m = .adc ∨ m = .sbc) {board after : Board Memory} (on : Bool)
    (h : chain m columns board = .ok () after) :
    chain m columns (board.decimal on) = .ok () (after.decimal on) := by
  induction columns generalizing board with
  | nil =>
    cases h
    rfl
  | cons column columns ih =>
    obtain ⟨_, mid, hstep, hrest⟩ := Attempt.bind_eq_ok.mp h
    rw [chainStep_apply hm] at hstep
    cases hstep
    have hadded : added m column (board.decimal on).cpu.regs =
        (added m column board.cpu.regs).putFlag Flag.decimal on := by
      rw [added, decimal, Registers.load_decimal, Registers.add_decimal, added]
    have hafter :
        (board.decimal on).afterStep m column = (board.afterStep m column).decimal on := by
      rw [afterStep, hadded]
      rfl
    refine Attempt.bind_eq_ok.mpr ⟨(), _, chainStep_apply hm column (board.decimal on), ?_⟩
    rw [hafter]
    exact ih hrest

/-! ### Sums, differences and comparisons -/

/-- The board after an addition of two numbers. -/
structure SumOf (columns : List Column) (board after : Board Memory) : Prop where
  result : numberOf (bytesAt (Column.dests columns) after.bus) =
    (numberOf (Column.lefts columns) + numberOf (Column.rights columns)
      + board.carry.toNat) % 256 ^ columns.length
  carry : after.carry = true ↔
    256 ^ columns.length ≤ numberOf (Column.lefts columns) + numberOf (Column.rights columns)
      + board.carry.toNat
  overflow : after.cpu.regs.p.has Flag.overflow = true ↔
    ¬ Fits columns.length (signedOf (Column.lefts columns) + signedOf (Column.rights columns)
      + board.carry.toNat)
  others : Memory.SameBut (Column.dests columns) board.bus after.bus

/-- The board after a subtraction of two numbers. A clear carry flag is a borrow. -/
structure DifferenceOf (columns : List Column) (board after : Board Memory) : Prop where
  result : (numberOf (bytesAt (Column.dests columns) after.bus) : Int) =
    ((numberOf (Column.lefts columns) : Int) - numberOf (Column.rights columns)
      - (1 - board.carry.toNat)) % 256 ^ columns.length
  carry : after.carry = true ↔
    numberOf (Column.rights columns) + (1 - board.carry.toNat) ≤
      numberOf (Column.lefts columns)
  overflow : after.cpu.regs.p.has Flag.overflow = true ↔
    ¬ Fits columns.length (signedOf (Column.lefts columns) - signedOf (Column.rights columns)
      - (1 - board.carry.toNat))
  others : Memory.SameBut (Column.dests columns) board.bus after.bus

/-- The comparison of a register changes the status alone: carry, zero and negative become those of
a subtraction without a borrow, and the other flags stay as they are. -/
def ComparesLikeSubtraction (m : Mnemonic) (reg : Reg) (op : Operand) (board : Board Memory) :
    Prop :=
  ∃ status difference,
    perform m op board =
      .ok 0 ⟨⟨{ board.cpu.regs with p := status }, board.cpu.cycles⟩, board.bus⟩ ∧
    perform .sbc op ⟨⟨board.cpu.regs.poisedToSubtract (board.cpu.regs.get reg), board.cpu.cycles⟩,
      board.bus⟩ = .ok 0 ⟨⟨difference, board.cpu.cycles⟩, board.bus⟩ ∧
    (∀ flag ∈ [Flag.carry, Flag.zero, Flag.negative], status.has flag = difference.p.has flag) ∧
    ∀ flag ∈ [Flag.overflow, Flag.decimal, Flag.interruptDisable, Flag.breakMark, Flag.unused],
      status.has flag = board.cpu.regs.p.has flag

theorem comparesLikeSubtraction {reg : Reg} (hm : m.action = .compare reg) (op : Operand)
    (board : Board Memory) : ComparesLikeSubtraction m reg op board := by
  obtain ⟨hcarry, hzero, hnegative⟩ :=
    board.cpu.regs.compare_flags (board.cpu.regs.get reg) op.value
  refine ⟨(board.cpu.regs.compare (board.cpu.regs.get reg) op.value).p, _, ?_, rfl, ?_, ?_⟩
  · rw [perform, hm]
    rfl
  · simp [hcarry, hzero, hnegative]
  · intro flag hflag
    simp only [List.mem_cons, List.not_mem_nil, or_false] at hflag
    obtain rfl | rfl | rfl | rfl | rfl := hflag <;>
      exact board.cpu.regs.compare_others _ _ (by decide) (by decide) (by decide)

theorem exists_sumOf (hne : columns ≠ []) (hdests : (Column.dests columns).Nodup)
    (board : Board Memory) :
    ∃ after, chain .adc columns board = .ok () after ∧ SumOf columns board after := by
  obtain ⟨after, hchain, hsum, hoverflow, hothers⟩ := chain_sums (.inl rfl) hdests board
  have hrights : (Column.rights columns).map Mnemonic.adc.addend = Column.rights columns :=
    List.map_id _
  have hlt := numberOf_bytesAt_lt (Column.dests columns) after.bus
  rw [show (Column.dests columns).length = columns.length from List.length_map _] at hlt
  rw [hrights] at hsum hoverflow
  refine ⟨after, hchain, ⟨?_, ?_, hoverflow hne, hothers⟩⟩
  · rw [← hsum, Nat.add_mul_mod_self_left, Nat.mod_eq_of_lt hlt]
  · rw [← hsum]
    cases after.carry with
    | false => simpa using hlt
    | true => simp

theorem exists_differenceOf (hne : columns ≠ []) (hdests : (Column.dests columns).Nodup)
    (board : Board Memory) :
    ∃ after, chain .sbc columns board = .ok () after ∧ DifferenceOf columns board after := by
  obtain ⟨after, hchain, hsum, hoverflow, hothers⟩ := chain_sums (.inr rfl) hdests board
  have hrights : (Column.rights columns).map Mnemonic.sbc.addend =
      (Column.rights columns).map (~~~·) := rfl
  have hcomplement := numberOf_complement (Column.rights columns)
  have hne' : Column.rights columns ≠ [] := fun h => hne (List.map_eq_nil_iff.mp h)
  have hcarry := Bool.toNat_lt board.carry
  rw [show (Column.rights columns).length = columns.length from List.length_map _] at hcomplement
  rw [hrights] at hsum hoverflow
  rw [signedOf_complement hne'] at hoverflow
  have hlt := numberOf_bytesAt_lt (Column.dests columns) after.bus
  rw [show (Column.dests columns).length = columns.length from List.length_map _] at hlt
  refine ⟨after, hchain, ⟨?_, ?_, (hoverflow hne).trans ?_, hothers⟩⟩
  · -- the result differs from the difference by a multiple of the range
    have hint : (numberOf (Column.lefts columns) : Int) - numberOf (Column.rights columns)
        - (1 - board.carry.toNat) =
          numberOf (bytesAt (Column.dests columns) after.bus)
            + 256 ^ columns.length * ((after.carry).toNat - 1) := by
      have hsum' : (numberOf (bytesAt (Column.dests columns) after.bus) : Int)
          + 256 ^ columns.length * (after.carry).toNat =
            numberOf (Column.lefts columns) + numberOf ((Column.rights columns).map (~~~·))
              + board.carry.toNat := by exact_mod_cast hsum
      have hcomplement' : (numberOf ((Column.rights columns).map (~~~·)) : Int)
          + numberOf (Column.rights columns) + 1 = 256 ^ columns.length := by
        exact_mod_cast hcomplement
      linarith
    rw [hint, Int.add_mul_emod_self_left]
    exact (Int.emod_eq_of_lt (Int.natCast_nonneg _) (by exact_mod_cast hlt)).symm
  · cases hout : after.carry with
    | false =>
      rw [hout, Bool.toNat_false] at hsum
      simp only [Bool.false_eq_true, false_iff]
      omega
    | true =>
      rw [hout, Bool.toNat_true] at hsum
      simp only [true_iff]
      omega
  · refine not_congr (iff_of_eq (congrArg (Fits _) ?_))
    ring

/-- **Arithmetic of several bytes.**  Additions and subtractions byte by byte, with the carry taken
on, add and subtract whole numbers; the last carry and overflow are those of the whole numbers, and
the decimal flag does not matter. A comparison sets its flags as a subtraction does. -/
theorem multibyte_arithmetic (columns : List Column) (hne : columns ≠ [])
    (hdests : (Column.dests columns).Nodup) (board : Board Memory) :
    (∃ after, chain .adc columns board = .ok () after ∧ SumOf columns board after ∧
      ∀ on, chain .adc columns (board.decimal on) = .ok () (after.decimal on)) ∧
    (∃ after, chain .sbc columns board = .ok () after ∧ DifferenceOf columns board after ∧
      ∀ on, chain .sbc columns (board.decimal on) = .ok () (after.decimal on)) ∧
    ∀ op, ComparesLikeSubtraction .cmp .a op board ∧ ComparesLikeSubtraction .cpx .x op board ∧
      ComparesLikeSubtraction .cpy .y op board := by
  obtain ⟨sum, hsum, hsumOf⟩ := exists_sumOf hne hdests board
  obtain ⟨difference, hdifference, hdifferenceOf⟩ := exists_differenceOf hne hdests board
  refine ⟨⟨sum, hsum, hsumOf, fun on => chain_decimal (.inl rfl) on hsum⟩,
    ⟨difference, hdifference, hdifferenceOf, fun on => chain_decimal (.inr rfl) on hdifference⟩,
    fun op => ⟨?_, ?_, ?_⟩⟩
  · exact comparesLikeSubtraction rfl op board
  · exact comparesLikeSubtraction rfl op board
  · exact comparesLikeSubtraction rfl op board

/-- The largest signed number of two bytes and one: the sum is the smallest one, without a carry but
with an overflow. -/
theorem chain_overflows :
    let columns : List Column := [⟨.bare .immediate 0xFF, .bare .immediate 0x01, 0x0300⟩,
      ⟨.bare .immediate 0x7F, .bare .immediate 0x00, 0x0301⟩]
    ∃ after, chain .adc columns (⟨Cpu.powerOn, Memory.zeros⟩ : Board Memory) = .ok () after ∧
      signedOf (bytesAt (Column.dests columns) after.bus) = -0x8000 ∧
      after.carry = false ∧ after.cpu.regs.p.has Flag.overflow = true := by
  intro columns
  obtain ⟨⟨after, hchain, hsum, -⟩, -, -⟩ := multibyte_arithmetic columns (List.cons_ne_nil _ _)
    (by decide) (⟨Cpu.powerOn, Memory.zeros⟩ : Board Memory)
  have hlefts : Column.lefts columns = [0xFF, 0x7F] := rfl
  have hrights : Column.rights columns = [0x01, 0x00] := rfl
  have hresult := hsum.result
  have hcarry := hsum.carry
  have hoverflow := hsum.overflow
  rw [hlefts, hrights] at hresult hcarry hoverflow
  refine ⟨after, hchain, ?_, ?_, hoverflow.mpr ?_⟩
  · rw [signedOf_eq, hresult, show (bytesAt (Column.dests columns) after.bus).length = 2 from rfl]
    decide
  · rw [← Bool.not_eq_true, hcarry]
    decide
  · rw [fits_iff (by decide)]
    decide

end Board

end NesMachine
