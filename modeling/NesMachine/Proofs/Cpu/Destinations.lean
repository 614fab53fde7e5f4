import NesMachine.Proofs.Cpu.Arithmetic
import NesMachine.Proofs.Cpu.Effects

/-!
# What instructions change

The documentation lists for each instruction where its result goes and which flags it sets.  The
tables below are those lists; `Board.ChangesOnly` says that a run has kept to them, and
`Board.execute_changes_only` that every successful instruction does.

* `Opcode.delivers`, `Mnemonic.movesStack`, `Mnemonic.departs`, `Mnemonic.flags`: the tables;
* `Registers.shows_compare`, `Registers.bitTest_flags`, `Shift.bitOf_iff`: what the flags tell after
  comparisons, tests and shifts;
* `Action.get_effect`, `Action.s_effect`, `Action.pc_effect`, `Action.p_effect`: what the effect of
  an action leaves alone;
* `Action.p_effect_register`, `Action.p_effect_memory`: the flags of a delivered byte.
-/

namespace NesMachine

/-! ### The tables -/

/-- Where an instruction delivers a byte that it has worked out. -/
inductive Destination where
  | register (reg : Reg)
  /-- The byte at the effective address. -/
  | memory
deriving DecidableEq

/-- The destination of an instruction, if it has one. Storing a register delivers nothing new. -/
def Opcode.delivers (o : Opcode) : Option Destination :=
  match o.mnemonic with
  | .lda | .txa | .tya | .pla | .adc | .sbc | .and | .ora | .eor => some (.register .a)
  | .ldx | .tax | .tsx | .inx | .dex => some (.register .x)
  | .ldy | .tay | .iny | .dey => some (.register .y)
  | .inc | .dec => some .memory
  | .asl | .lsr | .rol | .ror => some (if o.mode = .accumulator then .register .a else .memory)
  | _ => none

namespace Mnemonic

/-- The instructions that move the stack pointer. -/
def movesStack : List Mnemonic := [txs, pha, php, pla, plp, jsr, rts, rti, brk]

/-- The instructions that always go on elsewhere. -/
def departs : List Mnemonic := [jmp, jsr, rts, rti, brk]

/-- The instructions that keep the status. -/
def quiet : List Mnemonic :=
  [sta, stx, sty, txs, pha, php, bcc, bcs, bne, beq, bpl, bmi, bvc, bvs, jmp, jsr, rts, nop]

def comparing : List Mnemonic := [cmp, cpx, cpy]

def shifting : List Mnemonic := [asl, lsr, rol, ror]

/-- The flags that an instruction sets. -/
def flags : Mnemonic → UInt8
  | adc | sbc => Flag.negative ||| Flag.overflow ||| Flag.zero ||| Flag.carry
  | bit => Flag.negative ||| Flag.overflow ||| Flag.zero
  | cmp | cpx | cpy | asl | lsr | rol | ror => Flag.negative ||| Flag.zero ||| Flag.carry
  | lda | ldx | ldy | tax | tay | txa | tya | tsx | pla | and | ora | eor | inc | dec | inx | dex
  | iny | dey => Flag.negative ||| Flag.zero
  | clc | sec => Flag.carry
  | cli | sei | brk => Flag.interruptDisable
  | cld | sed => Flag.decimal
  | clv => Flag.overflow
  | plp | rti => 0xFF
  | _ => 0

/-- The flag that an instruction gives a fixed value, and the value. -/
def fixes : Mnemonic → Option (UInt8 × Bool)
  | clc => some (Flag.carry, false)
  | sec => some (Flag.carry, true)
  | cli => some (Flag.interruptDisable, false)
  | sei | brk => some (Flag.interruptDisable, true)
  | cld => some (Flag.decimal, false)
  | sed => some (Flag.decimal, true)
  | clv => some (Flag.overflow, false)
  | _ => none

/-- The register that an instruction compares with its operand. -/
def compared : Mnemonic → Reg
  | cpx => .x
  | cpy => .y
  | _ => .a

end Mnemonic

/-- The zero and negative flags tell about a byte. -/
def Status.Shows (p : Status) (value : UInt8) : Prop :=
  p.has Flag.zero = (value == 0) ∧ p.has Flag.negative = decide (128 ≤ value.toNat)

namespace Board

/-- An instruction has changed nothing but what the tables list, and has set its flags as the bytes
tell: that it has delivered, or that it has compared, tested or pulled. -/
structure ChangesOnly (o : Opcode) (board after : Board Memory) : Prop where
  data (reg : Reg) : o.delivers ≠ some (.register reg) →
    after.cpu.regs.get reg = board.cpu.regs.get reg
  stack : o.mnemonic ∉ Mnemonic.movesStack → after.cpu.regs.s = board.cpu.regs.s
  counter : o.mnemonic ∉ Mnemonic.departs → o.mnemonic.taken board.cpu.regs.p = false →
    after.cpu.regs.pc.toNat =
      (board.cpu.regs.pc.toNat + 1 + o.mode.operandLength.toNat) % 65536
  flags : after.cpu.regs.p.byte &&& ~~~o.mnemonic.flags =
    board.cpu.regs.p.byte &&& ~~~o.mnemonic.flags
  quiet : o.mnemonic ∈ Mnemonic.quiet → after.cpu.regs.p = board.cpu.regs.p
  loaded (reg : Reg) : o.delivers = some (.register reg) →
    after.cpu.regs.p.Shows (after.cpu.regs.get reg)
  stored : o.delivers = some .memory →
    ∃ a, (board.operandOf o).address = some a ∧ after.cpu.regs.p.Shows after.bus[a]
  summed : o.mnemonic ∈ [Mnemonic.adc, .sbc] →
    let value := o.mnemonic.addend (board.operandOf o).value
    let carry := (board.cpu.regs.p.has Flag.carry).toNat
    (after.cpu.regs.p.has Flag.carry = true ↔
      256 ≤ board.cpu.regs.a.toNat + value.toNat + carry) ∧
    (after.cpu.regs.p.has Flag.overflow = true ↔
      ¬ Fits 1 (signedOf [board.cpu.regs.a] + signedOf [value] + carry))
  compared : o.mnemonic ∈ Mnemonic.comparing →
    let left := board.cpu.regs.get o.mnemonic.compared
    let right := (board.operandOf o).value
    (after.cpu.regs.p.has Flag.carry = true ↔ right ≤ left) ∧ after.cpu.regs.p.Shows (left - right)
  shifted : o.mnemonic ∈ Mnemonic.shifting →
    let value := (board.operandOf o).value
    (after.cpu.regs.p.has Flag.carry = true ↔
      if o.mnemonic ∈ [Mnemonic.asl, .rol] then 128 ≤ value.toNat else value.toNat % 2 = 1)
  tested : o.mnemonic = .bit →
    let value := (board.operandOf o).value
    (after.cpu.regs.p.has Flag.zero = true ↔ board.cpu.regs.a &&& value = 0) ∧
    (after.cpu.regs.p.has Flag.negative = true ↔ value &&& 0x80 ≠ 0) ∧
    (after.cpu.regs.p.has Flag.overflow = true ↔ value &&& 0x40 ≠ 0)
  fixed (mask : UInt8) (on : Bool) : o.mnemonic.fixes = some (mask, on) →
    after.cpu.regs.p.has mask = on
  pulled : o.mnemonic ∈ [Mnemonic.plp, .rti] →
    after.cpu.regs.p.byte =
      (board.bus[slotAddress (board.cpu.regs.s + 1)] ||| Flag.unused) &&& ~~~Flag.breakMark

end Board

/-! ### The flags of each kind of instruction -/

theorem Status.shows_delivered (p : Status) (value : UInt8) : (p.delivered value).Shows value :=
  ⟨has_zero_delivered p value, has_negative_delivered p value⟩

theorem Status.byte_delivered_and {p : Status} {value mask : UInt8} (hzero : Flag.zero &&& mask = 0)
    (hnegative : Flag.negative &&& mask = 0) :
    (p.delivered value).byte &&& mask = p.byte &&& mask := by
  rw [delivered, byte_put_and hnegative, byte_put_and hzero]

/-- The bit that a shift moves out is the highest or the lowest one. -/
theorem Shift.bitOf_iff (shift : Shift) (value : UInt8) (carry : Bool) :
    shift.bitOf value carry = true ↔
      if shift = .left ∨ shift = .rotateLeft then 128 ≤ value.toNat else value.toNat % 2 = 1 := by
  obtain ⟨bits⟩ := value
  cases shift <;> revert bits carry <;> decide +kernel

namespace Registers

variable (r : Registers) (left right value : UInt8)

theorem byte_difference : (difference left right).byte = left - right := by
  have hleft := left.toNat_lt
  have hright := right.toNat_lt
  apply UInt8.toNat_inj.mp
  rw [AluOutput.toNat_byte, toNat_difference, UInt8.toNat_sub]
  omega

theorem carry_compare : (r.compare left right).p.has Flag.carry = true ↔ right ≤ left := by
  have hleft := left.toNat_lt
  have hright := right.toNat_lt
  rw [p_compare, Status.has_put_of_disjoint (by decide), Status.has_put_of_disjoint (by decide),
    Status.has_put_self (by decide), AluOutput.carrySubtract_eq, AluOutput.carry_eq,
    toNat_difference, UInt8.le_iff_toNat_le, Bool.not_eq_true', decide_eq_false_iff_not]
  omega

theorem shows_compare : (r.compare left right).p.Shows (left - right) := by
  refine ⟨?_, ?_⟩
  · rw [p_compare, Status.has_put_of_disjoint (by decide), Status.has_put_self (by decide),
      AluOutput.zero_eq, byte_difference]
  · rw [p_compare, Status.has_put_self (by decide), AluOutput.negative_eq, byte_difference]

theorem byte_compare_and {mask : UInt8} (hcarry : Flag.carry &&& mask = 0)
    (hzero : Flag.zero &&& mask = 0) (hnegative : Flag.negative &&& mask = 0) :
    (r.compare left right).p.byte &&& mask = r.p.byte &&& mask := by
  rw [p_compare, Status.byte_put_and hnegative, Status.byte_put_and hzero,
    Status.byte_put_and hcarry]

theorem byte_add_and {mask : UInt8} (hcarry : Flag.carry &&& mask = 0)
    (hoverflow : Flag.overflow &&& mask = 0) (hzero : Flag.zero &&& mask = 0)
    (hnegative : Flag.negative &&& mask = 0) :
    (r.add value).p.byte &&& mask = r.p.byte &&& mask := by
  rw [p_add, Status.byte_delivered_and hzero hnegative, Status.byte_put_and hoverflow,
    Status.byte_put_and hcarry]

theorem carry_add_iff : (r.add value).p.has Flag.carry = true ↔
    256 ≤ r.a.toNat + value.toNat + (r.p.has Flag.carry).toNat := by
  have ha := r.a.toNat_lt
  have hvalue := value.toNat_lt
  have hcarry := Bool.toNat_lt (r.p.has Flag.carry)
  rw [carry_add, AluOutput.carry_eq, toNat_sum, decide_eq_true_iff]
  omega

theorem p_bitTest : (r.bitTest value).p =
    ((r.p.put Flag.zero (AluOutput.ofByte (r.a &&& value)).zero).put Flag.negative
      (AluOutput.ofByte value).negative).put Flag.overflow (value &&& 0x40 != 0) := rfl

theorem byte_bitTest_and {mask : UInt8} (hzero : Flag.zero &&& mask = 0)
    (hnegative : Flag.negative &&& mask = 0) (hoverflow : Flag.overflow &&& mask = 0) :
    (r.bitTest value).p.byte &&& mask = r.p.byte &&& mask := by
  rw [p_bitTest, Status.byte_put_and hoverflow, Status.byte_put_and hnegative,
    Status.byte_put_and hzero]

theorem bitTest_flags :
    ((r.bitTest value).p.has Flag.zero = true ↔ r.a &&& value = 0) ∧
      ((r.bitTest value).p.has Flag.negative = true ↔ value &&& 0x80 ≠ 0) ∧
      ((r.bitTest value).p.has Flag.overflow = true ↔ value &&& 0x40 ≠ 0) := by
  refine ⟨?_, ?_, ?_⟩
  · rw [p_bitTest, Status.has_put_of_disjoint (by decide), Status.has_put_of_disjoint (by decide),
      Status.has_put_self (by decide), AluOutput.zero_eq, AluOutput.byte_ofByte, beq_iff_eq]
  · rw [p_bitTest, Status.has_put_of_disjoint (by decide), Status.has_put_self (by decide),
      AluOutput.negative_eq, AluOutput.byte_ofByte, ← beq_eq_false_iff_ne,
      AluOutput.and_sign_eq_zero, decide_eq_true_iff, decide_eq_false_iff_not, Nat.not_lt]
  · rw [p_bitTest, Status.has_put_self (by decide), bne_iff_ne]

end Registers

/-! ### What an action leaves alone -/

namespace Action

variable {o : Opcode} {op : Operand} {regs : Registers} {memory : Memory}

theorem get_effect (haccumulator : op.accumulator = (o.mode == .accumulator)) {reg : Reg}
    (h : o.delivers ≠ some (.register reg)) :
    (o.mnemonic.action.effect op regs memory).1.get reg = regs.get reg := by
  obtain ⟨byte, m, mode, cycles⟩ := o
  cases m with
  | asl | lsr | rol | ror =>
    cases reg with
    | x | y => rfl
    | a =>
      have hmemory : op.accumulator = false := by
        rw [haccumulator, beq_eq_false_iff_ne]
        rintro rfl
        exact h rfl
      exact if_neg (by rw [hmemory]; decide)
  | _ => cases reg <;> first | exact absurd rfl h | rfl

theorem s_effect (h : o.mnemonic ∉ Mnemonic.movesStack) :
    (o.mnemonic.action.effect op regs memory).1.s = regs.s := by
  generalize o.mnemonic = m at h
  cases m <;> first | exact absurd (by decide) h | rfl

theorem pc_effect (h : o.mnemonic ∉ Mnemonic.departs) (htaken : o.mnemonic.taken regs.p = false) :
    (o.mnemonic.action.effect op regs memory).1.pc = regs.pc := by
  generalize o.mnemonic = m at h htaken
  cases m with
  | bcc | bcs | bne | beq | bpl | bmi | bvc | bvs =>
    rw [Mnemonic.taken_of_branch rfl] at htaken
    exact if_neg (by rw [htaken]; decide)
  | _ => first | exact absurd (by decide) h | rfl

/-- The bits of the status outside the listed flags stay as they are. -/
theorem p_effect : (o.mnemonic.action.effect op regs memory).1.p.byte &&& ~~~o.mnemonic.flags =
    regs.p.byte &&& ~~~o.mnemonic.flags := by
  generalize o.mnemonic = m
  cases m with
  | lda | ldx | ldy | tax | tay | txa | tya | tsx | pla | and | ora | eor | inc | dec | inx | dex
  | iny | dey => exact Status.byte_delivered_and (by decide) (by decide)
  | adc | sbc => exact regs.byte_add_and _ (by decide) (by decide) (by decide) (by decide)
  | cmp | cpx | cpy => exact regs.byte_compare_and _ _ (by decide) (by decide) (by decide)
  | bit => exact regs.byte_bitTest_and _ (by decide) (by decide) (by decide)
  | asl | lsr | rol | ror =>
    exact (Status.byte_delivered_and (by decide) (by decide)).trans
      (Status.byte_put_and (by decide))
  | clc | sec | cli | sei | brk | cld | sed | clv => exact Status.byte_put_and (by decide)
  | plp | rti => exact UInt8.and_zero.trans UInt8.and_zero.symm
  | _ => rfl

theorem p_effect_of_quiet (h : o.mnemonic ∈ Mnemonic.quiet) :
    (o.mnemonic.action.effect op regs memory).1.p = regs.p := by
  generalize o.mnemonic = m at h
  cases m <;> first | exact absurd h (by decide) | rfl

/-! ### What it sets -/

theorem p_effect_register (haccumulator : op.accumulator = (o.mode == .accumulator)) {reg : Reg}
    (h : o.delivers = some (.register reg)) :
    (o.mnemonic.action.effect op regs memory).1.p.Shows
      ((o.mnemonic.action.effect op regs memory).1.get reg) := by
  obtain ⟨byte, m, mode, cycles⟩ := o
  cases m with
  | asl | lsr | rol | ror =>
    by_cases hmode : mode = .accumulator
    · subst hmode
      cases h
      have ha : op.accumulator = true := haccumulator
      simp only [Mnemonic.action, effect, Registers.get, ha, if_true]
      exact Status.shows_delivered _ _
    · rw [Opcode.delivers, if_neg hmode] at h
      cases h
  | lda | ldx | ldy | tax | tay | txa | tya | tsx | pla | adc | sbc | and | ora | eor | inx | dex
  | iny | dey =>
    cases h
    exact Status.shows_delivered _ _
  | _ => cases h

theorem p_effect_memory (haccumulator : op.accumulator = (o.mode == .accumulator))
    (h : o.delivers = some .memory) :
    (o.mnemonic.action.effect op regs memory).1.p.Shows
      (o.mnemonic.action.effect op regs memory).2[op.target] := by
  obtain ⟨byte, m, mode, cycles⟩ := o
  cases m with
  | inc | dec =>
    simp only [Mnemonic.action, effect, Cells.getElem_set_self]
    exact Status.shows_delivered _ _
  | asl | lsr | rol | ror =>
    have hmode : mode ≠ .accumulator := by
      rintro rfl
      cases h
    have ha : op.accumulator = false := haccumulator.trans (beq_eq_false_iff_ne.mpr hmode)
    simp only [Mnemonic.action, effect, ha, Bool.false_eq_true, if_false, Cells.getElem_set_self]
    exact Status.shows_delivered _ _
  | _ => cases h

theorem p_effect_shift (h : o.mnemonic ∈ Mnemonic.shifting) :
    ((o.mnemonic.action.effect op regs memory).1.p.has Flag.carry = true ↔
      if o.mnemonic ∈ [Mnemonic.asl, .rol] then 128 ≤ op.value.toNat
      else op.value.toNat % 2 = 1) := by
  have hcarry (way : Shift) : (way.statusOf op.value regs.p).has Flag.carry = true ↔
      if way = .left ∨ way = .rotateLeft then 128 ≤ op.value.toNat
      else op.value.toNat % 2 = 1 := by
    rw [Shift.carry_statusOf, Shift.bitOf_iff]
  generalize o.mnemonic = m at h
  cases m with
  | asl => exact hcarry .left
  | rol => exact hcarry .rotateLeft
  | lsr => exact hcarry .right
  | ror => exact hcarry .rotateRight
  | _ => exact absurd h (by decide)

theorem p_effect_compare (h : o.mnemonic ∈ Mnemonic.comparing) :
    (o.mnemonic.action.effect op regs memory).1.p =
      (regs.compare (regs.get o.mnemonic.compared) op.value).p := by
  generalize o.mnemonic = m at h
  cases m <;> first | exact absurd h (by decide) | rfl

theorem p_effect_add (h : o.mnemonic ∈ [Mnemonic.adc, .sbc]) :
    (o.mnemonic.action.effect op regs memory).1.p =
      (regs.add (o.mnemonic.addend op.value)).p := by
  generalize o.mnemonic = m at h
  cases m <;> first | exact absurd h (by decide) | rfl

theorem p_effect_pull (h : o.mnemonic ∈ [Mnemonic.plp, .rti]) :
    (o.mnemonic.action.effect op regs memory).1.p = .ofStack memory[slotAddress (regs.s + 1)] := by
  generalize o.mnemonic = m at h
  cases m <;> first | exact absurd h (by decide) | rfl

theorem p_effect_fixed {mask : UInt8} {on : Bool} (h : o.mnemonic.fixes = some (mask, on)) :
    (o.mnemonic.action.effect op regs memory).1.p.has mask = on := by
  generalize o.mnemonic = m at h
  cases m with
  | clc | sec | cli | sei | brk | cld | sed | clv =>
    cases h
    exact Status.has_put_self (by decide)
  | _ => cases h

end Action

namespace Board

variable {board after : Board Memory} {step : Step}

theorem accumulator_operandOf (o : Opcode) (board : Board Memory) :
    (board.operandOf o).accumulator = (o.mode == .accumulator) := rfl

theorem toNat_pc_behind (o : Opcode) (board : Board Memory) :
    (o.mode.behind board.operandRegs).pc.toNat =
      (board.cpu.regs.pc.toNat + 1 + o.mode.operandLength.toNat) % 65536 := by
  rw [Mode.behind, operandRegs, opened, UInt16.toNat_add, UInt16.toNat_add, Nat.mod_add_mod]
  rfl

/-- An instruction whose result goes to memory has an effective address. -/
theorem exists_address {o : Opcode} (ho : o ∈ Opcode.all) (h : o.delivers = some .memory) :
    ∃ a, (board.operandOf o).address = some a := by
  have hreads : ∀ o ∈ Opcode.all, o.delivers = some .memory → o.mode.reads = true := by
    decide +kernel
  obtain ⟨a, ha⟩ : ∃ a, o.mode.place board.operandRegs board.bus = some a :=
    Mode.exists_place (hreads o ho h)
  exact ⟨UInt16.ofNat a, congrArg (Option.map UInt16.ofNat) ha⟩

/-- **What an instruction changes.**  A successful instruction changes no register, no flag and not
the order of the program but where its documentation says so, and the flags that it sets tell about
the byte that it has delivered or looked at. -/
theorem execute_changes_only (h : execute board = .ok step after) :
    ∃ o, Opcode.decode board.bus[board.cpu.regs.pc] = some o ∧ ChangesOnly o board after := by
  obtain ⟨o, ho, hdecode, -, hregs, hbus⟩ := execute_effect h
  refine ⟨o, hdecode, ?_⟩
  have hacc := accumulator_operandOf o board
  constructor
  case data =>
    intro reg hreg
    rw [hregs]
    exact Action.get_effect hacc hreg
  case stack =>
    intro hm
    rw [hregs]
    exact Action.s_effect hm
  case counter =>
    intro hm htaken
    rw [hregs, show (board.effectOf o).1.pc = _ from Action.pc_effect hm htaken]
    exact toNat_pc_behind o board
  case flags => rw [hregs]; exact Action.p_effect
  case quiet =>
    intro hm
    rw [hregs]
    exact Action.p_effect_of_quiet hm
  case loaded =>
    intro reg hreg
    rw [hregs]
    exact Action.p_effect_register hacc hreg
  case stored =>
    intro hmemory
    obtain ⟨a, ha⟩ : ∃ a, (board.operandOf o).address = some a := exists_address ho hmemory
    refine ⟨a, ha, ?_⟩
    rw [hregs, hbus, ← Operand.target_of_some ha]
    exact Action.p_effect_memory hacc hmemory
  case summed =>
    intro hm
    rw [hregs, show (board.effectOf o).1.p = _ from Action.p_effect_add hm]
    exact ⟨Registers.carry_add_iff _ _, Registers.add_overflow _ _⟩
  case compared =>
    intro hm
    rw [hregs, show (board.effectOf o).1.p = _ from Action.p_effect_compare hm]
    exact ⟨Registers.carry_compare _ _ _, Registers.shows_compare _ _ _⟩
  case shifted =>
    intro hm
    rw [hregs]
    exact Action.p_effect_shift hm
  case tested =>
    intro hm
    rw [hregs, effectOf, hm]
    exact Registers.bitTest_flags _ _
  case fixed =>
    intro mask on hfixes
    rw [hregs]
    exact Action.p_effect_fixed hfixes
  case pulled =>
    intro hm
    rw [hregs, show (board.effectOf o).1.p = _ from Action.p_effect_pull hm]
    rfl

/-- Pulling a byte with all bits set into the status leaves the break bit clear, and A as it is. -/
theorem plp_drops_break :
    let memory := (Memory.zeros.set 0x8000 0x28).set 0x01FF 0xFF
    let board : Board Memory := ⟨⟨{ Registers.powerOn with s := 0xFE }, 0⟩, memory⟩
    ∃ step after, execute board = .ok step after ∧ after.cpu.regs.p.byte = 0xEF ∧
      after.cpu.regs.a = 0 ∧ after.cpu.regs.pc.toNat = 0x8001 := by
  intro memory board
  have hbyte (a : UInt16) : memory[a] =
      if 0x01FF = a then 0xFF else if 0x8000 = a then 0x28 else 0 := by
    simp only [memory, Cells.getElem_set, Memory.zeros, Cells.getElem_fill]
  have hopcode : board.bus[board.cpu.regs.pc] = 0x28 := hbyte 0x8000
  have hknown : Opcode.decode 0x28 = some ⟨0x28, .plp, .implicit, 4⟩ :=
    Opcode.decode_byte (o := ⟨0x28, .plp, .implicit, 4⟩) (by decide)
  obtain ⟨step, after, hrun⟩ : ∃ step after, execute board = .ok step after :=
    ⟨_, _, (execute_memory_eq_ok (o := ⟨0x28, .plp, .implicit, 4⟩) hopcode hknown).mpr
      ⟨_, _, _, _, resolve_memory .., rfl, rfl, rfl⟩⟩
  refine ⟨step, after, hrun, ?_⟩
  obtain ⟨o, hdecode, hchanges⟩ := execute_changes_only hrun
  rw [hopcode, hknown] at hdecode
  cases hdecode
  have hpulled : memory[slotAddress (0xFE + 1)] = 0xFF := hbyte 0x01FF
  refine ⟨?_, hchanges.data .a (by decide), hchanges.counter (by decide) rfl⟩
  rw [hchanges.pulled (by decide), show board.bus = memory from rfl, hpulled]
  rfl

end Board

end NesMachine
