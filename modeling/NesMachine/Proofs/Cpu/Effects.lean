import NesMachine.Proofs.Cpu.Addressing
import NesMachine.Proofs.Cpu.Calls
import NesMachine.Proofs.Cpu.Composition
import NesMachine.Proofs.Cpu.Shifts

/-!
# The effect of an instruction

On a flat memory, an instruction that succeeds leaves registers and memory that its operand, the
registers and the memory before it determine.  What an instruction changes, and what it leaves alone,
is read off from here.

* `Action.effect`: the registers and the memory that an action leaves;
* `Mnemonic.taken`: the branches and their conditions;
* `Board.perform_effect`: an instruction that is carried out has this effect, and takes one cycle
  more if it is a branch that is taken;
* `Board.execute_effect`: the same for a whole instruction, from its opcode on.
-/

namespace NesMachine

/-- Whether an instruction is a branch whose condition holds. -/
def Mnemonic.taken (m : Mnemonic) (p : Status) : Bool :=
  match m with
  | .bcc => !p.has Flag.carry
  | .bcs => p.has Flag.carry
  | .bne => !p.has Flag.zero
  | .beq => p.has Flag.zero
  | .bpl => !p.has Flag.negative
  | .bmi => p.has Flag.negative
  | .bvc => !p.has Flag.overflow
  | .bvs => p.has Flag.overflow
  | _ => false

theorem Mnemonic.taken_of_branch {m : Mnemonic} {mask : UInt8} {on : Bool}
    (h : m.action = .branch mask on) (p : Status) : m.taken p = (p.has mask == on) := by
  cases m <;> cases h <;> simp [taken]

theorem Mnemonic.taken_of_not_branches {m : Mnemonic} (h : m.action.branches = false) (p : Status) :
    m.taken p = false := by
  cases m <;> first | rfl | cases h

/-- The effective address, which is zero where there is none. -/
def Operand.target (op : Operand) : UInt16 := op.address.getD 0

theorem Operand.target_of_some {op : Operand} {a : UInt16} (h : op.address = some a) :
    op.target = a := by
  rw [target, h, Option.getD_some]

namespace Action

/-- The registers and the memory that an action leaves. -/
def effect (op : Operand) (regs : Registers) (memory : Memory) : Action → Registers × Memory
  | .load dst => (regs.load dst op.value, memory)
  | .store src => (regs, memory.set op.target (regs.get src))
  | .transfer src dst => (regs.load dst (regs.get src), memory)
  | .fromStackPointer => (regs.load .x regs.s, memory)
  | .toStackPointer => ({ regs with s := regs.x }, memory)
  | .pushA => ({ regs with s := regs.s - 1 }, memory.set (slotAddress regs.s) regs.a)
  | .pushStatus =>
    ({ regs with s := regs.s - 1 }, memory.set (slotAddress regs.s) regs.p.pushedByProgram)
  | .pullA =>
    (({ regs with s := regs.s + 1 } : Registers).load .a memory[slotAddress (regs.s + 1)], memory)
  | .pullStatus =>
    ({ regs with s := regs.s + 1, p := .ofStack memory[slotAddress (regs.s + 1)] }, memory)
  | .add => (regs.add op.value, memory)
  | .subtract => (regs.subtract op.value, memory)
  | .compare left => (regs.compare (regs.get left) op.value, memory)
  | .combine logic => (regs.load .a (logic.apply regs.a op.value), memory)
  | .bitTest => (regs.bitTest op.value, memory)
  | .adjust delta =>
    (regs.setStatus (regs.p.delivered (op.value + delta)), memory.set op.target (op.value + delta))
  | .adjustReg reg delta => (regs.load reg (regs.get reg + delta), memory)
  | .shift way =>
    let byte := way.byteOf op.value (regs.p.has Flag.carry)
    ({ regs with
        a := if op.accumulator then byte else regs.a
        p := way.statusOf op.value regs.p },
      if op.accumulator then memory else memory.set op.target byte)
  | .branch mask on =>
    ({ regs with pc := if regs.p.has mask == on then op.target else regs.pc }, memory)
  | .jump => ({ regs with pc := op.target }, memory)
  | .call =>
    ({ regs with s := regs.s - 2, pc := op.target },
      memory.setAll [(slotAddress regs.s, highByte (regs.pc - 1)),
        (slotAddress (regs.s - 1), lowByte (regs.pc - 1))])
  | .leaveCall =>
    ({ regs with
        s := regs.s + 2
        pc := wordOf memory[slotAddress (regs.s + 1)] memory[slotAddress (regs.s + 2)] + 1 }, memory)
  | .leaveInterrupt =>
    ({ regs with
        s := regs.s + 3
        pc := wordOf memory[slotAddress (regs.s + 2)] memory[slotAddress (regs.s + 3)]
        p := .ofStack memory[slotAddress (regs.s + 1)] }, memory)
  | .softwareInterrupt =>
    let pushed := memory.setAll [(slotAddress regs.s, highByte (regs.pc + 1)),
      (slotAddress (regs.s - 1), lowByte (regs.pc + 1)),
      (slotAddress (regs.s - 2), regs.p.pushedByProgram)]
    ({ regs with
        s := regs.s - 3
        p := regs.p.put Flag.interruptDisable true
        pc := wordOf pushed[breakVector] pushed[breakVector + 1] }, pushed)
  | .putFlag mask on => (regs.putFlag mask on, memory)
  | .nothing => (regs, memory)

end Action

namespace Board

variable {m : Mnemonic} {op : Operand} {regs : Registers} {cycles : Nat} {memory : Memory}
  {board after : Board Memory} {step : Step} {extra : Nat}

/-! ### Carrying out -/

/-- The board after an action. -/
def affected (action : Action) (op : Operand) (regs : Registers) (cycles : Nat) (memory : Memory) :
    Board Memory :=
  ⟨⟨(action.effect op regs memory).1, cycles⟩, (action.effect op regs memory).2⟩

theorem shiftOperand_effect {shift : Shift} {u : Unit}
    (h : shiftOperand m op shift (⟨⟨regs, cycles⟩, memory⟩ : Board Memory) = .ok u after) :
    after = affected (.shift shift) op regs cycles memory := by
  obtain ⟨_, mid, hregs, h⟩ := Attempt.bind_eq_ok.mp h
  cases hregs
  obtain ⟨_, mid, hchange, hback⟩ := Attempt.bind_eq_ok.mp h
  cases hchange
  unfold writeBack at hback
  unfold affected Action.effect
  by_cases haccumulator : op.accumulator = true
  · rw [if_pos haccumulator] at hback
    cases hback
    simp only [haccumulator, if_true]
    rfl
  · rw [if_neg haccumulator] at hback
    obtain ⟨a, mid, haddress, hwrite⟩ := Attempt.bind_eq_ok.mp hback
    obtain ⟨ha, rfl⟩ := requireAddress_eq_ok.mp haddress
    cases hwrite
    simp only [haccumulator, Operand.target_of_some ha]
    rfl

/-- **The effect of an action** other than a branch. -/
theorem act_effect {action : Action} (haction : action.branches = false) {u : Unit}
    (h : act m op action (⟨⟨regs, cycles⟩, memory⟩ : Board Memory) = .ok u after) :
    after = affected action op regs cycles memory := by
  cases action with
  | branch => cases haction
  | load | transfer | fromStackPointer | toStackPointer | add | subtract | compare | combine
  | bitTest | adjustReg | putFlag | nothing =>
    cases h
    rfl
  | store | adjust | jump =>
    obtain ⟨a, mid, haddress, h⟩ := Attempt.bind_eq_ok.mp h
    obtain ⟨ha, rfl⟩ := requireAddress_eq_ok.mp haddress
    cases h
    rw [affected, Action.effect, Operand.target_of_some ha]
  | shift shift => exact shiftOperand_effect h
  | pushA | pushStatus =>
    obtain ⟨_, mid, hregs, hpush⟩ := Attempt.bind_eq_ok.mp h
    cases hregs
    obtain ⟨-, bus, hwrite, rfl⟩ := push_eq_ok.mp hpush
    cases hwrite
    rfl
  | pullA | pullStatus =>
    obtain ⟨value, mid, hpull, hchange⟩ := Attempt.bind_eq_ok.mp h
    obtain ⟨-, bus, hread, rfl⟩ := pull_eq_ok.mp hpull
    cases hread
    cases hchange
    rfl
  | call =>
    obtain ⟨-, a, bus₁, bus₂, ha, hwrite₁, hwrite₂, rfl⟩ := call_eq_ok.mp h
    cases hwrite₁
    cases hwrite₂
    rw [affected, Action.effect, Operand.target_of_some ha]
    rfl
  | leaveCall =>
    obtain ⟨-, low, high, bus₁, bus₂, hread₁, hread₂, rfl⟩ := leaveCall_eq_ok.mp h
    cases hread₁
    cases hread₂
    rfl
  | leaveInterrupt =>
    obtain ⟨-, status, low, high, bus₁, bus₂, hread₁, hread₂, hread₃, hcpu⟩ :=
      leaveInterrupt_eq_ok.mp h
    obtain ⟨cpu', memory'⟩ := after
    cases hread₁
    cases hread₂
    cases hread₃
    subst hcpu
    rfl
  | softwareInterrupt =>
    obtain ⟨-, bus₁, bus₂, bus₃, bus₄, low, high, hwrite₁, hwrite₂, hwrite₃, hread₁, hread₂, hcpu⟩ :=
      softwareInterrupt_eq_ok.mp h
    obtain ⟨cpu', memory'⟩ := after
    cases hwrite₁
    cases hwrite₂
    cases hwrite₃
    cases hread₁
    cases hread₂
    subst hcpu
    rfl

/-- A branch jumps, for one more cycle, if its flag has the given value. -/
theorem branch_effect {mask : UInt8} {on : Bool}
    (h : branch m op mask on (⟨⟨regs, cycles⟩, memory⟩ : Board Memory) = .ok extra after) :
    extra = (regs.p.has mask == on).toNat ∧
      after = affected (.branch mask on) op regs cycles memory := by
  obtain ⟨_, mid, hregs, h⟩ := Attempt.bind_eq_ok.mp h
  cases hregs
  unfold affected Action.effect
  by_cases htaken : (regs.p.has mask == on) = true
  · rw [if_pos htaken] at h
    obtain ⟨a, mid, haddress, h⟩ := Attempt.bind_eq_ok.mp h
    obtain ⟨ha, rfl⟩ := requireAddress_eq_ok.mp haddress
    cases h
    simp only [htaken, if_true, Operand.target_of_some ha]
    trivial
  · rw [if_neg htaken] at h
    cases h
    rw [Bool.not_eq_true] at htaken
    simp only [htaken]
    exact ⟨rfl, rfl⟩

/-- **Carrying an instruction out** has the effect of its action. -/
theorem perform_effect
    (h : perform m op (⟨⟨regs, cycles⟩, memory⟩ : Board Memory) = .ok extra after) :
    extra = (m.taken regs.p).toNat ∧ after = affected m.action op regs cycles memory := by
  unfold perform at h
  cases haction : m.action with
  | branch mask on =>
    simp only [haction] at h
    rw [Mnemonic.taken_of_branch haction]
    exact branch_effect h
  | _ =>
    simp only [haction] at h
    obtain ⟨_, mid, hact, hpure⟩ := Attempt.bind_eq_ok.mp h
    cases hpure
    rw [Mnemonic.taken_of_not_branches (by rw [haction]; rfl)]
    exact ⟨rfl, act_effect rfl hact⟩

/-! ### Executing -/

/-- The registers behind the opcode of an instruction. -/
def operandRegs (board : Board Memory) : Registers := (board.opened board.bus).cpu.regs

/-- The operand of an instruction. -/
def operandOf (o : Opcode) (board : Board Memory) : Operand :=
  o.mode.operand o.fetch board.operandRegs board.bus

/-- The registers and the memory that an instruction leaves. -/
def effectOf (o : Opcode) (board : Board Memory) : Registers × Memory :=
  o.mnemonic.action.effect (operandOf o board) (o.mode.behind board.operandRegs) board.bus

/-- **The effect of an instruction**, from the opcode at the program counter. -/
theorem execute_effect (h : execute board = .ok step after) :
    ∃ o ∈ Opcode.all, Opcode.decode board.bus[board.cpu.regs.pc] = some o ∧
      step.cycles = o.cycles + (o.mnemonic.taken board.cpu.regs.p).toNat
        + (o.pagePenalty && o.mode.carries board.operandRegs board.bus).toNat ∧
      after.cpu.regs = (board.effectOf o).1 ∧ after.bus = (board.effectOf o).2 := by
  obtain ⟨byte, bus, o, op, resolved, extra, done, hread, hdecode, hresolve, hperform, rfl, rfl⟩ :=
    execute_eq_ok.mp h
  cases hread
  rw [show board.opened board.bus = ⟨⟨board.operandRegs, board.cpu.cycles⟩, board.bus⟩ from rfl,
    resolve_memory] at hresolve
  cases hresolve
  obtain ⟨rfl, rfl⟩ := perform_effect hperform
  have hbool : ∀ b : Bool, (if b then 1 else 0) = b.toNat := by decide
  exact ⟨o, Opcode.mem_of_decode hdecode, hdecode, congrArg (_ + ·) (hbool _), rfl, rfl⟩

/-- The effect of an instruction whose opcode is known. -/
theorem effect_of_opcode {o : Opcode} (ho : o ∈ Opcode.all)
    (hcode : ∃ bus, Bus.read board.cpu.regs.pc board.bus = .ok o.byte bus)
    (h : execute board = .ok step after) :
    after.cpu.regs = (board.effectOf o).1 ∧ after.bus = (board.effectOf o).2 := by
  obtain ⟨bus, hbyte⟩ := hcode
  obtain ⟨o', -, hdecode, -, heffect⟩ := execute_effect h
  have hsame : board.bus[board.cpu.regs.pc] = o.byte :=
    (EStateM.Result.ok.inj ((Memory.read_eq _ _).symm.trans hbyte)).1
  rw [hsame, Opcode.decode_byte ho] at hdecode
  cases hdecode
  exact heffect

end Board

end NesMachine
