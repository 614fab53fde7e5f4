import NesMachine.Bus.Memory
import NesMachine.Proofs.Cpu.Effects
import NesMachine.Proofs.Cpu.Faults

/-!
# Operands without an address

The table of opcodes gives every instruction an operand that suits it.  An operand made by hand need
not suit: it may lack the address that the instruction works on, and then the instruction faults.

* `Mnemonic.needsAddress`: the instructions that work on an address;
* `Board.NeverLacks`: an action that never faults for want of an address, closed under sequencing;
* `Board.abandoned`: the board that the fault leaves.  Stores, counting in memory, jumps, calls and
  branches look for the address before they change anything.  Shifts set their flags first, and only
  writing the result back asks for the address;
* `Board.perform_missing_iff`: the fault, for every instruction, operand, processor and bus.
-/

namespace NesMachine

/-- Whether an instruction works on the effective address of an operand, at a status. -/
def Mnemonic.needsAddress (m : Mnemonic) (op : Operand) (p : Status) : Bool :=
  match m with
  | .sta | .stx | .sty | .inc | .dec | .jmp | .jsr => true
  | .asl | .lsr | .rol | .ror => !op.accumulator
  | .bcc | .bcs | .bne | .beq | .bpl | .bmi | .bvc | .bvs => m.taken p
  | _ => false

/-- Whether a fault says that an operand has no address. -/
def Fault.lacksAddress : Fault → Bool
  | .missingEffectiveAddress _ _ => true
  | _ => false

namespace Board

variable {β : Type} {α γ : Type}

/-! ### Actions that never lack an address -/

/-- The action never faults for want of an address. -/
def NeverLacks (x : Run β α) : Prop :=
  ∀ board fault left, x board = .error fault left → fault.lacksAddress = false

theorem neverLacks_pure (a : α) : NeverLacks (pure a : Run β α) := by
  intro board fault left h
  cases h

theorem neverLacks_throw {fault : Fault} (h : fault.lacksAddress = false) :
    NeverLacks (throw fault : Run β α) := by
  intro board _ left hthrow
  cases hthrow
  exact h

theorem neverLacks_registers : NeverLacks (registers : Run β Registers) := by
  intro board fault left h
  cases h

theorem neverLacks_change (f : Registers → Registers) : NeverLacks (change f : Run β Unit) := by
  intro board fault left h
  cases h

theorem neverLacks_onBus (action : Attempt BusError β α) : NeverLacks (onBus action) := by
  intro board fault left h
  obtain ⟨cpu, bus⟩ := board
  rw [onBus] at h
  cases hresult : action bus with
  | ok a bus' =>
    rw [hresult] at h
    cases h
  | error e bus' =>
    rw [hresult] at h
    cases h
    rfl

theorem NeverLacks.bind {x : Run β α} {f : α → Run β γ} (hx : NeverLacks x)
    (hf : ∀ a, NeverLacks (f a)) : NeverLacks (x >>= f) := by
  intro board fault left h
  rw [Attempt.bind_apply] at h
  split at h
  · exact hf _ _ _ _ h
  · rename_i hfirst
    cases h
    exact hx _ _ _ hfirst

variable [Bus β]

theorem neverLacks_read (a : UInt16) : NeverLacks (read a : Run β UInt8) := neverLacks_onBus _

theorem neverLacks_write (a : UInt16) (value : UInt8) : NeverLacks (write a value : Run β Unit) :=
  neverLacks_onBus _

theorem neverLacks_readPair (low high : UInt16) : NeverLacks (readPair low high : Run β UInt16) :=
  (neverLacks_read low).bind fun _ => (neverLacks_read high).bind fun _ => neverLacks_pure _

theorem neverLacks_push (value : UInt8) : NeverLacks (push value : Run β Unit) := by
  refine neverLacks_registers.bind fun regs => ?_
  split
  · exact neverLacks_throw rfl
  · exact (neverLacks_write _ _).bind fun _ => neverLacks_change _

theorem neverLacks_pull : NeverLacks (pull : Run β UInt8) := by
  refine neverLacks_registers.bind fun regs => ?_
  split
  · exact neverLacks_throw rfl
  · exact (neverLacks_change _).bind fun _ => neverLacks_read _

theorem neverLacks_pushWord (value : UInt16) : NeverLacks (pushWord value : Run β Unit) :=
  (neverLacks_push _).bind fun _ => neverLacks_push _

theorem neverLacks_pullWord : NeverLacks (pullWord : Run β UInt16) :=
  neverLacks_pull.bind fun _ => neverLacks_pull.bind fun _ => neverLacks_pure _

theorem neverLacks_softwareInterrupt : NeverLacks (softwareInterrupt : Run β Unit) := by
  refine neverLacks_registers.bind fun regs => (neverLacks_pushWord _).bind fun _ => ?_
  refine neverLacks_registers.bind fun regs => (neverLacks_push _).bind fun _ => ?_
  refine (neverLacks_change _).bind fun _ => ?_
  exact (neverLacks_readPair _ _).bind fun pc => neverLacks_change _

theorem neverLacks_leaveInterrupt : NeverLacks (leaveInterrupt : Run β Unit) :=
  neverLacks_pull.bind fun _ => (neverLacks_change _).bind fun _ =>
    neverLacks_pullWord.bind fun _ => neverLacks_change _

/-! ### Operands that suit -/

variable {m : Mnemonic} {op : Operand} {a : UInt16}

theorem neverLacks_storeReg (h : op.address = some a) (src : Reg) :
    NeverLacks (storeReg m op src : Run β Unit) := by
  rw [storeReg, requireAddress_of_some h, pure_bind]
  exact neverLacks_registers.bind fun _ => neverLacks_write _ _

theorem neverLacks_adjustMemory (h : op.address = some a) (delta : UInt8) :
    NeverLacks (adjustMemory m op delta : Run β Unit) := by
  rw [adjustMemory, requireAddress_of_some h, pure_bind]
  exact (neverLacks_write _ _).bind fun _ => neverLacks_change _

theorem neverLacks_call (h : op.address = some a) : NeverLacks (call m op : Run β Unit) := by
  rw [call, requireAddress_of_some h, pure_bind]
  exact neverLacks_registers.bind fun _ => (neverLacks_pushWord _).bind fun _ =>
    neverLacks_change _

theorem neverLacks_shiftOperand (h : (op.accumulator || op.address.isSome) = true)
    (shift : Shift) : NeverLacks (shiftOperand m op shift : Run β Unit) := by
  refine neverLacks_registers.bind fun regs => (neverLacks_change _).bind fun _ => ?_
  rw [writeBack]
  by_cases haccumulator : op.accumulator = true
  · rw [if_pos haccumulator]
    exact neverLacks_change _
  · rw [if_neg haccumulator]
    rw [Bool.not_eq_true] at haccumulator
    rw [haccumulator, Bool.false_or] at h
    obtain ⟨a, ha⟩ := Option.isSome_iff_exists.mp h
    rw [requireAddress_of_some ha, pure_bind]
    exact neverLacks_write a _

/-- An action never lacks an address on an operand that suits it. -/
theorem neverLacks_act {action : Action}
    (h : action.accepts op.address.isSome op.accumulator = true) :
    NeverLacks (act m op action : Run β Unit) := by
  cases action with
  | load | transfer | fromStackPointer | toStackPointer | add | subtract | compare | combine
  | bitTest | adjustReg | putFlag =>
    dsimp only [act]
    exact neverLacks_change _
  | branch | nothing => exact neverLacks_pure ()
  | store src =>
    obtain ⟨a, ha⟩ := Option.isSome_iff_exists.mp h
    exact neverLacks_storeReg ha src
  | adjust delta =>
    obtain ⟨a, ha⟩ := Option.isSome_iff_exists.mp h
    exact neverLacks_adjustMemory ha delta
  | jump =>
    obtain ⟨a, ha⟩ := Option.isSome_iff_exists.mp h
    show NeverLacks (requireAddress m op >>= jumpTo)
    rw [requireAddress_of_some ha, pure_bind]
    exact neverLacks_change _
  | call =>
    obtain ⟨a, ha⟩ := Option.isSome_iff_exists.mp h
    exact neverLacks_call ha
  | shift shift => exact neverLacks_shiftOperand h shift
  | pushA | pushStatus => exact neverLacks_registers.bind fun _ => neverLacks_push _
  | pullA | pullStatus => exact neverLacks_pull.bind fun _ => neverLacks_change _
  | leaveCall => exact neverLacks_pullWord.bind fun _ => neverLacks_change _
  | leaveInterrupt => exact neverLacks_leaveInterrupt
  | softwareInterrupt => exact neverLacks_softwareInterrupt

omit [Bus β] in
theorem neverLacks_branch (h : op.address = some a) (mask : UInt8) (on : Bool) :
    NeverLacks (branch m op mask on : Run β Nat) := by
  rw [branch, requireAddress_of_some h]
  refine neverLacks_registers.bind fun regs => ?_
  split
  · rw [pure_bind]
    exact (neverLacks_change _).bind fun _ => neverLacks_pure _
  · exact neverLacks_pure _

theorem neverLacks_perform (h : m.action.accepts op.address.isSome op.accumulator = true) :
    NeverLacks (perform m op : Run β Nat) := by
  unfold perform
  generalize m.action = action at h
  split
  · obtain ⟨a, ha⟩ := Option.isSome_iff_exists.mp h
    exact neverLacks_branch ha _ _
  · exact (neverLacks_act h).bind fun _ => neverLacks_pure _

/-! ### Operands that do not suit -/

variable {board : Board β}

/-- What an instruction leaves that faults for want of an address: the board as it was, with the
flags of the result if the instruction is a shift. -/
def abandoned (m : Mnemonic) (op : Operand) (board : Board β) : Board β :=
  match m.action with
  | .shift way =>
    ⟨⟨board.cpu.regs.setStatus (way.statusOf op.value board.cpu.regs.p), board.cpu.cycles⟩,
      board.bus⟩
  | _ => board

omit [Bus β] in
theorem requireAddress_of_none (m : Mnemonic) (h : op.address = none) (board : Board β) :
    requireAddress m op board = .error (.missingEffectiveAddress m op.mode) board := by
  rw [requireAddress, h]
  rfl

theorem storeReg_of_none (h : op.address = none) (src : Reg) :
    storeReg m op src board = .error (.missingEffectiveAddress m op.mode) board := by
  rw [storeReg, Attempt.bind_apply, requireAddress_of_none m h]

theorem adjustMemory_of_none (h : op.address = none) (delta : UInt8) :
    adjustMemory m op delta board = .error (.missingEffectiveAddress m op.mode) board := by
  rw [adjustMemory, Attempt.bind_apply, requireAddress_of_none m h]

theorem call_of_none (h : op.address = none) :
    call m op board = .error (.missingEffectiveAddress m op.mode) board := by
  rw [call, Attempt.bind_apply, requireAddress_of_none m h]

/-- A shift has set its flags when it finds no address to write to. -/
theorem shiftOperand_of_none (h : op.address = none) (haccumulator : op.accumulator = false)
    (shift : Shift) :
    shiftOperand m op shift board = .error (.missingEffectiveAddress m op.mode)
      ⟨⟨board.cpu.regs.setStatus (shift.statusOf op.value board.cpu.regs.p), board.cpu.cycles⟩,
        board.bus⟩ := by
  obtain ⟨cpu, bus⟩ := board
  rw [shiftOperand, Attempt.bind_apply, registers_apply]
  dsimp only
  rw [Attempt.bind_apply, change_apply]
  simp only [writeBack, haccumulator, Bool.false_eq_true, if_false]
  rw [Attempt.bind_apply, requireAddress_of_none m h]
  rfl

/-- A branch asks for its target when it is taken. -/
theorem perform_taken_of_none {mask : UInt8} {on : Bool} (haction : m.action = .branch mask on)
    (h : op.address = none) (htaken : m.taken board.cpu.regs.p = true) :
    perform m op board = .error (.missingEffectiveAddress m op.mode) (abandoned m op board) := by
  rw [Mnemonic.taken_of_branch haction] at htaken
  simp only [perform, abandoned, haction]
  rw [branch, Attempt.bind_apply, registers_apply]
  simp only [htaken, if_true]
  rw [Attempt.bind_apply, requireAddress_of_none m h]

/-- A branch that is not taken does nothing. -/
theorem perform_not_taken {mask : UInt8} {on : Bool} (haction : m.action = .branch mask on)
    (htaken : m.taken board.cpu.regs.p = false) : perform m op board = .ok 0 board := by
  rw [Mnemonic.taken_of_branch haction] at htaken
  simp only [perform, haction]
  rw [branch, Attempt.bind_apply, registers_apply]
  simp only [htaken, Bool.false_eq_true, if_false, Attempt.pure_apply]

/-- Where an instruction is no branch, a fault of its action is its own. -/
theorem perform_of_act_error {fault : Fault} {left : Board β}
    (hbranch : ∀ mask on, m.action ≠ .branch mask on)
    (hact : act m op m.action board = .error fault left) :
    perform m op board = .error fault left := by
  unfold perform
  generalize m.action = action at hbranch hact
  split
  · exact absurd rfl (hbranch _ _)
  · rw [Attempt.bind_apply, hact]

/-- An instruction that works on an address faults when its operand has none. -/
theorem perform_of_missing (h : op.address = none)
    (hneeds : m.needsAddress op board.cpu.regs.p = true) :
    perform m op board = .error (.missingEffectiveAddress m op.mode) (abandoned m op board) := by
  cases m with
  | sta | stx | sty => exact perform_of_act_error nofun (storeReg_of_none h _)
  | inc | dec => exact perform_of_act_error nofun (adjustMemory_of_none h _)
  | jmp =>
    refine perform_of_act_error nofun ?_
    show (requireAddress .jmp op >>= jumpTo) board = _
    rw [Attempt.bind_apply, requireAddress_of_none _ h]
    rfl
  | jsr => exact perform_of_act_error nofun (call_of_none h)
  | asl | lsr | rol | ror =>
    have haccumulator : op.accumulator = false := by simpa [Mnemonic.needsAddress] using hneeds
    exact perform_of_act_error nofun (shiftOperand_of_none h haccumulator _)
  | bcc | bcs | bne | beq | bpl | bmi | bvc | bvs =>
    exact perform_taken_of_none rfl h hneeds
  | _ => cases hneeds

/-- Where no address is needed, none is missed. -/
theorem perform_not_lacking (h : ¬ (op.address = none ∧ m.needsAddress op board.cpu.regs.p = true))
    {fault : Fault} {left : Board β} (herror : perform m op board = .error fault left) :
    fault.lacksAddress = false := by
  by_cases haccepts : m.action.accepts op.address.isSome op.accumulator = true
  · exact neverLacks_perform haccepts board fault left herror
  · -- the address is missing and not needed: a branch that is not taken
    have hbranch {mask : UInt8} {on : Bool} (haction : m.action = .branch mask on)
        (hneeds : m.needsAddress op board.cpu.regs.p = m.taken board.cpu.regs.p)
        (haddress : op.address = none) : fault.lacksAddress = false := by
      have htaken : m.taken board.cpu.regs.p = false := by
        rw [← hneeds, ← Bool.not_eq_true]
        exact fun hneeded => h ⟨haddress, hneeded⟩
      rw [perform_not_taken haction htaken] at herror
      cases herror
    have haddress : op.address = none := by
      rw [← Option.not_isSome_iff_eq_none]
      intro hsome
      rw [hsome] at haccepts
      exact haccepts (by cases m <;> simp [Mnemonic.action, Action.accepts])
    rw [haddress] at haccepts
    cases m with
    | bcc | bcs | bne | beq | bpl | bmi | bvc | bvs => exact hbranch rfl rfl haddress
    | sta | stx | sty | inc | dec | jmp | jsr => exact absurd ⟨haddress, rfl⟩ h
    | asl | lsr | rol | ror =>
      have hneeds : op.accumulator = false := by simpa [Mnemonic.action, Action.accepts] using haccepts
      exact absurd ⟨haddress, by simp [Mnemonic.needsAddress, hneeds]⟩ h
    | _ => exact absurd rfl haccepts

/-- **Instructions that lack an address.**  An instruction faults for want of an address exactly if
it works on one and its operand has none; the fault names the instruction and the mode of the
operand.  No access has been made to the bus then, and of the processor only the flags of a shift
have changed. -/
theorem perform_missing_iff (m wanting : Mnemonic) (op : Operand) (mode : Mode)
    (board left : Board β) :
    perform m op board = .error (.missingEffectiveAddress wanting mode) left ↔
      (op.address = none ∧ m.needsAddress op board.cpu.regs.p = true) ∧
        wanting = m ∧ mode = op.mode ∧ left = abandoned m op board := by
  by_cases hmissing : op.address = none ∧ m.needsAddress op board.cpu.regs.p = true
  · rw [perform_of_missing hmissing.1 hmissing.2, EStateM.Result.error.injEq,
      Fault.missingEffectiveAddress.injEq]
    refine ⟨?_, ?_⟩
    · intro h
      obtain ⟨⟨rfl, rfl⟩, rfl⟩ := h
      exact ⟨hmissing, rfl, rfl, rfl⟩
    · intro h
      obtain ⟨-, rfl, rfl, rfl⟩ := h
      exact ⟨⟨rfl, rfl⟩, rfl⟩
  · refine ⟨?_, ?_⟩
    · intro herror
      cases perform_not_lacking hmissing herror
    · intro h
      exact absurd h.1 hmissing

/-- A shift of `$80` without an address has already set carry and zero. -/
theorem asl_flags_before_address :
    ∃ left, perform .asl (.bare .absolute 0x80) ⟨Cpu.powerOn, Memory.zeros⟩ =
        .error (.missingEffectiveAddress .asl .absolute) left ∧
      Cpu.powerOn.regs.p.byte = 0x20 ∧ left.cpu.regs.p.byte = 0x23 :=
  ⟨_, rfl, rfl, rfl⟩

end Board

end NesMachine
