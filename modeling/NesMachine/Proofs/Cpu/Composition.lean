import NesMachine.Proofs.Attempt
import NesMachine.Proofs.Cpu.Frames

/-!
# What actions are composed of

Whatever an instruction does, it does by faults, accesses and changes of the registers, one after the
other; only when all of them are done are the cycles booked.

* `Composed x`: the action is such a sequence, so that a property of sequences needs to be shown only
  of their parts;
* `Alters I x`: the same with changes that keep a property of the status, for the properties that
  instructions cannot lose (`Status.Stable`); so are resolving an operand and carrying an instruction
  out (`alters_resolve`, `alters_perform`), and therefore composed;
* `execute_cycles`, `execute_cycles_bounds`: an instruction that completes adds the cycles of its
  record to the total, which are two to seven;
* `Booked x`: the action is composed but for its end, which books the cycles; so are instructions,
  interrupts and resets (`booked_execute`, `booked_nmi`, `booked_reset`), and what fails has booked
  nothing.
-/

namespace NesMachine

/-- Whether an action is a branch. -/
def Action.branches : Action → Bool
  | .branch _ _ => true
  | _ => false

/-- No instruction takes less than two cycles, and none can come to more than seven. -/
theorem Opcode.cycles_of_decode {byte : UInt8} {o : Opcode} (h : decode byte = some o) :
    2 ≤ o.cycles ∧ o.cycles + o.mnemonic.action.branches.toNat + o.pagePenalty.toNat ≤ 7 :=
  (by decide +kernel : ∀ o ∈ all,
    2 ≤ o.cycles ∧ o.cycles + o.mnemonic.action.branches.toNat + o.pagePenalty.toNat ≤ 7)
    o (mem_of_decode h)

/-- The bits of the status that no flag instruction names. -/
def Flag.unstored : UInt8 := Flag.unused ||| Flag.breakMark

/-- The flag instructions leave those bits alone. -/
theorem Mnemonic.unstored_of_putFlag {m : Mnemonic} {mask : UInt8} {on : Bool}
    (h : m.action = .putFlag mask on) : Flag.unstored &&& mask = 0 := by
  cases m <;> cases h <;> decide

/-- A property of the status that instructions cannot lose: it does not depend on the flags of the
program, and every status from the stack has it. -/
structure Status.Stable (I : Status → Prop) : Prop where
  put : ∀ {p : Status} {mask : UInt8} {on : Bool},
    Flag.unstored &&& mask = 0 → I p → I (p.put mask on)
  ofStack : ∀ value, I (.ofStack value)

theorem Status.stable_true : Stable fun _ => True := ⟨fun _ _ => trivial, fun _ => trivial⟩

namespace Status.Stable

variable {I : Status → Prop} (hI : Stable I) {r : Registers} {value : UInt8}
include hI

theorem delivered {p : Status} (h : I p) : I (p.delivered value) :=
  hI.put (by decide) (hI.put (by decide) h)

theorem putFlag {mask : UInt8} {on : Bool} (hmask : Flag.unstored &&& mask = 0) (h : I r.p) :
    I (r.putFlag mask on).p := hI.put hmask h

theorem load {reg : Reg} (h : I r.p) : I (r.load reg value).p := hI.delivered h

theorem add (h : I r.p) : I (r.add value).p :=
  hI.load (hI.putFlag (by decide) (hI.putFlag (by decide) h))

theorem compare {left : UInt8} (h : I r.p) : I (r.compare left value).p :=
  hI.putFlag (by decide) (hI.putFlag (by decide) (hI.putFlag (by decide) h))

theorem bitTest (h : I r.p) : I (r.bitTest value).p :=
  hI.putFlag (by decide) (hI.putFlag (by decide) (hI.putFlag (by decide) h))

end Status.Stable

namespace Board

variable {β : Type} [Bus β] {α γ : Type} {I : Status → Prop}

/-- The action is put together from faults, accesses and changes of the registers. -/
inductive Composed : {α : Type} → Run β α → Prop
  | pure {α : Type} (a : α) : Composed (Pure.pure a)
  | fault {α : Type} (e : Fault) : Composed (throw e : Run β α)
  | registers : Composed registers
  | change (f : Registers → Registers) : Composed (change f)
  | read (a : UInt16) : Composed (read a)
  | write (a : UInt16) (value : UInt8) : Composed (write a value)
  | bind {α γ : Type} {x : Run β α} {f : α → Run β γ} :
      Composed x → (∀ a, Composed (f a)) → Composed (x >>= f)

/-- The same, with changes of the registers that keep a property of the status. -/
inductive Alters (I : Status → Prop) : {α : Type} → Run β α → Prop
  | pure {α : Type} (a : α) : Alters I (Pure.pure a)
  | fault {α : Type} (e : Fault) : Alters I (throw e : Run β α)
  | registers : Alters I registers
  | change (f : Registers → Registers) : (∀ regs, I regs.p → I (f regs).p) → Alters I (change f)
  | read (a : UInt16) : Alters I (read a)
  | write (a : UInt16) (value : UInt8) : Alters I (write a value)
  | bind {α γ : Type} {x : Run β α} {f : α → Run β γ} :
      Alters I x → (∀ a, Alters I (f a)) → Alters I (x >>= f)

theorem Alters.composed {x : Run β α} (hx : Alters (fun _ => True) x) : Composed x := by
  induction hx with
  | pure a => exact .pure a
  | fault e => exact .fault e
  | registers => exact .registers
  | change f => exact .change f
  | read a => exact .read a
  | write a value => exact .write a value
  | bind _ _ ihx ihf => exact ihx.bind ihf

/-! ### Operands -/

theorem alters_jumpTo (pc : UInt16) : Alters I (jumpTo pc : Run β Unit) := .change _ fun _ h => h

theorem alters_readPair (low high : UInt16) : Alters I (readPair low high : Run β UInt16) :=
  (Alters.read low).bind fun _ => (Alters.read high).bind fun _ => .pure _

theorem alters_fetch : Alters I (fetch : Run β UInt8) := by
  refine Alters.registers.bind fun regs => (Alters.read regs.pc).bind fun _ => ?_
  exact .bind (.change _ fun _ h => h) fun _ => .pure _

theorem alters_fetchWord : Alters I (fetchWord : Run β UInt16) :=
  alters_fetch.bind fun _ => alters_fetch.bind fun _ => .pure _

theorem alters_locate (mode : Mode) (a : UInt16) (crossed : Bool) (kind : Fetch) :
    Alters I (locate mode a crossed kind : Run β Operand) := by
  cases kind with
  | value => exact (Alters.read a).bind fun _ => .pure _
  | addressOnly => exact .pure _

theorem alters_resolveZeroPage (mode : Mode) (index : Registers → UInt8) (kind : Fetch) :
    Alters I (resolveZeroPage mode index kind : Run β Operand) :=
  alters_fetch.bind fun _ => Alters.registers.bind fun _ => alters_locate ..

theorem alters_resolveAbsolute (mode : Mode) (index : Registers → UInt8) (kind : Fetch) :
    Alters I (resolveAbsolute mode index kind : Run β Operand) :=
  alters_fetchWord.bind fun _ => Alters.registers.bind fun _ => alters_locate ..

theorem alters_resolve (mode : Mode) (kind : Fetch) :
    Alters I (resolve mode kind : Run β Operand) := by
  cases mode with
  | implicit => exact .pure _
  | accumulator => exact Alters.registers.bind fun _ => .pure _
  | immediate => exact alters_fetch.bind fun _ => .pure _
  | relative => exact alters_fetch.bind fun _ => Alters.registers.bind fun _ => .pure _
  | zeroPage | zeroPageX | zeroPageY => exact alters_resolveZeroPage ..
  | absolute | absoluteX | absoluteY => exact alters_resolveAbsolute ..
  | indirect =>
    exact alters_fetchWord.bind fun _ => (alters_readPair ..).bind fun _ =>
      alters_locate ..
  | indexedIndirect =>
    exact alters_fetch.bind fun _ => Alters.registers.bind fun _ =>
      (alters_readPair ..).bind fun _ => alters_locate ..
  | indirectIndexed =>
    exact alters_fetch.bind fun _ => (alters_readPair ..).bind fun _ =>
      Alters.registers.bind fun _ => alters_locate ..

/-! ### The stack -/

theorem alters_push (value : UInt8) : Alters I (push value : Run β Unit) := by
  refine Alters.registers.bind fun regs => ?_
  split
  · exact .fault _
  · exact (Alters.write _ _).bind fun _ => .change _ fun _ h => h

theorem alters_pull : Alters I (pull : Run β UInt8) := by
  refine Alters.registers.bind fun regs => ?_
  split
  · exact .fault _
  · exact .bind (.change _ fun _ h => h) fun _ => .read _

theorem alters_pushWord (value : UInt16) : Alters I (pushWord value : Run β Unit) :=
  (alters_push _).bind fun _ => alters_push _

theorem alters_pullWord : Alters I (pullWord : Run β UInt16) :=
  alters_pull.bind fun _ => alters_pull.bind fun _ => .pure _

/-! ### Carrying an instruction out -/

theorem alters_requireAddress (m : Mnemonic) (op : Operand) :
    Alters I (requireAddress m op : Run β UInt16) := by
  unfold requireAddress
  cases op.address with
  | none => exact .fault _
  | some a => exact .pure a

theorem alters_branch (m : Mnemonic) (op : Operand) (mask : UInt8) (on : Bool) :
    Alters I (branch m op mask on : Run β Nat) := by
  refine Alters.registers.bind fun regs => ?_
  split
  · exact (alters_requireAddress m op).bind fun a => (alters_jumpTo a).bind fun _ => .pure 1
  · exact .pure 0

theorem alters_storeReg (m : Mnemonic) (op : Operand) (src : Reg) :
    Alters I (storeReg m op src : Run β Unit) :=
  (alters_requireAddress m op).bind fun _ => Alters.registers.bind fun _ => .write _ _

theorem alters_writeBack (m : Mnemonic) (op : Operand) (value : UInt8) :
    Alters I (writeBack m op value : Run β Unit) := by
  unfold writeBack
  split
  · exact .change _ fun _ h => h
  · exact (alters_requireAddress m op).bind fun _ => .write _ _

theorem alters_shiftOperand (hI : Status.Stable I) (m : Mnemonic) (op : Operand) (shift : Shift) :
    Alters I (shiftOperand m op shift : Run β Unit) := by
  refine Alters.registers.bind fun _ => .bind (.change _ ?_) fun _ => alters_writeBack ..
  exact fun _ h => hI.delivered (hI.put (by decide) h)

theorem alters_adjustMemory (hI : Status.Stable I) (m : Mnemonic) (op : Operand) (delta : UInt8) :
    Alters I (adjustMemory m op delta : Run β Unit) :=
  (alters_requireAddress m op).bind fun _ => (Alters.write _ _).bind fun _ =>
    .change _ fun _ h => hI.delivered h

theorem alters_call (m : Mnemonic) (op : Operand) : Alters I (call m op : Run β Unit) :=
  (alters_requireAddress m op).bind fun target => Alters.registers.bind fun _ =>
    (alters_pushWord _).bind fun _ => alters_jumpTo target

theorem alters_leaveCall : Alters I (leaveCall : Run β Unit) :=
  alters_pullWord.bind fun _ => alters_jumpTo _

theorem alters_leaveInterrupt (hI : Status.Stable I) : Alters I (leaveInterrupt : Run β Unit) := by
  refine alters_pull.bind fun value => .bind (.change _ fun _ _ => hI.ofStack value) fun _ => ?_
  exact alters_pullWord.bind fun pc => alters_jumpTo pc

theorem alters_enterHandler (hI : Status.Stable I) (back : UInt16) (status : Status → UInt8)
    (vector : UInt16) : Alters I (enterHandler back status vector : Run β Unit) := by
  refine (alters_pushWord back).bind fun _ => ?_
  refine Alters.registers.bind fun _ => (alters_push _).bind fun _ => ?_
  refine .bind (.change _ fun _ h => hI.putFlag (by decide) h) fun _ => ?_
  exact (alters_readPair _ _).bind fun pc => alters_jumpTo pc

theorem alters_softwareInterrupt (hI : Status.Stable I) :
    Alters I (softwareInterrupt : Run β Unit) := by
  rw [softwareInterrupt_eq]
  exact Alters.registers.bind fun _ => alters_enterHandler hI _ _ _

theorem alters_act (hI : Status.Stable I) (m : Mnemonic) (op : Operand) {action : Action}
    (hmask : ∀ mask on, action = .putFlag mask on → Flag.unstored &&& mask = 0) :
    Alters I (act m op action : Run β Unit) := by
  cases action with
  | load | transfer | fromStackPointer | combine | adjustReg =>
    dsimp only [act]
    exact .change _ fun _ h => hI.load h
  | toStackPointer =>
    dsimp only [act]
    exact .change _ fun _ h => h
  | add | subtract =>
    dsimp only [act]
    exact .change _ fun _ h => hI.add h
  | compare =>
    dsimp only [act]
    exact .change _ fun _ h => hI.compare h
  | bitTest =>
    dsimp only [act]
    exact .change _ fun _ h => hI.bitTest h
  | putFlag mask on =>
    dsimp only [act]
    exact .change _ fun _ h => hI.putFlag (hmask mask on rfl) h
  | store src => exact alters_storeReg m op src
  | pushA | pushStatus => exact Alters.registers.bind fun _ => alters_push _
  | pullA => exact alters_pull.bind fun _ => .change _ fun _ h => hI.load h
  | pullStatus => exact alters_pull.bind fun value => .change _ fun _ _ => hI.ofStack value
  | adjust delta => exact alters_adjustMemory hI m op delta
  | shift shift => exact alters_shiftOperand hI m op shift
  | branch | nothing => exact .pure ()
  | jump => exact (alters_requireAddress m op).bind fun a => alters_jumpTo a
  | call => exact alters_call m op
  | leaveCall => exact alters_leaveCall
  | leaveInterrupt => exact alters_leaveInterrupt hI
  | softwareInterrupt => exact alters_softwareInterrupt hI

theorem alters_perform (hI : Status.Stable I) (m : Mnemonic) (op : Operand) :
    Alters I (perform m op : Run β Nat) := by
  have hmask := @Mnemonic.unstored_of_putFlag m
  unfold perform
  generalize m.action = action at hmask ⊢
  split
  · exact alters_branch ..
  · exact (alters_act hI m op fun _ _ => hmask).bind fun _ => .pure 0

/-- Resolving an operand is composed. -/
theorem composed_resolve (mode : Mode) (kind : Fetch) :
    Composed (resolve mode kind : Run β Operand) :=
  (alters_resolve mode kind).composed

/-- Carrying an instruction out is composed. -/
theorem composed_perform (m : Mnemonic) (op : Operand) : Composed (perform m op : Run β Nat) :=
  (alters_perform Status.stable_true m op).composed

/-! ### The cycle total -/

/-- The cycle total of the processor. -/
def total (board : Board β) : Nat := board.cpu.cycles

open Attempt

omit [Bus β] in
/-- What the bus does, and even its failing, leaves the processor as it is. -/
theorem cpu_onBus (action : Attempt BusError β α) : Keeps cpu (onBus action) := by
  intro board
  obtain ⟨cpu, bus⟩ := board
  rw [Attempt.after, onBus]
  cases action bus <;> rfl

/-- No part of an action books cycles. -/
theorem Composed.keeps_total {x : Run β α} (hx : Composed x) : Keeps total x := by
  induction hx with
  | pure a => exact keeps_pure a
  | fault e => exact keeps_throw e
  | registers => exact fun _ => rfl
  | change f => exact fun _ => rfl
  | read a => exact fun board => congrArg Cpu.cycles (cpu_onBus _ board)
  | write a value => exact fun board => congrArg Cpu.cycles (cpu_onBus _ board)
  | bind _ _ ihx ihf => exact ihx.bind ihf

/-- An instruction that completes adds the cycles of its record. -/
theorem execute_cycles {board board' : Board β} {step : Step}
    (h : execute board = .ok step board') :
    board'.cpu.cycles = board.cpu.cycles + step.cycles := by
  obtain ⟨byte, bus, o, op, resolved, extra, done, -, -, hresolve, hperform, -, rfl⟩ :=
    execute_eq_ok.mp h
  have hresolved : total resolved = total (board.opened bus) :=
    (composed_resolve o.mode o.fetch).keeps_total.of_ok hresolve
  have hdone : total done = total resolved :=
    (composed_perform o.mnemonic op).keeps_total.of_ok hperform
  show total done + step.cycles = total (board.opened bus) + step.cycles
  rw [hdone, hresolved]

omit [Bus β] in
theorem branch_extra_le {m : Mnemonic} {op : Operand} {mask : UInt8} {on : Bool} {extra : Nat}
    {board board' : Board β} (h : branch m op mask on board = .ok extra board') : extra ≤ 1 := by
  obtain ⟨regs, mid, -, h⟩ := Attempt.bind_eq_ok.mp h
  split at h
  · obtain ⟨a, mid, -, h⟩ := Attempt.bind_eq_ok.mp h
    obtain ⟨_, mid, -, hpure⟩ := Attempt.bind_eq_ok.mp h
    obtain ⟨rfl, -⟩ := Attempt.pure_eq_ok.mp hpure
    exact Nat.le_refl 1
  · obtain ⟨rfl, -⟩ := Attempt.pure_eq_ok.mp h
    exact Nat.zero_le 1

theorem perform_extra_le {m : Mnemonic} {op : Operand} {extra : Nat} {board board' : Board β}
    (h : perform m op board = .ok extra board') : extra ≤ m.action.branches.toNat := by
  obtain ⟨mask, on, haction, hbranch⟩ | ⟨rfl, -⟩ := perform_ok h
  · rw [haction]
    exact branch_extra_le hbranch
  · exact Nat.zero_le _

/-- **The cycles of an instruction** lie between two and seven. -/
theorem execute_cycles_bounds {board board' : Board β} {step : Step}
    (h : execute board = .ok step board') : 2 ≤ step.cycles ∧ step.cycles ≤ 7 := by
  obtain ⟨byte, bus, o, op, resolved, extra, done, -, hdecode, -, hperform, rfl, -⟩ :=
    execute_eq_ok.mp h
  obtain ⟨hleast, hmost⟩ := Opcode.cycles_of_decode hdecode
  have hextra := perform_extra_le hperform
  have hpenalty : (if o.pagePenalty && op.pageCrossed then 1 else 0) ≤ o.pagePenalty.toNat := by
    cases o.pagePenalty <;> cases op.pageCrossed <;> decide
  dsimp only
  omega

/-! ### Booking the cycles -/

/-- The action is composed up to its last part, which books cycles and cannot fail. -/
inductive Booked : {α : Type} → Run β α → Prop
  | composed {α : Type} {x : Run β α} : Composed x → Booked x
  | books {α : Type} {x : Run β α} (a : α) (count : Nat) :
      (∀ board, x board = .ok a ⟨⟨board.cpu.regs, board.cpu.cycles + count⟩, board.bus⟩) → Booked x
  | after {α γ : Type} {x : Run β α} {f : α → Run β γ} :
      Composed x → (∀ a, Booked (f a)) → Booked (x >>= f)

theorem booked_spend (count : Nat) : Booked (spend count : Run β Unit) :=
  .books () count fun _ => rfl

theorem booked_execute : Booked (execute : Run β Step) := by
  refine .after .registers fun regs => .after (.read regs.pc) fun byte => ?_
  cases Opcode.decode byte with
  | none => exact .composed (.fault _)
  | some o =>
    refine .after (.change _) fun _ => ?_
    refine .after (composed_resolve o.mode o.fetch) fun op => ?_
    refine .after (composed_perform o.mnemonic op) fun extra => ?_
    exact .books _ _ fun _ => rfl

theorem booked_nmi : Booked (nmi : Run β Unit) := by
  rw [nmi_eq]
  refine .after .registers fun _ => ?_
  exact .after (alters_enterHandler Status.stable_true _ _ _).composed fun _ => booked_spend _

theorem booked_reset : Booked (reset : Run β Unit) := by
  refine .after (.change _) fun _ => .after (alters_readPair _ _).composed fun pc => ?_
  exact .after (.change _) fun _ => booked_spend _

/-- What fails has booked nothing. -/
theorem Booked.spares_total {x : Run β α} (hx : Booked x) : Spares total x := by
  induction hx with
  | composed hx => exact hx.keeps_total.spares
  | books a count hbooks =>
    intro board e herror
    rw [outcome, hbooks] at herror
    cases herror
  | after hx _ ih => exact hx.keeps_total.bind_spares ih

end Board

end NesMachine
