import Mathlib.Logic.Relation
import NesMachine.Cpu.Execute

/-!
# What an instruction can write

On any bus, an instruction gets from one state of the bus to another by single accesses.  Reads
may be anywhere; this file bounds the writes:

* `Reaches W bus bus'`: the second state comes from the first by reads and by writes at addresses
  in `W`; `Reaches.keeps` is the way to carry an invariant of the bus across it;
* `OnlyReads`: what resolving an operand does, which moves the program counter and reads;
* `execute_reaches`: an instruction writes at most at the stack slots from the stack pointer down
  and, if it is a store or a read-modify-write instruction, at its effective address.

Nothing is said about the values, so that the bus may have devices that react to an access.
-/

namespace NesMachine

/-- Whether an action writes at the effective address. -/
def Action.stores : Action → Bool
  | .store _ | .adjust _ | .shift _ => true
  | _ => false

namespace Board

variable {β : Type} [Bus β] {α γ : Type} {V W : UInt16 → Prop} {bus bus' : β}
  {board board' : Board β}

/-! ### Accesses -/

/-- One read, or one write at an allowed address. -/
inductive Accesses (W : UInt16 → Prop) : β → β → Prop
  | read {a : UInt16} {value : UInt8} {bus bus' : β} :
      Bus.read a bus = .ok value bus' → Accesses W bus bus'
  | write {a : UInt16} {value : UInt8} {bus bus' : β} :
      W a → Bus.write a value bus = .ok () bus' → Accesses W bus bus'

/-- The second state of the bus comes from the first by reads and by allowed writes. -/
def Reaches (W : UInt16 → Prop) : β → β → Prop := Relation.ReflTransGen (Accesses W)

theorem Reaches.mono (hVW : ∀ a, V a → W a) (h : Reaches V bus bus') : Reaches W bus bus' := by
  refine Relation.ReflTransGen.mono (fun bus bus' haccess => ?_) _ _ h
  cases haccess with
  | read hread => exact .read hread
  | write ha hwrite => exact .write (hVW _ ha) hwrite

/-- An invariant that all reads and the allowed writes keep. -/
theorem Reaches.keeps {I : β → Prop}
    (hread : ∀ a value bus bus', I bus → Bus.read a bus = .ok value bus' → I bus')
    (hwrite : ∀ a value bus bus', W a → I bus → Bus.write a value bus = .ok () bus' → I bus')
    (h : Reaches W bus bus') (hI : I bus) : I bus' := by
  induction h with
  | refl => exact hI
  | tail _ haccess ih =>
    cases haccess with
    | read hok => exact hread _ _ _ _ ih hok
    | write ha hok => exact hwrite _ _ _ _ ha ih hok

theorem read_reaches {a : UInt16} {value : UInt8} (h : read a board = .ok value board') :
    Reaches W board.bus board'.bus := by
  obtain ⟨bus, hread, rfl⟩ := onBus_eq_ok.mp h
  exact .single (.read hread)

theorem write_reaches {a : UInt16} {value : UInt8} {u : Unit} (ha : W a)
    (h : write a value board = .ok u board') : Reaches W board.bus board'.bus := by
  obtain ⟨bus, hwrite, rfl⟩ := onBus_eq_ok.mp h
  exact .single (.write ha hwrite)

/-! ### Resolving an operand -/

/-- Where it succeeds, the action moves at most the program counter, and it only reads. -/
structure OnlyReads (x : Run β α) : Prop where
  cpu_eq : ∀ {board board' : Board β} {a : α}, x board = .ok a board' →
    ∃ pc, board'.cpu = ⟨{ board.cpu.regs with pc := pc }, board.cpu.cycles⟩
  reaches : ∀ {board board' : Board β} {a : α}, x board = .ok a board' →
    Reaches (fun _ => False) board.bus board'.bus

theorem OnlyReads.pure (a : α) : OnlyReads (Pure.pure a : Run β α) := by
  constructor
  · intro board board' b h
    obtain ⟨-, rfl⟩ := Attempt.pure_eq_ok.mp h
    exact ⟨board.cpu.regs.pc, rfl⟩
  · intro board board' b h
    obtain ⟨-, rfl⟩ := Attempt.pure_eq_ok.mp h
    exact .refl

theorem OnlyReads.bind {x : Run β α} {f : α → Run β γ} (hx : OnlyReads x)
    (hf : ∀ a, OnlyReads (f a)) : OnlyReads (x >>= f) := by
  constructor
  · intro board board' c h
    obtain ⟨a, mid, hxok, hfok⟩ := Attempt.bind_eq_ok.mp h
    obtain ⟨pc, hcpu⟩ := hx.cpu_eq hxok
    obtain ⟨pc', hcpu'⟩ := (hf a).cpu_eq hfok
    refine ⟨pc', ?_⟩
    rw [hcpu', hcpu]
  · intro board board' c h
    obtain ⟨a, mid, hxok, hfok⟩ := Attempt.bind_eq_ok.mp h
    exact (hx.reaches hxok).trans ((hf a).reaches hfok)

/-- A step of the processor alone that moves at most the program counter. -/
theorem OnlyReads.of_eq {x : Run β α} {f : Board β → α} {pc : Board β → UInt16}
    (hx : ∀ board, x board =
      .ok (f board) ⟨⟨{ board.cpu.regs with pc := pc board }, board.cpu.cycles⟩, board.bus⟩) :
    OnlyReads x := by
  constructor
  · intro board board' a h
    rw [hx] at h
    cases h
    exact ⟨pc board, rfl⟩
  · intro board board' a h
    rw [hx] at h
    cases h
    exact .refl

theorem onlyReads_registers : OnlyReads (registers : Run β Registers) :=
  .of_eq fun _ => rfl

theorem onlyReads_read (a : UInt16) : OnlyReads (read a : Run β UInt8) := by
  constructor
  · intro board board' value h
    obtain ⟨bus, -, rfl⟩ := onBus_eq_ok.mp h
    exact ⟨board.cpu.regs.pc, rfl⟩
  · intro board board' value h
    exact read_reaches h

theorem onlyReads_fetch : OnlyReads (fetch : Run β UInt8) := by
  refine onlyReads_registers.bind fun regs => (onlyReads_read regs.pc).bind fun value => ?_
  refine OnlyReads.bind ?_ fun _ => .pure value
  exact .of_eq fun _ => rfl

theorem onlyReads_fetchWord : OnlyReads (fetchWord : Run β UInt16) :=
  onlyReads_fetch.bind fun _ => onlyReads_fetch.bind fun _ => .pure _

theorem onlyReads_readPair (low high : UInt16) : OnlyReads (readPair low high : Run β UInt16) :=
  (onlyReads_read low).bind fun _ => (onlyReads_read high).bind fun _ => .pure _

theorem onlyReads_locate (mode : Mode) (a : UInt16) (crossed : Bool) (kind : Fetch) :
    OnlyReads (locate mode a crossed kind : Run β Operand) := by
  cases kind with
  | value => exact (onlyReads_read a).bind fun _ => .pure _
  | addressOnly => exact .pure _

theorem onlyReads_resolveZeroPage (mode : Mode) (index : Registers → UInt8) (kind : Fetch) :
    OnlyReads (resolveZeroPage mode index kind : Run β Operand) :=
  onlyReads_fetch.bind fun _ => onlyReads_registers.bind fun _ => onlyReads_locate ..

theorem onlyReads_resolveAbsolute (mode : Mode) (index : Registers → UInt8) (kind : Fetch) :
    OnlyReads (resolveAbsolute mode index kind : Run β Operand) :=
  onlyReads_fetchWord.bind fun _ => onlyReads_registers.bind fun _ => onlyReads_locate ..

theorem onlyReads_resolve (mode : Mode) (kind : Fetch) :
    OnlyReads (resolve mode kind : Run β Operand) := by
  cases mode with
  | implicit => exact .pure _
  | accumulator => exact onlyReads_registers.bind fun _ => .pure _
  | immediate => exact onlyReads_fetch.bind fun _ => .pure _
  | relative => exact onlyReads_fetch.bind fun _ => onlyReads_registers.bind fun _ => .pure _
  | zeroPage | zeroPageX | zeroPageY => exact onlyReads_resolveZeroPage ..
  | absolute | absoluteX | absoluteY => exact onlyReads_resolveAbsolute ..
  | indirect =>
    exact onlyReads_fetchWord.bind fun _ => (onlyReads_readPair ..).bind fun _ =>
      onlyReads_locate ..
  | indexedIndirect =>
    exact onlyReads_fetch.bind fun _ => onlyReads_registers.bind fun _ =>
      (onlyReads_readPair ..).bind fun _ => onlyReads_locate ..
  | indirectIndexed =>
    exact onlyReads_fetch.bind fun _ => (onlyReads_readPair ..).bind fun _ =>
      onlyReads_registers.bind fun _ => onlyReads_locate ..

/-! ### The stack -/

/-- The stack slots from the stack pointer down. -/
def StackSlot (regs : Registers) (a : UInt16) : Prop :=
  ∃ slot : UInt8, slot.toNat ≤ regs.s.toNat ∧ a = wordOf slot 1

/-- Where it succeeds, the action does not raise the stack pointer, and it writes only at the
stack slots from there down. -/
structure Descends (x : Run β α) : Prop where
  s_le : ∀ {board board' : Board β} {a : α}, x board = .ok a board' →
    board'.cpu.regs.s.toNat ≤ board.cpu.regs.s.toNat
  reaches : ∀ {board board' : Board β} {a : α}, x board = .ok a board' →
    Reaches (StackSlot board.cpu.regs) board.bus board'.bus

theorem OnlyReads.descends {x : Run β α} (hx : OnlyReads x) : Descends x := by
  constructor
  · intro board board' a h
    obtain ⟨pc, hcpu⟩ := hx.cpu_eq h
    exact Nat.le_of_eq (by rw [hcpu])
  · intro board board' a h
    exact (hx.reaches h).mono fun _ hfalse => hfalse.elim

theorem Descends.bind {x : Run β α} {f : α → Run β γ} (hx : Descends x)
    (hf : ∀ a, Descends (f a)) : Descends (x >>= f) := by
  constructor
  · intro board board' c h
    obtain ⟨a, mid, hxok, hfok⟩ := Attempt.bind_eq_ok.mp h
    exact Nat.le_trans ((hf a).s_le hfok) (hx.s_le hxok)
  · intro board board' c h
    obtain ⟨a, mid, hxok, hfok⟩ := Attempt.bind_eq_ok.mp h
    refine (hx.reaches hxok).trans (((hf a).reaches hfok).mono ?_)
    intro a hslotAddress
    obtain ⟨slot, hslot, rfl⟩ := hslotAddress
    exact ⟨slot, Nat.le_trans hslot (hx.s_le hxok), rfl⟩

theorem descends_push (value : UInt8) : Descends (push value : Run β Unit) := by
  constructor
  · intro board board' u h
    obtain ⟨hs, bus, -, rfl⟩ := push_eq_ok.mp h
    have hpred := toNat_pred hs
    show (board.cpu.regs.s - 1).toNat ≤ board.cpu.regs.s.toNat
    omega
  · intro board board' u h
    obtain ⟨-, bus, hwrite, rfl⟩ := push_eq_ok.mp h
    exact .single (.write ⟨board.cpu.regs.s, Nat.le_refl _, rfl⟩ hwrite)

theorem descends_pushWord (value : UInt16) : Descends (pushWord value : Run β Unit) :=
  (descends_push _).bind fun _ => descends_push _

theorem descends_change {f : Registers → Registers} (hf : ∀ regs, (f regs).s = regs.s) :
    Descends (change f : Run β Unit) := by
  constructor
  · intro board board' u h
    cases h
    exact Nat.le_of_eq (congrArg UInt8.toNat (hf board.cpu.regs))
  · intro board board' u h
    cases h
    exact .refl

/-! ### Carrying out an instruction -/

/-- Where it succeeds, the action writes at most at the allowed addresses. -/
def WritesAt (W : UInt16 → Prop) (x : Run β α) : Prop :=
  ∀ (board board' : Board β) (a : α), x board = .ok a board' → Reaches W board.bus board'.bus

theorem WritesAt.bind {x : Run β α} {f : α → Run β γ} (hx : WritesAt W x)
    (hf : ∀ a, WritesAt W (f a)) : WritesAt W (x >>= f) := by
  intro board board' c h
  obtain ⟨a, mid, hxok, hfok⟩ := Attempt.bind_eq_ok.mp h
  exact (hx _ _ _ hxok).trans (hf a _ _ _ hfok)

theorem OnlyReads.writesAt {x : Run β α} (hx : OnlyReads x) : WritesAt W x := by
  intro board board' a h
  exact (hx.reaches h).mono fun _ hfalse => hfalse.elim

theorem writesAt_change (f : Registers → Registers) : WritesAt W (change f : Run β Unit) := by
  intro board board' u h
  cases h
  exact .refl

theorem writesAt_pull : WritesAt W (pull : Run β UInt8) := by
  intro board board' value h
  obtain ⟨-, bus, hread, rfl⟩ := pull_eq_ok.mp h
  exact .single (.read hread)

theorem writesAt_pullWord : WritesAt W (pullWord : Run β UInt16) :=
  writesAt_pull.bind fun _ => writesAt_pull.bind fun _ => (OnlyReads.pure _).writesAt

/-- An address that is needed but not written to. -/
theorem writesAt_requireAddress (m : Mnemonic) (op : Operand) :
    WritesAt W (requireAddress m op : Run β UInt16) := by
  intro board board' a h
  obtain ⟨-, rfl⟩ := requireAddress_eq_ok.mp h
  exact .refl

/-- A write at the effective address. -/
theorem writesAt_address {m : Mnemonic} {op : Operand} (hW : ∀ a, op.address = some a → W a)
    {f : UInt16 → Run β γ} (hf : ∀ a, W a → WritesAt W (f a)) :
    WritesAt W (requireAddress m op >>= f) := by
  intro board board' c h
  obtain ⟨a, mid, haddress, hfok⟩ := Attempt.bind_eq_ok.mp h
  obtain ⟨hop, rfl⟩ := requireAddress_eq_ok.mp haddress
  exact hf a (hW a hop) _ _ _ hfok

theorem writesAt_write {a : UInt16} (ha : W a) (value : UInt8) :
    WritesAt W (write a value : Run β Unit) := by
  intro board board' u h
  exact write_reaches ha h

theorem writesAt_branch (m : Mnemonic) (op : Operand) (mask : UInt8) (on : Bool) :
    WritesAt W (branch m op mask on : Run β Nat) := by
  refine onlyReads_registers.writesAt.bind fun regs => ?_
  split
  · exact (writesAt_requireAddress m op).bind fun a => (writesAt_change _).bind fun _ =>
      (OnlyReads.pure _).writesAt
  · exact (OnlyReads.pure _).writesAt

theorem descends_call (m : Mnemonic) (op : Operand) : Descends (call m op : Run β Unit) := by
  refine Descends.bind ?_ fun target => onlyReads_registers.descends.bind fun regs =>
    (descends_pushWord _).bind fun _ => descends_change fun _ => rfl
  constructor
  · intro board board' a h
    obtain ⟨-, rfl⟩ := requireAddress_eq_ok.mp h
    exact Nat.le_refl _
  · exact writesAt_requireAddress m op _ _ _

theorem descends_softwareInterrupt : Descends (softwareInterrupt : Run β Unit) := by
  refine onlyReads_registers.descends.bind fun regs => (descends_pushWord _).bind fun _ => ?_
  refine onlyReads_registers.descends.bind fun regs => (descends_push _).bind fun _ => ?_
  refine (descends_change ?_).bind fun _ => ?_
  · intro regs
    rfl
  · refine (onlyReads_readPair _ _).descends.bind fun pc => ?_
    exact descends_change fun _ => rfl

/-- An action writes at most at the stack slots and, if it stores, at the effective address. -/
theorem act_reaches {m : Mnemonic} {op : Operand} {action : Action} {u : Unit}
    (hstack : ∀ a, StackSlot board.cpu.regs a → W a)
    (hstore : action.stores = true → ∀ a, op.address = some a → W a)
    (h : act m op action board = .ok u board') : Reaches W board.bus board'.bus := by
  cases action with
  | load | transfer | fromStackPointer | toStackPointer | add | subtract | compare | combine
  | bitTest | adjustReg | putFlag | branch | nothing =>
    cases h
    exact .refl
  | store src =>
    exact writesAt_address (hstore rfl) (fun a ha => onlyReads_registers.writesAt.bind fun _ =>
      writesAt_write ha _) _ _ _ h
  | adjust delta =>
    exact writesAt_address (hstore rfl) (fun a ha => (writesAt_write ha _).bind fun _ =>
      writesAt_change _) _ _ _ h
  | shift shift =>
    refine onlyReads_registers.writesAt.bind (fun regs => (writesAt_change _).bind fun _ => ?_)
      _ _ _ h
    unfold writeBack
    split
    · exact writesAt_change _
    · exact writesAt_address (hstore rfl) fun a ha => writesAt_write ha _
  | pushA | pushStatus =>
    exact ((onlyReads_registers.descends.bind fun _ => descends_push _).reaches h).mono hstack
  | pullA | pullStatus => exact writesAt_pull.bind (fun _ => writesAt_change _) _ _ _ h
  | jump => exact (writesAt_requireAddress m op).bind (fun _ => writesAt_change _) _ _ _ h
  | call => exact ((descends_call m op).reaches h).mono hstack
  | leaveCall => exact writesAt_pullWord.bind (fun _ => writesAt_change _) _ _ _ h
  | leaveInterrupt =>
    exact writesAt_pull.bind (fun _ => (writesAt_change _).bind fun _ =>
      writesAt_pullWord.bind fun _ => writesAt_change _) _ _ _ h
  | softwareInterrupt => exact (descends_softwareInterrupt.reaches h).mono hstack

theorem perform_reaches {m : Mnemonic} {op : Operand} {extra : Nat}
    (hstack : ∀ a, StackSlot board.cpu.regs a → W a)
    (hstore : m.action.stores = true → ∀ a, op.address = some a → W a)
    (h : perform m op board = .ok extra board') : Reaches W board.bus board'.bus := by
  rcases perform_ok h with ⟨mask, on, -, hbranch⟩ | ⟨-, hact⟩
  · exact writesAt_branch m op mask on _ _ _ hbranch
  · exact act_reaches hstack hstore hact

/-- The instruction at the program counter is a store or a read-modify-write instruction, and the
address is its effective address. -/
def StoresAt (board : Board β) (a : UInt16) : Prop :=
  ∃ byte bus opcode operand resolved,
    Bus.read board.cpu.regs.pc board.bus = .ok byte bus ∧
    Opcode.decode byte = some opcode ∧ opcode.mnemonic.action.stores = true ∧
    resolve opcode.mode opcode.fetch (board.opened bus) = .ok operand resolved ∧
    operand.address = some a

/-- A successful instruction at a storing address is such an instruction. -/
theorem StoresAt.stores {a : UInt16} {step : Step} (ha : board.StoresAt a)
    (h : execute board = .ok step board') : step.mnemonic.action.stores = true := by
  obtain ⟨byte, bus, opcode, -, -, hread, hdecode, hstores, -⟩ := ha
  obtain ⟨byte', bus', opcode', -, -, -, -, hread', hdecode', -, -, rfl, -⟩ := execute_eq_ok.mp h
  rw [hread] at hread'
  cases hread'
  rw [hdecode] at hdecode'
  cases hdecode'
  exact hstores

/-- **What an instruction can write.**  It accesses the bus by reads, by writes at stack slots from
the stack pointer down, and by writes at the effective address of a store. -/
theorem execute_reaches {step : Step} (h : execute board = .ok step board') :
    Reaches (fun a => StackSlot board.cpu.regs a ∨ board.StoresAt a) board.bus board'.bus := by
  obtain ⟨byte, bus, opcode, operand, resolved, extra, done, hread, hdecode, hresolve, hperform, -,
    rfl⟩ := execute_eq_ok.mp h
  have hop := onlyReads_resolve (β := β) opcode.mode opcode.fetch
  obtain ⟨pc, hcpu⟩ := hop.cpu_eq hresolve
  refine .trans (.single (.read hread)) (.trans (hop.writesAt _ _ _ hresolve) ?_)
  show Reaches _ resolved.bus done.bus
  refine perform_reaches ?_ ?_ hperform
  · -- resolving the operand has not moved the stack pointer
    intro a hslot
    rw [hcpu] at hslot
    exact .inl hslot
  · intro hstores a haddress
    exact .inr ⟨byte, bus, opcode, operand, resolved, hread, hdecode, hstores, hresolve, haddress⟩

end Board

end NesMachine
