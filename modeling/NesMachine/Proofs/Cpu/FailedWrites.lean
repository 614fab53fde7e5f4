import NesMachine.Proofs.Attempt
import NesMachine.Proofs.Cpu.Faults
import NesMachine.Proofs.Cpu.Footprint

/-!
# What a failed instruction has written

An instruction that runs out of stack may have pushed a byte or two before it fails, and an
instruction that fails for any other reason has written nothing.

* `Confined W x`: whatever becomes of the action, it writes at most at the addresses that the
  registers allow, and it does not widen them; sequences of such actions are confined
  (`Confined.bind`);
* `execute_error_reaches`: on a bus that refuses no access, a failed instruction has written at most
  at the stack slots from the stack pointer down.
-/

namespace NesMachine

namespace Board

variable {β : Type} [Bus β] {α γ : Type} {x : Run β α} {f : α → Run β γ}
  {W : Registers → UInt16 → Prop} {board left : Board β} {fault : Fault}

/-! ### Confined actions -/

/-- Whether it succeeds or not, the action reads and writes at most at the allowed addresses, and
allows no further ones. -/
structure Confined (W : Registers → UInt16 → Prop) (x : Run β α) : Prop where
  reaches : ∀ board, Reaches (W board.cpu.regs) board.bus (Attempt.after x board).bus
  narrows : ∀ board a, W (Attempt.after x board).cpu.regs a → W board.cpu.regs a

theorem Confined.bind (hx : Confined W x) (hf : ∀ a, Confined W (f a)) : Confined W (x >>= f) := by
  constructor
  · intro board
    have hfirst := hx.reaches board
    have hnarrows := hx.narrows board
    rw [Attempt.after_bind]
    unfold Attempt.after at hfirst hnarrows
    cases hresult : x board with
    | error e mid =>
      rw [hresult] at hfirst
      exact hfirst
    | ok a mid =>
      rw [hresult] at hfirst hnarrows
      exact hfirst.trans (((hf a).reaches mid).mono hnarrows)
  · intro board b hb
    have hnarrows := hx.narrows board b
    rw [Attempt.after_bind] at hb
    unfold Attempt.after at hnarrows
    cases hresult : x board with
    | error e mid =>
      rw [hresult] at hb hnarrows
      exact hnarrows hb
    | ok a mid =>
      rw [hresult] at hb hnarrows
      exact hnarrows ((hf a).narrows mid b hb)

/-- An action that leaves the bus alone and keeps what the registers allow. -/
theorem Confined.of_silent (hbus : ∀ board, (Attempt.after x board).bus = board.bus)
    (hregs : ∀ board, W (Attempt.after x board).cpu.regs = W board.cpu.regs) : Confined W x := by
  constructor
  · intro board
    rw [hbus]
    exact .refl
  · intro board a ha
    rw [hregs] at ha
    exact ha

theorem confined_pure (a : α) : Confined W (pure a : Run β α) :=
  .of_silent (fun _ => rfl) fun _ => rfl

theorem confined_registers : Confined W (registers : Run β Registers) :=
  .of_silent (fun _ => rfl) fun _ => rfl

theorem confined_change {g : Registers → Registers} (hg : ∀ regs, W (g regs) = W regs) :
    Confined W (change g : Run β Unit) :=
  .of_silent (fun _ => rfl) fun board => hg board.cpu.regs

theorem confined_requireAddress (m : Mnemonic) (op : Operand) :
    Confined W (requireAddress m op : Run β UInt16) := by
  unfold requireAddress
  cases op.address with
  | none => exact .of_silent (fun _ => rfl) fun _ => rfl
  | some a => exact confined_pure a

/-- No address at all is allowed. -/
abbrev Nowhere (_ : Registers) (_ : UInt16) : Prop := False

theorem confined_change_nowhere (g : Registers → Registers) :
    Confined Nowhere (change g : Run β Unit) :=
  .of_silent (fun _ => rfl) fun _ => rfl

theorem Confined.reaches_of_error (hx : Confined W x) (h : x board = .error fault left) :
    Reaches (W board.cpu.regs) board.bus left.bus := by
  have hreaches := hx.reaches board
  rw [Attempt.after, h] at hreaches
  exact hreaches

/-! ### On a bus that refuses nothing -/

variable [TotalBus β]

theorem confined_read (a : UInt16) : Confined W (read a : Run β UInt8) := by
  have hafter (board : Board β) : ∃ value bus, Bus.read a board.bus = .ok value bus ∧
      Attempt.after (read a) board = ⟨board.cpu, bus⟩ := by
    obtain ⟨value, bus, hread⟩ := TotalBus.read_ok a board.bus
    have hok : read a board = .ok value ⟨board.cpu, bus⟩ := onBus_eq_ok.mpr ⟨bus, hread, rfl⟩
    refine ⟨value, bus, hread, ?_⟩
    rw [Attempt.after, hok]
  constructor
  · intro board
    obtain ⟨value, bus, hread, heq⟩ := hafter board
    rw [heq]
    exact .single (.read hread)
  · intro board b hb
    obtain ⟨value, bus, -, heq⟩ := hafter board
    rw [heq] at hb
    exact hb

theorem confined_readPair (low high : UInt16) : Confined W (readPair low high : Run β UInt16) :=
  (confined_read low).bind fun _ => (confined_read high).bind fun _ => confined_pure _

/-- A push writes at the stack pointer, or fails before it has written. -/
theorem confined_push (value : UInt8) : Confined StackSlot (push value : Run β Unit) := by
  have hafter (board : Board β) : Attempt.after (push value) board = board ∨
      ∃ bus, Bus.write board.cpu.regs.stackAddress value board.bus = .ok () bus ∧
        (board.cpu.regs.s - 1).toNat ≤ board.cpu.regs.s.toNat ∧
        Attempt.after (push value) board =
          ⟨⟨{ board.cpu.regs with s := board.cpu.regs.s - 1 }, board.cpu.cycles⟩, bus⟩ := by
    by_cases hs : board.cpu.regs.s = 0
    · refine .inl ?_
      rw [Attempt.after, push, Attempt.bind_apply, registers_apply]
      simp [hs]
    · obtain ⟨bus, hwrite⟩ := TotalBus.write_ok board.cpu.regs.stackAddress value board.bus
      have hok := (push_eq_ok (u := ())).mpr ⟨hs, bus, hwrite, rfl⟩
      have hpred := toNat_pred hs
      refine .inr ⟨bus, hwrite, by omega, ?_⟩
      rw [Attempt.after, hok]
  constructor
  · intro board
    obtain heq | ⟨bus, hwrite, -, heq⟩ := hafter board
    · rw [heq]
      exact .refl
    · rw [heq]
      exact .single (.write ⟨board.cpu.regs.s, Nat.le_refl _, rfl⟩ hwrite)
  · intro board b hb
    obtain heq | ⟨bus, -, hle, heq⟩ := hafter board
    · rw [heq] at hb
      exact hb
    · rw [heq] at hb
      obtain ⟨slot, hslot, rfl⟩ := hb
      exact ⟨slot, Nat.le_trans hslot hle, rfl⟩

theorem confined_pushWord (value : UInt16) : Confined StackSlot (pushWord value : Run β Unit) :=
  (confined_push _).bind fun _ => confined_push _

theorem confined_call (m : Mnemonic) (op : Operand) :
    Confined StackSlot (call m op : Run β Unit) := by
  refine (confined_requireAddress m op).bind fun target => confined_registers.bind fun regs => ?_
  exact (confined_pushWord _).bind fun _ => confined_change fun _ => rfl

theorem confined_softwareInterrupt : Confined StackSlot (softwareInterrupt : Run β Unit) := by
  refine confined_registers.bind fun regs => (confined_pushWord _).bind fun _ => ?_
  refine confined_registers.bind fun regs => (confined_push _).bind fun _ => ?_
  refine (confined_change ?_).bind fun _ => ?_
  · intro regs
    rfl
  · exact (confined_readPair _ _).bind fun pc => confined_change fun _ => rfl

theorem confined_pull : Confined Nowhere (pull : Run β UInt8) := by
  refine confined_registers.bind fun regs => ?_
  split
  · exact .of_silent (fun _ => rfl) fun _ => rfl
  · exact (confined_change_nowhere _).bind fun _ => confined_read _

theorem confined_pullWord : Confined Nowhere (pullWord : Run β UInt16) :=
  confined_pull.bind fun _ => confined_pull.bind fun _ => confined_pure _

theorem confined_leaveCall : Confined Nowhere (leaveCall : Run β Unit) :=
  confined_pullWord.bind fun _ => confined_change_nowhere _

theorem confined_leaveInterrupt : Confined Nowhere (leaveInterrupt : Run β Unit) :=
  confined_pull.bind fun _ => (confined_change_nowhere _).bind fun _ =>
    confined_pullWord.bind fun _ => confined_change_nowhere _

/-! ### Failed instructions -/

/-- A failed action that suits its operand has written at most at the stack slots. -/
theorem act_error_reaches {m : Mnemonic} {op : Operand}
    (haccepts : m.action.accepts op.address.isSome op.accumulator = true)
    (h : act m op m.action board = .error fault left) :
    Reaches (StackSlot board.cpu.regs) board.bus left.bus := by
  have hdue := (ends_act m haccepts board fault).mp ⟨left, h⟩
  by_cases hlevel : m.pushed = 0 ∧ m.pulled = 0
  · rw [Mnemonic.stackFault_of_level hlevel.1 hlevel.2] at hdue
    cases hdue
  · -- what is left are the instructions that push or pull
    have hpull {x : Run β Unit} (hx : Confined Nowhere x) (h : x board = .error fault left) :
        Reaches (StackSlot board.cpu.regs) board.bus left.bus :=
      (hx.reaches_of_error h).mono fun _ hfalse => hfalse.elim
    cases m with
    | jsr => exact (confined_call _ _).reaches_of_error h
    | pha | php => exact (confined_registers.bind fun _ => confined_push _).reaches_of_error h
    | brk => exact confined_softwareInterrupt.reaches_of_error h
    | pla | plp => exact hpull (confined_pull.bind fun _ => confined_change_nowhere _) h
    | rts => exact hpull confined_leaveCall h
    | rti => exact hpull confined_leaveInterrupt h
    | _ => exact absurd ⟨rfl, rfl⟩ hlevel

theorem perform_error_reaches {m : Mnemonic} {op : Operand}
    (haccepts : m.action.accepts op.address.isSome op.accumulator = true)
    (h : perform m op board = .error fault left) :
    Reaches (StackSlot board.cpu.regs) board.bus left.bus := by
  have hact : act m op m.action board = .error fault left →
      Reaches (StackSlot board.cpu.regs) board.bus left.bus := act_error_reaches haccepts
  unfold perform at h
  generalize haction : m.action = action at h haccepts hact
  split at h
  · obtain ⟨a, ha⟩ := Option.isSome_iff_exists.mp haccepts
    obtain ⟨extra, after, hok, -⟩ := delivers_branch m ha _ _ board
    rw [hok] at h
    cases h
  · rw [Attempt.bind_apply] at h
    split at h
    · cases h
    · rename_i hfailed
      cases h
      exact hact hfailed

/-- **What a failed instruction has written**: at most bytes at the stack slots from the stack
pointer down. -/
theorem execute_error_reaches (h : execute board = .error fault left) :
    Reaches (StackSlot board.cpu.regs) board.bus left.bus := by
  obtain ⟨byte, bus, hread⟩ := TotalBus.read_ok board.cpu.regs.pc board.bus
  refine .trans (.single (.read hread)) ?_
  rw [execute_of_read hread] at h
  cases hdecode : Opcode.decode byte with
  | none =>
    rw [hdecode] at h
    cases h
    exact .refl
  | some o =>
    rw [hdecode] at h
    have hresolves := onlyReads_resolve (β := β) o.mode o.fetch
    obtain ⟨op, resolved, hresolve, hop, -⟩ := delivers_resolve o.mode o.fetch (board.opened bus)
    obtain ⟨pc, hcpu⟩ := hresolves.cpu_eq hresolve
    have haccepts := Opcode.accepts_of_decode hdecode
    rw [← hop.1, ← hop.2] at haccepts
    refine .trans (hresolves.writesAt _ _ _ hresolve) ?_
    have hslots : StackSlot resolved.cpu.regs = StackSlot board.cpu.regs := by
      rw [hcpu]
      rfl
    rw [← hslots]
    dsimp only [complete] at h
    rw [Attempt.bind_apply, hresolve] at h
    dsimp only at h
    rw [Attempt.bind_apply] at h
    cases hperform : perform o.mnemonic op resolved with
    | error e failed =>
      rw [hperform] at h
      cases h
      exact perform_error_reaches haccepts hperform
    | ok extra done =>
      rw [hperform] at h
      cases h

end Board

end NesMachine
