import NesMachine.Proofs.Cpu.StackRoom

/-!
# When an instruction faults

On a bus that refuses no access, whether an instruction completes is settled by the opcode byte and
the stack pointer.

* `delivers_resolve`: an operand always resolves, and its mode tells whether it has an address;
* `Opcode.accepts_of_decode`: the table of opcodes gives every instruction that works on an address a
  mode that has one;
* `dueFault`: the fault that is due, from the opcode byte and the registers;
* `execute_error_iff`: an instruction faults exactly with the fault that is due.
-/

namespace NesMachine

/-- The modes whose operand lies at an address. -/
def Mode.locates : Mode → Bool
  | .implicit | .accumulator | .immediate => false
  | _ => true

/-- Whether an action can work on an operand, by whether that has an address and whether it is the
accumulator. -/
def Action.accepts (located accumulator : Bool) : Action → Bool
  | .store _ | .adjust _ | .branch _ _ | .jump | .call => located
  | .shift _ => accumulator || located
  | _ => true

/-- No instruction that works on an address is listed with a mode that has none. -/
theorem Opcode.accepts_of_decode {byte : UInt8} {o : Opcode} (h : decode byte = some o) :
    o.mnemonic.action.accepts o.mode.locates (o.mode == .accumulator) = true :=
  (by decide +kernel :
    ∀ o ∈ all, o.mnemonic.action.accepts o.mode.locates (o.mode == .accumulator) = true)
    o (mem_of_decode h)

/-- How many bytes an instruction pushes. -/
def Mnemonic.pushed : Mnemonic → Nat
  | .pha | .php => 1
  | .jsr => 2
  | .brk => 3
  | _ => 0

/-- How many bytes an instruction pulls. -/
def Mnemonic.pulled : Mnemonic → Nat
  | .pla | .plp => 1
  | .rts => 2
  | .rti => 3
  | _ => 0

/-- The fault of an instruction that finds the stack full or empty. -/
def Mnemonic.stackFault (m : Mnemonic) (s : UInt8) : Option Fault :=
  if s.toNat < m.pushed then some (.stackOverflow 0)
  else if 255 < s.toNat + m.pulled then some (.stackUnderflow 0xFF)
  else none

theorem Mnemonic.stackFault_of_level {m : Mnemonic} (hpushed : m.pushed = 0)
    (hpulled : m.pulled = 0) (s : UInt8) : m.stackFault s = none := by
  have hlt := s.toNat_lt
  rw [stackFault, hpushed, hpulled, if_neg (Nat.not_lt_zero _), if_neg (by omega)]

/-- The fault that is due when the program counter stands on a byte. -/
def dueFault (regs : Registers) (byte : UInt8) : Option Fault :=
  match Opcode.decode byte with
  | none => some (.unknownOpcode byte regs.pc)
  | some o => o.mnemonic.stackFault regs.s

/-- Of the faults that are due, none comes from the bus or the operand. -/
theorem dueFault_cases {regs : Registers} {byte : UInt8} {fault : Fault}
    (h : dueFault regs byte = some fault) :
    (Opcode.decode byte = none ∧ fault = .unknownOpcode byte regs.pc) ∨ fault = .stackOverflow 0 ∨
      fault = .stackUnderflow 0xFF := by
  unfold dueFault at h
  cases hdecode : Opcode.decode byte with
  | none =>
    rw [hdecode] at h
    exact .inl ⟨rfl, (Option.some.inj h).symm⟩
  | some o =>
    rw [hdecode] at h
    simp only [Mnemonic.stackFault] at h
    split at h
    · exact .inr (.inl (Option.some.inj h).symm)
    · split at h
      · exact .inr (.inr (Option.some.inj h).symm)
      · cases h

namespace Board

variable {β : Type} {α γ : Type} {P : α → Prop} {Q : γ → Prop} {x : Run β α} {f : α → Run β γ}

/-! ### Actions with a due fault -/

/-- The action ends with the fault that is due at the stack pointer, and succeeds if none is. -/
def Ends (due : UInt8 → Option Fault) (x : Run β α) : Prop :=
  ∀ board fault, (∃ left, x board = .error fault left) ↔ due board.cpu.regs.s = some fault

variable {due : UInt8 → Option Fault}

theorem Delivers.ends (hx : Delivers P x) : Ends (fun _ => none) x := by
  intro board fault
  obtain ⟨a, after, hok, -⟩ := hx board
  simp [hok]

theorem Delivers.bind_ends (hx : Delivers P x) (hf : ∀ a, P a → Ends due (f a)) :
    Ends due (x >>= f) := by
  intro board fault
  obtain ⟨a, mid, hfirst, ha, hmid⟩ := hx board
  rw [Attempt.bind_apply, hfirst, ← hmid]
  exact hf a ha mid fault

theorem Ends.bind_delivers (hx : Ends due x) (hf : ∀ a, Delivers (fun _ => True) (f a)) :
    Ends due (x >>= f) := by
  intro board fault
  rw [← hx board fault, Attempt.bind_apply]
  cases x board with
  | error e left => simp
  | ok a mid =>
    obtain ⟨c, after, hsecond, -⟩ := hf a mid
    simp [hsecond]

theorem Takes.ends {room : UInt8 → Nat} {full : Fault} {n : Nat} (hx : Takes room full n x) :
    Ends (fun s => if room s < n then some full else none) x := by
  intro board fault
  dsimp only
  by_cases hroom : room board.cpu.regs.s < n
  · obtain ⟨left, herror⟩ := hx.faults board hroom
    rw [if_pos hroom, herror]
    simp
  · obtain ⟨a, after, hok, -⟩ := hx.succeeds board (by omega)
    rw [if_neg hroom, hok]
    simp

/-- An instruction that does not touch the stack. -/
theorem Ends.of_level {m : Mnemonic} (hx : Ends (fun _ => none) x) (hpushed : m.pushed = 0)
    (hpulled : m.pulled = 0) : Ends m.stackFault x := by
  have hnone : m.stackFault = fun _ => none :=
    funext fun s => Mnemonic.stackFault_of_level hpushed hpulled s
  rw [hnone]
  exact hx

theorem Pushes.ends {m : Mnemonic} (hx : Pushes m.pushed x) (hpulled : m.pulled = 0) :
    Ends m.stackFault x := by
  have hpush : m.stackFault =
      fun s => if s.toNat < m.pushed then some (.stackOverflow 0) else none := by
    funext s
    have hlt := s.toNat_lt
    rw [Mnemonic.stackFault, hpulled, if_neg (show ¬ 255 < s.toNat + 0 by omega)]
  rw [hpush]
  exact Takes.ends hx

theorem Pulls.ends {m : Mnemonic} (hx : Pulls m.pulled x) (hpushed : m.pushed = 0) :
    Ends m.stackFault x := by
  have hpull : m.stackFault =
      fun s => if 255 - s.toNat < m.pulled then some (.stackUnderflow 0xFF) else none := by
    funext s
    have hlt := s.toNat_lt
    rw [Mnemonic.stackFault, hpushed, if_neg (Nat.not_lt_zero _)]
    congr 1
    exact propext (by omega)
  rw [hpull]
  exact Takes.ends hx

/-! ### Operands -/

variable [Bus β] [TotalBus β]

/-- The operand is what its mode promises. -/
def Promised (mode : Mode) (op : Operand) : Prop :=
  op.address.isSome = mode.locates ∧ op.accumulator = (mode == .accumulator)

theorem delivers_locate {mode : Mode} (h : mode.locates = true) (a : UInt16) (crossed : Bool)
    (kind : Fetch) : Delivers (Promised mode) (locate mode a crossed kind : Run β Operand) := by
  have haccumulator : (mode == .accumulator) = false := by
    cases mode <;> first | rfl | cases h
  cases kind with
  | value => exact (delivers_read a).bind fun _ _ => delivers_pure ⟨h.symm, haccumulator.symm⟩
  | addressOnly => exact delivers_pure ⟨h.symm, haccumulator.symm⟩

theorem delivers_resolveZeroPage {mode : Mode} (h : mode.locates = true)
    (index : Registers → UInt8) (kind : Fetch) :
    Delivers (Promised mode) (resolveZeroPage mode index kind : Run β Operand) :=
  delivers_fetch.bind fun _ _ => delivers_registers.bind fun _ _ => delivers_locate h _ _ _

theorem delivers_resolveAbsolute {mode : Mode} (h : mode.locates = true)
    (index : Registers → UInt8) (kind : Fetch) :
    Delivers (Promised mode) (resolveAbsolute mode index kind : Run β Operand) :=
  delivers_fetchWord.bind fun _ _ => delivers_registers.bind fun _ _ => delivers_locate h _ _ _

theorem delivers_resolve (mode : Mode) (kind : Fetch) :
    Delivers (Promised mode) (resolve mode kind : Run β Operand) := by
  cases mode with
  | implicit => exact delivers_pure ⟨rfl, rfl⟩
  | accumulator => exact delivers_registers.bind fun _ _ => delivers_pure ⟨rfl, rfl⟩
  | immediate => exact delivers_fetch.bind fun _ _ => delivers_pure ⟨rfl, rfl⟩
  | relative =>
    exact delivers_fetch.bind fun _ _ => delivers_registers.bind fun _ _ =>
      delivers_pure ⟨rfl, rfl⟩
  | zeroPage | zeroPageX | zeroPageY => exact delivers_resolveZeroPage rfl _ _
  | absolute | absoluteX | absoluteY => exact delivers_resolveAbsolute rfl _ _
  | indirect =>
    exact delivers_fetchWord.bind fun _ _ => (delivers_readPair _ _).bind fun _ _ =>
      delivers_locate rfl _ _ _
  | indexedIndirect =>
    exact delivers_fetch.bind fun _ _ => delivers_registers.bind fun _ _ =>
      (delivers_readPair _ _).bind fun _ _ => delivers_locate rfl _ _ _
  | indirectIndexed =>
    exact delivers_fetch.bind fun _ _ => (delivers_readPair _ _).bind fun _ _ =>
      delivers_registers.bind fun _ _ => delivers_locate rfl _ _ _

/-! ### Carrying an instruction out -/

omit [Bus β] [TotalBus β] in
theorem delivers_branch (m : Mnemonic) {op : Operand} {a : UInt16} (h : op.address = some a)
    (mask : UInt8) (on : Bool) : Delivers (fun _ => True) (branch m op mask on : Run β Nat) := by
  rw [branch, requireAddress_of_some h]
  refine delivers_registers.bind fun regs _ => ?_
  split
  · exact (delivers_jumpTo a).bind fun _ _ => delivers_return 1
  · exact delivers_return 0

theorem delivers_storeReg (m : Mnemonic) {op : Operand} {a : UInt16} (h : op.address = some a)
    (src : Reg) : Delivers (fun _ => True) (storeReg m op src : Run β Unit) := by
  rw [storeReg, requireAddress_of_some h, pure_bind]
  exact delivers_registers.bind fun _ _ => delivers_write _ _

theorem delivers_adjustMemory (m : Mnemonic) {op : Operand} {a : UInt16} (h : op.address = some a)
    (delta : UInt8) : Delivers (fun _ => True) (adjustMemory m op delta : Run β Unit) := by
  rw [adjustMemory, requireAddress_of_some h, pure_bind]
  refine (delivers_write a _).bind fun _ _ => delivers_change ?_
  intro regs
  rfl

theorem delivers_shiftOperand (m : Mnemonic) {op : Operand}
    (h : (op.accumulator || op.address.isSome) = true) (shift : Shift) :
    Delivers (fun _ => True) (shiftOperand m op shift : Run β Unit) := by
  refine Delivers.bind delivers_registers fun regs _ => ?_
  refine Delivers.bind (delivers_change ?_) fun _ _ => ?_
  · intro regs
    rfl
  rw [writeBack]
  by_cases haccumulator : op.accumulator = true
  · rw [if_pos haccumulator]
    refine delivers_change ?_
    intro regs
    rfl
  · rw [if_neg haccumulator]
    rw [Bool.not_eq_true] at haccumulator
    rw [haccumulator, Bool.false_or] at h
    obtain ⟨a, ha⟩ := Option.isSome_iff_exists.mp h
    rw [requireAddress_of_some ha, pure_bind]
    exact delivers_write a _

/-- **The stack decides.**  An action whose operand suits it fails only for want of room on the
stack. -/
theorem ends_act (m : Mnemonic) {op : Operand}
    (h : m.action.accepts op.address.isSome op.accumulator = true) :
    Ends m.stackFault (act m op m.action : Run β Unit) := by
  cases m with
  | lda | ldx | ldy | tax | tay | txa | tya | tsx | adc | sbc | cmp | cpx | cpy | and | ora | eor
  | bit | inx | dex | iny | dey | clc | sec | cli | sei | cld | sed | clv =>
    dsimp only [Mnemonic.action, act]
    refine Ends.of_level (Delivers.ends (delivers_change ?_)) rfl rfl
    intro regs
    rfl
  | txs =>
    -- the one instruction that moves the stack pointer without looking at it
    refine Ends.of_level ?_ rfl rfl
    intro board fault
    obtain ⟨cpu, bus⟩ := board
    simp [act, Mnemonic.action]
  | sta | stx | sty =>
    obtain ⟨a, ha⟩ := Option.isSome_iff_exists.mp h
    exact (delivers_storeReg _ ha _).ends.of_level rfl rfl
  | inc | dec =>
    obtain ⟨a, ha⟩ := Option.isSome_iff_exists.mp h
    exact (delivers_adjustMemory _ ha _).ends.of_level rfl rfl
  | asl | lsr | rol | ror => exact (delivers_shiftOperand _ h _).ends.of_level rfl rfl
  | nop | bcc | bcs | bne | beq | bpl | bmi | bvc | bvs =>
    exact (delivers_return ()).ends.of_level rfl rfl
  | jmp =>
    obtain ⟨a, ha⟩ := Option.isSome_iff_exists.mp h
    show Ends _ (requireAddress .jmp op >>= jumpTo)
    rw [requireAddress_of_some ha, pure_bind]
    exact (delivers_jumpTo a).ends.of_level rfl rfl
  | jsr =>
    obtain ⟨a, ha⟩ := Option.isSome_iff_exists.mp h
    exact Pushes.ends (m := .jsr) (pushes_call ha) rfl
  | pha =>
    exact Pushes.ends (m := .pha) (delivers_registers.bind_takes fun _ _ => pushes_push _) rfl
  | php =>
    exact Pushes.ends (m := .php) (delivers_registers.bind_takes fun _ _ => pushes_push _) rfl
  | brk => exact Pushes.ends (m := .brk) pushes_softwareInterrupt rfl
  | pla | plp =>
    refine Ends.bind_delivers (Pulls.ends (m := .pla) pulls_pull rfl) fun value => delivers_change ?_
    intro regs
    rfl
  | rts => exact Pulls.ends (m := .rts) pulls_leaveCall rfl
  | rti => exact Pulls.ends (m := .rti) pulls_leaveInterrupt rfl

/-- Branches leave the stack alone. -/
theorem Mnemonic.level_of_branch {m : Mnemonic} {mask : UInt8} {on : Bool}
    (h : m.action = .branch mask on) : m.pushed = 0 ∧ m.pulled = 0 := by
  cases m <;> first | exact ⟨rfl, rfl⟩ | cases h

theorem ends_perform (m : Mnemonic) {op : Operand}
    (h : m.action.accepts op.address.isSome op.accumulator = true) :
    Ends m.stackFault (perform m op : Run β Nat) := by
  have hact := ends_act (β := β) m h
  unfold perform
  generalize haction : m.action = action at h hact ⊢
  split
  · obtain ⟨hpushed, hpulled⟩ := Mnemonic.level_of_branch haction
    obtain ⟨a, ha⟩ := Option.isSome_iff_exists.mp h
    exact (delivers_branch m ha _ _).ends.of_level hpushed hpulled
  · exact hact.bind_delivers fun _ => delivers_return _

/-! ### The whole instruction -/

variable {board : Board β} {byte : UInt8} {bus : β}

/-- What an instruction does once its opcode is read. -/
def complete (pc : UInt16) (o : Opcode) : Run β Step := do
  let op ← resolve o.mode o.fetch
  let extra ← perform o.mnemonic op
  let cycles := o.cycles + extra + if o.pagePenalty && op.pageCrossed then 1 else 0
  spend cycles
  return ⟨pc, o.byte, o.mnemonic, o.mode, cycles⟩

theorem ends_complete {o : Opcode} (pc : UInt16) (h : Opcode.decode byte = some o) :
    Ends o.mnemonic.stackFault (complete pc o : Run β Step) := by
  refine (delivers_resolve o.mode o.fetch).bind_ends fun op hop => ?_
  have haccepts := Opcode.accepts_of_decode h
  rw [← hop.1, ← hop.2] at haccepts
  refine (ends_perform o.mnemonic haccepts).bind_delivers fun extra => ?_
  exact (delivers_spend _).bind fun _ _ => delivers_return _

omit [TotalBus β] in
theorem execute_of_read (hread : Bus.read board.cpu.regs.pc board.bus = .ok byte bus) :
    execute board =
      match Opcode.decode byte with
      | none => .error (.unknownOpcode byte board.cpu.regs.pc) ⟨board.cpu, bus⟩
      | some o => complete board.cpu.regs.pc o (board.opened bus) := by
  have hopcode : read board.cpu.regs.pc board = .ok byte ⟨board.cpu, bus⟩ :=
    onBus_eq_ok.mpr ⟨bus, hread, rfl⟩
  simp only [execute, Attempt.bind_apply, registers_apply, hopcode]
  cases hdecode : Opcode.decode byte with
  | none => rfl
  | some o =>
    rw [← Opcode.byte_of_decode hdecode]
    rfl

omit [TotalBus β] in
/-- An undocumented opcode leaves the processor as it was. -/
theorem execute_of_undocumented (hread : Bus.read board.cpu.regs.pc board.bus = .ok byte bus)
    (h : Opcode.decode byte = none) :
    execute board = .error (.unknownOpcode byte board.cpu.regs.pc) ⟨board.cpu, bus⟩ := by
  rw [execute_of_read hread, h]

/-- **When an instruction faults**: exactly with the fault that is due for the byte at the program
counter. -/
theorem execute_error_iff (hread : Bus.read board.cpu.regs.pc board.bus = .ok byte bus)
    {fault : Fault} :
    (∃ left, execute board = .error fault left) ↔ dueFault board.cpu.regs byte = some fault := by
  unfold dueFault
  rw [execute_of_read hread]
  cases hdecode : Opcode.decode byte with
  | none => simp
  | some o => exact ends_complete board.cpu.regs.pc hdecode (board.opened bus) fault

end Board

end NesMachine
