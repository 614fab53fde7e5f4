import NesMachine.Bus.Recorder
import NesMachine.Proofs.Cpu.Composition
import NesMachine.Proofs.Cpu.Effects

/-!
# The two bits that are not flags

Bit 5 of the status is always set and bit 4 always clear; only the copies on the stack tell with
bit 4 who pushed them.  Bytes from the stack, which a program can choose, do not get into these bits.

* `Cpu.Operated`: a processor after power-on and any calls, on any buses, failing or not;
  `Cpu.Operated.regular` that its status is regular, by induction on the calls;
* `Board.Adds`: the accesses that an action adds to a log, whether it fails or not;
* `StatusPush`: the ways in which a status byte gets on the stack; `StatusPush.adds` says which byte
  that is, and `Board.pulled_status` what becomes of a byte that is pulled;
* `status_byte`: pushed bytes come back as the status that they were.
-/

namespace NesMachine

/-! ### Regular statuses -/

namespace Status

/-- The unused bit is set and the break bit is clear. -/
def Regular (p : Status) : Prop := p.has Flag.unused = true ∧ p.has Flag.breakMark = false

instance : DecidablePred Regular := fun p =>
  inferInstanceAs (Decidable (p.has Flag.unused = true ∧ p.has Flag.breakMark = false))

theorem regular_ofStack (value : UInt8) : (ofStack value).Regular := by
  obtain ⟨bits⟩ := value
  revert bits
  decide +kernel

theorem stable_regular : Stable Regular where
  put := by
    intro p mask on hmask h
    have hdisjoint (bit : UInt8) (hbit : Flag.unstored &&& bit = bit) : mask &&& bit = 0 := by
      rw [← hbit, ← UInt8.and_assoc, UInt8.and_comm mask, hmask, UInt8.zero_and]
    refine ⟨?_, ?_⟩
    · rw [has_put_of_disjoint (hdisjoint _ (by decide))]
      exact h.1
    · rw [has_put_of_disjoint (hdisjoint _ (by decide))]
      exact h.2
  ofStack := regular_ofStack

/-- A reset sets interrupt disable. -/
theorem Regular.reset {p : Status} (h : p.Regular) :
    (ofByte (p.byte ||| Flag.interruptDisable)).Regular := by
  obtain ⟨⟨bits⟩⟩ := p
  revert bits
  decide +kernel

/-- A regular status is what its bytes on the stack stand for. -/
theorem Regular.eq {p : Status} (h : p.Regular) :
    ⟨(p.byte ||| Flag.unused) &&& ~~~Flag.breakMark⟩ = p := by
  obtain ⟨⟨bits⟩⟩ := p
  revert bits
  decide +kernel

end Status

namespace Board

variable {β : Type} {α γ : Type} {I : Status → Prop}

/-- Whatever becomes of the action, the status keeps the property. -/
def Maintains (I : Status → Prop) (x : Run β α) : Prop :=
  ∀ board, I board.cpu.regs.p → I (x.after board).cpu.regs.p

theorem Maintains.bind {x : Run β α} {f : α → Run β γ} (hx : Maintains I x)
    (hf : ∀ a, Maintains I (f a)) : Maintains I (x >>= f) := by
  intro board h
  have hfirst := hx board h
  rw [Attempt.after_bind]
  unfold Attempt.after at hfirst
  cases hresult : x board with
  | ok a mid =>
    rw [hresult] at hfirst
    exact hf a mid hfirst
  | error e mid =>
    rw [hresult] at hfirst
    exact hfirst

theorem maintains_onBus (action : Attempt BusError β α) : Maintains I (onBus action) := by
  intro board h
  rw [show (Attempt.after (onBus action) board).cpu = board.cpu from cpu_onBus action board]
  exact h

theorem maintains_spend (count : Nat) : Maintains I (spend count : Run β Unit) := fun _ h => h

variable [Bus β]

theorem Alters.maintains {x : Run β α} (hx : Alters I x) : Maintains I x := by
  induction hx with
  | pure a => exact fun _ h => h
  | fault e => exact fun _ h => h
  | registers => exact fun _ h => h
  | change f hf => exact fun board => hf board.cpu.regs
  | read a => exact maintains_onBus _
  | write a value => exact maintains_onBus _
  | bind _ _ ihx ihf => exact ihx.bind ihf

theorem maintains_execute (hI : Status.Stable I) : Maintains I (execute : Run β Step) := by
  refine Maintains.bind Alters.registers.maintains fun regs => ?_
  refine Maintains.bind (Alters.read regs.pc).maintains fun byte => ?_
  cases Opcode.decode byte with
  | none => exact (Alters.fault _).maintains
  | some o =>
    refine Maintains.bind (alters_jumpTo _).maintains fun _ => ?_
    refine Maintains.bind (alters_resolve o.mode o.fetch).maintains fun op => ?_
    refine Maintains.bind (alters_perform hI o.mnemonic op).maintains fun extra => ?_
    exact Maintains.bind (maintains_spend _) fun _ => (Alters.pure _).maintains

theorem maintains_nmi (hI : Status.Stable I) : Maintains I (nmi : Run β Unit) := by
  rw [nmi_eq]
  refine Maintains.bind Alters.registers.maintains fun regs => ?_
  refine Maintains.bind (alters_enterHandler hI _ _ _).maintains fun _ => ?_
  exact maintains_spend _

/-- A reset sets the status from the one before. -/
theorem maintains_reset
    (hI : ∀ {p : Status}, I p → I (.ofByte (p.byte ||| Flag.interruptDisable))) :
    Maintains I (reset : Run β Unit) := by
  refine Maintains.bind (Alters.change _ fun _ h => hI h).maintains fun _ => ?_
  refine Maintains.bind (alters_readPair _ _).maintains fun pc => ?_
  exact Maintains.bind (alters_jumpTo pc).maintains fun _ => maintains_spend _

end Board

/-! ### Runs -/

/-- The calls of a processor. -/
inductive ProcessorCall where
  | execute
  | nmi
  | reset

/-- Makes a call. -/
def ProcessorCall.run {β : Type} [Bus β] : ProcessorCall → Run β Unit
  | execute => do
    let _ ← Board.execute
    return ()
  | nmi => Board.nmi
  | reset => Board.reset

theorem ProcessorCall.maintains {β : Type} [Bus β] (call : ProcessorCall) :
    Board.Maintains Status.Regular (call.run : Run β Unit) := by
  cases call with
  | execute =>
    exact (Board.maintains_execute Status.stable_regular).bind fun _ =>
      (Board.Alters.pure _).maintains
  | nmi => exact Board.maintains_nmi Status.stable_regular
  | reset => exact Board.maintains_reset Status.Regular.reset

/-- A processor after power-on and calls in any order, each on a bus of any kind in any state,
whether they succeed or not. -/
inductive Cpu.Operated : Cpu → Prop
  | powerOn : Operated .powerOn
  | call {β : Type} [Bus β] {cpu : Cpu} (bus : β) (call : ProcessorCall) :
      Operated cpu → Operated (call.run.after ⟨cpu, bus⟩).cpu

/-- **The status stays regular** in every run. -/
theorem Cpu.Operated.regular {cpu : Cpu} (h : cpu.Operated) : cpu.regs.p.Regular := by
  induction h with
  | powerOn => decide
  | call bus call _ ih => exact call.maintains ⟨_, bus⟩ ih

/-! ### What gets into the log -/

/-- A single access is logged unless it fails. -/
theorem Recorder.history_access {β α : Type} (a : UInt16) (run : Attempt BusError β α)
    (entry : α → BusAccess) (recorder : Recorder β) :
    ((access a run entry).after recorder).history = recorder.history ∨
      ∃ value, ((access a run entry).after recorder).history =
        entry value :: recorder.history := by
  obtain ⟨bus, faults, history⟩ := recorder
  rw [Attempt.after, access]
  cases faults.contains a.toUInt32 with
  | true => exact .inl rfl
  | false =>
    cases run bus with
    | error e bus' => exact .inl rfl
    | ok value bus' => exact .inr ⟨value, rfl⟩

namespace Board

variable {β : Type} {α γ : Type} {Q : BusAccess → Prop} {board : Board (Recorder β)}

/-- Whatever becomes of the action, the accesses that it adds to the log are of the given kind. -/
def Adds (Q : BusAccess → Prop) (x : Run (Recorder β) α) (board : Board (Recorder β)) : Prop :=
  ∃ made, (x.after board).bus.history = made ++ board.bus.history ∧ ∀ entry ∈ made, Q entry

theorem adds_of_history {x : Run (Recorder β) α}
    (h : (x.after board).bus.history = board.bus.history) : Adds Q x board :=
  ⟨[], h, fun _ hentry => absurd hentry List.not_mem_nil⟩

/-- The second action starts from what the first has led to, if it has led anywhere. -/
theorem Adds.bind {x : Run (Recorder β) α} {f : α → Run (Recorder β) γ} (hx : Adds Q x board)
    (hf : ∀ a mid, x board = .ok a mid → Adds Q (f a) mid) : Adds Q (x >>= f) board := by
  obtain ⟨made, hhistory, hmade⟩ := hx
  unfold Adds
  rw [Attempt.after_bind]
  unfold Attempt.after at hhistory
  cases hresult : x board with
  | error e mid =>
    rw [hresult] at hhistory
    exact ⟨made, hhistory, hmade⟩
  | ok a mid =>
    rw [hresult] at hhistory
    obtain ⟨later, hlater, hkind⟩ := hf a mid hresult
    refine ⟨later ++ made, ?_, ?_⟩
    · rw [List.append_assoc]
      exact hlater.trans (congrArg (later ++ ·) hhistory)
    · intro entry hentry
      rcases List.mem_append.mp hentry with hentry | hentry
      · exact hkind entry hentry
      · exact hmade entry hentry

theorem bus_onBus (action : Attempt BusError β α) (board : Board β) :
    ((onBus action).after board).bus = action.after board.bus := by
  obtain ⟨cpu, bus⟩ := board
  rw [Attempt.after, Attempt.after, onBus]
  cases action bus <;> rfl

theorem adds_access {a : UInt16} {run : Attempt BusError β α} {entry : α → BusAccess}
    (hQ : ∀ value, Q (entry value)) : Adds Q (onBus (Recorder.access a run entry)) board := by
  have hbus : ((onBus (Recorder.access a run entry)).after board).bus =
      (Recorder.access a run entry).after board.bus := bus_onBus _ _
  rcases Recorder.history_access a run entry board.bus with hsame | ⟨value, hlogged⟩
  · exact adds_of_history (by rw [hbus, hsame])
  · refine ⟨[entry value], by rw [hbus, hlogged]; rfl, ?_⟩
    intro e he
    rw [List.mem_singleton.mp he]
    exact hQ value

variable [Bus β]

/-- The log names only one byte that is written to the address. -/
def Tells (a : UInt16) (image : UInt8) (entry : BusAccess) : Prop :=
  ∀ value, entry = .write a value → value = image

variable {a b : UInt16} {image value : UInt8}

theorem tells_read (value : UInt8) : Tells a image (.read b value) := by
  intro _ heq
  cases heq

theorem tells_write_of_ne (h : b ≠ a) : Tells a image (.write b value) := by
  intro _ heq
  cases heq
  exact absurd rfl h

theorem tells_write : Tells a image (.write a image) := by
  intro _ heq
  cases heq
  rfl

theorem adds_read (b : UInt16) : Adds (Tells a image) (read b) board :=
  adds_access fun _ => tells_read _

theorem adds_readPair (low high : UInt16) : Adds (Tells a image) (readPair low high) board :=
  (adds_read low).bind fun _ _ _ => (adds_read high).bind fun _ _ _ => adds_of_history rfl

theorem adds_push (hQ : Q (.write (slotAddress board.cpu.regs.s) value)) :
    Adds Q (push value) board := by
  refine Adds.bind (adds_of_history rfl) ?_
  intro regs mid hregs
  cases hregs
  split
  · exact adds_of_history rfl
  · refine Adds.bind (adds_access fun _ => hQ) ?_
    exact fun _ _ _ => adds_of_history rfl

/-- The status lies below the two bytes of the return address. -/
theorem adds_enterHandler (back : UInt16) (status : Status → UInt8) (vector : UInt16) :
    Adds (Tells (slotAddress (board.cpu.regs.s - 2)) (status board.cpu.regs.p))
      (enterHandler back status vector) board := by
  -- the return address lies in other slots, even where the pointer wraps
  have hne {s : UInt8} (hs : s ≠ board.cpu.regs.s - 2) :
      slotAddress s ≠ slotAddress (board.cpu.regs.s - 2) := fun heq => hs (slotAddress_inj heq)
  refine Adds.bind ?_ ?_
  · refine Adds.bind (adds_push (tells_write_of_ne (hne (by grind)))) ?_
    intro _ mid hpush
    obtain ⟨-, bus, -, rfl⟩ := push_eq_ok.mp hpush
    exact adds_push (tells_write_of_ne (hne (by simp only; grind)))
  · intro _ mid hword
    obtain ⟨-, bus₁, bus₂, -, -, rfl⟩ := pushWord_eq_ok.mp hword
    refine Adds.bind (adds_of_history rfl) ?_
    intro regs mid hregs
    cases hregs
    refine Adds.bind (adds_push tells_write) fun _ _ _ => ?_
    refine Adds.bind (adds_of_history rfl) fun _ _ _ => ?_
    exact (adds_readPair _ _).bind fun _ _ _ => adds_of_history rfl

/-- An instruction without an operand adds the read of its opcode and what it is carried out by. -/
theorem adds_execute {o : Opcode} (ho : o ∈ Opcode.all) (hmode : o.mode = .implicit)
    (hcode : ∃ bus, Bus.read board.cpu.regs.pc board.bus = .ok o.byte bus)
    (hperform : ∀ bus, Adds (Tells a image) (perform o.mnemonic (.bare .implicit 0))
      (board.opened bus)) :
    Adds (Tells a image) execute board := by
  refine Adds.bind (adds_of_history rfl) fun regs mid hregs => ?_
  cases hregs
  refine Adds.bind (adds_read _) fun byte mid hread => ?_
  obtain ⟨bus, hbus, rfl⟩ := onBus_eq_ok.mp hread
  obtain ⟨bus', hbus'⟩ := hcode
  cases hbus.symm.trans hbus'
  simp only [Opcode.decode_byte ho, hmode]
  refine Adds.bind (adds_of_history rfl) fun _ mid hjump => ?_
  cases hjump
  refine Adds.bind (adds_of_history rfl) fun op mid hresolve => ?_
  cases hresolve
  exact (hperform bus).bind fun _ _ _ => adds_of_history rfl

end Board

/-! ### The status on the stack -/

/-- What puts the status on the stack: PHP, BRK and the interrupt sequence. -/
inductive StatusPush where
  | php
  | brk
  | nmi
deriving DecidableEq

namespace StatusPush

/-- The call that does it. -/
def call : StatusPush → ProcessorCall
  | php | brk => .execute
  | nmi => .nmi

/-- The instruction that takes the status back. -/
def undo : StatusPush → Mnemonic
  | php => .plp
  | brk | nmi => .rti

/-- The slot of the status, below the return address if there is one. -/
def slot : StatusPush → UInt8 → UInt8
  | php, s => s
  | brk, s | nmi, s => s - 2

/-- The byte that stands for a status. -/
def image : StatusPush → Status → UInt8
  | php, p | brk, p => p.pushedByProgram
  | nmi, p => p.pushedByInterrupt

/-- The call is about to do it. -/
def Starts {β : Type} [Bus β] (source : StatusPush) (board : Board β) : Prop :=
  match source with
  | php => ∃ bus, Bus.read board.cpu.regs.pc board.bus = .ok 0x08 bus
  | brk => ∃ bus, Bus.read board.cpu.regs.pc board.bus = .ok 0x00 bus
  | nmi => True

/-- The break bit of the byte tells an instruction from the interrupt sequence. -/
theorem image_bits (source : StatusPush) (p : Status) :
    source.image p &&& Flag.unused ≠ 0 ∧
      (source.image p &&& Flag.breakMark ≠ 0 ↔ source ≠ .nmi) := by
  obtain ⟨⟨bits⟩⟩ := p
  cases source <;> revert bits <;> decide +kernel

theorem ofStack_image (source : StatusPush) {p : Status} (h : p.Regular) :
    .ofStack (source.image p) = p := by
  cases source with
  | php | brk => exact (Status.ofStack_pushedByProgram p).trans h.eq
  | nmi => exact (Status.ofStack_pushedByInterrupt p).trans h.eq

open Board

/-- **The byte that is pushed** is the image of the status, whether the call fails afterwards or
not. -/
theorem adds {β : Type} [Bus β] {board : Board (Recorder β)} (source : StatusPush)
    (h : source.Starts board) :
    Adds (Tells (slotAddress (source.slot board.cpu.regs.s)) (source.image board.cpu.regs.p))
      source.call.run board := by
  cases source with
  | php =>
    refine Adds.bind ?_ fun _ _ _ => adds_of_history rfl
    refine adds_execute (o := ⟨0x08, .php, .implicit, 3⟩) (by decide) rfl h fun bus => ?_
    refine Adds.bind ?_ fun _ _ _ => adds_of_history rfl
    refine Adds.bind (adds_of_history rfl) fun regs mid hregs => ?_
    cases hregs
    exact adds_push tells_write
  | brk =>
    refine Adds.bind ?_ fun _ _ _ => adds_of_history rfl
    refine adds_execute (o := ⟨0x00, .brk, .implicit, 7⟩) (by decide) rfl h fun bus => ?_
    refine Adds.bind ?_ fun _ _ _ => adds_of_history rfl
    show Adds _ softwareInterrupt _
    rw [softwareInterrupt_eq]
    refine Adds.bind (adds_of_history rfl) fun regs mid hregs => ?_
    cases hregs
    exact adds_enterHandler _ _ _
  | nmi =>
    show Adds _ Board.nmi board
    rw [nmi_eq]
    refine Adds.bind (adds_of_history rfl) fun regs mid hregs => ?_
    cases hregs
    exact (adds_enterHandler _ _ _).bind fun _ _ _ => adds_of_history rfl

/-- In a flat memory the byte lies above the stack pointer afterwards. -/
theorem stores {cpu : Cpu} {memory : Memory} {entered : Board Memory} (source : StatusPush)
    (hstarts : source.Starts (⟨cpu, memory⟩ : Board Memory))
    (h : source.call.run ⟨cpu, memory⟩ = .ok () entered) :
    entered.bus[slotAddress (entered.cpu.regs.s + 1)] = source.image cpu.regs.p := by
  have hlast : cpu.regs.s - 3 + 1 = cpu.regs.s - 2 := by grind
  cases source with
  | php =>
    obtain ⟨step, mid, hrun, hpure⟩ := Attempt.bind_eq_ok.mp h
    cases hpure
    obtain ⟨hregs, hbus⟩ :=
      effect_of_opcode (o := ⟨0x08, .php, .implicit, 3⟩) (by decide) hstarts hrun
    have hback : cpu.regs.s - 1 + 1 = cpu.regs.s := by grind
    rw [hbus, hregs]
    show (Cells.set memory (slotAddress cpu.regs.s) _)[slotAddress (cpu.regs.s - 1 + 1)] = _
    rw [hback, Cells.getElem_set_self]
    rfl
  | brk =>
    obtain ⟨step, mid, hrun, hpure⟩ := Attempt.bind_eq_ok.mp h
    cases hpure
    obtain ⟨hregs, hbus⟩ :=
      effect_of_opcode (o := ⟨0x00, .brk, .implicit, 7⟩) (by decide) hstarts hrun
    rw [hbus, hregs]
    show (Cells.set _ (slotAddress (cpu.regs.s - 2)) _)[slotAddress (cpu.regs.s - 3 + 1)] = _
    rw [hlast, Cells.getElem_set_self]
    rfl
  | nmi =>
    obtain ⟨-, bus₁, bus₂, bus₃, bus₄, low, high, -, -, hwrite, hread₁, hread₂, hcpu⟩ :=
      nmi_eq_ok.mp h
    have hs : entered.cpu.regs.s = cpu.regs.s - 3 := by rw [hcpu]
    have hbus : bus₄ = entered.bus := (EStateM.Result.ok.inj hread₂).2
    cases hread₁
    cases hwrite
    rw [← hbus, hs, hlast]
    exact Cells.getElem_set_self _ _ _

theorem undo_cases (source : StatusPush) : source.undo = .plp ∨ source.undo = .rti := by
  cases source <;> decide

end StatusPush

namespace Board

variable {β : Type} [Bus β] {board after : Board β} {step : Step}

/-- What a PLP or an RTI at the program counter pulls as the status. -/
def PullsStatus (board : Board β) (value : UInt8) : Prop :=
  ∃ code bus bus', Bus.read board.cpu.regs.pc board.bus = .ok code bus ∧
    Bus.read (slotAddress (board.cpu.regs.s + 1)) bus = .ok value bus'

theorem execute_plp_ok (h : execute board = .ok step after) (hstep : step.mnemonic = .plp) :
    ∃ bus byte status bus',
      Bus.read board.cpu.regs.pc board.bus = .ok byte bus ∧
      Bus.read (slotAddress (board.cpu.regs.s + 1)) bus = .ok status bus' ∧
      after.cpu.regs.p = .ofStack status := by
  obtain ⟨byte, bus, o, op, resolved, extra, done, hread, hdecode, hresolve, hperform, rfl, rfl⟩ :=
    execute_eq_ok.mp h
  have hplp : o.mnemonic = .plp := hstep
  have hmode : o.mode = .implicit := Opcode.implicit_of_stack hdecode (by rw [hplp]; decide)
  rw [hmode] at hresolve
  cases hresolve
  rw [hplp] at hperform
  obtain ⟨_, mid, hact, hpure⟩ := Attempt.bind_eq_ok.mp hperform
  obtain ⟨status, mid', hpull, hchange⟩ := Attempt.bind_eq_ok.mp hact
  obtain ⟨-, bus', hstatus, rfl⟩ := pull_eq_ok.mp hpull
  cases hchange
  cases hpure
  exact ⟨bus, byte, status, bus', hread, hstatus, rfl⟩

/-- **The byte that is pulled** becomes the status, without the break bit. -/
theorem pulled_status (h : execute board = .ok step after)
    (hstep : step.mnemonic = .plp ∨ step.mnemonic = .rti) {value : UInt8}
    (hpull : board.PullsStatus value) : after.cpu.regs.p = .ofStack value := by
  obtain ⟨code, bus, bus', hcode, hvalue⟩ := hpull
  rcases hstep with hplp | hrti
  · obtain ⟨bus₁, byte, status, bus₂, hread, hstatus, hp⟩ := execute_plp_ok h hplp
    cases hcode.symm.trans hread
    cases hvalue.symm.trans hstatus
    exact hp
  · obtain ⟨bus₁, byte, status, low, high, bus₂, bus₃, hread, hstatus, -, -, hregs⟩ :=
      execute_rti_ok h hrti
    cases hcode.symm.trans hread
    cases hvalue.symm.trans hstatus
    rw [hregs]

end Board

/-- **The status byte.**  In every run the unused bit of the status is set and its break bit clear.
The copy that PHP or BRK pushes has both bits set, and the one that an interrupt pushes has the break
bit clear, even if the call fails afterwards.  Where such a copy is pulled by PLP or RTI, the status
is restored exactly, and so it is on a flat memory if nothing has changed the byte above the stack
pointer. -/
theorem status_byte (cpu : Cpu) (h : cpu.Operated) :
    cpu.regs.p.Regular ∧
    ∀ source : StatusPush,
      (source.image cpu.regs.p &&& Flag.unused ≠ 0 ∧
        (source.image cpu.regs.p &&& Flag.breakMark ≠ 0 ↔ source ≠ .nmi)) ∧
      (∀ (β : Type) [Bus β] (recorder : Recorder β),
        source.Starts (⟨cpu, recorder⟩ : Board (Recorder β)) →
        ∃ made, (source.call.run.after ⟨cpu, recorder⟩).bus.history = made ++ recorder.history ∧
          ∀ value, .write (slotAddress (source.slot cpu.regs.s)) value ∈ made →
            value = source.image cpu.regs.p ∧
            ∀ (γ : Type) [Bus γ] (later after : Board γ) (step : Step),
              later.PullsStatus value → Board.execute later = .ok step after →
              step.mnemonic = source.undo → after.cpu.regs.p = cpu.regs.p) ∧
      ∀ (memory : Memory) (entered : Board Memory),
        source.Starts (⟨cpu, memory⟩ : Board Memory) →
        source.call.run ⟨cpu, memory⟩ = .ok () entered →
        ∀ (later after : Board Memory) (step : Step),
          later.cpu.regs.s = entered.cpu.regs.s →
          later.bus[slotAddress (later.cpu.regs.s + 1)] =
            entered.bus[slotAddress (later.cpu.regs.s + 1)] →
          Board.execute later = .ok step after → step.mnemonic = source.undo →
          after.cpu.regs.p = cpu.regs.p := by
  have hregular := h.regular
  -- whichever board the byte is pulled on
  have hback (source : StatusPush) {γ : Type} [Bus γ] {later after : Board γ} {step : Step}
      (hpull : later.PullsStatus (source.image cpu.regs.p))
      (hrun : Board.execute later = .ok step after) (hundo : step.mnemonic = source.undo) :
      after.cpu.regs.p = cpu.regs.p := by
    rw [Board.pulled_status hrun (by rw [hundo]; exact source.undo_cases) hpull]
    exact source.ofStack_image hregular
  refine ⟨hregular, fun source => ⟨source.image_bits _, ?_, ?_⟩⟩
  · intro β _ recorder hstarts
    obtain ⟨made, hhistory, hmade⟩ := source.adds hstarts
    refine ⟨made, hhistory, ?_⟩
    intro value hvalue
    have himage : value = source.image cpu.regs.p := hmade _ hvalue value rfl
    refine ⟨himage, ?_⟩
    intro γ _ later after step hpull hrun hundo
    rw [himage] at hpull
    exact hback source hpull hrun hundo
  · intro memory entered hstarts hcall later after step hs hbyte hrun hundo
    refine hback source ⟨_, later.bus, later.bus, rfl, ?_⟩ hrun hundo
    rw [← source.stores hstarts hcall, ← hs, ← hbyte]
    rfl

/-- PHP and then PLP, from power-on. -/
theorem php_plp_restores :
    let memory := (Memory.zeros.set 0x8000 0x08).set 0x8001 0x28
    ∃ entered step after, StatusPush.php.call.run ⟨Cpu.powerOn, memory⟩ = .ok () entered ∧
      Board.execute entered = .ok step after ∧ entered.bus[(0x01FF : UInt16)] = 0x30 ∧
      after.cpu.regs.p.byte = 0x20 := by
  intro memory
  have hbyte (a : UInt16) : memory[a] =
      if 0x8001 = a then 0x28 else if 0x8000 = a then 0x08 else 0 := by
    simp only [memory, Cells.getElem_set, Memory.zeros, Cells.getElem_fill]
  let board : Board Memory := ⟨Cpu.powerOn, memory⟩
  let entered : Board Memory :=
    ⟨⟨{ Registers.powerOn with pc := 0x8000 + 1, s := 0xFF - 1 }, 3⟩,
      Cells.set memory (slotAddress 0xFF) Registers.powerOn.p.pushedByProgram⟩
  have hphp : board.bus[board.cpu.regs.pc] = 0x08 := hbyte 0x8000
  have hpushed : Board.execute board = .ok ⟨0x8000, 0x08, .php, .implicit, 3⟩ entered :=
    (Board.execute_memory_eq_ok (o := ⟨0x08, .php, .implicit, 3⟩) hphp
      (Opcode.decode_byte (by decide))).mpr ⟨_, _, _, _, rfl, rfl, rfl, rfl⟩
  have hcall : StatusPush.php.call.run board = .ok () entered :=
    Attempt.bind_eq_ok.mpr ⟨_, entered, hpushed, rfl⟩
  have hplp : entered.bus[entered.cpu.regs.pc] = 0x28 :=
    (Cells.getElem_set_of_ne memory (by decide) _).trans (hbyte 0x8001)
  obtain ⟨after, hpulled⟩ : ∃ after, Board.execute entered =
      .ok ⟨0x8001, 0x28, .plp, .implicit, 4⟩ after :=
    ⟨_, (Board.execute_memory_eq_ok (o := ⟨0x28, .plp, .implicit, 4⟩) hplp
      (Opcode.decode_byte (by decide))).mpr ⟨_, _, _, _, rfl, rfl, rfl, rfl⟩⟩
  obtain ⟨-, hsources⟩ := status_byte Cpu.powerOn .powerOn
  obtain ⟨-, -, hback⟩ := hsources .php
  have hstarts : StatusPush.php.Starts board :=
    ⟨memory, congrArg (EStateM.Result.ok · memory) hphp⟩
  have hp : after.cpu.regs.p = Cpu.powerOn.regs.p :=
    hback memory entered hstarts hcall entered after _ rfl rfl hpulled rfl
  refine ⟨entered, _, after, hcall, hpulled, ?_, ?_⟩
  · rw [show (0x01FF : UInt16) = slotAddress 0xFF by decide, Cells.getElem_set_self]
    decide
  · rw [hp]
    rfl

end NesMachine
