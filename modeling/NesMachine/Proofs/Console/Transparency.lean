import NesMachine.Proofs.Console.Idle

/-!
# An interrupt is transparent

A handler may be any program: it may push, call, write device registers and let vertical blankings
pass.  As long as it stays below the frame of its interrupt and stores nothing there through any
alias, the program that was interrupted does not notice.

* `HoldsFrame regs console`: the console handles the interrupt that was taken with the registers
  `regs`, and its frame lies untouched on the stack;
* `HoldsFrame.of_enters`, `HoldsFrame.after`: an interrupt establishes it, and a step of such a
  handler keeps it;
* `exists_round`: a parked program whose handler is such a one;
* `interrupt_transparent`: hence the return from the handler restores the registers, and until then
  no other interrupt is taken.
-/

namespace NesMachine

/-- A step of a handler: afterwards the stack pointer is below the frame that was pushed from `c`,
and a store of its instruction reaches no alias of the frame. -/
structure StepTaken.SparesFrame (c : UInt8) (taken : StepTaken) : Prop where
  below : taken.executed.cpu.regs.s.toNat + 3 ≤ c.toNat
  spares : ∀ a, taken.before.board.StoresAt a → ∀ slot ∈ Board.interruptFrame c,
    a ∉ taken.before.bus.space.aliasesOf slot

namespace Console

/-- The interrupt that was taken with the given registers is being handled, and the bytes that it
has pushed are still there. -/
structure HoldsFrame (regs : Registers) (console : Console) : Prop where
  wired : console.bus.Wired
  running : console.nmi = ⟨true, regs.s⟩
  below : console.cpu.regs.s.toNat + 3 ≤ regs.s.toNat
  high : console.bus.peek (wordOf regs.s 1) = highByte regs.pc
  low : console.bus.peek (wordOf (regs.s - 1) 1) = lowByte regs.pc
  status : console.bus.peek (wordOf (regs.s - 2) 1) = regs.p.pushedByInterrupt

variable {regs : Registers} {console final : Console} {taken : StepTaken}

/-! ### The frame -/

/-- The slots of a frame lie above those that its handler uses. -/
theorem toNat_le_of_mem_interruptFrame {c : UInt8} {a : UInt16} (hc : 3 ≤ c.toNat)
    (ha : a ∈ Board.interruptFrame c) :
    ∃ slot : UInt8, a = wordOf slot 1 ∧ c.toNat ≤ slot.toNat + 2 := by
  have hpred (n : UInt8) (hn : n.toNat ≤ 2) : c.toNat ≤ (c - n).toNat + 2 := by
    have hsub := Board.toNat_sub_add (s := c) (n := n) (by omega)
    omega
  simp only [Board.interruptFrame, List.mem_cons, List.not_mem_nil, or_false] at ha
  rcases ha with rfl | rfl | rfl
  · exact ⟨c, rfl, by omega⟩
  · exact ⟨c - 1, rfl, hpred 1 (by decide)⟩
  · exact ⟨c - 2, rfl, hpred 2 (by decide)⟩

theorem HoldsFrame.of_enters (hwired : taken.before.bus.Wired) (henters : taken.Enters) :
    HoldsFrame taken.executed.cpu.regs taken.after := by
  obtain ⟨hs, -⟩ := Board.nmi_eq_ok.mp henters
  have hroom : 3 ≤ taken.executed.cpu.regs.s.toNat := hs
  obtain ⟨hregs, hhigh, hlow, hstatus⟩ := (StepTaken.flipped_wired hwired).nmi_ok henters
  refine ⟨StepTaken.after_wired hwired, taken.after_nmi_of_enters henters, ?_, hhigh, hlow, hstatus⟩
  show taken.after.board.cpu.regs.s.toNat + 3 ≤ taken.executed.cpu.regs.s.toNat
  rw [hregs]
  exact Nat.le_of_eq (Board.toNat_sub_add hroom)

/-! ### A step of the handler -/

/-- Outside a return nothing else is taken: the stack pointer is still below the frame. -/
theorem HoldsFrame.not_enters (h : HoldsFrame regs taken.before)
    (hspares : taken.SparesFrame regs.s) : ¬ taken.Enters := by
  intro henters
  obtain ⟨-, hfree⟩ := taken.enters_iff.mp henters
  rw [taken.executed_nmi, h.running] at hfree
  rcases hfree with hidle | hback
  · cases hidle
  · have hbelow := hspares.below
    rw [hback] at hbelow
    simp only at hbelow
    omega

/-- What the instruction writes is a slot below the frame or spared by hypothesis. -/
theorem HoldsFrame.peek_executed (h : HoldsFrame regs taken.before)
    (hspares : taken.SparesFrame regs.s) {a : UInt16} (ha : a ∈ Board.interruptFrame regs.s) :
    taken.executed.bus.peek a = taken.before.bus.peek a := by
  have hbelow := h.below
  obtain ⟨slot, rfl, hslot⟩ := toNat_le_of_mem_interruptFrame (by omega) ha
  have howner := h.wired.owner_of_storage (SystemBus.isStorage_slot slot)
  refine h.wired.peek_reaches ?_ ?_ (Board.execute_reaches taken.executes)
  · rw [howner]
    exact SystemBus.slot_ne slot (by decide)
  · intro b hb
    rcases hb with ⟨other, hother, rfl⟩ | hstores
    · rw [howner, h.wired.owner_of_storage (SystemBus.isStorage_slot other)]
      intro heq
      rw [wordOf_inj heq] at hother
      have hpointer : slot.toNat ≤ taken.before.cpu.regs.s.toNat := hother
      omega
    · intro heq
      exact hspares.spares b hstores _ ha ((AddressSpace.mem_aliasesOf _ _ _).mpr heq)

theorem HoldsFrame.peek_after (h : HoldsFrame regs taken.before)
    (hspares : taken.SparesFrame regs.s) {a : UInt16} (ha : a ∈ Board.interruptFrame regs.s) :
    taken.after.bus.peek a = taken.before.bus.peek a := by
  rw [← h.peek_executed hspares ha]
  show taken.after.board.bus.peek a = taken.executed.bus.peek a
  rcases taken.after_cases with ⟨-, -, hboard, -⟩ | ⟨-, -, -, hboard, -⟩ | ⟨-, henters, -⟩
  · rw [hboard]
    rfl
  · -- a vertical blanking without an interrupt turns the status register over, far from page one
    have hwired := StepTaken.executed_wired h.wired
    obtain ⟨slot, rfl⟩ := Board.slot_of_mem_interruptFrame ha
    rw [hboard]
    refine SystemBus.peek_setVblank_of_ne ?_ _
    show taken.executed.bus.space.owner SystemBus.statusAddress
      ≠ taken.executed.bus.space.owner (wordOf slot 1)
    rw [hwired.owner_of_storage (SystemBus.isStorage_slot slot),
      hwired.owner_of_storage (a := SystemBus.statusAddress) (by decide)]
    exact (SystemBus.slot_ne slot (by decide)).symm
  · exact absurd henters (h.not_enters hspares)

theorem HoldsFrame.after (h : HoldsFrame regs taken.before) (hspares : taken.SparesFrame regs.s) :
    HoldsFrame regs taken.after := by
  have hnot := h.not_enters hspares
  refine ⟨StepTaken.after_wired h.wired, ?_, ?_, ?_, ?_, ?_⟩
  · rw [taken.after_nmi_of_not_enters hnot, NmiGate.finish_eq_running]
    refine ⟨h.running, ?_⟩
    intro hback
    have hbelow := hspares.below
    rw [hback] at hbelow
    omega
  · rw [StepTaken.cpu_after_of_not_enters hnot]
    exact hspares.below
  · rw [h.peek_after hspares (by simp [Board.interruptFrame])]
    exact h.high
  · rw [h.peek_after hspares (by simp [Board.interruptFrame])]
    exact h.low
  · rw [h.peek_after hspares (by simp [Board.interruptFrame])]
    exact h.status

theorem HoldsFrame.button {pressed : Console} {pad : Nat} {button : UInt8} {on : Bool}
    (hpressed : console.setButton pad button on = some pressed) (h : HoldsFrame regs console) :
    HoldsFrame regs pressed := by
  obtain ⟨hcpu, hspace, hnmi, -⟩ := setButton_eq_some hpressed
  have hpeek (a : UInt16) : pressed.bus.peek a = console.bus.peek a := by
    rw [SystemBus.peek, hspace, SystemBus.peek]
  refine ⟨?_, ?_, ?_, ?_, ?_, ?_⟩
  · rw [SystemBus.Wired, hspace]
    exact h.wired
  · rw [hnmi]
    exact h.running
  · rw [hcpu]
    exact h.below
  · rw [hpeek]
    exact h.high
  · rw [hpeek]
    exact h.low
  · rw [hpeek]
    exact h.status

/-! ### The return -/

/-- A return with the stack pointer just below the frame restores the registers from it. -/
theorem HoldsFrame.executed_regs (h : HoldsFrame regs taken.before)
    (hrti : taken.instruction.mnemonic = .rti)
    (hs : taken.before.cpu.regs.s.toNat + 3 = regs.s.toNat) :
    taken.executed.cpu.regs.pc = regs.pc ∧ taken.executed.cpu.regs.s = regs.s ∧
      taken.executed.cpu.regs.p = ⟨(regs.p.byte ||| Flag.unused) &&& ~~~Flag.breakMark⟩ := by
  have hc : taken.before.cpu.regs.s + 3 = regs.s := by
    have hlt := regs.s.toNat_lt
    have hroom : taken.before.cpu.regs.s.toNat + (3 : UInt8).toNat ≤ 255 := by
      show taken.before.cpu.regs.s.toNat + 3 ≤ 255
      omega
    exact UInt8.toNat_inj.mp ((Board.toNat_add_of_le hroom).trans hs)
  have hc₁ : taken.before.cpu.regs.s + 1 = regs.s - 2 := by grind
  have hc₂ : taken.before.cpu.regs.s + 2 = regs.s - 1 := by grind
  rw [StepTaken.regs_executed_of_rti h.wired hrti, hc, hc₁, hc₂, h.status, h.low, h.high]
  refine ⟨wordOf_lowByte_highByte regs.pc, rfl, ?_⟩
  exact Status.ofStack_pushedByInterrupt regs.p

/-! ### A handler of two steps -/

/-- From the console, steps without an interrupt lead to `first`, and then the handler jumps once
and returns. -/
structure Round (console : Console) (waiting : List StepTaken) (first jump rti : StepTaken) :
    Prop where
  waits : Drives console (waiting ++ [first]) first.after
  handles : Drives first.after [jump, rti] rti.after
  wired : first.before.bus.Wired
  enters : first.Enters
  spares : jump.SparesFrame first.executed.cpu.regs.s
  returns : rti.instruction.mnemonic = .rti
  level : rti.before.cpu.regs.s.toNat + 3 = first.executed.cpu.regs.s.toNat

/-- The jump at the start of the handler. -/
theorem exists_handler_jump {first : StepTaken}
    (h : ShowsProgram parkingProgram first.executed.bus)
    (hwired : first.before.bus.Wired) (henters : first.Enters)
    (hs : first.executed.cpu.regs.s = 0xFF) :
    ∃ jump : StepTaken, jump.before = first.after ∧ jump.SparesFrame first.executed.cpu.regs.s ∧
      jump.executed.bus = first.after.bus ∧ jump.executed.cpu.regs.s = 0xFC ∧
      jump.executed.cpu.regs.pc = 0x9003 := by
  have hafter := h.after hwired
  have hpc : first.after.cpu.regs.pc = 0x9000 := by
    rw [h.pc_after hwired henters]
    decide
  have hlevel : first.after.cpu.regs.s = 0xFC := by
    rw [StepTaken.regs_after_of_enters hwired henters]
    show first.executed.cpu.regs.s - 3 = 0xFC
    rw [hs]
    rfl
  have hexecute := execute_jump hafter.wired (by rw [hpc]; decide) (by rw [hpc]; decide)
    (by rw [hpc]; decide) (by rw [hpc, hafter.byte 0x9000 (by decide)]; decide)
  obtain ⟨jump, hbefore, hinstruction, hboard⟩ := exists_stepTaken_of_execute hexecute (by
    show 3 ≤ first.after.cpu.regs.s.toNat
    rw [hlevel]
    decide)
  have hbus : jump.executed.bus = first.after.bus := by
    rw [bus, hboard]
  have hjumped : jump.executed.cpu.regs.s = 0xFC := by
    rw [cpu, hboard]
    exact hlevel
  refine ⟨jump, hbefore, ⟨?_, ?_⟩, hbus, hjumped, ?_⟩
  · rw [hjumped, hs]
    decide
  · intro a hstores
    have hjmp := hstores.stores jump.executes
    rw [hinstruction] at hjmp
    cases hjmp
  · rw [cpu, hboard, hpc, hafter.byte (0x9000 + 1) (by decide),
      hafter.byte (0x9000 + 2) (by decide)]
    show wordOf (bankByte parkingProgram 0x1001) (bankByte parkingProgram 0x1002) = 0x9003
    decide

/-- The return that the handler has jumped to. -/
theorem exists_handler_return (h : ShowsProgram parkingProgram console.bus)
    (hpc : console.cpu.regs.pc = 0x9003) (hs : console.cpu.regs.s = 0xFC) :
    ∃ rti : StepTaken, rti.before = console ∧ rti.instruction.mnemonic = .rti ∧
      rti.executed.bus = console.bus := by
  have hback : console.cpu.regs.s + 3 = 0xFF := by
    rw [hs]
    rfl
  have hexecute := execute_return h.wired (by rw [hpc]; decide)
    (by rw [hpc, h.byte 0x9003 (by decide)]; decide) (by rw [hs]; decide)
  rw [hback] at hexecute
  have hroom : 3 ≤ (0xFF : UInt8).toNat := by decide
  obtain ⟨rti, hbefore, hinstruction, hboard⟩ := exists_stepTaken_of_execute hexecute hroom
  refine ⟨rti, hbefore, ?_, ?_⟩
  · rw [hinstruction]
  · rw [bus, hboard]

/-- The parked program is interrupted, and its handler brings it back to where it was. -/
theorem exists_round (h : ShowsProgram parkingProgram console.bus)
    (hpc : console.cpu.regs.pc = 0x8000) (hs : console.cpu.regs.s = 0xFF)
    (hidle : console.nmi.inFlight = false) :
    ∃ waiting first jump rti, Round console waiting first jump rti ∧
      ShowsProgram parkingProgram rti.after.bus ∧
      (¬ rti.Enters → rti.after.cpu.regs.pc = 0x8000 ∧ rti.after.cpu.regs.s = 0xFF ∧
        rti.after.nmi.inFlight = false) := by
  obtain ⟨waiting, first, hwaits⟩ :=
    (parked_parkingProgram h hpc).exists_lingers (by rw [hs]; decide)
  have henters := hwaits.enters_iff.mpr (.inl hidle)
  obtain ⟨hregs, hbus⟩ := hwaits.board first (by simp)
  have hwired := hwaits.wired_before h.wired
  rw [← hbus] at h
  rw [← hregs] at hpc hs
  obtain ⟨jump, hjump, hspares, hjumpBus, hjumpS, hjumpPc⟩ := exists_handler_jump h hwired henters hs
  -- the frame is held up to the return
  have hstart : HoldsFrame first.executed.cpu.regs jump.before := by
    rw [hjump]
    exact .of_enters hwired henters
  have hheld := hstart.after hspares
  have hshown : ShowsProgram parkingProgram jump.after.bus := by
    refine ShowsProgram.after ?_ hstart.wired
    rw [hjumpBus]
    exact h.after hwired
  rw [← StepTaken.cpu_after_of_not_enters (hstart.not_enters hspares)] at hjumpS hjumpPc
  obtain ⟨rti, hnext, hrti, hrtiBus⟩ := exists_handler_return hshown hjumpPc hjumpS
  have hlevel : rti.before.cpu.regs.s.toNat + 3 = first.executed.cpu.regs.s.toNat := by
    rw [hnext, hjumpS, hs]
    rfl
  rw [← hnext] at hheld hshown hrtiBus
  obtain ⟨hrtiPc, hrtiS, -⟩ := hheld.executed_regs hrti hlevel
  have hhandles : Drives first.after [jump, rti] rti.after := by
    rw [← hjump]
    refine .step jump ?_
    rw [← hnext]
    exact .step rti (.done _)
  rw [← hrtiBus] at hshown
  refine ⟨waiting, first, jump, rti,
    ⟨hwaits.drives, hhandles, hwired, henters, hspares, hrti, hlevel⟩, hshown.after hheld.wired, ?_⟩
  intro hnot
  rw [StepTaken.cpu_after_of_not_enters hnot, rti.after_nmi_of_not_enters hnot,
    NmiGate.inFlight_finish_eq_false, hheld.running]
  exact ⟨hrtiPc.trans hpc, hrtiS.trans hs, .inr hrtiS⟩

/-! ### The whole handler -/

theorem HoldsFrame.before_of_drives {body rest : List StepTaken} (h : HoldsFrame regs console)
    (hdrives : Drives console (body ++ taken :: rest) final)
    (hbody : ∀ other ∈ body, other.SparesFrame regs.s) : HoldsFrame regs taken.before :=
  hdrives.before_of_keeps (I := HoldsFrame regs) h (fun _ _ _ _ _ => HoldsFrame.button)
    fun other hmem hheld => hheld.after (hbody other hmem)

/-- **An interrupt is transparent.**  Let a step take an interrupt, on any console that is wired as
it was made, and let its handler run for any number of steps, each of which leaves the stack
pointer below the frame and stores nothing at any alias of it, up to a return at the frame.  Then
no other interrupt is taken before the return, whose instruction restores the program counter, the
stack pointer and the status; and the mark of the gate, still set by then, is cleared in that step,
so that a vertical blanking that falls on it takes the next interrupt. -/
theorem interrupt_transparent {first rti : StepTaken} {body : List StepTaken}
    (hwired : first.before.bus.Wired) (henters : first.Enters)
    (h : Drives first.after (body ++ [rti]) final)
    (hbody : ∀ taken ∈ body, taken.SparesFrame first.executed.cpu.regs.s)
    (hrti : rti.instruction.mnemonic = .rti)
    (hs : rti.before.cpu.regs.s.toNat + 3 = first.executed.cpu.regs.s.toNat) :
    (∀ taken ∈ body, ¬ taken.Enters) ∧
    rti.executed.cpu.regs.pc = first.executed.cpu.regs.pc ∧
    rti.executed.cpu.regs.s = first.executed.cpu.regs.s ∧
    rti.executed.cpu.regs.p =
      ⟨(first.executed.cpu.regs.p.byte ||| Flag.unused) &&& ~~~Flag.breakMark⟩ ∧
    rti.executed.nmi.inFlight = true ∧ (retire rti.executed).nmi.inFlight = false ∧
    (rti.Fires → rti.Enters) ∧ (¬ rti.Fires → rti.after.nmi.inFlight = false) := by
  have hstart := HoldsFrame.of_enters hwired henters
  have hframe : HoldsFrame first.executed.cpu.regs rti.before := hstart.before_of_drives h hbody
  obtain ⟨hpc, hback, hp⟩ := hframe.executed_regs hrti hs
  have hgate : rti.executed.nmi = ⟨true, first.executed.cpu.regs.s⟩ := by
    rw [rti.executed_nmi]
    exact hframe.running
  have hretired : (rti.executed.nmi.finish rti.executed.cpu.regs.s).inFlight = false := by
    rw [NmiGate.inFlight_finish_eq_false, hgate]
    exact .inr hback
  refine ⟨?_, hpc, hback, hp, ?_, hretired, ?_, ?_⟩
  · intro taken hmem
    obtain ⟨earlier, later, rfl⟩ := List.append_of_mem hmem
    have hbefore : HoldsFrame first.executed.cpu.regs taken.before := by
      rw [List.append_assoc] at h
      exact hstart.before_of_drives h fun other hother => hbody other (by simp [hother])
    exact hbefore.not_enters (hbody taken hmem)
  · rw [hgate]
  · intro hfires
    refine rti.enters_iff.mpr ⟨hfires, .inr ?_⟩
    rw [hgate]
    exact hback
  · intro hfires
    have hnot : ¬ rti.Enters := fun hrtiEnters => hfires (rti.enters_iff.mp hrtiEnters).1
    rw [rti.after_nmi_of_not_enters hnot, ← rti.executed_nmi]
    exact hretired

/-- A parked program is interrupted, and a handler that jumps to its return is not noticed. -/
theorem jumping_handler_unnoticed :
    ∃ first jump rti : StepTaken, first.before.bus.Wired ∧ first.Enters ∧
      Drives first.after [jump, rti] rti.after ∧
      jump.SparesFrame first.executed.cpu.regs.s ∧ rti.instruction.mnemonic = .rti ∧
      rti.before.cpu.regs.s.toNat + 3 = first.executed.cpu.regs.s.toNat ∧
      ¬ jump.Enters ∧
      rti.executed.cpu.regs.pc = first.executed.cpu.regs.pc ∧
      rti.executed.cpu.regs.s = first.executed.cpu.regs.s ∧
      rti.executed.cpu.regs.p =
        ⟨(first.executed.cpu.regs.p.byte ||| Flag.unused) &&& ~~~Flag.breakMark⟩ ∧
      rti.executed.nmi.inFlight = true ∧ (retire rti.executed).nmi.inFlight = false ∧
      (rti.Fires → rti.Enters) ∧ (¬ rti.Fires → rti.after.nmi.inFlight = false) := by
  obtain ⟨waiting, first, jump, rti, hround, -⟩ :=
    exists_round (showsProgram_powerOn Settings.default _) rfl rfl rfl
  have hbody (taken : StepTaken) (hmem : taken ∈ [jump]) :
      taken.SparesFrame first.executed.cpu.regs.s := by
    rw [List.mem_singleton.mp hmem]
    exact hround.spares
  obtain ⟨hnone, hreturn⟩ := interrupt_transparent hround.wired hround.enters hround.handles hbody
    hround.returns hround.level
  exact ⟨first, jump, rti, hround.wired, hround.enters, hround.handles, hround.spares,
    hround.returns, hround.level, hnone jump List.mem_cons_self, hreturn⟩

end Console

end NesMachine
