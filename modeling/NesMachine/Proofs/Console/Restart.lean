import NesMachine.Proofs.Console.Accounting
import NesMachine.Proofs.Console.Interrupts

/-!
# Interrupts after a reset

A reset starts the program again and leaves the gate as it is.  A handler that it cuts off still counts
as running, although it will never return: the program that is started pulls nothing that the
interrupt has pushed.

* `Drives.tracks_final`: what the gate tells after a run;
* `reset_delivers_iff`: the first vertical blanking after a reset takes an interrupt exactly if no
  handler was running, or the stack pointer has since come to where it was before that handler;
* `steady_program_interrupted`: a reset before and one within a handler;
* `cut_off_handler_blocks`: a program that is not interrupted again.
-/

namespace NesMachine

/-- A reset leaves the gate as it is. -/
theorem ResetTaken.after_nmi (taken : ResetTaken) : taken.after.nmi = taken.before.nmi := by
  obtain ⟨board, -, hafter⟩ := Console.onBoard_eq_ok.mp taken.resets
  rw [hafter]

namespace Console

variable {past records : List StepTaken} {console final : Console}

/-- What the gate tells after a run. -/
theorem Drives.tracks_final (h : Drives console records final) :
    ∀ past, Tracks past console → Tracks (past ++ records) final := by
  induction h with
  | done console =>
    intro past htracks
    rw [List.append_nil]
    exact htracks
  | button pad button on hpressed _ ih =>
    intro past htracks
    refine ih past fun sp => ?_
    rw [(setButton_eq_some hpressed).2.2.1]
    exact htracks sp
  | step first _ ih =>
    intro past htracks
    rw [List.append_cons]
    exact ih (past ++ [first]) htracks.step

/-! ### A program that is not interrupted again -/

/-- A reset parks the program again, with the stack pointer at `$FD`, until the timer fires. -/
theorem exists_steady_reset (h : ShowsProgram steadyProgram console.bus) :
    ∃ (reset : ResetTaken) (waiting : List StepTaken) (last : StepTaken), reset.before = console ∧
      Lingers reset.after waiting last ∧
      ∀ taken ∈ waiting ++ [last], taken.executed.cpu.regs.s = 0xFD := by
  obtain ⟨reset, hbefore, hbus, hregs⟩ := exists_resetTaken h.wired
  have hstart : reset.after.cpu.regs.pc = 0x8000 := by
    rw [hregs]
    show wordOf (console.bus.peek 0xFFFC) (console.bus.peek 0xFFFD) = 0x8000
    rw [h.byte 0xFFFC (by decide), h.byte 0xFFFD (by decide)]
    decide
  have hs : reset.after.cpu.regs.s = 0xFD := by rw [hregs]
  have hparked : Parked reset.after := parked_steadyProgram (by rw [hbus]; exact h) hstart
  obtain ⟨waiting, last, hwaits⟩ := hparked.exists_lingers (by rw [hs]; decide)
  refine ⟨reset, waiting, last, hbefore, hwaits, ?_⟩
  intro taken hmem
  rw [(hwaits.board taken hmem).1, hs]

/-- A reset that cuts off a handler, and the wait behind it. -/
theorem exists_cut_off :
    ∃ (records : List StepTaken) (reset : ResetTaken) (waiting : List StepTaken) (last : StepTaken),
      Drives (powerOn Settings.default steadyCartridge) records reset.before ∧
      Handling records 0xFF ∧ Lingers reset.after waiting last ∧
      ∀ taken ∈ waiting ++ [last], taken.executed.cpu.regs.s = 0xFD := by
  obtain ⟨earlier, first, hfirst, henters, -, hs, hshown, -⟩ := exists_steady_entry Settings.default
  obtain ⟨reset, waiting, last, hbefore, hwaits, hlevel⟩ := exists_steady_reset hshown
  refine ⟨earlier ++ [first], reset, waiting, last, ?_, ?_, hwaits, hlevel⟩
  · rw [hbefore]
    exact hfirst.drives
  · exact handling_append_singleton.mpr (.inl ⟨henters, hs⟩)

/-! ### The first vertical blanking after a reset -/

/-- **Interrupts after a reset.**  Let a console be switched on and run, let it be reset, and let it
run on while the timer does not fire.  If the next instruction executes, leaves room for the frame of
an interrupt and makes the timer fire, then its step succeeds.  The step takes the interrupt exactly
if every handler that was running at the reset has seen the stack pointer come back since, which the
reset itself does not bring about. -/
theorem reset_delivers_iff {settings : Settings} {cartridge : Cartridge} {reset : ResetTaken}
    {quiet : List StepTaken} {instruction : Step} {board : Board SystemBus}
    (h : Drives (powerOn settings cartridge) records reset.before)
    (hquiet : Drives reset.after quiet final) (hnone : ∀ taken ∈ quiet, ¬ taken.Fires)
    (hexecute : Board.execute final.board = .ok instruction board)
    (hroom : 3 ≤ board.cpu.regs.s.toNat)
    (hfires : final.vblank.fires instruction.cycles = true) :
    ∃ taken : StepTaken, taken.before = final ∧ taken.instruction = instruction ∧
      taken.executed.board = board ∧
      (taken.Enters ↔ ∀ sp, Handling records sp →
        ∃ other ∈ quiet ++ [taken], other.executed.cpu.regs.s = sp) := by
  obtain ⟨taken, rfl, rfl, hboard⟩ := exists_stepTaken_of_execute hexecute hroom
  refine ⟨taken, rfl, rfl, hboard, ?_⟩
  have hidle (other : StepTaken) (hmem : other ∈ quiet) : ¬ other.Enters :=
    fun henters => hnone other hmem (other.enters_iff.mp henters).1
  have htracks := h.tracks_final [] (tracks_powerOn settings cartridge)
  rw [List.nil_append] at htracks
  rw [hquiet.enters_iff_of_quiet hidle hfires, reset.after_nmi]
  refine ⟨?_, ?_⟩
  · intro hfree sp hhandling
    rw [(htracks sp).mpr hhandling] at hfree
    rcases hfree with hmark | hback
    · cases hmark
    · exact hback
  · intro hback
    by_cases hmark : reset.before.nmi.inFlight = false
    · exact .inl hmark
    · rw [Bool.not_eq_false] at hmark
      refine .inr (hback _ ((htracks _).mp ?_))
      rw [← hmark]

/-- A reset of a console that handles no interrupt: the next vertical blanking is delivered.  A reset
in the handler of an interrupt that was taken with an empty stack: it is not, because the reset leaves
the stack pointer at `$FD` and the program leaves it there. -/
theorem steady_program_interrupted :
    (∃ (reset : ResetTaken) (quiet : List StepTaken) (taken : StepTaken),
      reset.before = powerOn Settings.default steadyCartridge ∧
      Drives reset.after quiet taken.before ∧ taken.Fires ∧ taken.Enters) ∧
    ∃ (records : List StepTaken) (reset : ResetTaken) (quiet : List StepTaken) (taken : StepTaken),
      Drives (powerOn Settings.default steadyCartridge) records reset.before ∧
      Handling records 0xFF ∧ Drives reset.after quiet taken.before ∧ taken.Fires ∧
      ¬ taken.Enters := by
  have hroom : 3 ≤ (0xFD : UInt8).toNat := by decide
  refine ⟨?_, ?_⟩
  · obtain ⟨reset, quiet, last, hbefore, hwaits, hs⟩ :=
      exists_steady_reset (showsProgram_powerOn Settings.default _)
    have hstart : Drives (powerOn Settings.default steadyCartridge) [] reset.before := by
      rw [hbefore]
      exact .done _
    rw [← hs last (by simp)] at hroom
    obtain ⟨taken, htaken, hinstruction, -, henters⟩ :=
      reset_delivers_iff hstart hwaits.drives.before hwaits.quiet last.executes hroom hwaits.fires
    refine ⟨reset, quiet, taken, hbefore, ?_, ?_, ?_⟩
    · rw [htaken]
      exact hwaits.drives.before
    · rw [StepTaken.Fires, htaken, hinstruction]
      exact hwaits.fires
    · exact henters.mpr fun sp hhandling => absurd hhandling not_handling_nil
  · obtain ⟨records, reset, quiet, last, hdrives, hhandling, hwaits, hs⟩ := exists_cut_off
    rw [← hs last (by simp)] at hroom
    obtain ⟨taken, htaken, hinstruction, hboard, henters⟩ :=
      reset_delivers_iff hdrives hwaits.drives.before hwaits.quiet last.executes hroom hwaits.fires
    refine ⟨records, reset, quiet, taken, hdrives, hhandling, ?_, ?_, ?_⟩
    · rw [htaken]
      exact hwaits.drives.before
    · rw [StepTaken.Fires, htaken, hinstruction]
      exact hwaits.fires
    · -- the stack pointer never comes back to `$FF`
      rw [henters]
      intro hback
      obtain ⟨other, hmem, hother⟩ := hback 0xFF hhandling
      have hlevel : other.executed.cpu.regs.s = 0xFD := by
        rcases List.mem_append.mp hmem with hquiet | hlast
        · exact hs other (List.mem_append_left _ hquiet)
        · rw [List.mem_singleton.mp hlast, cpu, hboard]
          exact hs last (by simp)
      rw [hlevel] at hother
      exact absurd hother (by decide)

/-- A reset in the handler of an interrupt: the next vertical blanking is not delivered, although the
handler will never run again and the stack has room. -/
theorem cut_off_handler_blocks :
    ∃ (records quiet : List StepTaken) (reset : ResetTaken) (last : StepTaken),
      Drives (powerOn Settings.default steadyCartridge) records reset.before ∧
      Drives reset.after (quiet ++ [last]) last.after ∧
      (∀ taken ∈ quiet ++ [last], 3 ≤ taken.executed.cpu.regs.s.toNat) ∧
      (∀ taken ∈ quiet, ¬ taken.Fires) ∧ last.Fires ∧ ¬ last.Enters := by
  obtain ⟨records, reset, quiet, last, hdrives, hhandling, hwaits, hs⟩ := exists_cut_off
  refine ⟨records, quiet, reset, last, hdrives, hwaits.drives, ?_, hwaits.quiet, hwaits.fires, ?_⟩
  · intro taken hmem
    rw [hs taken hmem]
    decide
  · -- the interrupt was taken with an empty stack, which the reset does not bring back
    have hgate : reset.before.nmi = ⟨true, 0xFF⟩ :=
      (hdrives.tracks_final [] (tracks_powerOn _ _) 0xFF).mpr hhandling
    have hlast : last ∈ quiet ++ [last] := by simp
    rw [hwaits.enters_iff, reset.after_nmi, hgate, ← (hwaits.board last hlast).1, hs last hlast]
    decide

end Console

end NesMachine
