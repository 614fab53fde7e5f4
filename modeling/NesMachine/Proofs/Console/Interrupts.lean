import NesMachine.Proofs.Console.Transparency

/-!
# Interrupts along a run

The gate of a console is one mark and one byte.  This file says what they mean for the run behind
them: `Handling past sp` holds if an interrupt was taken in `past` with the stack pointer at `sp`
and no instruction since has brought the stack pointer back there.

* `Drives.tracks`: along every run from a console that handles no interrupt, the gate is marked
  with `sp` exactly while `Handling past sp` holds;
* `interrupts_never_stack`: hence a second interrupt waits until the stack has unwound to where it
  was before the first one.
-/

namespace NesMachine

namespace Console

variable {past records : List StepTaken} {taken : StepTaken} {console final : Console} {sp : UInt8}

/-! ### Handlers that have not returned -/

/-- An interrupt that was taken with the stack pointer at `sp` is still being handled: no
instruction since has left the stack pointer there. -/
def Handling (past : List StepTaken) (sp : UInt8) : Prop :=
  ∃ earlier entry since, past = earlier ++ entry :: since ∧ entry.Enters ∧
    entry.executed.cpu.regs.s = sp ∧ ∀ taken ∈ since, taken.executed.cpu.regs.s ≠ sp

theorem not_handling_nil : ¬ Handling [] sp := by
  intro hhandling
  obtain ⟨earlier, entry, since, hpast, -⟩ := hhandling
  simp at hpast

/-- A further step takes an interrupt itself, or leaves the stack pointer elsewhere. -/
theorem handling_append_singleton :
    Handling (past ++ [taken]) sp ↔
      (taken.Enters ∧ taken.executed.cpu.regs.s = sp) ∨
        (Handling past sp ∧ taken.executed.cpu.regs.s ≠ sp) := by
  refine ⟨?_, ?_⟩
  · intro hhandling
    obtain ⟨earlier, entry, since, hpast, henters, hsp, hsince⟩ := hhandling
    rcases List.eq_nil_or_concat since with rfl | ⟨since, last, rfl⟩
    · obtain ⟨-, hlast⟩ := List.append_inj' hpast rfl
      cases hlast
      exact .inl ⟨henters, hsp⟩
    · rw [List.concat_eq_append, ← List.cons_append, ← List.append_assoc] at hpast
      obtain ⟨rfl, hlast⟩ := List.append_inj' hpast rfl
      cases hlast
      refine .inr ⟨⟨earlier, entry, since, rfl, henters, hsp, ?_⟩, ?_⟩
      · intro other hmem
        exact hsince other (by simp [hmem])
      · exact hsince taken (by simp)
  · intro hlast
    rcases hlast with ⟨henters, hsp⟩ |
      ⟨⟨earlier, entry, since, rfl, henters, hsp, hsince⟩, hne⟩
    · exact ⟨past, taken, [], rfl, henters, hsp, fun other hmem => absurd hmem List.not_mem_nil⟩
    · refine ⟨earlier, entry, since ++ [taken], by simp, henters, hsp, ?_⟩
      intro other hmem
      rcases List.mem_append.mp hmem with hmem | hmem
      · exact hsince other hmem
      · rw [List.mem_singleton.mp hmem]
        exact hne

/-- The gate tells which interrupt of the past is still being handled. -/
def Tracks (past : List StepTaken) (console : Console) : Prop :=
  ∀ sp, console.nmi = ⟨true, sp⟩ ↔ Handling past sp

/-- A step keeps the gate in accord with the past. -/
theorem Tracks.step (h : Tracks past taken.before) : Tracks (past ++ [taken]) taken.after := by
  intro sp
  rw [handling_append_singleton, ← h sp]
  by_cases henters : taken.Enters
  · -- what was marked before the interrupt has been cleared by this very step
    rw [taken.after_nmi_of_enters henters]
    refine ⟨?_, ?_⟩
    · intro hnmi
      cases hnmi
      exact .inl ⟨henters, rfl⟩
    · intro hlast
      rcases hlast with ⟨-, hsp⟩ | ⟨hnmi, hne⟩
      · rw [hsp]
      · obtain ⟨-, hfree⟩ := taken.enters_iff.mp henters
        rw [taken.executed_nmi, hnmi] at hfree
        rcases hfree with hidle | hback
        · cases hidle
        · exact absurd hback hne
  · rw [taken.after_nmi_of_not_enters henters, NmiGate.finish_eq_running]
    refine ⟨?_, ?_⟩
    · exact .inr
    · intro hlast
      rcases hlast with ⟨h, -⟩ | h
      · exact absurd h henters
      · exact h

theorem Drives.tracks (h : Drives console records final) :
    ∀ past, Tracks past console → ∀ between taken rest, records = between ++ taken :: rest →
      Tracks (past ++ between) taken.before := by
  induction h with
  | done console =>
    intro past _ between taken rest hrecords
    simp at hrecords
  | button pad button on hpressed _ ih =>
    intro past htracks
    refine ih past ?_
    intro sp
    rw [(setButton_eq_some hpressed).2.2.1]
    exact htracks sp
  | step first _ ih =>
    intro past htracks between taken rest hrecords
    cases between with
    | nil =>
      cases hrecords
      rw [List.append_nil]
      exact htracks
    | cons other between =>
      cases hrecords
      rw [List.append_cons]
      exact ih (past ++ [first]) htracks.step between taken rest rfl

/-- A console that has just been switched on handles no interrupt. -/
theorem tracks_powerOn (settings : Settings) (cartridge : Cartridge) :
    Tracks [] (powerOn settings cartridge) := by
  intro sp
  refine ⟨?_, ?_⟩
  · intro hnmi
    cases hnmi
  · intro hhandling
    exact absurd hhandling not_handling_nil

/-! ### Interrupts never stack -/

/-- If nothing has unwound the stack between two interrupts, the second was not taken. -/
theorem exists_return {between : List StepTaken} {first second : StepTaken}
    (hgate : ∀ sp, Handling (past ++ first :: between) sp → second.before.nmi = ⟨true, sp⟩)
    (hfirst : first.Enters) (hsecond : second.Enters) :
    ∃ taken ∈ between ++ [second], taken.executed.cpu.regs.s = first.executed.cpu.regs.s := by
  by_contra hnone
  have hne (taken : StepTaken) (hmem : taken ∈ between ++ [second]) :
      taken.executed.cpu.regs.s ≠ first.executed.cpu.regs.s :=
    fun hsp => hnone ⟨taken, hmem, hsp⟩
  have hhandling : Handling (past ++ first :: between) first.executed.cpu.regs.s :=
    ⟨past, first, between, rfl, hfirst, rfl, fun taken hmem => hne taken (by simp [hmem])⟩
  obtain ⟨-, hfree⟩ := second.enters_iff.mp hsecond
  rw [second.executed_nmi, hgate _ hhandling] at hfree
  rcases hfree with hidle | hback
  · cases hidle
  · exact hne second (by simp) hback

/-- **Interrupts along a run from power-on.**  A step takes an interrupt exactly if the timer fires
on it and after its instruction no interrupt is being handled or the stack pointer is back where
it was before that interrupt; the gate is marked exactly while an earlier interrupt of the run is
being handled.  Between two interrupts some instruction, at the latest that of the second one's own
step, leaves the stack pointer where it was before the first.  And the status register turns over
whenever the timer fires, and at no other time. -/
theorem interrupts_never_stack {settings : Settings} {cartridge : Cartridge}
    (h : Drives (powerOn settings cartridge) records final) :
    (∀ past taken rest, records = past ++ taken :: rest →
      (taken.Enters ↔ taken.Fires ∧ (taken.executed.nmi.inFlight = false ∨
        taken.executed.cpu.regs.s = taken.executed.nmi.capturedSp)) ∧
      ∀ sp, taken.executed.nmi = ⟨true, sp⟩ ↔ Handling past sp) ∧
    (∀ past first between second rest,
      records = past ++ first :: (between ++ second :: rest) → first.Enters → second.Enters →
        ∃ taken ∈ between ++ [second],
          taken.executed.cpu.regs.s = first.executed.cpu.regs.s) ∧
    ∀ taken ∈ records, taken.after.bus.peek SystemBus.statusAddress =
      if taken.Fires then taken.executed.bus.peek SystemBus.statusAddress ^^^ 0x80
      else taken.executed.bus.peek SystemBus.statusAddress := by
  have hstart := tracks_powerOn settings cartridge
  have htracks (past : List StepTaken) (taken : StepTaken) (rest : List StepTaken)
      (hrecords : records = past ++ taken :: rest) : Tracks past taken.before := by
    have htaken := h.tracks [] hstart past taken rest hrecords
    rw [List.nil_append] at htaken
    exact htaken
  refine ⟨?_, ?_, ?_⟩
  · intro past taken rest hrecords
    refine ⟨taken.enters_iff, ?_⟩
    intro sp
    rw [taken.executed_nmi]
    exact htracks past taken rest hrecords sp
  · intro past first between second rest hrecords hfirst hsecond
    have hbefore := htracks (past ++ first :: between) second rest (by rw [hrecords]; simp)
    exact exists_return (fun sp => (hbefore sp).mpr) hfirst hsecond
  · intro taken hmem
    exact StepTaken.peek_status (h.wired (wired_powerOn settings cartridge) hmem)

/-- A parked program is interrupted twice, and before the second time the stack has unwound. -/
theorem parked_program_unwinds :
    ∃ records past first between second final,
      Drives (powerOn Settings.default parkingCartridge) records final ∧
      records = past ++ first :: (between ++ [second]) ∧ first.Enters ∧ second.Enters ∧
      (∃ taken ∈ between ++ [second],
        taken.executed.cpu.regs.s = first.executed.cpu.regs.s) ∧
      ∀ taken ∈ records, taken.after.bus.peek SystemBus.statusAddress =
        if taken.Fires then taken.executed.bus.peek SystemBus.statusAddress ^^^ 0x80
        else taken.executed.bus.peek SystemBus.statusAddress := by
  obtain ⟨waiting, first, jump, rti, hround, hshown, hback⟩ :=
    exists_round (showsProgram_powerOn Settings.default _) rfl rfl rfl
  have hwhole : ∃ between second final,
      Drives (powerOn Settings.default parkingCartridge)
        (waiting ++ first :: (between ++ [second])) final ∧ second.Enters := by
    have hrun := hround.waits.append hround.handles
    rw [List.append_assoc] at hrun
    by_cases hrti : rti.Enters
    · exact ⟨[jump], rti, rti.after, hrun, hrti⟩
    · -- the return falls on no vertical blanking, and the program is parked again
      obtain ⟨hpc, hs, hidle⟩ := hback hrti
      obtain ⟨later, second, _, _, hlater, -⟩ := exists_round hshown hpc hs hidle
      refine ⟨[jump, rti] ++ later, second, second.after, ?_, hlater.enters⟩
      have hboth := hrun.append hlater.waits
      simp only [List.append_assoc, List.cons_append, List.nil_append] at hboth ⊢
      exact hboth
  obtain ⟨between, second, final, hdrives, hsecond⟩ := hwhole
  obtain ⟨-, hunwinds, hstatus⟩ := interrupts_never_stack hdrives
  exact ⟨_, waiting, first, between, second, final, hdrives, rfl, hround.enters, hsecond,
    hunwinds waiting first between second [] rfl hround.enters hsecond, hstatus⟩

end Console

end NesMachine
