import NesMachine.CommandLine.Program
import NesMachine.Files.Volume
import NesMachine.Proofs.Console.RunUntilIdle

/-!
# What the program answers

The program on the files of a volume, with any clock.  Its exit code tells how far it has come: `2`
if the arguments cannot be understood, `1` if a session has failed, and `0` otherwise.

* `Volume.read_eq_ok`: what is read at a path;
* `Session.Completes`: a session in which nothing goes wrong;
* `Session.run_of_completes`, `Session.run_of_not_completes`: what a session prints;
* `Program.run_on_volume`: what the program answers to any arguments.
-/

namespace NesMachine

namespace Volume

variable {volume : Volume} {path : String} {content : Image}

/-- A path leads to a file with the content. -/
def LeadsTo (volume : Volume) (path : String) (content : Image) : Prop :=
  ∃ place, volume.locate path = .ok place ∧ volume.entry? place = some (.file content)

/-- What is read is the content of the file that the path leads to. -/
theorem read_eq_ok : volume.read path = .ok content ↔ volume.LeadsTo path content := by
  rw [read, LeadsTo]
  cases volume.locate path with
  | error e => simp
  | ok place =>
    simp only [Except.ok.injEq, exists_eq_left']
    cases volume.entry? place with
    | none => simp
    | some entry => cases entry <;> simp

end Volume

/-! ### Sessions -/

namespace Session

variable {clock : Nat → Nat} {bound count : Nat} {options : Options} {image : Image}
  {console final : Console}

/-- A console makes the steps that the options ask for, or becomes idle in time. -/
def Drives (clock : Nat → Nat) (bound : Nat) (options : Options) (console : Console) (count : Nat)
    (final : Console) : Prop :=
  match options.ticks with
  | some ticks => count = ticks ∧ Console.steps ticks console = .ok () final
  | none => Console.EndsAs clock bound console (.idle count) final

/-- A session in which nothing goes wrong: the image is accepted, the console starts, and it gets as
far as the options ask. -/
def Completes (clock : Nat → Nat) (bound : Nat) (options : Options) (image : Image) (count : Nat)
    (final : Console) : Prop :=
  ∃ console started, Console.ofImage (settings options) image = .ok console ∧
    start options console = .ok started ∧ Drives clock bound options started count final

/-- A console takes the image. -/
def Accepts (options : Options) (image : Image) : Prop :=
  ∃ console, Console.ofImage (settings options) image = .ok console

theorem drive_eq_ok : drive (m := Id) clock bound options console = .ok (count, final) ↔
    Drives clock bound options console count final := by
  rw [drive, Drives]
  cases options.ticks with
  | some ticks =>
    dsimp only
    cases Console.steps ticks console with
    | ok u last =>
      show (.ok (ticks, last) : Except SessionError (Nat × Console)) = .ok (count, final) ↔ _
      simp [eq_comm]
    | error fault left =>
      show (.error (.fault fault) : Except SessionError (Nat × Console)) = .ok (count, final) ↔ _
      simp
  | none =>
    dsimp only
    rw [← Console.runUntilIdle_eq_iff]
    generalize Console.runUntilIdle (m := Id) clock bound console = result
    obtain ⟨outcome, last⟩ := result
    show _ ↔ ((outcome, last) : Console.IdleOutcome × Console) = (.idle count, final)
    cases outcome with
    | idle n =>
      show (.ok (n, last) : Except SessionError (Nat × Console)) = .ok (count, final) ↔ _
      simp
    | timedOut n elapsed =>
      show (.error (.timedOut n elapsed) : Except SessionError (Nat × Console)) =
        .ok (count, final) ↔ _
      simp
    | stopped n fault =>
      show (.error (.fault fault) : Except SessionError (Nat × Console)) = .ok (count, final) ↔ _
      simp
    | running n =>
      show (.error (.timedOut n last.timeout) : Except SessionError (Nat × Console)) =
        .ok (count, final) ↔ _
      simp

/-- **A session in which nothing goes wrong** ends with a report on the console that it has run. -/
theorem run_of_completes (h : Completes clock bound options image count final) :
    run (m := Id) clock bound options (.ok image) =
      success options (.ofConsole final options count) := by
  obtain ⟨console, started, himage, hstart, hdrives⟩ := h
  rw [run, himage]
  dsimp only
  rw [hstart]
  dsimp only
  rw [drive_eq_ok.mpr hdrives]
  rfl

/-- **Any other session** ends with one error, behind the message that the image is loaded if it
is. -/
theorem run_of_not_completes
    (h : ∀ count final, ¬ Completes clock bound options image count final) : ∃ error,
      (run (m := Id) clock bound options (.ok image) = failure "" error ∧ ¬ Accepts options image) ∨
      (run (m := Id) clock bound options (.ok image) = failure (loaded options) error ∧
        Accepts options image) := by
  rw [run]
  cases himage : Console.ofImage (settings options) image with
  | error e =>
    have hrefused : ¬ Accepts options image := by
      rintro ⟨console, hconsole⟩
      rw [himage] at hconsole
      cases hconsole
    exact ⟨.cartridge e, .inl ⟨rfl, hrefused⟩⟩
  | ok console =>
    have haccepts : Accepts options image := ⟨console, himage⟩
    dsimp only
    cases hstart : start options console with
    | error e => exact ⟨e, .inr ⟨rfl, haccepts⟩⟩
    | ok started =>
      dsimp only
      cases hdrive : drive (m := Id) clock bound options started with
      | error e => exact ⟨e, .inr ⟨rfl, haccepts⟩⟩
      | ok reached =>
        exact absurd ⟨console, started, himage, hstart, drive_eq_ok.mp hdrive⟩
          (h reached.1 reached.2)

end Session

/-! ### The program -/

namespace Program

open Session

variable {args : List String} {options : Options} (volume : Volume) (clock : Nat → Nat) (bound : Nat)

theorem run_of_request (hrequest : Request.ofArguments args = .run options) :
    run (m := Id) volume.read clock bound args =
      Session.run (m := Id) clock bound options (volume.read options.rom) := by
  rw [run, hrequest]
  rfl

/-- How a session ends: with a report, with an error of the file, or with one of its content. -/
theorem run_cases (hrequest : Request.ofArguments args = .run options) :
    (∃ image count final, volume.LeadsTo options.rom image ∧
      Completes clock bound options image count final ∧
      run (m := Id) volume.read clock bound args =
        success options (.ofConsole final options count)) ∨
    (∀ image count final, volume.LeadsTo options.rom image →
      ¬ Completes clock bound options image count final) ∧
    ∃ error,
      (run (m := Id) volume.read clock bound args = failure "" error ∧
        ∀ image, volume.LeadsTo options.rom image → ¬ Accepts options image) ∨
      (run (m := Id) volume.read clock bound args = failure (loaded options) error ∧
        ∃ image, volume.LeadsTo options.rom image ∧ Accepts options image) := by
  rw [run_of_request volume clock bound hrequest]
  cases hfile : volume.read options.rom with
  | error e =>
    have hnone : ∀ image, ¬ volume.LeadsTo options.rom image := by
      intro image hleads
      rw [Volume.read_eq_ok.mpr hleads] at hfile
      cases hfile
    exact .inr ⟨fun image _ _ hleads => absurd hleads (hnone image), .file e,
      .inl ⟨rfl, fun image hleads => absurd hleads (hnone image)⟩⟩
  | ok image =>
    have hleads := Volume.read_eq_ok.mp hfile
    have honly : ∀ other, volume.LeadsTo options.rom other → other = image := by
      intro other hother
      rw [Volume.read_eq_ok.mpr hother] at hfile
      exact Except.ok.inj hfile
    by_cases hcompletes : ∃ count final, Completes clock bound options image count final
    · obtain ⟨count, final, hcompletes⟩ := hcompletes
      exact .inl ⟨image, count, final, hleads, hcompletes, run_of_completes hcompletes⟩
    · have hfails : ∀ count final, ¬ Completes clock bound options image count final :=
        fun count final h => hcompletes ⟨count, final, h⟩
      refine .inr ⟨fun other count final hother => honly other hother ▸ hfails count final, ?_⟩
      obtain ⟨error, ⟨hrun, hrefused⟩ | ⟨hrun, haccepts⟩⟩ := run_of_not_completes hfails
      · exact ⟨error, .inl ⟨hrun, fun other hother => honly other hother ▸ hrefused⟩⟩
      · exact ⟨error, .inr ⟨hrun, image, hleads, haccepts⟩⟩

/-- **What the program answers.**  On the files of any volume, with any clock and any arguments, the
exit code is `2` exactly if the arguments cannot be understood.  If they ask for a session, it is
`0` exactly if the path leads to a file and nothing goes wrong with its content, and the output is
then the report; otherwise it is `1`, and the output is one error, behind the message that the image
is loaded if it is. -/
theorem run_on_volume (args : List String) :
    let output : SessionOutput := run (m := Id) volume.read clock bound args
    (output.exitCode = 2 ↔ Request.ofArguments args = .rejected) ∧
    ∀ options, Request.ofArguments args = .run options →
      (output.exitCode = 0 ↔ ∃ image count final, volume.LeadsTo options.rom image ∧
        Completes clock bound options image count final) ∧
      (output.exitCode = 0 → ∃ image count final, volume.LeadsTo options.rom image ∧
        Completes clock bound options image count final ∧
        output = success options (.ofConsole final options count)) ∧
      (output.exitCode ≠ 0 → ∃ error,
        (output = failure "" error ∧
          ∀ image, volume.LeadsTo options.rom image → ¬ Accepts options image) ∨
        (output = failure (loaded options) error ∧
          ∃ image, volume.LeadsTo options.rom image ∧ Accepts options image)) := by
  dsimp only
  constructor
  · cases hrequest : Request.ofArguments args with
    | rejected =>
      rw [run, hrequest]
      exact iff_of_true rfl rfl
    | help =>
      rw [run, hrequest]
      refine iff_of_false ?_ nofun
      show (0 : Nat) ≠ 2
      decide
    | run options =>
      refine iff_of_false ?_ nofun
      obtain ⟨image, count, final, -, -, houtput⟩ | ⟨-, error, ⟨houtput, -⟩ | ⟨houtput, -⟩⟩ :=
        run_cases volume clock bound hrequest
      all_goals
        rw [houtput]
        simp
  · intro options hrequest
    obtain ⟨image, count, final, hleads, hcompletes, houtput⟩ | ⟨hfails, error, hcases⟩ :=
      run_cases volume clock bound hrequest
    · have hcode : (run (m := Id) volume.read clock bound args).exitCode = 0 := by
        rw [houtput, success_exitCode]
      exact ⟨iff_of_true hcode ⟨image, count, final, hleads, hcompletes⟩,
        fun _ => ⟨image, count, final, hleads, hcompletes, houtput⟩, fun h => absurd hcode h⟩
    · have hcode : (run (m := Id) volume.read clock bound args).exitCode ≠ 0 := by
        obtain ⟨houtput, -⟩ | ⟨houtput, -⟩ := hcases
        all_goals
          rw [houtput, failure_exitCode]
          decide
      refine ⟨iff_of_false hcode ?_, fun h => absurd h hcode, fun _ => ⟨error, hcases⟩⟩
      rintro ⟨image, count, final, hleads, hcompletes⟩
      exact hfails image count final hleads hcompletes

end Program

end NesMachine
