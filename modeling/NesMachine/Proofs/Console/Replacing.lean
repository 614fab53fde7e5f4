import NesMachine.Console.Idle
import NesMachine.Proofs.Attempt

/-!
# Replacing the program

A host may run a console, fault it, write to its processor and its bus, and load further images,
accepted or not.  Nothing of that changes the settings, and so the console that a new image makes is
the one that would have been made at the start.

* `HostCall`: what a host can do with a console, and `HostCall.settings_run`, that no call changes
  the settings;
* `Console.load_forgets`: after any calls, loading an image is switching on a new console with it.
-/

namespace NesMachine

namespace Console

open Attempt

/-! ### The settings -/

theorem settings_onBoard {α : Type} (action : Run SystemBus α) :
    Keeps settings (onBoard action) := by
  intro console
  rw [Attempt.after, onBoard_apply]
  cases action console.board <;> rfl

theorem settings_record (step : Step) (console : Console) :
    (record step console).settings = console.settings := by
  show Settings.mk console.region (console.trace.record step).depth console.timeout = _
  rw [Trace.depth_record]
  rfl

theorem settings_tick : Keeps settings tick :=
  (settings_onBoard _).bind fun step =>
    (keeps_modify (settings_record step)).bind fun _ => keeps_pure _

theorem settings_blank : Keeps settings blank := by
  refine (keeps_modify (f := flipVblank) fun _ => rfl).bind fun _ => ?_
  refine keeps_get.bind fun console => ?_
  split
  · exact keeps_pure _
  · exact (keeps_modify (f := startNmi) fun _ => rfl).bind fun _ =>
      (settings_onBoard _).bind fun _ => keeps_pure _

theorem settings_step : Keeps settings step := by
  refine Keeps.bind ?_ fun _ => keeps_pure _
  refine settings_tick.bind fun cycles => ?_
  refine (keeps_modify (f := retire) fun _ => rfl).bind fun _ => keeps_get.bind fun console => ?_
  refine (keeps_modify (f := elapse cycles) fun _ => rfl).bind fun _ => ?_
  split
  · exact settings_blank.bind fun _ => keeps_pure _
  · exact keeps_pure _

theorem settings_runFrom (clock : Nat → Nat) (bound done : Nat) (console : Console) :
    (runFrom (m := Id) clock bound done console).2.settings = console.settings := by
  induction bound generalizing done console with
  | zero =>
    rw [runFrom_zero]
    by_cases hidle : console.isIdle = true
    · rw [if_pos hidle]
      rfl
    · rw [if_neg hidle]
      rfl
  | succ bound ih =>
    rw [runFrom_succ]
    by_cases hidle : console.isIdle = true
    · rw [if_pos hidle]
      rfl
    rw [if_neg hidle]
    by_cases htime : console.timeout ≤ clock done
    · show (ite (console.timeout ≤ clock done) _ _ : Id (IdleOutcome × Console)).2.settings = _
      rw [if_pos htime]
      rfl
    · show (ite (console.timeout ≤ clock done) _ _ : Id (IdleOutcome × Console)).2.settings = _
      rw [if_neg htime]
      have hstep := settings_step console
      unfold Attempt.after at hstep
      cases hresult : step console with
      | ok cycles stepped =>
        rw [hresult] at hstep
        exact (ih (done + 1) stepped).trans hstep
      | error fault left =>
        rw [hresult] at hstep
        exact hstep

/-- A rejected image leaves the console, and an accepted one is loaded with its settings. -/
theorem settings_loadImage (image : Image) : Keeps settings (loadImage image) := by
  intro console
  unfold Attempt.after loadImage ofImage
  cases Cartridge.ofImage image <;> rfl

end Console

/-! ### What a host can do -/

/-- A call of the host. -/
inductive HostCall where
  | tick
  | step
  | reset
  | runUntilIdle (clock : Nat → Nat) (bound : Nat)
  | read (a : UInt16)
  | button (pad : Nat) (key : UInt8) (pressed : Bool)
  | changeCpu (f : Cpu → Cpu)
  | changeBus (f : SystemBus → SystemBus)
  | load (image : Image)

namespace HostCall

/-- The console after a call, whether it succeeded or not. -/
def run : HostCall → Console → Console
  | tick, console => Console.tick.after console
  | step, console => Console.step.after console
  | reset, console => Console.reset.after console
  | runUntilIdle clock bound, console => (console.runUntilIdle (m := Id) clock bound).2
  | read a, console => (Console.read a).after console
  | button pad key pressed, console => (console.setButton pad key pressed).getD console
  | changeCpu f, console => { console with board := ⟨f console.cpu, console.bus⟩ }
  | changeBus f, console => console.changeBus f
  | load image, console => (Console.loadImage image).after console

/-- No call changes the settings. -/
theorem settings_run (call : HostCall) (console : Console) :
    (call.run console).settings = console.settings := by
  cases call with
  | tick => exact Console.settings_tick console
  | step => exact Console.settings_step console
  | reset => exact Console.settings_onBoard _ console
  | runUntilIdle clock bound => exact Console.settings_runFrom clock bound 0 console
  | read a => exact Console.settings_onBoard _ console
  | button pad key pressed =>
    show ((console.setButton pad key pressed).getD console).settings = _
    rw [Console.setButton]
    cases console.board.bus.setButton pad key pressed <;> rfl
  | changeCpu f => rfl
  | changeBus f => rfl
  | load image => exact Console.settings_loadImage image console

end HostCall

namespace Console

/-- The console after some calls. -/
def afterCalls (console : Console) (calls : List HostCall) : Console :=
  calls.foldl (fun console call => call.run console) console

theorem settings_afterCalls (console : Console) (calls : List HostCall) :
    (console.afterCalls calls).settings = console.settings := by
  induction calls generalizing console with
  | nil => rfl
  | cons call calls ih =>
    rw [afterCalls, List.foldl_cons]
    exact (ih (call.run console)).trans (call.settings_run console)

/-- **Loading forgets.**  Whatever a host has done with a console, it still has the settings that it
was switched on with.  An image is accepted by it exactly if a new console with these settings can
be made from the image, and then it becomes that console; otherwise it rejects the image for the same
reason and stays as it is. -/
theorem load_forgets (settings : Settings) (cartridge : Cartridge) (calls : List HostCall)
    (image : Image) :
    ((powerOn settings cartridge).afterCalls calls).settings = settings ∧
    (∀ new, loadImage image ((powerOn settings cartridge).afterCalls calls) = .ok () new ↔
      ofImage settings image = .ok new) ∧
    ∀ e left, loadImage image ((powerOn settings cartridge).afterCalls calls) = .error e left ↔
      ofImage settings image = .error e ∧ left = (powerOn settings cartridge).afterCalls calls := by
  have hsettings : ((powerOn settings cartridge).afterCalls calls).settings = settings :=
    settings_afterCalls _ calls
  refine ⟨hsettings, ?_, ?_⟩
  · intro new
    rw [loadImage, hsettings]
    cases ofImage settings image with
    | ok made => simp
    | error e => simp
  · intro e left
    rw [loadImage, hsettings]
    cases ofImage settings image with
    | ok made => simp
    | error e' => simp [eq_comm]

end Console

end NesMachine
