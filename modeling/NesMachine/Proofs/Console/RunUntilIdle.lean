import Mathlib.Order.Bounds.Defs
import NesMachine.Proofs.Console.Replacing

/-!
# How a run until idle ends

A run until idle ends in one of four ways: the console is idle, the time is up, a step faults, or the
bound on the steps is met.  Whatever the clock shows, the console has then made just the steps that the
outcome counts, and was not idle before any of them.

* `Waits clock start n mid`: `n` steps lead from one console to the other, and before each of them the
  run had a reason to go on; `waits_succ` adds a step at the end;
* `Waits.runFrom_eq`: after such steps the run goes on from where they have led;
* `EndsAs`: what each outcome says about the steps, the clock and the console;
* `runUntilIdle_ends`: a run has an outcome exactly if `EndsAs` holds of it.
-/

namespace NesMachine

namespace Console

open Attempt

/-! ### Steps one after the other -/

variable {start mid final : Console} {n : Nat} {u : Unit}

/-- The last of several steps. -/
theorem steps_succ_eq_ok : steps (n + 1) start = .ok u final ↔
    ∃ mid cycles, steps n start = .ok () mid ∧ step mid = .ok cycles final := by
  induction n generalizing start with
  | zero =>
    refine ⟨?_, ?_⟩
    · intro h
      obtain ⟨cycles, next, hstep, hrest⟩ := bind_eq_ok.mp h
      cases hrest
      exact ⟨start, cycles, rfl, hstep⟩
    · intro h
      obtain ⟨mid, cycles, hsteps, hstep⟩ := h
      cases hsteps
      exact bind_eq_ok.mpr ⟨cycles, final, hstep, rfl⟩
  | succ n ih =>
    refine ⟨?_, ?_⟩
    · intro h
      obtain ⟨first, next, hfirst, hrest⟩ := bind_eq_ok.mp h
      obtain ⟨mid, cycles, hsteps, hstep⟩ := ih.mp hrest
      exact ⟨mid, cycles, bind_eq_ok.mpr ⟨first, next, hfirst, hsteps⟩, hstep⟩
    · intro h
      obtain ⟨mid, cycles, hsteps, hstep⟩ := h
      obtain ⟨first, next, hfirst, hrest⟩ := bind_eq_ok.mp hsteps
      exact bind_eq_ok.mpr ⟨first, next, hfirst, ih.mpr ⟨mid, cycles, hrest, hstep⟩⟩

theorem settings_steps (n : Nat) : Keeps settings (steps n) := by
  induction n with
  | zero => exact keeps_pure _
  | succ n ih => exact settings_step.bind fun _ => ih

/-! ### Waiting -/

variable {clock : Nat → Nat} {bound : Nat}

/-- The console makes `n` steps; before each of them it was not idle, and the time was not up. -/
def Waits (clock : Nat → Nat) (start : Console) (n : Nat) (mid : Console) : Prop :=
  steps n start = .ok () mid ∧
    ∀ k < n, clock k < start.timeout ∧
      ∃ early, steps k start = .ok () early ∧ early.isIdle = false

theorem waits_zero (clock : Nat → Nat) (start : Console) : Waits clock start 0 start :=
  ⟨rfl, fun k hk => absurd hk (Nat.not_lt_zero k)⟩

theorem waits_succ : Waits clock start (n + 1) final ↔
    ∃ mid cycles, Waits clock start n mid ∧ mid.isIdle = false ∧ clock n < start.timeout ∧
      step mid = .ok cycles final := by
  refine ⟨?_, ?_⟩
  · intro h
    obtain ⟨hsteps, hbefore⟩ := h
    obtain ⟨mid, cycles, hmid, hstep⟩ := steps_succ_eq_ok.mp hsteps
    obtain ⟨hearly, early, hsame, hbusy⟩ := hbefore n (Nat.lt_succ_self n)
    rw [hmid] at hsame
    cases hsame
    exact ⟨mid, cycles, ⟨hmid, fun k hk => hbefore k (Nat.lt_succ_of_lt hk)⟩, hbusy, hearly, hstep⟩
  · intro h
    obtain ⟨mid, cycles, ⟨hmid, hbefore⟩, hbusy, hearly, hstep⟩ := h
    refine ⟨steps_succ_eq_ok.mpr ⟨mid, cycles, hmid, hstep⟩, ?_⟩
    intro k hk
    rcases Nat.lt_succ_iff_lt_or_eq.mp hk with hlt | rfl
    · exact hbefore k hlt
    · exact ⟨hearly, mid, hmid, hbusy⟩

/-- The time that a program may take stays what it was. -/
theorem Waits.timeout_eq (h : Waits clock start n mid) : mid.timeout = start.timeout :=
  congrArg Settings.timeout ((settings_steps n).of_ok h.1)

/-- Only the first steps after which the console is idle can be waited for. -/
theorem Waits.isLeast (h : Waits clock start n final) (hidle : final.isIdle = true) :
    IsLeast {k | ∃ mid, steps k start = .ok () mid ∧ mid.isIdle = true} n := by
  refine ⟨⟨final, h.1, hidle⟩, ?_⟩
  intro k hk
  obtain ⟨mid, hmid, hmidIdle⟩ := hk
  refine Nat.le_of_not_lt fun hlt => ?_
  obtain ⟨-, early, hsame, hbusy⟩ := h.2 k hlt
  rw [hmid] at hsame
  cases hsame
  rw [hmidIdle] at hbusy
  cases hbusy

/-! ### The loop -/

/-- One round of the loop, of a console that is not idle. -/
theorem runFrom_of_busy (hbusy : mid.isIdle = false) :
    runFrom (m := Id) clock (bound + 1) n mid =
      if mid.timeout ≤ clock n then (.timedOut n (clock n), mid)
      else
        match step mid with
        | .ok _ next => runFrom (m := Id) clock bound (n + 1) next
        | .error fault left => (.stopped n fault, left) := by
  rw [runFrom_succ, if_neg (by rw [hbusy]; exact Bool.false_ne_true)]
  show (ite (mid.timeout ≤ clock n) _ _ : Id (IdleOutcome × Console)) = _
  by_cases htime : mid.timeout ≤ clock n
  · rw [if_pos htime, if_pos htime]
    rfl
  · rw [if_neg htime, if_neg htime]
    cases step mid <;> rfl

theorem runFrom_of_idle (hidle : mid.isIdle = true) :
    runFrom (m := Id) clock bound n mid = (.idle n, mid) := by
  cases bound with
  | zero =>
    rw [runFrom_zero, if_pos hidle]
    rfl
  | succ bound =>
    rw [runFrom_succ, if_pos hidle]
    rfl

/-- The run goes on from where the steps have led. -/
theorem Waits.runFrom_eq (h : Waits clock start n mid) (hn : n ≤ bound) :
    runFrom (m := Id) clock bound 0 start = runFrom (m := Id) clock (bound - n) n mid := by
  induction n generalizing mid with
  | zero =>
    cases h.1
    rfl
  | succ n ih =>
    obtain ⟨last, cycles, hlast, hbusy, hearly, hstep⟩ := waits_succ.mp h
    have hleft : bound - n = bound - (n + 1) + 1 := by omega
    have htime : ¬ last.timeout ≤ clock n := by
      rw [hlast.timeout_eq]
      omega
    rw [ih hlast (by omega), hleft, runFrom_of_busy hbusy, if_neg htime, hstep]

/-- What the outcome of a run tells: how many steps were made, what kept the run going before each of
them, and why no further one was made. -/
def EndsAs (clock : Nat → Nat) (bound : Nat) (start : Console) : IdleOutcome → Console → Prop
  | .idle n, final => n ≤ bound ∧ Waits clock start n final ∧ final.isIdle = true
  | .timedOut n elapsed, final =>
    n < bound ∧ Waits clock start n final ∧ final.isIdle = false ∧ elapsed = clock n ∧
      start.timeout ≤ elapsed
  | .stopped n fault, final =>
    n < bound ∧ ∃ last, Waits clock start n last ∧ last.isIdle = false ∧
      clock n < start.timeout ∧ step last = .error fault final
  | .running n, final => n = bound ∧ Waits clock start n final ∧ final.isIdle = false

/-- From wherever the steps have led, the run ends as its outcome tells. -/
theorem Waits.endsAs (h : Waits clock start n mid) (left : Nat) :
    EndsAs clock (n + left) start (runFrom (m := Id) clock left n mid).1
      (runFrom (m := Id) clock left n mid).2 := by
  induction left generalizing n mid with
  | zero =>
    cases hidle : mid.isIdle with
    | true =>
      rw [runFrom_of_idle hidle]
      exact ⟨Nat.le_refl n, h, hidle⟩
    | false =>
      rw [runFrom_zero, if_neg (by rw [hidle]; exact Bool.false_ne_true)]
      exact ⟨rfl, h, hidle⟩
  | succ left ih =>
    cases hidle : mid.isIdle with
    | true =>
      rw [runFrom_of_idle hidle]
      exact ⟨Nat.le_add_right n _, h, hidle⟩
    | false =>
      rw [runFrom_of_busy hidle, h.timeout_eq]
      by_cases htime : start.timeout ≤ clock n
      · rw [if_pos htime]
        exact ⟨by omega, h, hidle, rfl, htime⟩
      · rw [if_neg htime]
        have hearly : clock n < start.timeout := Nat.lt_of_not_le htime
        cases hstep : step mid with
        | error fault final => exact ⟨by omega, mid, h, hidle, hearly, hstep⟩
        | ok cycles next =>
          have hnext := ih (waits_succ.mpr ⟨mid, cycles, h, hidle, hearly, hstep⟩)
          rw [show n + 1 + left = n + (left + 1) by omega] at hnext
          exact hnext

/-- A run that can end as an outcome tells does so. -/
theorem EndsAs.run_eq {outcome : IdleOutcome} (h : EndsAs clock bound start outcome final) :
    runUntilIdle (m := Id) clock bound start = (outcome, final) := by
  rw [runUntilIdle]
  cases outcome with
  | idle n =>
    obtain ⟨hn, hwaits, hidle⟩ := h
    rw [hwaits.runFrom_eq hn, runFrom_of_idle hidle]
  | timedOut n elapsed =>
    obtain ⟨hn, hwaits, hbusy, rfl, htime⟩ := h
    have hleft : bound - n = bound - (n + 1) + 1 := by omega
    rw [hwaits.runFrom_eq (Nat.le_of_lt hn), hleft, runFrom_of_busy hbusy, hwaits.timeout_eq,
      if_pos htime]
  | stopped n fault =>
    obtain ⟨hn, last, hwaits, hbusy, hearly, hstep⟩ := h
    have hleft : bound - n = bound - (n + 1) + 1 := by omega
    rw [hwaits.runFrom_eq (Nat.le_of_lt hn), hleft, runFrom_of_busy hbusy, hwaits.timeout_eq,
      if_neg (Nat.not_le_of_lt hearly), hstep]
  | running n =>
    obtain ⟨rfl, hwaits, hbusy⟩ := h
    rw [hwaits.runFrom_eq (Nat.le_refl n), Nat.sub_self, runFrom_zero,
      if_neg (by rw [hbusy]; exact Bool.false_ne_true)]
    rfl

/-- A run has an outcome exactly if this outcome tells the truth about it. -/
theorem runUntilIdle_eq_iff {outcome : IdleOutcome} :
    runUntilIdle (m := Id) clock bound start = (outcome, final) ↔
      EndsAs clock bound start outcome final := by
  refine ⟨?_, EndsAs.run_eq⟩
  intro hrun
  have hend := (waits_zero clock start).endsAs bound
  rw [runUntilIdle] at hrun
  rw [hrun, Nat.zero_add] at hend
  exact hend

/-- **How a run until idle ends.**  Whatever the clock shows, a run has an outcome exactly if this
outcome tells the truth about it.  A run that ends idle has made the least number of steps after which
the console is idle, none if it was idle at the start, however little time there is; and a run whose
time is up before the bound on its steps is met does not go on to that bound. -/
theorem runUntilIdle_ends (clock : Nat → Nat) (bound : Nat) (start : Console) :
    (∀ outcome final, runUntilIdle (m := Id) clock bound start = (outcome, final) ↔
      EndsAs clock bound start outcome final) ∧
    (∀ n final, runUntilIdle (m := Id) clock bound start = (.idle n, final) →
      IsLeast {k | ∃ mid, steps k start = .ok () mid ∧ mid.isIdle = true} n) ∧
    (start.isIdle = true → runUntilIdle (m := Id) clock bound start = (.idle 0, start)) ∧
    ∀ k < bound, start.timeout ≤ clock k →
      ∀ n final, runUntilIdle (m := Id) clock bound start ≠ (.running n, final) := by
  have hends (outcome : IdleOutcome) (final : Console) :
      runUntilIdle (m := Id) clock bound start = (outcome, final) ↔
        EndsAs clock bound start outcome final := runUntilIdle_eq_iff
  refine ⟨hends, ?_, ?_, ?_⟩
  · intro n final hrun
    obtain ⟨-, hwaits, hidle⟩ := (hends _ _).mp hrun
    exact hwaits.isLeast hidle
  · intro hidle
    exact (hends _ _).mpr ⟨Nat.zero_le bound, waits_zero clock start, hidle⟩
  · intro k hk htime n final hrun
    obtain ⟨rfl, hwaits, -⟩ := (hends _ _).mp hrun
    obtain ⟨hearly, -⟩ := hwaits.2 k hk
    omega

end Console

end NesMachine
