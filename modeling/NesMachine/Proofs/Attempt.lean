import NesMachine.Attempt

/-!
# What an attempt leaves

An attempt leaves a state whether it succeeds or not.

* `Attempt.after` and `Attempt.outcome`: the two parts of a result, and `Attempt.ended`, which puts
  them together again;
* `Attempt.Keeps`: what an attempt leaves unchanged even where it fails;
* `Attempt.Spares`: what an attempt leaves unchanged at least where it fails.
-/

namespace NesMachine

namespace Attempt

variable {ε σ α γ κ : Type} {view : σ → κ}

/-- The state that an attempt leaves, whether it succeeds or not. -/
def after (x : Attempt ε σ α) (s : σ) : σ :=
  match x s with
  | .ok _ s => s
  | .error _ s => s

/-- The value or the error of an attempt. -/
def outcome (x : Attempt ε σ α) (s : σ) : Except ε α :=
  match x s with
  | .ok a _ => .ok a
  | .error e _ => .error e

/-- The result with the given outcome and state. -/
def ended : Except ε α → σ → EStateM.Result ε σ α
  | .ok a, s => .ok a s
  | .error e, s => .error e s

theorem of_eq_ended {x : Attempt ε σ α} {s t : σ} {result : Except ε α}
    (h : x s = ended result t) : x.outcome s = result ∧ x.after s = t := by
  unfold outcome after
  rw [h]
  cases result <;> exact ⟨rfl, rfl⟩

theorem after_bind (x : Attempt ε σ α) (f : α → Attempt ε σ γ) (s : σ) :
    (x >>= f).after s =
      match x s with
      | .ok a mid => (f a).after mid
      | .error _ mid => mid := by
  unfold after
  rw [bind_apply]
  cases x s <;> rfl

/-! ### What stays as it was -/

/-- The attempt does not change what a view shows of the state. -/
def Keeps (view : σ → κ) (x : Attempt ε σ α) : Prop := ∀ s, view (x.after s) = view s

theorem keeps_pure (a : α) : Keeps view (pure a : Attempt ε σ α) := fun _ => rfl

theorem keeps_throw (e : ε) : Keeps view (throw e : Attempt ε σ α) := fun _ => rfl

theorem keeps_get : Keeps view (get : Attempt ε σ σ) := fun _ => rfl

theorem keeps_modify {f : σ → σ} (h : ∀ s, view (f s) = view s) :
    Keeps view (modify f : Attempt ε σ PUnit) := h

theorem Keeps.bind {x : Attempt ε σ α} {f : α → Attempt ε σ γ} (hx : Keeps view x)
    (hf : ∀ a, Keeps view (f a)) : Keeps view (x >>= f) := by
  intro s
  have hfirst := hx s
  rw [after, bind_apply]
  unfold after at hfirst
  cases hresult : x s with
  | ok a mid =>
    rw [hresult] at hfirst
    exact (hf a mid).trans hfirst
  | error e mid =>
    rw [hresult] at hfirst
    exact hfirst

theorem Keeps.of_ok {x : Attempt ε σ α} (hx : Keeps view x) {s t : σ} {a : α}
    (h : x s = .ok a t) : view t = view s := by
  have hview := hx s
  unfold after at hview
  rw [h] at hview
  exact hview

/-- A failed attempt does not change what a view shows of the state. -/
def Spares (view : σ → κ) (x : Attempt ε σ α) : Prop :=
  ∀ s e, x.outcome s = .error e → view (x.after s) = view s

theorem Keeps.spares {x : Attempt ε σ α} (hx : Keeps view x) : Spares view x :=
  fun s _ _ => hx s

/-- Before the last attempt of a sequence, nothing may be changed. -/
theorem Keeps.bind_spares {x : Attempt ε σ α} {f : α → Attempt ε σ γ} (hx : Keeps view x)
    (hf : ∀ a, Spares view (f a)) : Spares view (x >>= f) := by
  intro s e herror
  have hfirst := hx s
  unfold outcome at herror
  rw [after]
  rw [bind_apply] at herror ⊢
  unfold after at hfirst
  cases hresult : x s with
  | ok a mid =>
    rw [hresult] at hfirst herror
    exact (hf a mid e herror).trans hfirst
  | error e' mid =>
    rw [hresult] at hfirst
    exact hfirst

end Attempt

end NesMachine
