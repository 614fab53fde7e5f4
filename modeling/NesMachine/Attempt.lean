/-!
# Attempts

Buses, processors and consoles act in one way: an attempt changes a state of type `σ` and
delivers a value or an error. After an error the state is what the failed attempt left
behind, not what it was before, because the bytes already written and the registers already
changed stay as they are. The lemmas say what a sequence of attempts does to a given state.
-/

namespace NesMachine

/-- An action on a state in `σ` that delivers a value in `α` or an error in `ε`. -/
abbrev Attempt (ε σ α : Type) := EStateM ε σ α

namespace Attempt

variable {ε σ α γ : Type}

@[simp] theorem pure_apply (a : α) (s : σ) : (pure a : Attempt ε σ α) s = .ok a s := rfl

@[simp] theorem throw_apply (e : ε) (s : σ) : (throw e : Attempt ε σ α) s = .error e s := rfl

@[simp] theorem get_apply (s : σ) : (get : Attempt ε σ σ) s = .ok s s := rfl

@[simp] theorem modify_apply (f : σ → σ) (s : σ) :
    (modify f : Attempt ε σ PUnit) s = .ok ⟨⟩ (f s) := rfl

/-- An error ends a sequence; otherwise the second attempt starts from what the first has
left. -/
@[simp] theorem bind_apply (x : Attempt ε σ α) (f : α → Attempt ε σ γ) (s : σ) :
    (x >>= f) s =
      match x s with
      | .ok a s => f a s
      | .error e s => .error e s := by
  show EStateM.bind x f s = _
  unfold EStateM.bind
  cases x s <;> rfl

/-! ### What succeeded -/

theorem pure_eq_ok {a b : α} {s t : σ} :
    (pure a : Attempt ε σ α) s = .ok b t ↔ a = b ∧ s = t := by
  rw [pure_apply, EStateM.Result.ok.injEq]

/-- A sequence succeeds if its parts do, the second from where the first has led. -/
theorem bind_eq_ok {x : Attempt ε σ α} {f : α → Attempt ε σ γ} {s t : σ} {b : γ} :
    (x >>= f) s = .ok b t ↔ ∃ a mid, x s = .ok a mid ∧ f a mid = .ok b t := by
  rw [bind_apply]
  cases x s with
  | ok a mid =>
    refine ⟨?_, ?_⟩
    · intro h
      exact ⟨a, mid, rfl, h⟩
    · intro hparts
      obtain ⟨a', mid', hx, h⟩ := hparts
      cases hx
      exact h
  | error e mid =>
    refine ⟨?_, ?_⟩
    · intro h
      cases h
    · intro hparts
      obtain ⟨a', mid', hx, -⟩ := hparts
      cases hx

end Attempt

end NesMachine
