/-!
# Sequences of steps

Readers and runs are steps that take a state and give it back with a value or with a reason to
stop. A sequence of two steps goes on where the first one ended, or stops where it stopped.

A `View` shows states with something left out. A step commutes with a view if what it does with a
state can be told from what the view shows of it; sequences of such steps are such steps again.
-/

namespace Scriptlet

section

variable {ε σ α β : Type} {r : EStateM ε σ α} {k : α → EStateM ε σ β} {s s' : σ}

theorem bind_of_ok {a : α} (h : r s = .ok a s') : (r >>= k) s = k a s' := by
  show EStateM.bind r k s = k a s'
  rw [EStateM.bind, h]

theorem bind_of_error {e : ε} (h : r s = .error e s') : (r >>= k) s = .error e s' := by
  show EStateM.bind r k s = .error e s'
  rw [EStateM.bind, h]

/-- What a sequence answers, without the state it ends in. -/
theorem run'_bind_of_ok {a : α} (h : r s = .ok a s') : (r >>= k).run' s = (k a).run' s' :=
  congrArg (fun result => EStateM.run' (fun _ => result) s) (bind_of_ok h)

theorem map_of_ok {f : α → β} {a : α} (h : r s = .ok a s') : (f <$> r) s = .ok (f a) s' := by
  rw [map_eq_pure_bind, bind_of_ok h]
  rfl

/-- A sequence that ends with a value went through the value of its first step. -/
theorem bind_eq_ok {b : β} (h : (r >>= k) s = .ok b s') :
    ∃ a s₁, r s = .ok a s₁ ∧ k a s₁ = .ok b s' := by
  cases hr : r s with
  | ok a s₁ =>
    rw [bind_of_ok hr] at h
    exact ⟨a, s₁, rfl, h⟩
  | error e s₁ =>
    rw [bind_of_error hr] at h
    cases h

/-- A sequence that stops does so in its first step or after it. -/
theorem bind_eq_error {e : ε} (h : (r >>= k) s = .error e s') :
    r s = .error e s' ∨ ∃ a s₁, r s = .ok a s₁ ∧ k a s₁ = .error e s' := by
  cases hr : r s with
  | ok a s₁ =>
    rw [bind_of_ok hr] at h
    exact .inr ⟨a, s₁, rfl, h⟩
  | error e' s₁ =>
    rw [bind_of_error hr] at h
    cases h
    exact .inl rfl

end

/-- What is shown of states and of reasons to stop. -/
structure View (ε σ : Type) where
  state : σ → σ
  stop : ε → ε

namespace View

variable {ε σ α β γ δ : Type} (v : View ε σ)

/-- What is shown of an outcome, with `f` for its value. -/
def outcome (f : α → β) : EStateM.Result ε σ α → EStateM.Result ε σ β
  | .ok a s => .ok (f a) (v.state s)
  | .error e s => .error (v.stop e) (v.state s)

/-- What `r'` does with a shown state shows what `r` does with the state. -/
def Commutes (f : α → β) (r : EStateM ε σ α) (r' : EStateM ε σ β) : Prop :=
  ∀ s, r' (v.state s) = v.outcome f (r s)

variable {v} {f : α → β} {g : γ → δ} {r : EStateM ε σ α} {r' : EStateM ε σ β}
  {k : α → EStateM ε σ γ} {k' : β → EStateM ε σ δ}

theorem bind_eq_outcome {s : σ} (hr : r' (v.state s) = v.outcome f (r s))
    (hk : ∀ a s₁, r s = .ok a s₁ → k' (f a) (v.state s₁) = v.outcome g (k a s₁)) :
    (r' >>= k') (v.state s) = v.outcome g ((r >>= k) s) := by
  cases h : r s with
  | ok a s₁ =>
    rw [h] at hr
    rw [bind_of_ok hr, bind_of_ok h, hk a s₁ h]
  | error e s₁ =>
    rw [h] at hr
    rw [bind_of_error hr, bind_of_error h]
    rfl

theorem Commutes.bind (hr : v.Commutes f r r') (hk : ∀ a, v.Commutes g (k a) (k' (f a))) :
    v.Commutes g (r >>= k) (r' >>= k') :=
  fun s => bind_eq_outcome (hr s) fun a s₁ _ => hk a s₁

theorem commutes_pure {a : α} {b : β} (same : b = f a) :
    v.Commutes f (pure a : EStateM ε σ α) (pure b) :=
  fun _ => same ▸ rfl

theorem Commutes.map {h : β → δ} {m : α → γ} (hr : v.Commutes f r r')
    (same : ∀ a, h (f a) = g (m a)) : v.Commutes g (m <$> r) (h <$> r') := by
  rw [map_eq_pure_bind, map_eq_pure_bind]
  exact hr.bind fun a => commutes_pure (same a)

end View
end Scriptlet
