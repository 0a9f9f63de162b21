import Mathlib.Data.List.Basic

/-! Runs and their ends: a sequence ends well exactly where its parts do, one after the other, and fails
with the error of the first part that does not. -/
namespace SemanticQuery
variable {ε σ α β : Type}

theorem bind_ok {x : Except ε α} {f : α → Except ε β} {b : β} :
    x >>= f = .ok b ↔ ∃ a, x = .ok a ∧ f a = .ok b := by
  constructor
  · intro ran
    cases x with
    | error e => cases ran
    | ok a => exact ⟨a, rfl, ran⟩
  · rintro ⟨a, rfl, ran⟩
    exact ran

theorem bind_error {x : Except ε α} {f : α → Except ε β} {e : ε} :
    x >>= f = .error e ↔ x = .error e ∨ ∃ a, x = .ok a ∧ f a = .error e := by
  cases x with
  | error first => simp [bind, Except.bind]
  | ok a => simp [bind, Except.bind]

theorem run_bind_ok {x : EStateM ε σ α} {f : α → EStateM ε σ β} {s s'' : σ} {b : β} :
    (x >>= f) s = .ok b s'' ↔ ∃ a s', x s = .ok a s' ∧ f a s' = .ok b s'' := by
  simp only [bind, EStateM.bind]
  constructor
  · intro ran
    split at ran
    next a s' first => exact ⟨a, s', first, ran⟩
    · contradiction
  · rintro ⟨a, s', first, ran⟩
    simp only [first, ran]

/-- What a run comes to, and the state it leaves. -/
def ended : EStateM.Result ε σ α → Except ε α × σ
  | .ok a s => (.ok a, s)
  | .error e s => (.error e, s)

theorem run_get_bind {f : σ → EStateM ε σ α} {s : σ} : (get >>= f) s = f s s := rfl

end SemanticQuery
