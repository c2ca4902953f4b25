/-!
# Actions

Actions on a state that may fail, and keep what they did to the state also when they fail. The
lemmas take a sequence of two actions apart by its outcome.
-/
namespace BantamSyntax

variable {ε σ α β : Type} {x : EStateM ε σ α} {f : α → EStateM ε σ β} {s s' : σ}

theorem bind_of_ok {a : α} {t : σ} (h : x s = .ok a t) : (x >>= f) s = f a t := by
  simp [bind, EStateM.bind, h]

theorem bind_of_error {e : ε} {t : σ} (h : x s = .error e t) : (x >>= f) s = .error e t := by
  simp [bind, EStateM.bind, h]

theorem bind_eq_ok {b : β} :
    (x >>= f) s = .ok b s' ↔ ∃ a t, x s = .ok a t ∧ f a t = .ok b s' := by
  cases h : x s with
  | ok a t => simp [bind_of_ok h, and_assoc]
  | error e t => simp [bind_of_error h]

theorem bind_eq_error {e : ε} :
    (x >>= f) s = .error e s' ↔
      x s = .error e s' ∨ ∃ a t, x s = .ok a t ∧ f a t = .error e s' := by
  cases h : x s with
  | ok a t => simp [bind_of_ok h, and_assoc]
  | error d t => simp [bind_of_error h]

theorem pure_eq_ok {a b : α} : (pure a : EStateM ε σ α) s = .ok b s' ↔ a = b ∧ s = s' := by
  simp [pure, EStateM.pure]

theorem pure_ne_error {a : α} {e : ε} : (pure a : EStateM ε σ α) s ≠ .error e s' := by
  simp [pure, EStateM.pure]

theorem modifyGet_eq_ok {g : σ → α × σ} {a : α} :
    (modifyGet g : EStateM ε σ α) s = .ok a s' ↔ g s = (a, s') := by
  show EStateM.Result.ok (g s).1 (g s).2 = .ok a s' ↔ g s = (a, s')
  rw [EStateM.Result.ok.injEq, Prod.ext_iff]

theorem modifyGet_ne_error {g : σ → α × σ} {e : ε} :
    (modifyGet g : EStateM ε σ α) s ≠ .error e s' := by
  intro h
  cases h

end BantamSyntax
