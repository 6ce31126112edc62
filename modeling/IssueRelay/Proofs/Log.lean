import IssueRelay.Log
import IssueRelay.Proofs.Outcome

set_option autoImplicit false

namespace IssueRelay

namespace Logged

variable {ε α β : Type}

theorem pure_bind (v : α) (f : α → Logged ε β) : (pure v >>= f) = f v := rfl

theorem outcome_bind (x : Logged ε α) (f : α → Logged ε β) :
    (x >>= f).outcome = x.outcome >>= fun a => (f a).outcome := by
  change (x.andThen f).outcome = _
  rw [andThen]
  cases x.outcome <;> rfl

theorem outcome_map (f : α → β) (x : Logged ε α) : (f <$> x).outcome = f <$> x.outcome :=
  outcome_bind x fun a => pure (f a)

theorem bind_eq_ok {x : Logged ε α} {f : α → Logged ε β} {b : β}
    (h : (x >>= f).outcome = .ok b) : ∃ a, x.outcome = .ok a ∧ (f a).outcome = .ok b :=
  Except.bind_eq_ok.mp (outcome_bind x f ▸ h)

theorem map_eq_ok {x : Logged ε α} {f : α → β} {b : β} (h : (f <$> x).outcome = .ok b) :
    ∃ a, x.outcome = .ok a ∧ f a = b := Except.map_eq_ok.mp (outcome_map f x ▸ h)

end Logged

theorem toOption_eq_some {ε α : Type} {x : Except ε α} {a : α} (h : x.toOption = some a) :
    x = .ok a := by
  cases x with
  | error e => contradiction
  | ok b =>
    cases h
    rfl

end IssueRelay
