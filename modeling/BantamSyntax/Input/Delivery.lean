import BantamSyntax.Input.Source

/-!
# Deliveries

The record of what successive calls for the next character gave.
-/
namespace BantamSyntax

/-- One call: a character, the end of the input or a failure, and the line count after it. -/
structure Delivery where
  outcome : Except InputFailure (Option Char)
  line : Nat

namespace Source

/-- The source after `n` calls, whatever they gave. -/
def skip : Nat → Source → Source
  | 0, s => s
  | n + 1, s => match s.next with
    | .ok _ t => skip n t
    | .error _ t => skip n t

/-- The calls until the end has been met `ends` times, or until nothing but failures would follow. -/
def deliveries : Nat → Source → List Delivery
  | 0, _ => []
  | ends + 1, s => match _h : s.next with
    | .ok none t => ⟨.ok none, t.line⟩ :: deliveries ends t
    | .ok (some c) t => ⟨.ok (some c), t.line⟩ :: deliveries (ends + 1) t
    | .error cause t =>
      ⟨.error cause, t.line⟩ :: if _hs : t.isStuck then [] else deliveries (ends + 1) t
termination_by ends s => (ends, s.weight)
decreasing_by
  · exact Prod.Lex.left _ _ (Nat.lt_succ_self _)
  · exact Prod.Lex.right _ (weight_of_next _h)
  · rcases weight_of_next_error _h with h | ⟨rfl, h⟩
    · exact Prod.Lex.right _ h
    · exact absurd h _hs

end Source
end BantamSyntax
