import BantamSyntax.Proofs.Parsing.Reports

/-!
# Progress

How many tokens a rule takes at least when it succeeds. A rule that a loop repeats takes one, and a
parse ends before it would ask for more than there is.
-/
namespace BantamSyntax
namespace Parser

variable {α β : Type} {x y : ParserM α} {f : α → ParserM β} {k m n : Nat} {kind : TokenKind}
  {expected : Expected}

/-! ## requests of rules -/

/-- Whenever the rule succeeds it has made `n` requests or more. -/
def Takes (n : Nat) (x : ParserM α) : Prop :=
  ∀ p a q, x p = .ok a q → p.taken + n ≤ q.taken

theorem Takes.zero (h : Takes n x) : Takes 0 x :=
  fun p a q hx => Nat.le_trans (Nat.le_add_right _ _) (h p a q hx)

theorem Takes.bind (hx : Takes m x) (hf : ∀ a, Takes n (f a)) : Takes (m + n) (x >>= f) := by
  intro p b r h
  obtain ⟨a, q, hq, hr⟩ := bind_eq_ok.1 h
  have := hx p a q hq
  have := hf a q b r hr
  omega

/-- What the first part takes is enough. -/
theorem Takes.before (hx : Takes n x) (hf : ∀ a, Takes 0 (f a)) : Takes n (x >>= f) :=
  hx.bind hf

/-- What the second part takes is enough. -/
theorem Takes.after (hx : Takes m x) (hf : ∀ a, Takes n (f a)) : Takes n (x >>= f) := by
  simpa using hx.zero.bind hf

theorem Takes.ite {c : Prop} [Decidable c] (hx : Takes n x) (hy : Takes n y) :
    Takes n (if c then x else y) := by
  split
  · exact hx
  · exact hy

theorem takes_pure (a : α) : Takes 0 (pure a) := by
  intro p b q h
  cases h
  exact Nat.le_refl _

theorem takes_throw {e : ParseFailure} : Takes n (throw e : ParserM α) :=
  fun _ _ _ h => by cases h

theorem takes_token : Takes 0 token := by
  intro p t q h
  cases current : p.current with
  | none =>
    rw [token_unprimed current] at h
    cases h
  | some t =>
    rw [token_eq current] at h
    cases h
    exact Nat.le_refl _

theorem takes_fail : Takes n (fail expected : ParserM α) := by
  intro p a q h
  cases current : p.current with
  | none =>
    rw [Parser.fail, bind_of_error (token_unprimed current)] at h
    cases h
  | some t =>
    rw [fail_eq current] at h
    cases h

theorem takes_advance : Takes 1 advance := by
  intro p a q h
  have advanced := advance_advanced p
  rw [h] at advanced
  cases advanced with
  | token => simp [requested]

theorem takes_take : Takes 1 take :=
  .after takes_token fun _ => .before takes_advance fun _ => takes_pure _

theorem takes_check : Takes 0 (check kind) :=
  .after takes_token fun _ => takes_pure _

theorem takes_takeIf : Takes 0 (takeIf kind) :=
  .after takes_check fun _ => .ite (.after takes_advance fun _ => takes_pure _) (takes_pure _)

theorem takes_expect : Takes 1 (expect kind expected) :=
  .after takes_check fun _ => .ite takes_take takes_fail

theorem takes_name : Takes 1 (name expected) :=
  .before takes_expect fun _ => takes_pure _

/-! ## repetition -/

theorem takes_afterCommas (hx : Takes m x) : Takes 0 (afterCommas x n) := by
  induction n with
  | zero => exact takes_throw
  | succ n ih =>
    exact .after takes_takeIf fun _ =>
      .ite (.after hx fun _ => .after ih fun _ => takes_pure _) (takes_pure _)

theorem takes_untilBrace (hx : Takes m x) : Takes 0 (untilBrace x n) := by
  induction n with
  | zero => exact takes_throw
  | succ n ih =>
    exact .after takes_check fun _ => .ite (takes_pure _) <| .after takes_check fun _ =>
      .ite (takes_pure _) (.after hx fun _ => .after ih fun _ => takes_pure _)

theorem takes_commaList (hx : Takes m x) : Takes 0 (commaList n x) :=
  .after takes_check fun _ => .ite (takes_pure _) <|
    .after hx fun _ => .after (takes_afterCommas hx) fun _ => takes_pure _

/-- The end of the text is never left behind. -/
theorem StandsAt.before_ne_end {file : String} {before rest : List Lexeme} {l : Lexeme}
    {p : Parser} (h : p.StandsAt file before l rest) :
    ∀ m ∈ before, m.token.kind ≠ .endOfFile := by
  intro m hm ended
  rcases h.passed m hm with comment | passes
  · rw [ended] at comment
    cases comment
  · rw [ended] at passes
    cases passes

theorem rejection_eq (expected : Expected) (t : Token) (p : Parser) :
    ∃ d, (rejection expected t p : EStateM.Result ParseFailure Parser α) =
      .error (.rejected (some d)) (p.register (refusal expected t p.file)) := by
  obtain ⟨d, ds, hd⟩ := List.exists_cons_of_ne_nil
    (show (p.register (refusal expected t p.file)).diagnostics ≠ [] by simp [register])
  exact ⟨d, by rw [rejection, hd]; rfl⟩

end Parser

/-! ## rules -/

namespace Grammar

open BantamSyntax.Parser

section

variable {x operand : ParserM Expr} {y : ParserM Stmt} {k n : Nat}

theorem takes_callRest (hx : Takes 1 x) {line : Int} {receiver : Option Variable} {s : String} :
    Takes 0 (callRest n x line receiver s) := by
  refine .after takes_check fun _ => .ite ?_ ?_
  · exact .after takes_take fun _ => .after (takes_commaList hx) fun _ =>
      .after takes_expect fun _ => takes_pure _
  · cases receiver <;> exact takes_pure _

theorem takes_variableOrCall (hx : Takes 1 x) : Takes 1 (variableOrCall n x) :=
  .before takes_take fun _ => .ite
    (.after takes_takeIf fun _ =>
      .ite (.after takes_name fun _ => takes_callRest hx) (takes_callRest hx))
    (takes_callRest hx)

theorem takes_primary (hx : Takes 1 x) : Takes 1 (primary n x) := by
  refine .after takes_token fun t => .ite ?_ ?_
  · exact .before takes_advance fun _ => .after hx fun _ => .after takes_expect fun _ =>
      takes_pure _
  · split
    · exact .before takes_advance fun _ => takes_pure _
    · exact .ite (takes_variableOrCall hx) takes_fail

theorem takes_suffixed (hx : Takes 1 x) : Takes 1 (suffixed n x) := by
  refine .after takes_token fun _ => .before (takes_primary hx) fun _ =>
    .after takes_token fun _ => ?_
  split
  · exact .after takes_advance fun _ => takes_pure _
  · exact takes_pure _

theorem takes_signed (hx : Takes 1 x) : Takes 1 (signed n x k) := by
  induction k with
  | zero => exact takes_throw
  | succ k ih =>
    refine .after takes_token fun _ => ?_
    split
    · exact .before takes_advance fun _ => .after ih fun _ => takes_pure _
    · exact takes_suffixed hx

theorem takes_newExpression : Takes 1 newExpression :=
  .before takes_take fun _ => .after takes_name fun _ => .after takes_expect fun _ =>
    .after takes_expect fun _ => takes_pure _

theorem takes_castExpression (hx : Takes 1 x) : Takes 1 (castExpression x) :=
  .before takes_take fun _ => .after takes_expect fun _ => .after takes_name fun _ =>
    .after takes_expect fun _ => .after hx fun _ => .after takes_expect fun _ => takes_pure _

theorem takes_unary (hx : Takes 1 x) : Takes 1 (unary n x) :=
  .after takes_check fun _ => .ite takes_newExpression <|
    .after takes_check fun _ => .ite (takes_castExpression hx) (takes_signed hx)

theorem takes_operands {l : Level} (hx : Takes 1 operand) {line : Int} {e : Expr} :
    Takes 0 (operands l operand line k e) := by
  induction k generalizing e with
  | zero => exact takes_throw
  | succ k ih =>
    refine .after takes_token fun _ => ?_
    split
    · exact .after takes_advance fun _ => .after hx fun _ => ih
    · exact takes_pure _

theorem takes_binary {l : Level} (hx : Takes 1 operand) : Takes 1 (binary l n operand) := by
  refine .after takes_token fun _ => .before hx fun _ => .ite (takes_operands hx) ?_
  refine .after takes_token fun _ => ?_
  split
  · exact .after takes_advance fun _ => .after hx fun _ => takes_pure _
  · exact takes_pure _

theorem takes_cascade (hx : Takes 1 x) : (ls : List Level) → Takes 1 (cascade n x ls)
  | [] => takes_unary hx
  | _ :: ls => takes_binary (takes_cascade hx ls)

theorem takes_assignment (hx : Takes 1 x) : Takes 1 (assignment n x) := by
  refine .after takes_token fun _ => .before (takes_cascade hx _) fun _ =>
    .after takes_check fun _ => .ite ?_ (takes_pure _)
  split
  · exact .after takes_advance fun _ => .after hx fun _ => takes_pure _
  · exact takes_fail

theorem takes_expression : (n : Nat) → Takes 1 (expression n)
  | 0 => takes_throw
  | n + 1 => takes_assignment (takes_expression n)

theorem takes_optional {closing : TokenKind} (hx : Takes 1 x) : Takes 0 (optional closing x) :=
  .after takes_check fun _ => .ite (takes_pure _) (.after hx fun _ => takes_pure _)

theorem takes_breakStatement : Takes 1 breakStatement :=
  .before takes_take fun _ => .after takes_expect fun _ => takes_pure _

theorem takes_returnStatement (hx : Takes 1 x) : Takes 1 (returnStatement x) :=
  .before takes_take fun _ => .after (takes_optional hx) fun _ => .after takes_expect fun _ =>
    takes_pure _

theorem takes_declaration (hx : Takes 1 x) : Takes 1 (declaration x) :=
  .before takes_take fun _ => .after takes_name fun _ => .after takes_expect fun _ =>
    .after hx fun _ => .after takes_expect fun _ => takes_pure _

theorem takes_expressionStatement (hx : Takes 1 x) : Takes 1 (expressionStatement x) :=
  .after takes_token fun _ => .before hx fun _ => .after takes_expect fun _ => takes_pure _

theorem takes_body (hy : Takes 1 y) : Takes 1 (body n y) :=
  .before takes_expect fun _ => .after (takes_untilBrace hy) fun _ =>
    .after takes_expect fun _ => takes_pure _

theorem takes_block (hy : Takes 1 y) : Takes 1 (block n y) :=
  .before (takes_body hy) fun _ => takes_pure _

theorem takes_ifStatement (hx : Takes 1 x) (hy : Takes 1 y) : Takes 1 (ifStatement x y) :=
  .before takes_take fun _ => .after takes_expect fun _ => .after hx fun _ =>
    .after takes_expect fun _ => .after hy fun _ => .after takes_takeIf fun _ =>
      .ite (.after hy fun _ => takes_pure _) (takes_pure _)

theorem takes_whileStatement (hx : Takes 1 x) (hy : Takes 1 y) : Takes 1 (whileStatement x y) :=
  .before takes_take fun _ => .after takes_expect fun _ => .after hx fun _ =>
    .after takes_expect fun _ => .after hy fun _ => takes_pure _

theorem takes_forStatement (hx : Takes 1 x) (hy : Takes 1 y) : Takes 1 (forStatement x y) :=
  .before takes_take fun _ => .after takes_expect fun _ => .after (takes_optional hx) fun _ =>
    .after takes_expect fun _ => .after (takes_optional hx) fun _ => .after takes_expect fun _ =>
      .after (takes_optional hx) fun _ => .after takes_expect fun _ => .after hy fun _ =>
        takes_pure _

end

variable {n : Nat}

theorem takes_statement : (n : Nat) → Takes 1 (statement n)
  | 0 => takes_throw
  | n + 1 => by
    have hx := takes_expression (n + 1)
    have hy := takes_statement n
    refine .after takes_token fun t => ?_
    split
    · exact takes_ifStatement hx hy
    · exact takes_whileStatement hx hy
    · exact takes_forStatement hx hy
    · exact takes_breakStatement
    · exact takes_returnStatement hx
    · exact takes_declaration hx
    · exact takes_block hy
    · exact takes_expressionStatement hx

theorem takes_formal : Takes 1 formal :=
  .after takes_token fun _ => .before takes_name fun _ => .after takes_name fun _ => takes_pure _

theorem takes_methodRest {line : Int} {type s : String} : Takes 1 (methodRest n line type s) :=
  .before takes_take fun _ => .after (takes_commaList takes_formal) fun _ =>
    .after takes_expect fun _ => .after takes_check fun _ =>
      .ite (.after (takes_body (takes_statement n)) fun _ => takes_pure _) takes_fail

theorem takes_member : Takes 1 (member n) :=
  .after takes_token fun _ => .before takes_name fun _ => .after takes_name fun _ =>
    .after takes_takeIf fun _ => .ite
      (.after (takes_expression n) fun _ => .after takes_expect fun _ => takes_pure _)
      (.after takes_takeIf fun _ => .ite (takes_pure _)
        (.after takes_check fun _ => .ite takes_methodRest.zero takes_fail))

theorem takes_get : Takes 0 (get : ParserM Parser) := by
  intro p b q h
  cases h
  exact Nat.le_refl _

theorem takes_classDeclaration : Takes 1 (classDeclaration n) := by
  have rest (line : Int) (name : String) (parent : Option String) : Takes 0
      (do
        let membersLine := (← expect .leftBrace .classOpening).line
        let members ← untilBrace (member n) n
        let _ ← expect .rightBrace .classClosing
        return (⟨line, name, parent, membersLine, members, some (← get).file⟩ : ClassDecl)) :=
    .after takes_expect fun _ => .after (takes_untilBrace takes_member) fun _ =>
      .after takes_expect fun _ => .after takes_get fun _ => takes_pure _
  exact .after takes_token fun _ => .before takes_expect fun _ => .after takes_name fun _ =>
    .after takes_takeIf fun _ => .ite
      (.after (.before takes_name fun _ => takes_pure _) fun _ => rest _ _ _)
      (.after (takes_pure _) fun _ => rest _ _ _)

/-! ## progress -/

/-- The rule fails, or it goes on from one token or more, none of which is the end of the text. -/
def Progresses {α : Type} (x : ParserM α) : Prop :=
  ∀ p a q, x p = .ok a q → Relation.TransGen (Goes passes) p q

theorem progresses {α : Type} {x : ParserM α} {R : α → α → Prop} (takes : Takes 1 x)
    (twins : Twins Eq passes R x x) : Progresses x := by
  intro p a q h
  have ends := twins.ends p
  rw [h] at ends
  cases ends with
  | result moves =>
    rcases Relation.reflTransGen_iff_eq_or_transGen.1 moves with rfl | more
    · exact absurd (takes q a q h) (by omega)
    · exact more

/-- A parse of a text comes to a program or to a rejection. It makes no request after that for the
lexeme at the end, so there are no more of them than lexemes, and all that its loops repeat goes on
from some token. -/
theorem parse_progress (text name : String) :
    let result := (Source.ofText text name).parse
    (match result with
      | .ok _ q => q.taken = (lexemes text name).length
      | .error cause _ => ∃ d, cause = .rejected (some d)) ∧
    (stateOf result).taken ≤ (lexemes text name).length ∧
    (∃ before l rest, lexemes text name = before ++ l :: rest ∧
      (stateOf result).taken = before.length + 1 ∧ (stateOf result).current = some l.token ∧
      ∀ m ∈ before, m.token.kind ≠ .endOfFile) ∧
    ∀ n, Progresses (classDeclaration n) ∧ Progresses (member n) ∧ Progresses (statement n) ∧
      Progresses formal ∧ Progresses (expression n) ∧
      ∀ k ls, Progresses (cascade k (expression n) ls) := by
  intro result
  have loops (n : Nat) : Progresses (classDeclaration n) ∧ Progresses (member n) ∧
      Progresses (statement n) ∧ Progresses formal ∧ Progresses (expression n) ∧
      ∀ k ls, Progresses (cascade k (expression n) ls) := by
    have le := Nat.le_refl n
    exact ⟨progresses takes_classDeclaration (classDeclaration_twins broad_passes le),
      progresses takes_member (member_twins broad_passes le),
      progresses (takes_statement n) (statement_twins broad_passes le),
      progresses takes_formal (formal_twins broad_passes),
      progresses (takes_expression n) (expression_twins broad_passes le),
      fun k ls => progresses (takes_cascade (takes_expression n) ls)
        (cascade_twins broad_passes (expression_twins broad_passes le) (Nat.le_refl k) ls)⟩
  obtain ⟨p, hp, -, ⟨r, q, before, l, hr, split, stands⟩ |
    ⟨expected, q, before, l, rest, hr, split, stands, -⟩⟩ := parse_outcome text name
  · have ends : result = .ok r q := hp.trans hr
    rw [ends, split]
    simp only [stateOf_ok, stands.taken, stands.current]
    exact ⟨by simp, by simp, ⟨before, l, [], rfl, rfl, rfl, stands.before_ne_end⟩, loops⟩
  · obtain ⟨d, hd⟩ := rejection_eq (α := Program) expected l.token q
    have ends : result = .error (.rejected (some d))
        (q.register (refusal expected l.token q.file)) :=
      hp.trans ((bind_of_error hr).trans hd)
    have taken : (q.register (refusal expected l.token q.file)).taken = before.length + 1 :=
      stands.taken
    rw [ends, split]
    simp only [stateOf_error, taken]
    exact ⟨⟨d, rfl⟩, by simp, ⟨before, l, rest, rfl, rfl, stands.current, stands.before_ne_end⟩,
      loops⟩

end Grammar
end BantamSyntax
