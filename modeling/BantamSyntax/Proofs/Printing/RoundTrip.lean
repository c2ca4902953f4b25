import BantamSyntax.Proofs.Printing.Leaves
import BantamSyntax.Proofs.Printing.LineEnds
import BantamSyntax.Proofs.Printing.RejectedPrograms

/-!
# Round trips

A printed program is parsed as an equal one just if each `else` in it belongs to the nearest `if`
and no unary operator stands at a creation or a cast.
-/
namespace BantamSyntax

open Grammar BantamSyntax.Parser

namespace Program

variable {p : Program}

/-! ## printed programs -/

theorem symbolsOf_source (valid : p.Valid) (width indent : Int) :
    Scanner.symbolsOf (p.source width indent).toList = p.symbols ++ [(.endOfFile, "")] := by
  have text := Program.scans valid width indent [] Scanner.apart_nil
  rwa [Scanner.symbolsOf_nil, List.append_nil] at text

/-- The symbols of all tokens that a printed program is scanned as. -/
theorem symbols_source (valid : p.Valid) (width indent : Int) :
    (Scanner.ofSource (.ofText (p.source width indent))).tokenize.1.lexemes.map (·.token.symbol) =
      p.symbols ++ [(.endOfFile, "")] := by
  rw [Scanner.tokenize_ofText, normalize_eq_self (Program.return_notMem valid width indent),
    Scanner.map_symbol_lexemesFrom 1 0]
  exact symbolsOf_source valid width indent

theorem symbols_tokens_source (valid : p.Valid) (width indent : Int) :
    (tokens (p.source width indent)).map Token.symbol = p.symbols ++ [(.endOfFile, "")] := by
  rw [symbols_tokens, normalize_eq_self (Program.return_notMem valid width indent),
    symbolsOf_source valid, List.filter_append,
    List.filter_eq_self.2 (List.all_eq_true.1 p.symbols_significant)]
  rfl

/-- The tokens of a printed program are those of the program and the one at the end. -/
theorem exists_tokens_source (valid : p.Valid) (width indent : Int) :
    ∃ w last, tokens (p.source width indent) = w ++ [last] ∧ w.map Token.symbol = p.symbols := by
  obtain ⟨w, v, hw, symbols, ending⟩ :=
    List.map_eq_append_iff.1 (symbols_tokens_source valid width indent)
  obtain ⟨last, rfl, _⟩ := List.map_eq_singleton_iff.1 ending
  exact ⟨w, last, hw, symbols⟩

theorem parse_source_of_faithful (valid : p.Valid) (settled : p.settled = true)
    (faithful : p.faithful = true) (width indent : Int) :
    ∃ q, parseText (p.source width indent) = .ok q ∧ q.bare = p.bare := by
  obtain ⟨w, last, hw, symbols⟩ := exists_tokens_source valid width indent
  obtain ⟨q, derived, same⟩ := Program.reread Source.anonymous
    (((tokens (p.source width indent)).head?.map Token.line).getD 1) valid faithful symbols
  have derives : Derives (p.source width indent) q := by
    rw [Derives, hw, List.dropLast_concat, ← hw]
    exact derived
  have settled' : q.settled = true := by
    rw [← q.settled_bare, same, p.settled_bare, settled]
  exact ⟨q, parseText_complete derives settled', same⟩

theorem reject_source_of_unfaithful (valid : p.Valid) (settled : p.settled = true)
    (unfaithful : p.faithful = false) (width indent : Int) :
    ∃ d, parseText (p.source width indent) = .error (.rejected (some d)) := by
  obtain ⟨w, last, hw, symbols⟩ := exists_tokens_source valid width indent
  obtain ⟨s, t, ts, _, _, htokens, _, _, sees, hs⟩ := parse_text (p.source width indent)
  have len := sees.length_le
  rw [← htokens, hw] at sees len
  obtain ⟨d, q, hq⟩ := Program.rejected valid settled unfaithful symbols len s sees
  have hr : withSteps program s = .error (.rejected (some d)) q := hq
  exact ⟨d, by rw [parseText, hs, parseRest, bind_of_error hr]⟩

/-! ## round trips -/

/-- The printed program is accepted without a diagnostic, as an equal program that is printed as the
same text. -/
def Survives (p : Program) (width indent : Int) : Prop :=
  ∃ q s, (Source.ofText (p.source width indent)).parse = .ok q s ∧ s.diagnostics = [] ∧
    (Node.program p).same (.program q) = true ∧ q.source width indent = p.source width indent

theorem source_eq_of_same {p q : Program} (h : (Node.program p).same (.program q) = true)
    (width indent : Int) : q.source width indent = p.source width indent := by
  rw [← q.source_bare, ← (Program.same_iff p q).1 h, p.source_bare]

theorem survives_iff_exists (p : Program) (width indent : Int) :
    p.Survives width indent ↔
      ∃ q, parseText (p.source width indent) = .ok q ∧
        (Node.program p).same (.program q) = true := by
  constructor
  · rintro ⟨q, s, hs, _, same, _⟩
    exact ⟨q, by rw [parseText, hs], same⟩
  · rintro ⟨q, hq, same⟩
    obtain ⟨s, hs, clean⟩ := parse_of_parseText hq
    exact ⟨q, s, hs, clean, same, source_eq_of_same same width indent⟩

theorem parse_source_iff_faithful (valid : p.Valid) (settled : p.settled = true)
    (width indent : Int) :
    (∃ q, parseText (p.source width indent) = .ok q ∧ (Node.program p).same (.program q) = true) ↔
      p.faithful = true := by
  constructor
  · rintro ⟨q, hq, _⟩
    cases faithful : p.faithful with
    | true => rfl
    | false =>
      obtain ⟨d, hd⟩ := reject_source_of_unfaithful valid settled faithful width indent
      cases hq.symm.trans hd
  · intro faithful
    obtain ⟨q, hq, same⟩ := parse_source_of_faithful valid settled faithful width indent
    exact ⟨q, hq, (Program.same_iff p q).2 same.symm⟩

theorem settled_of_same {text : String} {q : Program} (h : parseText text = .ok q)
    (same : (Node.program p).same (.program q) = true) : p.settled = true := by
  rw [← p.settled_bare, (Program.same_iff p q).1 same, q.settled_bare, (valid_of_parseText h).2]

/-- Of the trees whose leaves can stand in a text, those that survive printing are those in which
each `else` belongs to the nearest `if` and no unary operator stands at a creation or a cast. -/
theorem parse_source_iff (valid : p.Valid) (width indent : Int) :
    (∃ q, parseText (p.source width indent) = .ok q ∧ (Node.program p).same (.program q) = true) ↔
      p.settled = true ∧ p.faithful = true := by
  constructor
  · rintro ⟨q, hq, same⟩
    have settled := settled_of_same hq same
    exact ⟨settled, (parse_source_iff_faithful valid settled width indent).1 ⟨q, hq, same⟩⟩
  · rintro ⟨settled, faithful⟩
    exact (parse_source_iff_faithful valid settled width indent).2 faithful

/-- A field that is a negation, and a method with an `else`. -/
theorem parse_source_negation :
    ∃ p : Program, p.Valid ∧ p.settled = true ∧ p.faithful = true ∧
      ∃ q, parseText (p.source 4 0) = .ok q ∧ (Node.program p).same (.program q) = true := by
  have valid : Program.Valid ⟨1, 1, [⟨1, "A", none, 1, [
      .field 2 "int" "x" (some (.unary 2 .negate (.constant 2 .integer "1"))),
      .method 3 "void" "f" 3 [] 3 [.ifElse 4 (.var (.plain 4 "b"))
        (.expr 5 (.unary 5 (.increment .after) (.var (.plain 5 "x")))) (.return 7 none)]],
      none⟩]⟩ := by
    simp [Program.Valid, ClassDecl.Valid, Member.Valid, Stmt.AllValid, Stmt.Valid, Expr.Valid,
      ConstantKind.Spells]
    decide
  exact ⟨_, valid, by decide, by decide, (parse_source_iff valid 4 0).2 ⟨by decide, by decide⟩⟩

theorem exists_of_toOption {α ε β : Type} {x : Except ε α} {f : α → β} {b : β}
    (h : x.toOption.map f = some b) : ∃ a, x = .ok a ∧ f a = b := by
  cases x with
  | error => cases h
  | ok a => exact ⟨a, rfl, Option.some.inj h⟩

/-- A parsed program survives printing unless a unary operator in it stands at a creation or a cast.
What is printed for it is rejected then. -/
theorem survives_iff_of_parseText {text : String} (h : parseText text = .ok p)
    (width indent : Int) :
    (p.Survives width indent ↔ p.faithful = true) ∧
      (p.faithful = false →
        ∃ d, parseText (p.source width indent) = .error (.rejected (some d))) := by
  obtain ⟨valid, settled⟩ := valid_of_parseText h
  refine ⟨?_, fun unfaithful => reject_source_of_unfaithful valid settled unfaithful width indent⟩
  rw [survives_iff_exists]
  exact parse_source_iff_faithful valid settled width indent

/-- The program survives as its creation is an operand of no unary operator. -/
theorem survives_creation :
    ∃ p, parseText "class A \x7b A x = new A(); \x7d" = .ok p ∧
      (p.Survives 4 0 ↔ p.faithful = true) ∧ p.Survives 4 0 := by
  have parsed : (parseText "class A \x7b A x = new A(); \x7d").toOption.map faithful =
      some true := by
    decide +kernel
  obtain ⟨p, hp, faithful⟩ := exists_of_toOption parsed
  have survives := (survives_iff_of_parseText hp 4 0).1
  exact ⟨p, hp, survives, survives.2 faithful⟩

/-- A creation that stands in parentheses for its suffix is printed without them. -/
theorem not_survives_incremented_creation :
    ∃ p, parseText "class A \x7b int x = (new A())++; \x7d" = .ok p ∧
      ∀ width, ¬ p.Survives width 0 := by
  have parsed : (parseText "class A \x7b int x = (new A())++; \x7d").toOption.map faithful =
      some false := by
    decide +kernel
  obtain ⟨p, hp, unfaithful⟩ := exists_of_toOption parsed
  obtain ⟨valid, settled⟩ := valid_of_parseText hp
  refine ⟨p, hp, fun width survives => ?_⟩
  rw [survives_iff_exists, parse_source_iff_faithful valid settled, unfaithful] at survives
  cases survives

end Program

end BantamSyntax
