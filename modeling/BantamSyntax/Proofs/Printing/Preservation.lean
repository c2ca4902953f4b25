import BantamSyntax.Proofs.Printing.RoundTrip
import BantamSyntax.Proofs.Printing.Spellings

/-!
# Preservation of tokens

A program that was parsed and printed has the tokens that it had, in their order, but for
parentheses.
-/
namespace BantamSyntax

open Grammar BantamSyntax.Symbol

/-- The symbols that are no parentheses. -/
def unparenthesized (ss : List Symbol) : List Symbol :=
  ss.filter fun s => s.1 ∉ [.leftParen, .rightParen]

namespace Symbol

variable {ss rs : List Symbol} {s : Symbol}

@[simp] theorem unparenthesized_nil : unparenthesized [] = [] := rfl

@[simp] theorem unparenthesized_append :
    unparenthesized (ss ++ rs) = unparenthesized ss ++ unparenthesized rs :=
  List.filter_append ..

theorem unparenthesized_paren (h : s.1 ∈ [TokenKind.leftParen, .rightParen]) :
    unparenthesized (s :: ss) = unparenthesized ss :=
  List.filter_cons_of_neg (by simp [h])

@[simp] theorem unparenthesized_opening : unparenthesized (opening :: ss) = unparenthesized ss :=
  unparenthesized_paren (by decide)

@[simp] theorem unparenthesized_closing : unparenthesized (closing :: ss) = unparenthesized ss :=
  unparenthesized_paren (by decide)

/-- What stands before the same symbol, or the same rest, does not matter. -/
theorem unparenthesized_cons_congr (h : unparenthesized ss = unparenthesized rs) :
    unparenthesized (s :: ss) = unparenthesized (s :: rs) := by
  rw [← List.singleton_append, ← List.singleton_append (l := rs), unparenthesized_append,
    unparenthesized_append, h]

end Symbol

/-- The tokens are those that the symbols spell, but for parentheses. -/
def Keeps (w : List Token) (ss : List Symbol) : Prop :=
  (∀ t ∈ w, t.Tabled) → unparenthesized (w.map Token.symbol) = unparenthesized ss

namespace Keeps

variable {t : Token} {w u : List Token} {s : Symbol} {ss rs : List Symbol}

theorem nil : Keeps [] [] :=
  fun _ => rfl

theorem append (h : Keeps w ss) (h' : Keeps u rs) : Keeps (w ++ u) (ss ++ rs) := by
  intro tabled
  rw [List.forall_mem_append] at tabled
  rw [List.map_append, unparenthesized_append, unparenthesized_append, h tabled.1, h' tabled.2]

theorem cons (h : t.Tabled → t.symbol = s) (h' : Keeps w ss) : Keeps (t :: w) (s :: ss) := by
  intro tabled
  rw [List.forall_mem_cons] at tabled
  rw [List.map_cons, h tabled.1]
  exact unparenthesized_cons_congr (h' tabled.2)

/-- Parentheses of the tokens are left out. -/
theorem paren (h : t.kind ∈ [TokenKind.leftParen, .rightParen]) (h' : Keeps w ss) :
    Keeps (t :: w) ss := by
  intro tabled
  rw [List.forall_mem_cons] at tabled
  rw [List.map_cons, unparenthesized_paren h, h' tabled.2]

/-- Parentheses may be put around the symbols. -/
theorem enclosed (h : Keeps w ss) : Keeps w (opening :: ss ++ [closing]) := by
  intro tabled
  rw [h tabled]
  simp

theorem fixed (hk : t.kind = s.1)
    (only : s.1.isFree = false ∧ ∀ s' ∈ Symbol.fixed, s'.1 = s.1 → s' = s) (h' : Keeps w ss) :
    Keeps (t :: w) (s :: ss) :=
  cons (fun h => h.symbol_eq hk only) h'

theorem name (hk : t.kind = .identifier) (h' : Keeps w ss) :
    Keeps (t :: w) ((.identifier, t.spelling) :: ss) :=
  cons (fun _ => Prod.ext hk rfl) h'

end Keeps

namespace Grammar

/-! ## expressions -/

variable {w u : List Token}

theorem IsVariable.keeps {v : Variable} (h : IsVariable w v) :
    Keeps w (reference (v.receiver?.map Variable.name) v.name) := by
  cases h with
  | plain name => exact .name name .nil
  | qualified receiver _ dot name =>
    exact .name receiver (.fixed (s := (.dot, ".")) dot (by decide) (.name name .nil))

theorem Separated.keeps {items : List (Piece Expr)} (h : Separated (items.map (·.tokens)) u)
    (hi : ∀ i ∈ items, Keeps i.tokens i.tree.symbols) :
    Keeps u (Expr.symbolsAll (items.map (·.tree))) := by
  induction items generalizing u with
  | nil =>
    cases h
    exact .nil
  | cons i items ih =>
    cases items with
    | nil =>
      cases h
      exact hi i (by simp)
    | cons j items =>
      cases h with
      | cons comma rest =>
        have later := ih rest fun k hk => hi k (by simp [hk])
        exact (hi i (by simp)).append (.fixed (s := Symbol.comma) comma (by decide) later)

theorem IsExpr.keeps {p : Place} {e : Expr} (h : IsExpr p w e) (proper : p.Proper) :
    Keeps w e.symbols := by
  induction h with
  | assign target sign _ ih =>
    exact (target.keeps.append (.fixed (s := equals) sign (by decide) (ih trivial))).enclosed
  | plain _ ih => exact ih (List.suffix_refl _)
  | @binary l ls _ _ _ _ _ _ _ _ operator _ ihl ihr =>
    have hl : l ∈ Level.all := proper.subset (by simp)
    have later := (List.suffix_cons l ls).trans proper
    have former : (Place.level (if l.chain then l :: ls else ls)).Proper := by
      split
      · exact proper
      · exact later
    exact ((ihl former).append (.cons (fun h => h.ofBinary hl operator) (ihr later))).enclosed
  | @operand l ls _ _ _ ih => exact ih ((List.suffix_cons l ls).trans proper)
  | new word type opening closing =>
    refine .fixed (s := (.newWord, "new")) word (by decide) (.name type ?_)
    exact .fixed (s := Symbol.opening) opening (by decide)
      (.fixed (s := Symbol.closing) closing (by decide) .nil)
  | cast word opening type comma _ closing ih =>
    refine .fixed (s := (.castWord, "cast")) word (by decide) ?_
    refine .fixed (s := Symbol.opening) opening (by decide) (.name type ?_)
    refine .fixed (s := Symbol.comma) comma (by decide) ((ih trivial).append ?_)
    exact .fixed (s := Symbol.closing) closing (by decide) .nil
  | unary _ ih | unsigned _ ih | unsuffixed _ ih => exact ih trivial
  | sign operator _ ih =>
    intro tabled
    have first := (List.forall_mem_cons.1 tabled).1
    have side := (first.ofSign operator).2
    rw [Expr.symbols, side]
    exact (Keeps.cons (fun h => (h.ofSign operator).1) (ih trivial)).enclosed tabled
  | @suffix t o w op e _ operator ih =>
    intro tabled
    have last : o.Tabled := tabled o (by simp)
    have side := (last.ofSuffix operator).2
    have suffixed := (ih trivial).append (.cons (fun h => (h.ofSuffix operator).1) .nil)
    have symbols_eq : (Expr.unary t.line op e).symbols =
        opening :: (e.symbols ++ [ofUnary op]) ++ [closing] := by
      rw [Expr.symbols, side]
      simp
    rw [symbols_eq]
    exact suffixed.enclosed tabled
  | parens opening _ closing ih =>
    refine .paren (by simp [opening]) ?_
    simpa using (ih trivial).append (.paren (by simp [closing]) .nil)
  | constant h => exact .cons (fun _ => Token.symbol_of_constantKind? h) .nil
  | var h => exact h.keeps
  | @call t l r w u v items method opening _ commas closing ih =>
    have args := commas.keeps fun i hi => ih i hi trivial
    have last := args.append (.fixed (s := Symbol.closing) closing (by decide) .nil)
    have whole := method.keeps.append (.fixed (s := Symbol.opening) opening (by decide) last)
    simpa [Expr.symbols] using whole

theorem IsExpr.keeps_whole {e : Expr} (h : IsExpr .expression w e) : Keeps w e.symbols :=
  h.keeps trivial

theorem IsOptional.keeps {e : Option Expr} (h : IsOptional w e) : Keeps w (Expr.symbolsOr e) := by
  cases h with
  | absent => exact .nil
  | present h => exact h.keeps_whole

/-! ## statements -/

section

variable {t l r : Token} {e : Expr} {ss rs : List Symbol}

theorem keeps_row {α : Type} {f : α → List Symbol} {items : List (Piece α)}
    (h : ∀ i ∈ items, Keeps i.tokens (f i.tree)) :
    Keeps (items.flatMap (·.tokens)) ((items.map (·.tree)).flatMap f) := by
  induction items with
  | nil => exact .nil
  | cons i items ih => exact (h i (by simp)).append (ih fun j hj => h j (by simp [hj]))

theorem symbolsAll_eq_flatMap (ss : List Stmt) : Stmt.symbolsAll ss = ss.flatMap Stmt.symbols := by
  induction ss with
  | nil => rfl
  | cons s ss ih => rw [Stmt.symbolsAll, ih, List.flatMap_cons]

/-- A condition in its parentheses. -/
theorem keeps_condition (opening : l.kind = .leftParen) (condition : IsExpr .expression w e)
    (closing : r.kind = .rightParen) (h : Keeps u ss) :
    Keeps (l :: w ++ r :: u) (Symbol.opening :: e.symbols ++ Symbol.closing :: ss) :=
  .fixed (s := Symbol.opening) opening (by decide)
    (condition.keeps_whole.append (.fixed (s := Symbol.closing) closing (by decide) h))

theorem IsStmt.keeps {s : Stmt} (h : IsStmt w s) : Keeps w s.symbols := by
  induction h with
  | block opening _ closing ih =>
    rw [Stmt.symbols, symbolsAll_eq_flatMap]
    refine .fixed (s := openBrace) opening (by decide) ((keeps_row ih).append ?_)
    exact .fixed (s := closeBrace) closing (by decide) .nil
  | declare word name sign init closing =>
    refine .fixed (s := (.varWord, "var")) word (by decide) (.name name ?_)
    refine .fixed (s := equals) sign (by decide) (init.keeps_whole.append ?_)
    exact .fixed (s := Symbol.semicolon) closing (by decide) .nil
  | expr h closing =>
    exact h.keeps_whole.append (.fixed (s := Symbol.semicolon) closing (by decide) .nil)
  | ifThen word opening condition closing _ ih =>
    exact .fixed (s := (.ifWord, "if")) word (by decide)
      (keeps_condition opening condition closing ih)
  | ifElse word opening condition closing _ other _ ih iha =>
    have branches := ih.append (.fixed (s := (.elseWord, "else")) other (by decide) iha)
    have whole := keeps_condition opening condition closing branches
    simpa [Stmt.symbols] using Keeps.fixed (s := (.ifWord, "if")) word (by decide) whole
  | «while» word opening condition closing _ ih =>
    exact .fixed (s := (.whileWord, "while")) word (by decide)
      (keeps_condition opening condition closing ih)
  | «for» word opening first initEnd second conditionEnd third closing _ ih =>
    have body := third.keeps.append (.fixed (s := Symbol.closing) closing (by decide) ih)
    have middle := second.keeps.append (.fixed (s := semicolon) conditionEnd (by decide) body)
    have slots := first.keeps.append (.fixed (s := semicolon) initEnd (by decide) middle)
    have header := Keeps.fixed (s := Symbol.opening) opening (by decide) slots
    simpa [Stmt.symbols] using Keeps.fixed (s := (.forWord, "for")) word (by decide) header
  | «break» word closing =>
    exact .fixed (s := (.breakWord, "break")) word (by decide)
      (.fixed (s := Symbol.semicolon) closing (by decide) .nil)
  | «return» word result closing =>
    exact .fixed (s := (.returnWord, "return")) word (by decide)
      (result.keeps.append (.fixed (s := Symbol.semicolon) closing (by decide) .nil))

end

/-! ## classes -/

theorem IsFormal.keeps {f : Formal} (h : IsFormal w f) : Keeps w f.symbols := by
  cases h with
  | intro type name => exact .name type (.name name .nil)

theorem keeps_formals {items : List (Piece Formal)} (h : Separated (items.map (·.tokens)) u)
    (hi : ∀ i ∈ items, IsFormal i.tokens i.tree) :
    Keeps u (Formal.symbolsAll (items.map (·.tree))) := by
  induction items generalizing u with
  | nil =>
    cases h
    exact .nil
  | cons i items ih =>
    have first := (hi i (by simp)).keeps
    cases items with
    | nil =>
      cases h
      exact first
    | cons j items =>
      cases h with
      | cons comma rest =>
        have later := ih rest fun k hk => hi k (by simp [hk])
        exact first.append (.fixed (s := Symbol.comma) comma (by decide) later)

theorem IsMember.keeps {m : Member} (h : IsMember w m) : Keeps w m.symbols := by
  cases h with
  | field type name closing =>
    exact .name type (.name name (.fixed (s := semicolon) closing (by decide) .nil))
  | fieldInit type name sign init closing =>
    refine .name type (.name name (.fixed (s := equals) sign (by decide) ?_))
    exact init.keeps_whole.append (.fixed (s := semicolon) closing (by decide) .nil)
  | method type name opening parameters commas closing bodyOpening body bodyClosing =>
    have last := (keeps_row fun i hi => (body i hi).keeps).append
      (.fixed (s := closeBrace) bodyClosing (by decide) .nil)
    have block := Keeps.fixed (s := openBrace) bodyOpening (by decide) last
    have formals := (keeps_formals commas parameters).append
      (.fixed (s := Symbol.closing) closing (by decide) block)
    have whole := Keeps.name type (.name name
      (.fixed (s := Symbol.opening) opening (by decide) formals))
    simpa [Member.symbols, symbolsAll_eq_flatMap] using whole

theorem IsParent.keeps {parent : Option String} (h : IsParent w parent) :
    Keeps w (ofParent parent) := by
  cases h with
  | absent => exact .nil
  | present word name =>
    exact .fixed (s := (.extendsWord, "extends")) word (by decide) (.name name .nil)

theorem IsClass.keeps {file : String} {c : ClassDecl} (h : IsClass file w c) :
    Keeps w c.symbols := by
  cases h with
  | intro word name heading opening members closing =>
    have last := (keeps_row fun i hi => (members i hi).keeps).append
      (.fixed (s := closeBrace) closing (by decide) .nil)
    have headed := heading.keeps.append (.fixed (s := openBrace) opening (by decide) last)
    have whole := Keeps.fixed (s := (.classWord, "class")) word (by decide) (.name name headed)
    simpa [ClassDecl.symbols] using whole

theorem IsProgram.keeps {file : String} {line : Int} {p : Program}
    (h : IsProgram file line w p) : Keeps w p.symbols := by
  cases h with
  | intro classes => exact keeps_row fun i hi => (classes i hi).keeps

/-! ## texts -/

/-- Between an accepted text and the printed program only parentheses come and go: all other tokens
are the same, in kind and spelling, and in the same order. The printed program need not be accepted
again. -/
theorem unparenthesized_source {text : String} {p : Program} (h : parseText text = .ok p)
    (width indent : Int) :
    unparenthesized
        ((Scanner.ofSource (.ofText (p.source width indent))).tokenize.1.lexemes.map
          (·.token.symbol)) =
      unparenthesized ((tokens text).map Token.symbol) := by
  obtain ⟨_, t, ts, w, last, htokens, hw, ended, _⟩ := parse_text text
  have derived := ((parseText_exact text).2.1 p).1 h
  have program := (derives_iff htokens hw).1 derived.1
  have split : tokens text = w ++ [last] := htokens.trans hw
  have kept := program.keeps fun t ht => @tabled_tokens text t (by simp [split, ht])
  have ending := @symbol_ending text last (by simp [split]) ended
  rw [Program.symbols_source (valid_of_parseText h).1, split, List.map_append,
    unparenthesized_append, unparenthesized_append, kept, List.map_singleton, ending]

/-- So it is also for a program that does not survive printing. -/
theorem unparenthesized_source_incremented_creation :
    ∃ p, parseText "class A \x7b int x = (new A())++; \x7d" = .ok p ∧
      unparenthesized
          ((Scanner.ofSource (.ofText (p.source 4 0))).tokenize.1.lexemes.map (·.token.symbol)) =
        unparenthesized ((tokens "class A \x7b int x = (new A())++; \x7d").map Token.symbol) := by
  have parsed : (parseText "class A \x7b int x = (new A())++; \x7d").toOption.isSome = true := by
    decide +kernel
  obtain ⟨p, hp⟩ := Option.isSome_iff_exists.1 parsed
  obtain ⟨q, hq, _⟩ := Program.exists_of_toOption (f := id) (by rw [hp]; rfl)
  exact ⟨q, hq, unparenthesized_source hq 4 0⟩

end Grammar
end BantamSyntax
