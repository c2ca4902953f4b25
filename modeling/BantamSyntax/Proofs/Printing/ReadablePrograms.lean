import BantamSyntax.Proofs.Printing.ReadableExpressions

/-!
# Unique readability of programs

The symbols of a program tell the program, if each `else` belongs to the nearest `if`. So parsed
programs that are printed as the same text are equal.
-/
namespace BantamSyntax

open Grammar BantamSyntax.Symbol

/-! ## optional expressions -/

theorem Expr.readable_or {o o' : Option Expr} {mark : Symbol} {ss ss' : List Symbol}
    (hm : mark ∈ [semicolon, closing]) (valid : ∀ e ∈ o, e.Valid) (valid' : ∀ e ∈ o', e.Valid)
    (h : symbolsOr o ++ mark :: ss = symbolsOr o' ++ mark :: ss') :
    o.map Expr.bare = o'.map Expr.bare ∧ ss = ss' := by
  have ends : EndName [mark] := by
    simp at hm
    rcases hm with rfl | rfl <;> simp [semicolon, closing]
  have begins (e : Expr) : e.firstKind ≠ mark.1 := by
    simp at hm
    rcases hm with rfl | rfl <;> exact firstKind_ne (by decide)
  cases o with
  | none =>
    cases o' with
    | none => simpa [symbolsOr] using h
    | some e' => exact absurd (firstKind_of_cons (e := e') h.symm) (begins e')
  | some e =>
    cases o' with
    | none => exact absurd (firstKind_of_cons (e := e) h) (begins e)
    | some e' =>
      obtain ⟨same, rfl⟩ := readable_upTo ends h (valid e rfl) (valid' e' rfl)
      exact ⟨by simp [same], rfl⟩

/-! ## statements -/

/-- The kind of the first symbol. -/
def Stmt.firstKind : Stmt → TokenKind
  | .block .. => .leftBrace
  | .declare .. => .varWord
  | .expr _ e => e.firstKind
  | .ifThen .. => .ifWord
  | .ifElse .. => .ifWord
  | .while .. => .whileWord
  | .for .. => .forWord
  | .break _ => .breakWord
  | .return .. => .returnWord

theorem Stmt.symbols_begin (s : Stmt) : ∃ x ss, s.symbols = (s.firstKind, x) :: ss := by
  cases s with
  | expr _ e =>
    obtain ⟨x, ss, h⟩ := e.symbols_begin
    exact ⟨x, _, by rw [symbols, h]; rfl⟩
  | _ => exact ⟨_, _, rfl⟩

theorem Stmt.firstKind_eq {s s' : Stmt} {ss ss' : List Symbol}
    (h : s.symbols ++ ss = s'.symbols ++ ss') : s.firstKind = s'.firstKind := by
  obtain ⟨x, u, hu⟩ := s.symbols_begin
  obtain ⟨x', u', hu'⟩ := s'.symbols_begin
  simp [hu, hu'] at h
  exact h.1.1

/-- The words and marks that begin no statement. -/
theorem Stmt.firstKind_ne {s : Stmt} {kind : TokenKind}
    (h : kind ∈ [TokenKind.elseWord, .rightBrace]) : s.firstKind ≠ kind := by
  simp at h
  cases s with
  | expr _ e => rcases h with rfl | rfl <;> exact Expr.firstKind_ne (by decide)
  | _ => rcases h with rfl | rfl <;> simp [firstKind]

/-- No `else` follows. -/
def Symbol.NoElse (ss : List Symbol) : Prop :=
  ∀ s ∈ ss.head?, s.1 ≠ .elseWord

/-- The statement stands before the symbols as it would in a text: an `else` that follows belongs to
no `if` in it. -/
structure Stmt.Stands (s : Stmt) (ss : List Symbol) : Prop where
  valid : s.Valid
  settled : s.settled = true
  nearest : s.dangles = true → NoElse ss

/-- The symbols tell the statement and where it ends. -/
def Stmt.Readable (s : Stmt) : Prop :=
  ∀ (s' : Stmt) (ss ss' : List Symbol), s.Stands ss → s'.Stands ss' →
    s.symbols ++ ss = s'.symbols ++ ss' → s.bare = s'.bare ∧ ss = ss'

/-- The symbols tell the statements up to a closing brace. -/
def Stmt.AllReadable (ss : List Stmt) : Prop :=
  ∀ (ss' : List Stmt) (xs xs' : List Symbol), Stmt.AllValid ss → Stmt.AllValid ss' →
    Stmt.allSettled ss = true → Stmt.allSettled ss' = true →
    Stmt.symbolsAll ss ++ closeBrace :: xs = Stmt.symbolsAll ss' ++ closeBrace :: xs' →
    Stmt.bares ss = Stmt.bares ss' ∧ xs = xs'

namespace Stmt

variable {line bodyLine : Int} {e : Expr} {s t : Stmt} {ss : List Stmt}

theorem readable_block (body : AllReadable ss) : (block line bodyLine ss).Readable := by
  intro s' xs xs' stands stands' h
  have first := firstKind_eq h
  cases s' with
  | block _ _ ss' =>
    simp [symbols] at h
    obtain ⟨same, rfl⟩ := body ss' _ _ stands.valid stands'.valid stands.settled stands'.settled h
    exact ⟨by simp [bare, same], rfl⟩
  | expr _ e' => exact absurd first.symm (Expr.firstKind_ne (by simp [firstKind]))
  | _ => cases first

theorem readable_declare {name : String} : (declare line name e).Readable := by
  intro s' xs xs' stands stands' h
  have first := firstKind_eq h
  cases s' with
  | declare _ name' e' =>
    simp [symbols] at h
    obtain ⟨rfl, h⟩ := h
    obtain ⟨same, rfl⟩ := Expr.readable_upTo (by simp [semicolon]) h stands.valid.2 stands'.valid.2
    exact ⟨by simp [bare, same], rfl⟩
  | expr _ e' => exact absurd first.symm (Expr.firstKind_ne (by simp [firstKind]))
  | _ => cases first

theorem readable_expr : (expr line e).Readable := by
  intro s' xs xs' stands stands' h
  have first := firstKind_eq h
  cases s' with
  | expr _ e' =>
    simp [symbols] at h
    obtain ⟨same, rfl⟩ := Expr.readable_upTo (by simp [semicolon]) h stands.valid stands'.valid
    exact ⟨by simp [bare, same], rfl⟩
  | _ => exact absurd first (Expr.firstKind_ne (by simp [firstKind]))

theorem noElse_else {x : String} {xs : List Symbol} : ¬ NoElse ((.elseWord, x) :: xs) := by
  simp [NoElse]

theorem readable_ifThen (consequent : s.Readable) : (ifThen line e s).Readable := by
  intro s' xs xs' stands stands' h
  have first := firstKind_eq h
  have nearest := stands.nearest rfl
  cases s' with
  | ifThen _ e' t =>
    simp [symbols] at h
    obtain ⟨same, rest⟩ := Expr.readable_upTo (by simp [closing]) h stands.valid.1 stands'.valid.1
    obtain ⟨same', rfl⟩ := consequent t xs xs' ⟨stands.valid.2, stands.settled, fun _ => nearest⟩
      ⟨stands'.valid.2, stands'.settled, fun _ => stands'.nearest rfl⟩ rest
    exact ⟨by simp [bare, same, same'], rfl⟩
  | ifElse _ e' t u =>
    have settled := stands'.settled
    simp [Stmt.settled] at settled
    simp [symbols] at h
    obtain ⟨-, rest⟩ := Expr.readable_upTo (by simp [closing]) h stands.valid.1 stands'.valid.1
    obtain ⟨-, rfl⟩ := consequent t _ _ ⟨stands.valid.2, stands.settled, fun _ => nearest⟩
      ⟨stands'.valid.2.1, settled.1.2, by simp [settled.1.1]⟩ rest
    exact absurd nearest noElse_else
  | expr _ e' => exact absurd first.symm (Expr.firstKind_ne (by simp [firstKind]))
  | _ => cases first

theorem readable_ifElse (consequent : s.Readable) (alternative : t.Readable) :
    (ifElse line e s t).Readable := by
  intro s' xs xs' stands stands' h
  have first := firstKind_eq h
  have settled := stands.settled
  simp [Stmt.settled] at settled
  have before (ys : List Symbol) : s.Stands ys :=
    ⟨stands.valid.2.1, settled.1.2, by simp [settled.1.1]⟩
  cases s' with
  | ifThen _ e' u =>
    simp [symbols] at h
    obtain ⟨-, rest⟩ := Expr.readable_upTo (by simp [closing]) h stands.valid.1 stands'.valid.1
    obtain ⟨-, rfl⟩ := consequent u _ _ (before _)
      ⟨stands'.valid.2, stands'.settled, fun _ => stands'.nearest rfl⟩ rest
    exact absurd (stands'.nearest rfl) noElse_else
  | ifElse _ e' u v =>
    have settled' := stands'.settled
    simp [Stmt.settled] at settled'
    simp [symbols] at h
    obtain ⟨same, rest⟩ := Expr.readable_upTo (by simp [closing]) h stands.valid.1 stands'.valid.1
    obtain ⟨same', rest⟩ := consequent u _ _ (before _)
      ⟨stands'.valid.2.1, settled'.1.2, by simp [settled'.1.1]⟩ rest
    obtain ⟨same'', rfl⟩ := alternative v xs xs' ⟨stands.valid.2.2, settled.2, stands.nearest⟩
      ⟨stands'.valid.2.2, settled'.2, stands'.nearest⟩ (List.cons.inj rest).2
    exact ⟨by simp [bare, same, same', same''], rfl⟩
  | expr _ e' => exact absurd first.symm (Expr.firstKind_ne (by simp [firstKind]))
  | _ => cases first

theorem readable_while (body : s.Readable) : (Stmt.while line e s).Readable := by
  intro s' xs xs' stands stands' h
  have first := firstKind_eq h
  cases s' with
  | «while» _ e' t =>
    simp [symbols] at h
    obtain ⟨same, rest⟩ := Expr.readable_upTo (by simp [closing]) h stands.valid.1 stands'.valid.1
    obtain ⟨same', rfl⟩ := body t xs xs' ⟨stands.valid.2, stands.settled, stands.nearest⟩
      ⟨stands'.valid.2, stands'.settled, stands'.nearest⟩ rest
    exact ⟨by simp [bare, same, same'], rfl⟩
  | expr _ e' => exact absurd first.symm (Expr.firstKind_ne (by simp [firstKind]))
  | _ => cases first

theorem readable_for {init condition update : Option Expr} (body : s.Readable) :
    (Stmt.for line init condition update s).Readable := by
  intro s' xs xs' stands stands' h
  have first := firstKind_eq h
  cases s' with
  | «for» _ init' condition' update' t =>
    obtain ⟨vi, vc, vu, vs⟩ := stands.valid
    obtain ⟨vi', vc', vu', vs'⟩ := stands'.valid
    simp [symbols] at h
    obtain ⟨same₁, rest⟩ := Expr.readable_or (by simp) vi vi' h
    obtain ⟨same₂, rest⟩ := Expr.readable_or (by simp) vc vc' rest
    obtain ⟨same₃, rest⟩ := Expr.readable_or (by simp) vu vu' rest
    obtain ⟨same₄, rfl⟩ := body t xs xs' ⟨vs, stands.settled, stands.nearest⟩
      ⟨vs', stands'.settled, stands'.nearest⟩ rest
    exact ⟨by simp [bare, same₁, same₂, same₃, same₄], rfl⟩
  | expr _ e' => exact absurd first.symm (Expr.firstKind_ne (by simp [firstKind]))
  | _ => cases first

theorem readable_break : (Stmt.break line).Readable := by
  intro s' xs xs' _ _ h
  have first := firstKind_eq h
  cases s' with
  | «break» => simpa [symbols, bare] using h
  | expr _ e' => exact absurd first.symm (Expr.firstKind_ne (by simp [firstKind]))
  | _ => cases first

theorem readable_return {value : Option Expr} : (Stmt.return line value).Readable := by
  intro s' xs xs' stands stands' h
  have first := firstKind_eq h
  cases s' with
  | «return» _ value' =>
    simp [symbols] at h
    obtain ⟨same, rfl⟩ := Expr.readable_or (by simp) stands.valid stands'.valid h
    exact ⟨by simp [bare, same], rfl⟩
  | expr _ e' => exact absurd first.symm (Expr.firstKind_ne (by simp [firstKind]))
  | _ => cases first

theorem noElse_all (ss : List Stmt) (xs : List Symbol) :
    NoElse (symbolsAll ss ++ closeBrace :: xs) := by
  cases ss with
  | nil => simp [symbolsAll, NoElse, closeBrace]
  | cons s ss =>
    obtain ⟨x, u, hu⟩ := s.symbols_begin
    simp [symbolsAll, hu, NoElse, firstKind_ne]

theorem symbolsAll_ne_closeBrace {xs xs' : List Symbol} {ss : List Stmt} (s : Stmt) :
    closeBrace :: xs ≠ symbolsAll (s :: ss) ++ xs' := by
  obtain ⟨x, u, hu⟩ := s.symbols_begin
  intro h
  simp [symbolsAll, hu, closeBrace] at h
  exact firstKind_ne (s := s) (by simp) h.1.1.symm

theorem readable_nil : AllReadable [] := by
  rintro (_ | ⟨s, ss⟩) xs xs' _ _ _ _ h
  · simpa [symbolsAll, bares] using h
  · exact absurd h (symbolsAll_ne_closeBrace s)

theorem readable_cons (head : s.Readable) (tail : AllReadable ss) : AllReadable (s :: ss) := by
  rintro (_ | ⟨s', ss'⟩) xs xs' valid valid' settled settled' h
  · exact absurd h.symm (symbolsAll_ne_closeBrace s)
  simp [allSettled] at settled settled'
  simp only [symbolsAll, List.append_assoc] at h
  obtain ⟨same, rest⟩ := head s' _ _ ⟨valid.1, settled.1, fun _ => noElse_all _ _⟩
    ⟨valid'.1, settled'.1, fun _ => noElse_all _ _⟩ h
  obtain ⟨same', rfl⟩ := tail ss' _ _ valid.2 valid'.2 settled.2 settled'.2 rest
  exact ⟨by simp [bares, same, same'], rfl⟩

mutual

theorem readable : (s : Stmt) → s.Readable
  | .block _ _ body => readable_block (readable_all body)
  | .declare .. => readable_declare
  | .expr .. => readable_expr
  | .ifThen _ _ consequent => readable_ifThen (readable consequent)
  | .ifElse _ _ consequent alternative =>
    readable_ifElse (readable consequent) (readable alternative)
  | .while _ _ body => readable_while (readable body)
  | .for _ _ _ _ body => readable_for (readable body)
  | .break _ => readable_break
  | .return .. => readable_return

theorem readable_all : (ss : List Stmt) → AllReadable ss
  | [] => readable_nil
  | s :: ss => readable_cons (readable s) (readable_all ss)

end

end Stmt

/-! ## classes -/

theorem Formal.readable_all (fs fs' : List Formal) (ss ss' : List Symbol)
    (h : Formal.symbolsAll fs ++ closing :: ss = Formal.symbolsAll fs' ++ closing :: ss') :
    fs.map Formal.bare = fs'.map Formal.bare ∧ ss = ss' := by
  match fs, fs' with
  | [], [] => simpa [symbolsAll] using h
  | [], [_] | [], _ :: _ :: _ | [_], [] | _ :: _ :: _, [] =>
    simp [symbolsAll, symbols, closing] at h
  | [_], [_] => simpa [symbolsAll, symbols, bare, and_assoc] using h
  | [_], _ :: _ :: _ | _ :: _ :: _, [_] =>
    simp [symbolsAll, symbols, closing, comma] at h
  | f :: g :: fs, f' :: g' :: fs' =>
    simp [symbolsAll, symbols] at h
    obtain ⟨type, name, rest⟩ := h
    obtain ⟨same, rfl⟩ := Formal.readable_all (g :: fs) (g' :: fs') ss ss' rest
    exact ⟨by simp [bare, type, name] at same ⊢; exact same, rfl⟩

/-- Where the symbols of each item tell the item, those of a list tell the list up to a symbol that
begins no item. -/
theorem Symbol.readable_flatMap {α β : Type} {symbols : α → List Symbol} {bare : α → β}
    {Good : α → Prop} {kind : TokenKind} {stop : Symbol} (stops : stop.1 ≠ kind)
    (begins : ∀ a, ∃ x ss, symbols a = (kind, x) :: ss)
    (tells : ∀ a a' ss ss', Good a → Good a' → symbols a ++ ss = symbols a' ++ ss' →
      bare a = bare a' ∧ ss = ss')
    {as as' : List α} {ss ss' : List Symbol} (good : ∀ a ∈ as, Good a) (good' : ∀ a ∈ as', Good a)
    (h : as.flatMap symbols ++ stop :: ss = as'.flatMap symbols ++ stop :: ss') :
    as.map bare = as'.map bare ∧ ss = ss' := by
  have more (a : α) (as : List α) (ss ss' : List Symbol) :
      stop :: ss ≠ (a :: as).flatMap symbols ++ ss' := by
    obtain ⟨x, u, hu⟩ := begins a
    rintro h
    simp [hu] at h
    exact stops (congrArg Prod.fst h.1)
  induction as generalizing as' with
  | nil =>
    cases as' with
    | nil => simpa using h
    | cons a' as' => exact absurd h (more a' as' _ _)
  | cons a as ih =>
    cases as' with
    | nil => exact absurd h.symm (more a as _ _)
    | cons a' as' =>
      simp at good good'
      simp only [List.flatMap_cons, List.append_assoc] at h
      obtain ⟨same, rest⟩ := tells a a' _ _ good.1 good'.1 h
      obtain ⟨same', rfl⟩ := ih good.2 good'.2 rest
      exact ⟨by simp [same, same'], rfl⟩

theorem Member.symbols_begin (m : Member) : ∃ x ss, m.symbols = (.identifier, x) :: ss := by
  match m with
  | .field _ _ _ none | .field _ _ _ (some _) | .method .. => exact ⟨_, _, rfl⟩

theorem Member.readable (m m' : Member) (ss ss' : List Symbol) (good : m.Valid ∧ m.settled = true)
    (good' : m'.Valid ∧ m'.settled = true) (h : m.symbols ++ ss = m'.symbols ++ ss') :
    m.bare = m'.bare ∧ ss = ss' := by
  match m, m' with
  | .field _ _ _ none, .field _ _ _ none => simpa [symbols, bare, and_assoc] using h
  | .field _ _ _ none, .field _ _ _ (some _) | .field _ _ _ (some _), .field _ _ _ none
  | .field _ _ _ none, .method .. | .field _ _ _ (some _), .method ..
  | .method .., .field _ _ _ none | .method .., .field _ _ _ (some _) =>
    simp [symbols, semicolon, equals, opening] at h
  | .field _ _ _ (some init), .field _ _ _ (some init') =>
    simp [symbols] at h
    obtain ⟨type, name, rest⟩ := h
    obtain ⟨same, rfl⟩ := Expr.readable_upTo (by simp [semicolon]) rest (good.1.2.2 _ rfl)
      (good'.1.2.2 _ rfl)
    exact ⟨by simp [bare, type, name, same], rfl⟩
  | .method _ _ _ _ formals _ body, .method _ _ _ _ formals' _ body' =>
    simp [symbols] at h
    obtain ⟨type, name, rest⟩ := h
    obtain ⟨same, rest⟩ := Formal.readable_all formals formals' _ _ rest
    obtain ⟨same', rfl⟩ := Stmt.readable_all body body' _ _ good.1.2.2.2 good'.1.2.2.2 good.2
      good'.2 (List.cons.inj rest).2
    exact ⟨by simp [bare, type, name, same, same'], rfl⟩

theorem Symbol.ofParent_append_inj {parent parent' : Option String} {ss ss' : List Symbol}
    (h : ofParent parent ++ openBrace :: ss = ofParent parent' ++ openBrace :: ss') :
    parent = parent' ∧ ss = ss' := by
  cases parent <;> cases parent' <;> simp [ofParent, openBrace] at h <;> simp [h]

theorem ClassDecl.readable (c c' : ClassDecl) (ss ss' : List Symbol)
    (good : c.Valid ∧ c.members.all Member.settled = true)
    (good' : c'.Valid ∧ c'.members.all Member.settled = true)
    (h : c.symbols ++ ss = c'.symbols ++ ss') : c.bare = c'.bare ∧ ss = ss' := by
  simp [symbols] at h
  obtain ⟨name, rest⟩ := h
  obtain ⟨parent, rest⟩ := ofParent_append_inj rest
  obtain ⟨members, rfl⟩ := readable_flatMap (by simp [closeBrace]) Member.symbols_begin
    Member.readable (fun m hm => ⟨good.1.2.2 m hm, List.all_eq_true.1 good.2 m hm⟩)
    (fun m hm => ⟨good'.1.2.2 m hm, List.all_eq_true.1 good'.2 m hm⟩) rest
  exact ⟨by simp [bare, name, parent, members], rfl⟩

/-! ## programs -/

namespace Program

variable {p q : Program}

/-- The symbols of a program tell it. -/
theorem bare_eq_of_symbols (valid : p.Valid) (settled : p.settled = true) (valid' : q.Valid)
    (settled' : q.settled = true) (h : p.symbols = q.symbols) : p.bare = q.bare := by
  have ended : p.symbols ++ [(.endOfFile, "")] = q.symbols ++ [(.endOfFile, "")] := by rw [h]
  obtain ⟨classes, -⟩ := readable_flatMap (by simp) (fun c => ⟨_, _, rfl⟩) ClassDecl.readable
    (fun c hc => ⟨valid c hc, List.all_eq_true.1 settled c hc⟩)
    (fun c hc => ⟨valid' c hc, List.all_eq_true.1 settled' c hc⟩) ended
  simp [bare, classes]

/-- The text that a program is printed as has its symbols, also where the parser rejects it. -/
theorem symbols_eq_of_source (valid : p.Valid) (valid' : q.Valid) {width indent : Int}
    (h : p.source width indent = q.source width indent) : p.symbols = q.symbols := by
  have same := symbolsOf_source valid width indent
  rw [h, symbolsOf_source valid'] at same
  exact (List.append_cancel_right same).symm

/-- Accepted programs are equal just if they are printed as the same text. -/
theorem same_iff_source_eq {text text' : String} (hp : parseText text = .ok p)
    (hq : parseText text' = .ok q) (width indent : Int) :
    (Node.program p).same (.program q) = true ↔
      p.source width indent = q.source width indent := by
  obtain ⟨valid, settled⟩ := valid_of_parseText hp
  obtain ⟨valid', settled'⟩ := valid_of_parseText hq
  constructor
  · intro same
    exact (source_eq_of_same same width indent).symm
  · intro printed
    have symbols := symbols_eq_of_source valid valid' printed
    rw [Program.same_iff]
    exact bare_eq_of_symbols valid settled valid' settled' symbols

/-- Two layouts of one program, whose printed text is rejected. -/
theorem same_iff_source_eq_layouts :
    ∃ p q, parseText "class A \x7b int x = (new A())++; \x7d" = .ok p ∧
      parseText "\nclass A\n\x7b int x =\n ((new A()))++; \x7d" = .ok q ∧
      p.line = 1 ∧ q.line = 2 ∧ p.faithful = false ∧ (Node.program p).same (.program q) = true ∧
      ((Node.program p).same (.program q) = true ↔ p.source 4 0 = q.source 4 0) := by
  have parsed : (parseText "class A \x7b int x = (new A())++; \x7d").toOption.map
      (fun p => (p.line, p.faithful, p.source 4 0)) =
        some (1, false, "class A \x7b\n    int x = (new A()++);\n\x7d\n") := by
    decide +kernel
  have parsed' : (parseText "\nclass A\n\x7b int x =\n ((new A()))++; \x7d").toOption.map
      (fun q => (q.line, q.source 4 0)) =
        some (2, "class A \x7b\n    int x = (new A()++);\n\x7d\n") := by
    decide +kernel
  obtain ⟨p, hp, values⟩ := exists_of_toOption parsed
  obtain ⟨q, hq, values'⟩ := exists_of_toOption parsed'
  simp at values values'
  have decided := same_iff_source_eq hp hq 4 0
  exact ⟨p, q, hp, hq, values.1, values'.1, values.2.1,
    decided.2 (values.2.2.trans values'.2.symm), decided⟩

end Program

end BantamSyntax
