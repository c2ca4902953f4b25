import BantamSyntax.Proofs.Parsing.Earliest
import BantamSyntax.Proofs.Printing.Likeness
import BantamSyntax.Proofs.Scanning.Stopping

/-!
# Layout

What a parse comes to depends on the kinds and spellings of the tokens alone. All that a tree or a
report tells of lines is copied from tokens, each time from the one at the same place.
-/
namespace BantamSyntax

open BantamSyntax.Parser

variable {lines : Int → Int → Prop}

/-! ## alike trees are equal programs -/

theorem map_eq_of_forall₂ {α β : Type} {R : α → α → Prop} {f : α → β} {as bs : List α}
    (h : List.Forall₂ R as bs) (hf : ∀ a b, R a b → f a = f b) : as.map f = bs.map f := by
  induction h with
  | nil => rfl
  | cons first _ ih => rw [List.map_cons, List.map_cons, hf _ _ first, ih]

theorem map_eq_of_rel {α β : Type} {R : α → α → Prop} {f : α → β} {a b : Option α}
    (h : Option.Rel R a b) (hf : ∀ a b, R a b → f a = f b) : a.map f = b.map f := by
  cases h with
  | none => rfl
  | some h => exact congrArg some (hf _ _ h)

theorem Variable.Alike.bare_eq {v v' : Variable} (h : v.Alike lines v') : v.bare = v'.bare := by
  induction h with
  | plain => rfl
  | qualified _ _ ih => rw [Variable.bare, Variable.bare, ih]

mutual

theorem Expr.bare_eq_of_alike {e e' : Expr} (h : e.Alike lines e') : e.bare = e'.bare := by
  match e with
  | .constant .. | .new .. =>
    cases h
    rfl
  | .var _ =>
    cases h with
    | var h => rw [bare, bare, h.bare_eq]
  | .assign _ _ _ value =>
    cases h with
    | assign _ h => rw [bare, bare, Expr.bare_eq_of_alike h]
  | .call _ _ _ _ arguments =>
    cases h with
    | call _ receiver _ h =>
      rw [bare, bare, map_eq_of_rel receiver fun _ _ => Variable.Alike.bare_eq,
        Expr.bares_eq_of_alike h]
  | .cast _ _ operand =>
    cases h with
    | cast _ h => rw [bare, bare, Expr.bare_eq_of_alike h]
  | .binary _ _ left right =>
    cases h with
    | binary _ hl hr => rw [bare, bare, Expr.bare_eq_of_alike hl, Expr.bare_eq_of_alike hr]
  | .unary _ _ operand =>
    cases h with
    | unary _ h => rw [bare, bare, Expr.bare_eq_of_alike h]

theorem Expr.bares_eq_of_alike {es es' : List Expr} (h : List.Forall₂ (Expr.Alike lines) es es') :
    Expr.bares es = Expr.bares es' := by
  match es with
  | [] =>
    cases h
    rfl
  | e :: es =>
    cases h with
    | cons first rest => rw [bares, bares, Expr.bare_eq_of_alike first, Expr.bares_eq_of_alike rest]

end

theorem Expr.map_bare_eq {e e' : Option Expr} (h : Option.Rel (Expr.Alike lines) e e') :
    e.map Expr.bare = e'.map Expr.bare :=
  map_eq_of_rel h fun _ _ => Expr.bare_eq_of_alike

mutual

theorem Stmt.bare_eq_of_alike {s s' : Stmt} (h : s.Alike lines s') : s.bare = s'.bare := by
  match s with
  | .block _ _ body =>
    cases h with
    | block _ _ h => rw [bare, bare, Stmt.bares_eq_of_alike h]
  | .declare .. =>
    cases h with
    | declare _ h => rw [bare, bare, Expr.bare_eq_of_alike h]
  | .expr .. =>
    cases h with
    | expr _ h => rw [bare, bare, Expr.bare_eq_of_alike h]
  | .ifThen _ _ consequent =>
    cases h with
    | ifThen _ hc h => rw [bare, bare, Expr.bare_eq_of_alike hc, Stmt.bare_eq_of_alike h]
  | .ifElse _ _ consequent alternative =>
    cases h with
    | ifElse _ hc h ha =>
      rw [bare, bare, Expr.bare_eq_of_alike hc, Stmt.bare_eq_of_alike h, Stmt.bare_eq_of_alike ha]
  | .while _ _ body =>
    cases h with
    | «while» _ hc h => rw [bare, bare, Expr.bare_eq_of_alike hc, Stmt.bare_eq_of_alike h]
  | .for _ _ _ _ body =>
    cases h with
    | «for» _ hi hc hu h =>
      rw [bare, bare, Expr.map_bare_eq hi, Expr.map_bare_eq hc, Expr.map_bare_eq hu,
        Stmt.bare_eq_of_alike h]
  | .break _ =>
    cases h
    rfl
  | .return .. =>
    cases h with
    | «return» _ h => rw [bare, bare, Expr.map_bare_eq h]

theorem Stmt.bares_eq_of_alike {ss ss' : List Stmt} (h : List.Forall₂ (Stmt.Alike lines) ss ss') :
    Stmt.bares ss = Stmt.bares ss' := by
  match ss with
  | [] =>
    cases h
    rfl
  | s :: ss =>
    cases h with
    | cons first rest => rw [bares, bares, Stmt.bare_eq_of_alike first, Stmt.bares_eq_of_alike rest]

end

theorem Member.Alike.bare_eq {m m' : Member} (h : m.Alike lines m') : m.bare = m'.bare := by
  cases h with
  | field _ init => rw [Member.bare, Member.bare, Expr.map_bare_eq init]
  | method _ _ formals _ body =>
    have hf : ∀ f f' : Formal, f.Alike lines f' → f.bare = f'.bare := fun f f' h => by
      rw [Formal.bare, Formal.bare, h.type, h.name]
    rw [Member.bare, Member.bare, map_eq_of_forall₂ formals hf, Stmt.bares_eq_of_alike body]

theorem ClassDecl.Alike.bare_eq {c c' : ClassDecl} (h : c.Alike lines c') : c.bare = c'.bare := by
  rw [ClassDecl.bare, ClassDecl.bare, h.name, h.parent,
    map_eq_of_forall₂ h.members fun _ _ => Member.Alike.bare_eq]

theorem Program.Alike.bare_eq {p p' : Program} (h : p.Alike lines p') : p.bare = p'.bare := by
  rw [Program.bare, Program.bare, map_eq_of_forall₂ h.classes fun _ _ => ClassDecl.Alike.bare_eq]

/-! ## two runs on tokens that are alike -/

namespace Parser

variable {α β : Type} {R : α → β → Prop} {o o' : Option Token} {t u : Token} {x : ParserM α}
  {y : ParserM β} {p q p' q' : Parser} {file file' : String} {ts us : List Token}

/-- How two runs end that come to tokens that are alike. The first may lack steps. -/
inductive Together (lines : Int → Int → Prop) {α β : Type} (R : α → β → Prop) :
    EStateM.Result ParseFailure Parser α → EStateM.Result ParseFailure Parser β → Prop where
  | result {a : α} {b : β} {q q' : Parser} (h : R a b) : Together lines R (.ok a q) (.ok b q')
  | rejected {t u : Token} {expected : Expected} {q q' : Parser} (alike : t.Alike lines u)
      (current : q.current = some t) (current' : q'.current = some u) :
      Together lines R (rejection expected t q) (rejection expected u q')
  | stuck {q : Parser} {r' : EStateM.Result ParseFailure Parser β} :
      Together lines R (.error .stuck q) r'

theorem Twin.together (h : Twin lines passes R o o' x y) (start : o = some t) (start' : o' = some u)
    (alike : List.Forall₂ (Token.Alike lines) (t :: ts) (u :: us)) (seen : p.Sees file (t :: ts))
    (seen' : p'.Sees file' (u :: us)) : Together lines R (x p) (y p') := by
  induction h generalizing p p' t u ts us with
  | done h => exact .result h
  | unprimed => cases start
  | look _ ih =>
    cases start
    cases start'
    rw [bind_of_ok (token_eq seen.current_eq), bind_of_ok (token_eq seen'.current_eq)]
    exact ih rfl rfl alike seen seen'
  | move leaves _ ih =>
    subst start
    have leaves : passes t.kind = true := leaves
    cases alike with
    | cons first rest =>
      obtain ⟨q, hq, next⟩ := runs_advance leaves p seen
      obtain ⟨q', hq', next'⟩ := runs_advance (first.kind ▸ leaves) p' seen'
      obtain ⟨t', ts, rfl⟩ := List.exists_cons_of_ne_nil next.ne_nil
      obtain ⟨u', us, rfl⟩ := List.exists_cons_of_ne_nil next'.ne_nil
      rw [bind_of_ok hq, bind_of_ok hq']
      cases rest with
      | cons first' rest => exact ih t' u' first' rfl rfl (.cons first' rest) next next'
  | file _ ih =>
    rw [bind_of_ok (show (get : ParserM Parser) p = .ok p p from rfl),
      bind_of_ok (show (get : ParserM Parser) p' = .ok p' p' from rfl)]
    exact ih p.file p'.file start start' alike seen seen'
  | fail =>
    cases alike with
    | cons first rest =>
      rw [fail_eq seen.current_eq, fail_eq seen'.current_eq]
      exact .rejected first seen.current_eq seen'.current_eq
  | stuck => exact .stuck

/-! ## tokens on other lines -/

theorem genuine_of_symbol (h : t.symbol = u.symbol) (genuine : t.Genuine) : u.Genuine := by
  obtain ⟨kind, spelling⟩ := Prod.mk.inj h
  refine ⟨?_, ?_, ?_⟩ <;> rw [← kind, ← spelling]
  · exact genuine.assign
  · exact genuine.increment
  · exact genuine.decrement

/-- Any tokens with the symbols of a text are those of some lexemes. -/
theorem complete_of_symbols {ls : List Lexeme} (complete : Complete ls)
    (h : (significant ls).map Token.symbol = us.map Token.symbol) :
    ∃ ms, Complete ms ∧ significant ms = us := by
  induction complete generalizing us with
  | @ending l last clean =>
    have kept : l.token.kind ≠ .comment := by rw [last]; decide
    rw [significant_cons kept] at h
    obtain ⟨u, rfl, hu⟩ := List.map_eq_singleton_iff.1 h.symm
    have kind : u.kind = l.token.kind := congrArg Prod.fst hu
    refine ⟨[⟨u, none⟩], .ending (kind.trans last) rfl, ?_⟩
    rw [significant_cons (kind ▸ kept)]
    rfl
  | @cons l ls more fault genuine _ ih =>
    by_cases comment : l.token.kind = .comment
    · rw [significant_comment comment] at h
      exact ih h
    rw [significant_cons comment] at h
    obtain ⟨u, us, rfl, hu, rest⟩ := List.map_eq_cons_iff.1 h.symm
    obtain ⟨ms, complete, rfl⟩ := ih rest.symm
    have kind : u.kind = l.token.kind := congrArg Prod.fst hu
    refine ⟨⟨u, l.fault⟩ :: ms, .cons (kind ▸ more) (by rw [kind]; exact fault)
      (genuine_of_symbol hu.symm genuine) complete, ?_⟩
    rw [significant_cons (kind ▸ comment)]

end Parser

/-! ## places of tokens -/

/-- The line is that of the token at the place. -/
def LineAt (ts : List Token) (line place : Int) : Prop :=
  ∃ (k : Nat) (t : Token), place = k ∧ ts[k]? = some t ∧ line = t.line

/-- The tokens with their places as lines. -/
def placed (ts : List Token) : List Token :=
  ts.mapIdx fun k t => { t with line := k }

theorem placed_alike (ts : List Token) : List.Forall₂ (Token.Alike (LineAt ts)) ts (placed ts) := by
  refine List.forall₂_iff_get.2 ⟨by simp [placed], fun k hk hk' => ?_⟩
  simp only [placed, List.get_eq_getElem, List.getElem_mapIdx]
  exact ⟨rfl, rfl, k, _, rfl, List.getElem?_eq_getElem hk, rfl⟩

theorem placed_congr {ts us : List Token} (h : ts.map Token.symbol = us.map Token.symbol) :
    placed ts = placed us := by
  have length : ts.length = us.length := by simpa using congrArg List.length h
  refine List.ext_getElem (by simp [placed, length]) fun k hk hk' => ?_
  simp only [placed, List.length_mapIdx] at hk hk'
  have same : ts[k].symbol = us[k].symbol := by
    simpa [hk, hk'] using congrArg (·[k]?) h
  obtain ⟨kind, spelling⟩ := Prod.mk.inj same
  simp [placed, kind, spelling]

theorem symbols_placed (ts : List Token) : (placed ts).map Token.symbol = ts.map Token.symbol := by
  refine List.ext_getElem (by simp [placed]) fun k hk hk' => ?_
  simp [placed, Token.symbol]

/-! ## reports -/

/-- Diagnostics that are the same but for their lines. The name of the file does not count. -/
structure Diagnostic.Alike (lines : Int → Int → Prop) (d d' : Diagnostic) : Prop where
  kind : d.kind = d'.kind
  message : d.message = d'.message
  line : Option.Rel lines d.line d'.line

theorem refusal_alike {t u : Token} (alike : t.Alike lines u) (expected : Expected)
    (file file' : String) : (refusal expected t file).Alike lines (refusal expected u file') where
  kind := rfl
  message := by simp only [refusal, found, alike.kind, alike.spelling]
  line := .some alike.line

namespace Grammar

variable {text name : String} {p q : Parser} {r : Program}

theorem diagnostics_of_standsAt {before rest : List Lexeme} {l : Lexeme}
    (complete : Complete (before ++ l :: rest)) (h : p.StandsAt name before l rest) :
    p.diagnostics = (l.diagnostic? name).toList := by
  rw [h.diagnostics, List.filterMap_append, h.faults_before complete, List.nil_append]
  cases hd : l.diagnostic? name <;> simp [hd]

theorem program_of_parseRest (h : parseRest p = .ok r q) :
    ∃ q, withSteps program p = .ok r q := by
  obtain ⟨r', q', hr, h⟩ := bind_eq_ok.1 h
  obtain ⟨_, _, hg, h⟩ := bind_eq_ok.1 h
  cases hg
  split at h
  · obtain ⟨_, _, -, h⟩ := bind_eq_ok.1 h
    cases h
    exact ⟨q', hr⟩
  · cases h

/-- A parse of a text keeps in step with a run of the rules on its tokens, at their places. -/
theorem parse_placed (text name : String) : ∃ n, ∀ N (P : Parser) file, n ≤ N →
    P.Sees file (placed (tokens text)) →
      (∃ r q r' Q, (Source.ofText text name).parse = .ok r q ∧ program N P = .ok r' Q ∧
        r.Alike (LineAt (tokens text)) r') ∨
      ∃ cause q l d cause' Q c D, (Source.ofText text name).parse = .error (.rejected cause) q ∧
        l ∈ lexemes text name ∧ q.diagnostics = (l.diagnostic? name).toList ++ [d] ∧
        program N P = .error cause' Q ∧ Q.current = some c ∧ Q.diagnostics.getLast? = some D ∧
        l.token.Alike (LineAt (tokens text)) c ∧ d.Alike (LineAt (tokens text)) D := by
  obtain ⟨p, hp, sees, outcome⟩ := parse_outcome text name
  refine ⟨p.feed.length + 2, fun N P file steps seen => ?_⟩
  have together : Together (LineAt (tokens text)) (Program.Alike (LineAt (tokens text)))
      (withSteps program p) (program N P) := by
    obtain ⟨t, ts, hts⟩ := List.exists_cons_of_ne_nil sees.ne_nil
    obtain ⟨u, us, hus⟩ := List.exists_cons_of_ne_nil seen.ne_nil
    have alike := placed_alike (tokens text)
    rw [hus] at seen alike
    generalize LineAt (tokens text) = lines at alike ⊢
    rw [hts] at sees alike
    have twins : Twins lines passes (Program.Alike lines) (program (p.feed.length + 2))
        (program N) :=
      program_twins broad_passes steps
    cases alike with
    | cons first rest => exact (twins.at first).together rfl rfl (.cons first rest) sees seen
  rw [hp]
  generalize hx : withSteps program p = x at together
  generalize hy : program N P = y at together
  rcases outcome with ⟨r, q, before, l, hr, -⟩ |
    ⟨expected, q, before, l, rest, hr, split, stands, -⟩
  · obtain ⟨q', hq'⟩ := program_of_parseRest hr
    obtain rfl := hx.symm.trans hq'
    cases together with
    | result alike => exact .inl ⟨r, q, _, _, hr, rfl, alike⟩
  · obtain rfl := hx.symm.trans hr
    generalize hz : (rejection expected l.token q : EStateM.Result ParseFailure Parser Program) = z
      at together
    cases together with
    | result => cases hz
    | stuck => cases hz
    | @rejected t u e q₁ Q₁ alike current current' =>
      have here : l.token = t :=
        Option.some.inj (stands.current.symm.trans ((rejection_inj hz).1.trans current))
      have complete := lexemes_complete text name
      rw [split] at complete
      refine .inr ⟨_, _, l, refusal expected l.token q.file, _, _, u, refusal e u Q₁.file,
        bind_of_error hr, by simp [split], ?_, rfl, current', ?_, here ▸ alike, ?_⟩
      · rw [← diagnostics_of_standsAt complete stands]
        rfl
      · simp [register]
      · rw [rejection_report hz]
        exact refusal_alike alike e _ _

/-- What is reported of a faulty lexeme, but for the line and the file. -/
theorem diagnostic?_alike {lines : Int → Int → Prop} {l : Lexeme} {place : Int}
    (h : lines l.token.line place) :
    List.Forall₂ (Diagnostic.Alike lines) (l.diagnostic? name).toList
      (l.fault.map fun f => ⟨.lexical, f.message, some place, none⟩).toList := by
  rw [Lexeme.diagnostic?]
  cases l.fault with
  | none => exact .nil
  | some f => exact .cons ⟨rfl, rfl, .some h⟩ .nil

/-- Texts whose tokens agree in kind and spelling are parsed alike: to equal trees, or with the same
reports. One tree, and one list of reports, tells for both texts the places of the tokens that the
lines are those of. -/
theorem parse_layout (text text' name name' : String)
    (h : (tokens text).map Token.symbol = (tokens text').map Token.symbol) :
    (∃ p q p' q' r, (Source.ofText text name).parse = .ok p q ∧
      (Source.ofText text' name').parse = .ok p' q' ∧
      (Node.program p).same (.program p') = true ∧
      p.Alike (LineAt (tokens text)) r ∧ p'.Alike (LineAt (tokens text')) r) ∨
    ∃ first q first' q' ds, (Source.ofText text name).parse = .error (.rejected first) q ∧
      (Source.ofText text' name').parse = .error (.rejected first') q' ∧
      List.Forall₂ (Diagnostic.Alike (LineAt (tokens text))) q.diagnostics ds ∧
      List.Forall₂ (Diagnostic.Alike (LineAt (tokens text'))) q'.diagnostics ds := by
  obtain ⟨n, along⟩ := parse_placed text name
  obtain ⟨n', along'⟩ := parse_placed text' name'
  have same : (significant (lexemes text name)).map Token.symbol =
      (placed (tokens text)).map Token.symbol := by
    rw [symbols_placed, tokens_eq_significant text name]
  obtain ⟨ms, complete, hms⟩ := complete_of_symbols (lexemes_complete text name) same
  obtain ⟨P, seen⟩ := exists_sees name complete
  rw [hms] at seen
  have left := along (max n n') P name (Nat.le_max_left ..) seen
  have right := along' (max n n') P name (Nat.le_max_right ..) (placed_congr h ▸ seen)
  rcases left with ⟨p, q, r, Q, hp, run, alike⟩ |
    ⟨first, q, l, d, cause, Q, c, D, hp, hl, hq, run, current, last, atl, atd⟩
  · rcases right with ⟨p', q', r', Q', hp', run', alike'⟩ |
      ⟨_, _, _, _, _, _, _, _, _, _, _, run', -⟩
    · obtain ⟨rfl, -⟩ := EStateM.Result.ok.inj (run.symm.trans run')
      have equal := (Program.same_iff p p').2 (alike.bare_eq.trans alike'.bare_eq.symm)
      exact .inl ⟨p, q, p', q', r, hp, hp', equal, alike, alike'⟩
    · cases run.symm.trans run'
  · rcases right with ⟨_, _, _, _, _, run', -⟩ |
      ⟨first', q', l', d', cause', Q', c', D', hp', hl', hq', run', current', last', atl', atd'⟩
    · cases run.symm.trans run'
    · obtain ⟨-, rfl⟩ := EStateM.Result.error.inj (run.symm.trans run')
      obtain rfl : c = c' := Option.some.inj (current.symm.trans current')
      obtain rfl : D = D' := Option.some.inj (last.symm.trans last')
      rw [lexemes_eq] at hl hl'
      have fault := Scanner.fault_of_spelling hl hl' (atl.spelling.trans atl'.spelling.symm)
      refine .inr ⟨first, q, first', q',
        (l.fault.map fun f => ⟨.lexical, f.message, some c.line, none⟩).toList ++ [D], hp, hp',
        ?_, ?_⟩
      · rw [hq]
        exact List.rel_append (diagnostic?_alike atl.line) (.cons atd .nil)
      · rw [hq', fault]
        exact List.rel_append (diagnostic?_alike atl'.line) (.cons atd' .nil)

/-- A comment moves the faulty token to another line, and both reports with it. -/
theorem parse_layout_comment :
    let text := "class A \x7b int # \x7d"
    let text' := "class A // first\r\x7b int\n# \x7d"
    (tokens text).map Token.symbol = (tokens text').map Token.symbol ∧
      ∃ first q first' q' ds, (Source.ofText text "a").parse = .error (.rejected first) q ∧
        (Source.ofText text' "b").parse = .error (.rejected first') q' ∧
        List.Forall₂ (Diagnostic.Alike (LineAt (tokens text))) q.diagnostics ds ∧
        List.Forall₂ (Diagnostic.Alike (LineAt (tokens text'))) q'.diagnostics ds := by
  intro text text'
  have same : (tokens text).map Token.symbol = (tokens text').map Token.symbol := by
    decide +kernel
  have reported : (stateOf (Source.ofText text "a").parse).diagnostics ≠ [] := by
    decide +kernel
  refine ⟨same, ?_⟩
  rcases parse_layout text text' "a" "b" same with ⟨p, q, _, _, _, hp, -⟩ | both
  · have silent := parse_reports text "a"
    rw [hp] at silent reported
    exact absurd silent.1 reported
  · exact both

end Grammar
end BantamSyntax
