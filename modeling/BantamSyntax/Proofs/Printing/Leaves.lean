import BantamSyntax.Proofs.Parsing.Acceptance
import BantamSyntax.Proofs.Printing.Pieces

/-!
# Leaves of parsed trees

The leaves of the trees that texts are parsed as can stand in a text again.
-/
namespace BantamSyntax

open Grammar Scanner

/-! ## tokens of texts -/

theorem Scanner.spelled_lexemesFrom {line : Nat} {cs : List Char} (h : '\r' ∉ cs) {l : Lexeme}
    (hl : l ∈ lexemesFrom line cs) : Spelled l.token := by
  fun_induction lexemesFrom line cs with
  | case1 line =>
    cases List.mem_singleton.1 hl
    exact spelled_of_not_isOpen rfl
  | case2 line c cs hb ih => exact ih (fun hr => h (List.mem_cons_of_mem c hr)) hl
  | case3 line c cs hb ih =>
    rcases List.mem_cons.1 hl with rfl | hl
    · exact spelled_cut h _
    · refine ih (fun hr => h ?_) hl
      rw [← cut_append c cs]
      exact List.mem_append_right _ hr

theorem Grammar.spelled_tokens {text : String} {t : Token} (h : t ∈ tokens text) : Spelled t := by
  obtain ⟨l, hl, rfl⟩ := List.mem_map.1 (List.mem_filter.1 h).1
  rw [tokenize_ofText] at hl
  exact spelled_lexemesFrom (return_notMem_normalize text.toList) hl

theorem Grammar.symbols_tokens (text : String) : (tokens text).map Token.symbol =
    (symbolsOf (normalize text.toList)).filter Symbol.isSignificant := by
  rw [symbolsOf, map_symbol_lexemesFrom 0 1, tokens, tokenize_ofText, List.filter_map,
    List.map_map, List.filter_map]
  rfl

namespace Grammar

/-! ## lists -/

theorem Separated.mem {ws : List (List Token)} {u w : List Token} (h : Separated ws u)
    (hw : w ∈ ws) {t : Token} (ht : t ∈ w) : t ∈ u := by
  induction h with
  | nil => cases hw
  | one =>
    cases List.mem_singleton.1 hw
    exact ht
  | cons comma rest ih =>
    rcases List.mem_cons.1 hw with rfl | hw
    · exact List.mem_append_left _ ht
    · exact List.mem_append_right _ (List.mem_cons_of_mem _ (ih hw))

theorem allValid_iff {es : List Expr} : Expr.AllValid es ↔ ∀ e ∈ es, e.Valid := by
  induction es with
  | nil => simp [Expr.AllValid]
  | cons e es ih => simp [Expr.AllValid, ih]

/-! ## expressions -/

variable {w : List Token}

theorem IsVariable.valid {v : Variable} (h : IsVariable w v) (spelled : ∀ t ∈ w, Spelled t) :
    v.isValid = true ∧ v.receiver?.all Variable.isReceiver = true ∧ isName v.name = true := by
  cases h with
  | @plain t name =>
    have named := (spelled t (by simp)).name name
    exact ⟨named, rfl, named⟩
  | @qualified t d n receiver known dot name =>
    have named := (spelled n (by simp)).name name
    have reached : isReceiver t.spelling = true := by simpa [isReceiver] using known
    refine ⟨?_, reached, named⟩
    rw [Variable.isValid, reached, named]
    rfl

theorem IsExpr.valid {p : Place} {e : Expr} (h : IsExpr p w e) (spelled : ∀ t ∈ w, Spelled t) :
    e.Valid := by
  induction h with
  | assign target _ _ ih =>
    rw [List.forall_mem_append] at spelled
    obtain ⟨_, hr, hn⟩ := target.valid spelled.1
    exact ⟨Variable.receiver_name hr, hn, ih fun t ht => spelled.2 t (by simp [ht])⟩
  | plain _ ih | operand _ ih | unary _ ih | unsigned _ ih | unsuffixed _ ih => exact ih spelled
  | binary _ _ _ ihl ihr =>
    rw [List.forall_mem_append] at spelled
    exact ⟨ihl spelled.1, ihr fun t ht => spelled.2 t (by simp [ht])⟩
  | @new n c l r _ type => exact (spelled c (by simp)).name type
  | @cast t l c m r w e _ _ type _ _ _ ih =>
    exact ⟨(spelled c (by simp)).name type, ih fun t ht => spelled t (by simp [ht])⟩
  | sign _ _ ih => exact ih fun t ht => spelled t (by simp [ht])
  | suffix _ _ ih =>
    rw [List.forall_mem_append] at spelled
    exact ih spelled.1
  | parens _ _ _ ih => exact ih fun t ht => spelled t (by simp [ht])
  | @constant t kind h => exact (spelled t (by simp)).constant kind h
  | var h => exact (h.valid spelled).1
  | @call t l r w u v items method _ _ commas _ ih =>
    obtain ⟨_, hr, hn⟩ := method.valid fun t ht => spelled t (by
      rcases List.mem_cons.1 ht with rfl | ht
      · simp
      · simp [ht])
    refine ⟨hr, hn, allValid_iff.2 (List.forall_mem_map.2 fun i hi => ih i hi fun t ht => ?_)⟩
    have := commas.mem (List.mem_map_of_mem hi) ht
    exact spelled t (by simp [this])

theorem IsOptional.valid {e : Option Expr} (h : IsOptional w e) (spelled : ∀ t ∈ w, Spelled t) :
    ∀ e' ∈ e, e'.Valid := by
  intro e' he
  cases h with
  | absent => cases he
  | present h =>
    cases he
    exact h.valid spelled

/-! ## statements -/

theorem allValid_stmts_iff {ss : List Stmt} : Stmt.AllValid ss ↔ ∀ s ∈ ss, s.Valid := by
  induction ss with
  | nil => simp [Stmt.AllValid]
  | cons s ss ih => simp [Stmt.AllValid, ih]

theorem IsStmt.valid {s : Stmt} (h : IsStmt w s) (spelled : ∀ t ∈ w, Spelled t) : s.Valid := by
  induction h with
  | @block l r items _ _ _ ih =>
    refine allValid_stmts_iff.2 (List.forall_mem_map.2 fun i hi => ih i hi fun t ht => ?_)
    have : t ∈ items.flatMap (·.tokens) := List.mem_flatMap.2 ⟨i, hi, ht⟩
    exact spelled t (by simp only [List.cons_append, List.mem_cons, List.mem_append, this, true_or,
      or_true])
  | @declare t n a c w e _ name _ init _ =>
    exact ⟨(spelled n (by simp)).name name, init.valid fun t ht => spelled t (by simp [ht])⟩
  | expr h _ =>
    rw [List.forall_mem_append] at spelled
    exact h.valid spelled.1
  | ifThen _ _ condition _ _ ih =>
    exact ⟨condition.valid fun t ht => spelled t (by simp [ht]),
      ih fun t ht => spelled t (by simp [ht])⟩
  | ifElse _ _ condition _ _ _ _ ih iha =>
    exact ⟨condition.valid fun t ht => spelled t (by simp [ht]),
      ih fun t ht => spelled t (by simp [ht]), iha fun t ht => spelled t (by simp [ht])⟩
  | «while» _ _ condition _ _ ih =>
    exact ⟨condition.valid fun t ht => spelled t (by simp [ht]),
      ih fun t ht => spelled t (by simp [ht])⟩
  | «for» _ _ first _ second _ third _ _ ih =>
    exact ⟨first.valid fun t ht => spelled t (by simp [ht]),
      second.valid fun t ht => spelled t (by simp [ht]),
      third.valid fun t ht => spelled t (by simp [ht]), ih fun t ht => spelled t (by simp [ht])⟩
  | «break» => trivial
  | «return» _ result _ => exact result.valid fun t ht => spelled t (by simp [ht])

/-! ## classes -/

theorem IsFormal.valid {f : Formal} (h : IsFormal w f) (spelled : ∀ t ∈ w, Spelled t) :
    f.isValid = true := by
  cases h with
  | @intro t n type name =>
    rw [Formal.isValid, (spelled t (by simp)).name type, (spelled n (by simp)).name name]
    rfl

theorem IsMember.valid {m : Member} (h : IsMember w m) (spelled : ∀ t ∈ w, Spelled t) :
    m.Valid := by
  cases h with
  | @field t n _ type name =>
    exact ⟨(spelled t (by simp)).name type, (spelled n (by simp)).name name, nofun⟩
  | @fieldInit t n _ _ _ e type name _ init =>
    refine ⟨(spelled t (by simp)).name type, (spelled n (by simp)).name name, fun e' he => ?_⟩
    cases he
    exact init.valid fun t ht => spelled t (by simp [ht])
  | @method t n _ _ _ _ u formals items type name _ parameters commas _ _ body =>
    refine ⟨(spelled t (by simp)).name type, (spelled n (by simp)).name name, ?_, ?_⟩
    · rw [List.all_eq_true, List.forall_mem_map]
      refine fun i hi => (parameters i hi).valid fun t ht => spelled t ?_
      simp [commas.mem (List.mem_map_of_mem hi) ht]
    · refine allValid_stmts_iff.2 (List.forall_mem_map.2 fun i hi =>
        (body i hi).valid fun t ht => ?_)
      have : t ∈ items.flatMap (·.tokens) := List.mem_flatMap.2 ⟨i, hi, ht⟩
      exact spelled t (by simp only [List.cons_append, List.append_assoc, List.mem_cons,
        List.mem_append, this, true_or, or_true])

theorem IsParent.valid {parent : Option String} (h : IsParent w parent)
    (spelled : ∀ t ∈ w, Spelled t) : parent.all isName = true := by
  cases h with
  | absent => rfl
  | @present e n _ name => exact (spelled n (by simp)).name name

theorem IsClass.valid {file : String} {c : ClassDecl} (h : IsClass file w c)
    (spelled : ∀ t ∈ w, Spelled t) : c.Valid := by
  cases h with
  | @intro t n _ _ _ _ items _ name heading _ members =>
    refine ⟨(spelled n (by simp)).name name, heading.valid fun t ht => spelled t (by simp [ht]),
      List.forall_mem_map.2 fun i hi => (members i hi).valid fun t ht => ?_⟩
    have : t ∈ items.flatMap (·.tokens) := List.mem_flatMap.2 ⟨i, hi, ht⟩
    exact spelled t (by simp only [List.cons_append, List.append_assoc, List.mem_cons,
      List.mem_append, this, true_or, or_true])

theorem IsProgram.valid {file : String} {line : Int} {p : Program} (h : IsProgram file line w p)
    (spelled : ∀ t ∈ w, Spelled t) : p.Valid := by
  cases h with
  | intro classes =>
    exact List.forall_mem_map.2 fun i hi =>
      (classes i hi).valid fun t ht => spelled t (List.mem_flatMap.2 ⟨i, hi, ht⟩)

/-- Parsed trees have leaves that can stand in a text, and each `else` at the nearest `if`. -/
theorem valid_of_parseText {text : String} {p : Program} (h : parseText text = .ok p) :
    p.Valid ∧ p.settled = true := by
  rcases parseText_sound text with ⟨q, hq, derived, settled⟩ | ⟨d, hd⟩
  · cases h.symm.trans hq
    exact ⟨derived.valid fun t ht => spelled_tokens (List.dropLast_subset _ ht), settled⟩
  · cases h.symm.trans hd

end Grammar

end BantamSyntax
