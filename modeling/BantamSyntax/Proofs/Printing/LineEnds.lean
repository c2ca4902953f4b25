import BantamSyntax.Proofs.Printing.Text

/-!
# Line ends

No line of printed text has a line end in it, however that may be marked. So reading what is printed
changes nothing, and its newlines are those between its lines.
-/
namespace BantamSyntax

open Scanner

/-- There is no line end in the text. -/
abbrev OneLine (s : String) : Prop :=
  '\n' ∉ s.toList ∧ '\r' ∉ s.toList

theorem OneLine.append {s t : String} (hs : OneLine s) (ht : OneLine t) : OneLine (s ++ t) := by
  simp [OneLine, hs, ht]

/-! ## leaves -/

theorem oneLine_name {s : String} (h : isName s = true) : OneLine s := by
  simp only [isName, isWord, Bool.and_eq_true] at h
  have word := h.1
  have none {c : Char} (other : isWordChar c = false ∧ c.isAlpha = false) : c ∉ s.toList := by
    intro hc
    split at word
    · cases word
    · rename_i first cs hs
      simp only [Bool.and_eq_true, List.all_eq_true] at word
      rw [hs] at hc
      rcases List.mem_cons.1 hc with rfl | hc
      · simp [other.2] at word
      · exact absurd (word.2 _ hc) (by simp [other.1])
  exact ⟨none (by decide), none (by decide)⟩

theorem oneLine_constant {kind : ConstantKind} {s : String} (h : kind.Spells s) : OneLine s := by
  cases kind with
  | integer =>
    have digits := h.1
    simp only [Numeral.isDigits, Bool.and_eq_true, List.all_eq_true] at digits
    have none {c : Char} (other : c.isDigit = false) : c ∉ s.toList := fun hc => by
      simp [digits.2 _ hc] at other
    exact ⟨none rfl, none rfl⟩
  | boolean => rcases h with rfl | rfl <;> simp [OneLine]
  | string =>
    obtain ⟨body, hs, string, noReturn⟩ := isString_of_scansAlone h
    have noNewline := (LexicalFault.ofString?_eq_none_iff.1 string.run_eq.2).2.2
    rw [← hs] at noNewline
    exact ⟨noNewline, by simpa [hs] using noReturn⟩

theorem oneLine_qualify {receiver : Option String} {name : String}
    (hr : receiver.all isReceiver = true) (hn : isName name = true) :
    OneLine (qualify receiver name) := by
  cases receiver with
  | none => exact oneLine_name hn
  | some r =>
    have first := oneLine_name (isName_of_isReceiver hr)
    simp [OneLine, qualify, first, oneLine_name hn]

theorem BinaryOp.oneLine_symbol (op : BinaryOp) : OneLine op.symbol := by
  rcases op with op | op | op <;> cases op <;> simp [OneLine, symbol]

theorem UnaryOp.oneLine_symbol (op : UnaryOp) : OneLine op.symbol := by
  cases op <;> simp [OneLine, symbol]

/-! ## printed text -/

mutual

theorem Expr.oneLine {e : Expr} (h : e.Valid) : OneLine e.source := by
  match e with
  | .constant .. => exact oneLine_constant h
  | .var v =>
    have ⟨hr, hn⟩ := Variable.valid_parts h
    exact oneLine_qualify hr hn
  | .assign _ receiver name value =>
    obtain ⟨hr, hn, hv⟩ := h
    simp [OneLine, source, nonempty_of_isReceiver hr, oneLine_qualify hr hn, Expr.oneLine hv]
  | .call _ receiver method _ arguments =>
    obtain ⟨hr, hn, ha⟩ := h
    have target := oneLine_qualify (Variable.receiver_name hr) hn
    simp [OneLine, source, target, Expr.oneLine_all ha]
  | .new _ type =>
    have name : OneLine type := oneLine_name h
    simp [OneLine, source, name]
  | .cast _ type operand => simp [OneLine, source, oneLine_name h.1, Expr.oneLine h.2]
  | .binary _ op left right =>
    simp [OneLine, source, op.oneLine_symbol, Expr.oneLine h.1, Expr.oneLine h.2]
  | .unary _ op operand =>
    have valid : operand.Valid := h
    simp only [source]
    split <;> simp [OneLine, op.oneLine_symbol, Expr.oneLine valid]

theorem Expr.oneLine_all {es : List Expr} (h : Expr.AllValid es) :
    OneLine (Expr.sources es) := by
  match es with
  | [] => simp [OneLine, sources]
  | [e] => exact Expr.oneLine h.1
  | e :: e' :: es => simp [OneLine, sources, Expr.oneLine h.1, Expr.oneLine_all h.2]

end

theorem Expr.oneLine_or {e : Option Expr} (h : ∀ e' ∈ e, e'.Valid) :
    OneLine (Expr.sourceOr e) := by
  cases e with
  | none => simp [OneLine, sourceOr]
  | some e => exact Expr.oneLine (h e rfl)

mutual

theorem Stmt.oneLine {s : Stmt} (h : s.Valid) {depth : Nat} {l : Line}
    (hl : l ∈ s.lines depth) : OneLine l.text := by
  match s with
  | .block _ _ body =>
    simp only [lines, List.cons_append, List.mem_cons, List.mem_append, List.not_mem_nil,
      or_false] at hl
    rcases hl with rfl | hl | rfl
    · simp [OneLine]
    · exact Stmt.oneLine_all h hl
    · simp [OneLine]
  | .declare .. =>
    cases List.mem_singleton.1 hl
    simp [OneLine, oneLine_name h.1, Expr.oneLine h.2]
  | .expr _ e =>
    have valid : e.Valid := h
    cases List.mem_singleton.1 hl
    simp [OneLine, Expr.oneLine valid]
  | .ifThen .. =>
    rcases List.mem_cons.1 hl with rfl | hl
    · simp [OneLine, Expr.oneLine h.1]
    · exact Stmt.oneLine h.2 hl
  | .ifElse .. =>
    simp only [lines, List.cons_append, List.mem_cons, List.mem_append] at hl
    rcases hl with rfl | hl | rfl | hl
    · simp [OneLine, Expr.oneLine h.1]
    · exact Stmt.oneLine h.2.1 hl
    · simp [OneLine]
    · exact Stmt.oneLine h.2.2 hl
  | .while .. =>
    rcases List.mem_cons.1 hl with rfl | hl
    · simp [OneLine, Expr.oneLine h.1]
    · exact Stmt.oneLine h.2 hl
  | .for .. =>
    rcases List.mem_cons.1 hl with rfl | hl
    · simp [OneLine, Expr.oneLine_or h.1, Expr.oneLine_or h.2.1, Expr.oneLine_or h.2.2.1]
    · exact Stmt.oneLine h.2.2.2 hl
  | .break .. | .return _ none =>
    cases List.mem_singleton.1 hl
    simp [OneLine]
  | .return _ (some value) =>
    cases List.mem_singleton.1 hl
    simp [OneLine, Expr.oneLine (h value rfl)]

theorem Stmt.oneLine_all {ss : List Stmt} (h : Stmt.AllValid ss) {depth : Nat} {l : Line}
    (hl : l ∈ Stmt.linesAll depth ss) : OneLine l.text := by
  match ss with
  | [] => cases hl
  | s :: ss =>
    rcases List.mem_append.1 hl with hl | hl
    · exact Stmt.oneLine h.1 hl
    · exact Stmt.oneLine_all h.2 hl

end

theorem Formal.oneLine {f : Formal} (h : f.isValid = true) : OneLine f.text := by
  rw [isValid, Bool.and_eq_true] at h
  simp [OneLine, text, oneLine_name h.1, oneLine_name h.2]

theorem Formal.oneLine_all {fs : List Formal} (h : fs.all Formal.isValid = true) :
    OneLine (Formal.texts fs) := by
  induction fs with
  | nil => simp [OneLine, texts]
  | cons f fs ih =>
    rw [List.all_cons, Bool.and_eq_true] at h
    have first := Formal.oneLine h.1
    cases fs with
    | nil => simpa [OneLine, texts] using first
    | cons =>
      have rest := ih h.2
      simp only [texts, List.map_cons] at rest ⊢
      rw [String.intercalate_cons_cons]
      exact (first.append (by simp [OneLine])).append rest

theorem Member.oneLine {m : Member} (h : m.Valid) {depth : Nat} {l : Line}
    (hl : l ∈ m.lines depth) : OneLine l.text := by
  cases m with
  | field _ type name init =>
    obtain ⟨ht, hn, hi⟩ := h
    cases init with
    | none =>
      cases List.mem_singleton.1 hl
      simp [OneLine, oneLine_name ht, oneLine_name hn]
    | some e =>
      cases List.mem_singleton.1 hl
      simp [OneLine, oneLine_name ht, oneLine_name hn, Expr.oneLine (hi e rfl)]
  | method =>
    obtain ⟨ht, hn, hf, hb⟩ := h
    simp only [lines, List.cons_append, List.mem_cons, List.mem_append, List.not_mem_nil,
      or_false] at hl
    rcases hl with rfl | hl | rfl
    · simp [OneLine, oneLine_name ht, oneLine_name hn, Formal.oneLine_all hf]
    · exact Stmt.oneLine_all hb hl
    · simp [OneLine]

theorem ClassDecl.oneLine_heading {c : ClassDecl} (hn : isName c.name = true)
    (hp : c.parent.all isName = true) : OneLine c.heading := by
  simp only [heading, nonempty_of_isName hp]
  cases hc : c.parent with
  | none => exact oneLine_name hn
  | some parent =>
    rw [hc] at hp
    have name : OneLine parent := oneLine_name hp
    simp [OneLine, oneLine_name hn, name]

/-! ## captions -/

theorem Expr.oneLine_caption {e : Expr} (h : e.Valid) : OneLine e.caption := by
  cases e with
  | constant _ kind spelling =>
    have spelled := oneLine_constant h
    cases kind <;> simp [OneLine, caption, ConstantKind.className, ConstantKind.word, spelled]
  | var v =>
    have ⟨hr, hn⟩ := Variable.valid_parts h
    simp [OneLine, caption, oneLine_qualify hr hn]
  | assign _ receiver =>
    simp [OneLine, caption, nonempty_of_isReceiver h.1, oneLine_qualify h.1 h.2.1]
  | call _ receiver =>
    simp [OneLine, caption, oneLine_qualify (Variable.receiver_name h.1) h.2.1]
  | new _ type =>
    have name : OneLine type := oneLine_name h
    simp [OneLine, caption, name]
  | cast => simp [OneLine, caption, oneLine_name h.1]
  | binary _ op => simp [OneLine, caption, op.oneLine_symbol]
  | unary _ op =>
    simp only [caption]
    split <;> simp [OneLine, op.oneLine_symbol]

theorem Stmt.oneLine_caption {s : Stmt} (h : s.Valid) : OneLine s.caption := by
  cases s with
  | declare => simp [OneLine, caption, oneLine_name h.1]
  | expr _ e =>
    have valid : e.Valid := h
    exact Expr.oneLine_caption valid
  | _ => simp [OneLine, caption]

theorem Member.oneLine_caption {m : Member} (h : m.Valid) : OneLine m.caption := by
  cases m with
  | field => simp [OneLine, caption, oneLine_name h.1, oneLine_name h.2.1]
  | method =>
    obtain ⟨ht, hn, hf, -⟩ := h
    simp [OneLine, caption, oneLine_name ht, oneLine_name hn, Formal.oneLine_all hf]

theorem ClassDecl.oneLine_caption {c : ClassDecl} (h : c.Valid) : OneLine c.caption := by
  simp [OneLine, caption, ClassDecl.oneLine_heading h.1 h.2.1]

theorem Formal.oneLine_caption {f : Formal} (h : f.isValid = true) : OneLine f.caption := by
  simp [OneLine, caption, Formal.oneLine h]

theorem ListKind.oneLine_className (kind : ListKind) : OneLine kind.className := by
  cases kind <;> simp [OneLine, className, word]

/-! ## classes and programs -/

theorem ClassDecl.return_notMem {c : ClassDecl} (h : c.Valid) (width indent : Int) :
    '\r' ∉ (c.source width indent).toList := by
  obtain ⟨hn, hp, hm⟩ := h
  have heading := ClassDecl.oneLine_heading hn hp
  rw [source, String.toList_append]
  simp only [List.mem_append, not_or]
  refine ⟨return_notMem_intercalate fun s hs => ?_, by simp⟩
  simp only [List.cons_append, List.mem_cons, List.mem_append, List.mem_map, List.mem_flatMap,
    List.not_mem_nil, or_false] at hs
  rcases hs with rfl | ⟨l, ⟨m, hc, hl⟩, rfl⟩ | rfl
  · simp [heading]
  · simp [Line.render, Line.blanks, Member.oneLine (hm m hc) hl]
  · simp

theorem Program.return_notMem {p : Program} (h : p.Valid) (width indent : Int) :
    '\r' ∉ (p.source width indent).toList := by
  apply return_notMem_intercalate
  intro s hs
  obtain ⟨c, hc, rfl⟩ := List.mem_map.1 hs
  exact ClassDecl.return_notMem (h c hc) width indent

end BantamSyntax
