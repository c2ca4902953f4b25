import BantamSyntax.Proofs.Parsing.Reports
import BantamSyntax.Proofs.Printing.Leaves
import BantamSyntax.Proofs.Scanning.StringPieces
import BantamSyntax.Tree.Outline

/-!
# Well-formed nodes

Every node of a parsed tree, wherever it stands, is well formed: its names, its constants and its
receiver could be written in a text, a class knows its file, and no `else` stands after a branch
with an `if` that is nearer to it.
-/
namespace BantamSyntax

open Scanner

/-! ## string constants -/

/-- What may stand between quotes: quotes and backslashes only where they are escaped. -/
inductive Escaped : List Char → Prop where
  | nil : Escaped []
  | plain {c : Char} {cs : List Char} (noQuote : c ≠ '"') (noBackslash : c ≠ '\\')
      (rest : Escaped cs) : Escaped (c :: cs)
  | escape {c : Char} {cs : List Char} (legal : c ∈ LexicalFault.escapes) (rest : Escaped cs) :
      Escaped ('\\' :: c :: cs)

/-- A string constant, spelled with its quotes. -/
structure IsStringConstant (s : String) : Prop where
  quoted : ∃ body, s.toList = '"' :: (body ++ ['"']) ∧ Escaped body
  short : s.toList.length ≤ LexicalFault.maxStringLength
  oneLine : '\n' ∉ s.toList

theorem escaped_of_pieces {ps : List StringPiece} (proper : ∀ p ∈ ps, p.IsProper)
    (legal : ∀ p ∈ ps, p.IsLegal) : Escaped (ps.flatMap StringPiece.chars) := by
  induction ps with
  | nil => exact .nil
  | cons p ps ih =>
    rw [List.forall_mem_cons] at proper legal
    have rest := ih proper.2 legal.2
    cases p with
    | plain c => exact .plain proper.1.1 proper.1.2 rest
    | pair c => exact .escape legal.1 rest

/-- What a run takes up to a closing quote is escaped, if no escape in it is illegal. -/
theorem escaped_of_run {cs : List Char}
    (closed : run StringState.step .body cs = ((cs, .closed), []))
    (legal : LexicalFault.hasIllegalEscape cs = false) :
    ∃ body, cs = body ++ ['"'] ∧ Escaped body := by
  have ends : (run StringState.step .body cs).1.2 = .closed := by rw [closed]
  obtain ⟨ps, rest, closes⟩ := (StringPiece.closes_or_open cs).resolve_right (not_not_intro ends)
  have whole : ps.flatMap StringPiece.chars ++ ['"'] = cs :=
    congrArg (fun taken => taken.1.1) ((StringPiece.run_of_closes closes).symm.trans closed)
  rw [← whole, StringPiece.hasIllegalEscape_eq_false_iff closes.proper] at legal
  exact ⟨_, whole.symm, escaped_of_pieces closes.proper legal⟩

theorem isStringConstant_of_scansAlone {s : String} (h : ScansAlone .string s) :
    IsStringConstant s := by
  obtain ⟨cs, hs, string, -⟩ := isString_of_scansAlone h
  obtain ⟨closed, sound⟩ := string.run_eq
  obtain ⟨legal, short, oneLine⟩ := LexicalFault.ofString?_eq_none_iff.1 sound
  obtain ⟨body, hb, escaped⟩ := escaped_of_run closed legal
  rw [← hs] at short oneLine
  exact ⟨⟨body, by rw [hs, hb], escaped⟩, short, oneLine⟩

theorem Variable.isValid_of_isReceiver {v : Variable} (h : v.isReceiver = true) :
    v.isValid = true := by
  cases v with
  | plain => exact isName_of_isReceiver h
  | qualified => cases h

theorem Variable.receiver_of_isValid {v : Variable} (h : v.isValid = true) :
    v.receiver?.all Variable.isReceiver = true := by
  cases v with
  | plain => rfl
  | qualified line receiver name =>
    cases receiver with
    | plain =>
      rw [Variable.isValid, Bool.and_eq_true] at h
      exact h.1
    | qualified => cases h

namespace Node

/-! ## what a node says itself -/

/-- The node is well formed, whatever its children are. -/
def WellFormed (file : String) : Node → Prop
  | .program _ => True
  | .classDecl c => isName c.name = true ∧ c.parent.all isName = true ∧ c.file = some file
  | .member (.field _ type name _) => isName type = true ∧ isName name = true
  | .member (.method _ type name ..) => isName type = true ∧ isName name = true
  | .formal f => isName f.type = true ∧ isName f.name = true
  | .stmt (.declare _ name _) => isName name = true
  | .stmt (.ifElse _ _ consequent _) => consequent.dangles = false
  | .stmt _ => True
  | .expr (.constant _ .integer spelling) => Numeral.isDigits spelling.toList = true ∧
    Numeral.natOfDigits spelling.toList ≤ LexicalFault.maxInteger
  | .expr (.constant _ .boolean spelling) => spelling = "true" ∨ spelling = "false"
  | .expr (.constant _ .string spelling) => IsStringConstant spelling
  | .expr (.var v) => v.receiver?.all Variable.isReceiver = true ∧ isName v.name = true
  | .expr (.assign _ receiver name _) => receiver.all isReceiver = true ∧ isName name = true
  | .expr (.call _ receiver method ..) =>
    receiver.all Variable.isReceiver = true ∧ isName method = true
  | .expr (.new _ type) => isName type = true
  | .expr (.cast _ type _) => isName type = true
  | .expr (.binary ..) => True
  | .expr (.unary ..) => True
  | .list .. => True

/-! ## whole trees -/

/-- The node and all that is below it could be the tree of a text of the file. -/
inductive Sound (file : String) : Node → Prop where
  | program {p : Program} (valid : p.Valid) (settled : p.settled = true)
      (here : ∀ c ∈ p.classes, c.file = some file) : Sound file (.program p)
  | classDecl {c : ClassDecl} (valid : c.Valid) (settled : c.members.all Member.settled = true)
      (here : c.file = some file) : Sound file (.classDecl c)
  | member {m : Member} (valid : m.Valid) (settled : m.settled = true) : Sound file (.member m)
  | formal {f : Formal} (valid : f.isValid = true) : Sound file (.formal f)
  | stmt {s : Stmt} (valid : s.Valid) (settled : s.settled = true) : Sound file (.stmt s)
  | expr {e : Expr} (valid : e.Valid) : Sound file (.expr e)
  | list {kind : ListKind} {line : Int} {elements : List Node}
      (sound : ∀ n ∈ elements, Sound file n) : Sound file (.list kind line elements)

variable {file : String} {n m : Node}

theorem Sound.ofVariable {v : Variable} (h : v.isReceiver = true) : (ofVariable v).Sound file :=
  .expr (Variable.isValid_of_isReceiver h)

theorem Sound.ofExprs {line : Int} {es : List Expr} (h : Expr.AllValid es) :
    (ofExprs line es).Sound file :=
  .list (List.forall_mem_map.2 fun e he => .expr (Grammar.allValid_iff.1 h e he))

theorem Sound.ofStmts {line : Int} {ss : List Stmt} (valid : Stmt.AllValid ss)
    (settled : Stmt.allSettled ss = true) : (ofStmts line ss).Sound file :=
  .list (List.forall_mem_map.2 fun s hs =>
    .stmt (Grammar.allValid_stmts_iff.1 valid s hs) (Stmt.allSettled_iff.1 settled s hs))

theorem Sound.ofFormals {line : Int} {fs : List Formal} (h : fs.all Formal.isValid = true) :
    (ofFormals line fs).Sound file :=
  .list (List.forall_mem_map.2 fun f hf => .formal (List.all_eq_true.1 h f hf))

theorem Sound.receiver {r : Option Variable} (h : r.all Variable.isReceiver = true) :
    ∀ v, r = some v → (Node.ofVariable v).Sound file := by
  rintro v rfl
  exact .ofVariable h

theorem Sound.optional {o : Option Expr} (h : ∀ e ∈ o, e.Valid) :
    ∀ e, o = some e → (Node.expr e).Sound file :=
  fun e he => .expr (h e he)

/-- Every child that the node has satisfies `P`. -/
def Children (P : Node → Prop) (n : Node) : Prop :=
  ∀ entry ∈ n.fields, ∀ m, entry.2 = some m → P m

theorem Sound.children_expr {e : Expr} (h : e.Valid) : Children (Sound file) (.expr e) := by
  unfold Children
  cases e with
  | constant => simp [fields]
  | var v => simpa [fields] using Sound.receiver (Variable.receiver_of_isValid h)
  | assign line receiver name value => simpa [fields] using Sound.expr h.2.2
  | call line receiver method argumentsLine arguments =>
    simpa [fields] using ⟨Sound.receiver h.1, Sound.ofExprs h.2.2⟩
  | new => simp [fields]
  | cast line type operand => simpa [fields] using Sound.expr h.2
  | binary line op left right => simpa [fields] using ⟨Sound.expr h.1, Sound.expr h.2⟩
  | unary line op operand =>
    have h : operand.Valid := h
    simpa [fields] using Sound.expr h

theorem Sound.children_stmt {s : Stmt} (h : s.Valid) (settled : s.settled = true) :
    Children (Sound file) (.stmt s) := by
  unfold Children
  cases s with
  | block line bodyLine body =>
    have h : Stmt.AllValid body := h
    have settled : Stmt.allSettled body = true := settled
    simpa [fields] using Sound.ofStmts h settled
  | declare line name init => simpa [fields] using Sound.expr h.2
  | expr line e =>
    have h : e.Valid := h
    simpa [fields] using Sound.expr h
  | ifThen line condition consequent =>
    simpa [fields] using ⟨Sound.expr h.1, Sound.stmt h.2 settled⟩
  | ifElse line condition consequent alternative =>
    simp only [Stmt.settled, Bool.and_eq_true] at settled
    simpa [fields] using
      ⟨Sound.expr h.1, Sound.stmt h.2.1 settled.1.2, Sound.stmt h.2.2 settled.2⟩
  | «while» line condition body => simpa [fields] using ⟨Sound.expr h.1, Sound.stmt h.2 settled⟩
  | «for» line init condition update body =>
    simpa [fields] using ⟨Sound.optional h.1, Sound.optional h.2.1, Sound.optional h.2.2.1,
      Sound.stmt h.2.2.2 settled⟩
  | «break» => simp [fields]
  | «return» line value =>
    have h : ∀ e ∈ value, e.Valid := h
    simpa [fields] using Sound.optional h

theorem Sound.children_member {m : Member} (h : m.Valid) (settled : m.settled = true) :
    Children (Sound file) (.member m) := by
  unfold Children
  cases m with
  | field line type name init => simpa [fields] using Sound.optional h.2.2
  | method line type name formalsLine formals bodyLine body =>
    have settled : Stmt.allSettled body = true := settled
    simpa [fields] using ⟨Sound.ofFormals h.2.2.1, Sound.ofStmts h.2.2.2 settled⟩

theorem Sound.children (h : n.Sound file) : Children (Sound file) n := by
  cases h with
  | @program p valid settled here =>
    have settled := List.all_eq_true.1 settled
    have classes : Sound file (.list .classes p.classesLine (p.classes.map .classDecl)) :=
      .list (List.forall_mem_map.2 fun c hc => .classDecl (valid c hc) (settled c hc) (here c hc))
    simpa [Children, fields] using classes
  | @classDecl c valid settled =>
    have settled := List.all_eq_true.1 settled
    have members : Sound file (.list .members c.membersLine (c.members.map .member)) :=
      .list (List.forall_mem_map.2 fun m hm => .member (valid.2.2 m hm) (settled m hm))
    simpa [Children, fields] using members
  | member valid settled => exact children_member valid settled
  | formal => simp [Children, fields]
  | stmt valid settled => exact children_stmt valid settled
  | expr valid => exact children_expr valid
  | list => simp [Children, fields]

theorem Sound.elements (h : n.Sound file) : ∀ m ∈ n.elements, m.Sound file := by
  cases h with
  | list sound => exact sound
  | _ => simp [Node.elements]

/-- A step leads to a child or to an element. -/
theorem step_eq_ok {s : Step} (h : n.step s = .ok m) :
    (∃ name, (name, some m) ∈ n.fields) ∨ m ∈ n.elements := by
  cases s with
  | field name =>
    unfold step at h
    dsimp only at h
    split at h
    · cases h
      rename_i found
      rw [Option.join_eq_some_iff] at found
      exact .inl ⟨name, mem_of_lookup found⟩
    · cases h
  | index i =>
    unfold step at h
    dsimp only at h
    generalize (if i < 0 then i + (n.elements.length : Int) else i) = place at h
    split at h
    · cases h
    split at h
    · cases h
      exact .inr (List.mem_of_getElem? ‹_›)
    · cases h

theorem Sound.step {s : Step} (h : n.Sound file) (hm : n.step s = .ok m) : m.Sound file := by
  rcases step_eq_ok hm with ⟨name, field⟩ | element
  · exact h.children _ field m rfl
  · exact h.elements m element

theorem Sound.follow {path : List Step} (h : n.Sound file) (hm : n.follow path = .ok m) :
    m.Sound file := by
  induction path generalizing n with
  | nil =>
    cases hm
    exact h
  | cons s path ih =>
    unfold Node.follow at hm
    rw [List.foldlM_cons] at hm
    cases hs : n.step s with
    | error => simp [hs, bind, Except.bind] at hm
    | ok k =>
      rw [hs] at hm
      exact ih (h.step hs) hm

theorem Sound.wellFormed (h : n.Sound file) : n.WellFormed file := by
  cases h with
  | program => trivial
  | classDecl valid settled here => exact ⟨valid.1, valid.2.1, here⟩
  | @member m valid =>
    cases m with
    | field => exact ⟨valid.1, valid.2.1⟩
    | method => exact ⟨valid.1, valid.2.1⟩
  | formal valid => exact Bool.and_eq_true_iff.1 valid
  | @stmt s valid settled =>
    cases s with
    | declare => exact valid.1
    | ifElse =>
      simp only [Stmt.settled, Bool.and_eq_true, Bool.not_eq_true'] at settled
      exact settled.1.1
    | _ => trivial
  | @expr e valid =>
    cases e with
    | constant line kind spelling =>
      cases kind with
      | integer => exact valid
      | boolean => exact valid
      | string => exact isStringConstant_of_scansAlone valid
    | var v => exact ⟨Variable.receiver_of_isValid valid, (Variable.valid_parts valid).2⟩
    | assign => exact ⟨valid.1, valid.2.1⟩
    | call => exact ⟨valid.1, valid.2.1⟩
    | new => exact valid
    | cast => exact valid.1
    | _ => trivial
  | list => trivial

end Node

/-! ## parsed trees -/

namespace Grammar

variable {file text name : String} {w : List Token}

theorem IsClass.file_eq {c : ClassDecl} (h : IsClass file w c) : c.file = some file := by
  cases h
  rfl

theorem IsProgram.files {line : Int} {p : Program} (h : IsProgram file line w p) :
    ∀ c ∈ p.classes, c.file = some file := by
  cases h with
  | intro classes => exact List.forall_mem_map.2 fun i hi => (classes i hi).file_eq

theorem sound_of_parse {p : Program} {q : Parser}
    (h : (Source.ofText text name).parse = .ok p q) : (Node.program p).Sound name := by
  obtain ⟨start, _, _, _, hp, sees, -⟩ := parse_begins text name
  obtain ⟨t, ts, hts⟩ := List.exists_cons_of_ne_nil sees.ne_nil
  rw [hts] at sees
  rcases parseRest_sound sees with ⟨r, q', w, last, hr, hw, derived, settled⟩ | ⟨d, q', hd⟩
  · cases h.symm.trans (hp.trans hr)
    have spelled : ∀ u ∈ w, Spelled u := fun u hu =>
      spelled_tokens (hts.trans hw ▸ List.mem_append_left [last] hu)
    exact .program (derived.valid spelled) settled derived.files
  · cases h.symm.trans (hp.trans hd)

/-- Every node of a parsed tree is well formed, whatever path leads to it. -/
theorem parse_wellFormed {p : Program} {q : Parser} {path : List Node.Step} {n : Node}
    (h : (Source.ofText text name).parse = .ok p q)
    (reached : (Node.program p).follow path = .ok n) : n.WellFormed name :=
  ((sound_of_parse h).follow reached).wellFormed

/-- The `else` belongs to the `if` in the loop, and so leaves none dangling there. -/
theorem parse_wellFormed_else :
    let text := "class A \x7b int f() \x7b if (a) while (b) if (c) d; else return 1; \x7d \x7d"
    let path : List Node.Step := [.field "class_list", .index 0, .field "member_list", .index 0,
      .field "stmt_list", .index 0, .field "then_stmt", .field "body_stmt"]
    ∃ p q n, (Source.ofText text).parse = .ok p q ∧ (Node.program p).follow path = .ok n ∧
      n.same (.stmt (.ifElse 1 (.var (.plain 1 "c")) (.expr 1 (.var (.plain 1 "d")))
        (.return 1 (some (.constant 1 .integer "1"))))) = true ∧
      n.WellFormed Source.anonymous := by
  intro text path
  have reached : ((parseText text).toOption.bind fun p =>
      ((Node.program p).follow path).toOption).map (Node.same · (.stmt (.ifElse 1
        (.var (.plain 1 "c")) (.expr 1 (.var (.plain 1 "d")))
        (.return 1 (some (.constant 1 .integer "1")))))) = some true := by
    decide +kernel
  cases parsed : parseText text with
  | error => rw [parsed] at reached; cases reached
  | ok p =>
    obtain ⟨q, hp, -⟩ := parse_of_parseText parsed
    rw [parsed] at reached
    cases hn : (Node.program p).follow path with
    | error => simp [Except.toOption, hn] at reached
    | ok n =>
      have same := by simpa [Except.toOption, hn] using reached
      exact ⟨p, q, n, hp, hn, same, parse_wellFormed hp hn⟩

end Grammar
end BantamSyntax
