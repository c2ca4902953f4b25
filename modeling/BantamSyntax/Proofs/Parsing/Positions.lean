import BantamSyntax.Proofs.Parsing.Reports
import BantamSyntax.Proofs.Trees.Children

/-!
# Positions

Which tokens the rule that makes a node takes. The children of a node are made of stretches of its
tokens that follow each other, so that the lines of the nodes never fall back.
-/
namespace BantamSyntax
namespace Grammar

/-! ## nodes and their tokens -/

/-- The expression is made of the tokens. Parentheses around it are no part of them. -/
inductive MakesExpr : List Token → Expr → Prop where
  | assign {t a : Token} {w u : List Token} {v : Variable} {value : Expr}
      (target : IsVariable (t :: w) v) (sign : a.kind = .assign)
      (source : IsExpr .expression u value) :
      MakesExpr (t :: w ++ a :: u)
        (.assign t.line (v.receiver?.map Variable.name) v.name value)
  | binary {l : Level} {ls ks : List Level} {t o : Token} {w u : List Token} {op : BinaryOp}
      {left right : Expr} (former : IsExpr (.level ks) (t :: w) left)
      (operator : l.op? o = some op) (latter : IsExpr (.level ls) u right) :
      MakesExpr (t :: w ++ o :: u) (.binary t.line op left right)
  | new {n c l r : Token} (word : n.kind = .newWord) (type : c.kind = .identifier)
      (opening : l.kind = .leftParen) (closing : r.kind = .rightParen) :
      MakesExpr [n, c, l, r] (.new n.line c.spelling)
  | cast {t l c m r : Token} {w : List Token} {e : Expr} (word : t.kind = .castWord)
      (opening : l.kind = .leftParen) (type : c.kind = .identifier) (comma : m.kind = .comma)
      (operand : IsExpr .expression w e) (closing : r.kind = .rightParen) :
      MakesExpr (t :: l :: c :: m :: w ++ [r]) (.cast t.line c.spelling e)
  | sign {t : Token} {w : List Token} {op : UnaryOp} {e : Expr}
      (operator : signOp? t = some op) (operand : IsExpr .signed w e) :
      MakesExpr (t :: w) (.unary t.line op e)
  | suffix {t o : Token} {w : List Token} {op : UnaryOp} {e : Expr}
      (operand : IsExpr .primary (t :: w) e) (operator : suffixOp? o.kind = some op) :
      MakesExpr (t :: w ++ [o]) (.unary t.line op e)
  | constant {t : Token} {kind : ConstantKind} (h : constantKind? t.kind = some kind) :
      MakesExpr [t] (.constant t.line kind t.spelling)
  | var {w : List Token} {v : Variable} (h : IsVariable w v) : MakesExpr w (.var v)
  | call {t l r : Token} {w u : List Token} {v : Variable} {items : List (Piece Expr)}
      (method : IsVariable (t :: w) v) (opening : l.kind = .leftParen)
      (arguments : ∀ i ∈ items, IsExpr .expression i.tokens i.tree)
      (commas : Separated (items.map (·.tokens)) u) (closing : r.kind = .rightParen) :
      MakesExpr (t :: w ++ l :: u ++ [r])
        (.call t.line v.receiver? v.name l.line (items.map (·.tree)))

/-- The node is made of the tokens. Lists stand with the braces or the parentheses around them, and
what has no token of its own stands with the token at the end of the text. -/
inductive Makes (file : String) : List Token → Node → Prop where
  | program {t last : Token} {w : List Token} {items : List (Piece ClassDecl)}
      (classes : ∀ i ∈ items, IsClass file i.tokens i.tree) (ending : last.kind = .endOfFile)
      (all : items.flatMap (·.tokens) ++ [last] = t :: w) :
      Makes file (t :: w) (.program ⟨t.line, t.line, items.map (·.tree)⟩)
  | classes {t last : Token} {w : List Token} {items : List (Piece ClassDecl)}
      (classes : ∀ i ∈ items, IsClass file i.tokens i.tree) (ending : last.kind = .endOfFile)
      (all : items.flatMap (·.tokens) ++ [last] = t :: w) :
      Makes file (t :: w) (.list .classes t.line (items.map fun i => .classDecl i.tree))
  | classDecl {w : List Token} {c : ClassDecl} (h : IsClass file w c) :
      Makes file w (.classDecl c)
  | members {l r : Token} {items : List (Piece Member)} (opening : l.kind = .leftBrace)
      (members : ∀ i ∈ items, IsMember i.tokens i.tree) (closing : r.kind = .rightBrace) :
      Makes file (l :: items.flatMap (·.tokens) ++ [r])
        (.list .members l.line (items.map fun i => .member i.tree))
  | member {w : List Token} {m : Member} (h : IsMember w m) : Makes file w (.member m)
  | formals {l r : Token} {w : List Token} {items : List (Piece Formal)}
      (opening : l.kind = .leftParen) (parameters : ∀ i ∈ items, IsFormal i.tokens i.tree)
      (commas : Separated (items.map (·.tokens)) w) (closing : r.kind = .rightParen) :
      Makes file (l :: w ++ [r]) (.list .formals l.line (items.map fun i => .formal i.tree))
  | formal {w : List Token} {f : Formal} (h : IsFormal w f) : Makes file w (.formal f)
  | stmts {l r : Token} {items : List (Piece Stmt)} (opening : l.kind = .leftBrace)
      (body : ∀ i ∈ items, IsStmt i.tokens i.tree) (closing : r.kind = .rightBrace) :
      Makes file (l :: items.flatMap (·.tokens) ++ [r])
        (.list .statements l.line (items.map fun i => .stmt i.tree))
  | stmt {w : List Token} {s : Stmt} (h : IsStmt w s) : Makes file w (.stmt s)
  | exprs {l r : Token} {w : List Token} {items : List (Piece Expr)}
      (opening : l.kind = .leftParen) (arguments : ∀ i ∈ items, IsExpr .expression i.tokens i.tree)
      (commas : Separated (items.map (·.tokens)) w) (closing : r.kind = .rightParen) :
      Makes file (l :: w ++ [r]) (.list .expressions l.line (items.map fun i => .expr i.tree))
  | expr {w : List Token} {e : Expr} (h : MakesExpr w e) : Makes file w (.expr e)

variable {file : String} {w u : List Token} {n : Node} {ns ms : List Node}

theorem IsVariable.line_eq {v : Variable} (h : IsVariable w v) :
    ∃ t u, w = t :: u ∧ v.line = t.line := by
  cases h <;> exact ⟨_, _, rfl, rfl⟩

theorem MakesExpr.line_eq {e : Expr} (h : MakesExpr w e) :
    ∃ t u, w = t :: u ∧ e.line = t.line := by
  cases h with
  | var h => exact h.line_eq
  | _ => exact ⟨_, _, rfl, rfl⟩

/-- A node stands on the line of the first of its tokens. -/
theorem Makes.line_eq (h : Makes file w n) : ∃ t u, w = t :: u ∧ n.line = t.line := by
  cases h with
  | classDecl h => cases h; exact ⟨_, _, rfl, rfl⟩
  | member h => cases h <;> exact ⟨_, _, rfl, rfl⟩
  | formal h => cases h; exact ⟨_, _, rfl, rfl⟩
  | stmt h => cases h <;> exact ⟨_, _, rfl, rfl⟩
  | expr h => exact h.line_eq
  | _ => exact ⟨_, _, rfl, rfl⟩

/-! ## nodes in order -/

/-- The nodes are made of stretches of the tokens that follow each other. -/
inductive InOrder (file : String) : List Token → List Node → Prop where
  | nil {w : List Token} : InOrder file w []
  | cons {gap w u : List Token} {n : Node} {ns : List Node} (first : Makes file w n)
      (rest : InOrder file u ns) : InOrder file (gap ++ w ++ u) (n :: ns)

namespace InOrder

theorem one (h : Makes file w n) : InOrder file w [n] := by
  have all : InOrder file ([] ++ w ++ []) [n] := cons h nil
  simpa using all

theorem skip (gap : List Token) (h : InOrder file w ns) : InOrder file (gap ++ w) ns := by
  cases h with
  | nil => exact nil
  | @cons gap' w u n ns first rest =>
    have all : InOrder file (gap ++ gap' ++ w ++ u) (n :: ns) := cons first rest
    simpa using all

theorem append (h : InOrder file w ns) (h' : InOrder file u ms) :
    InOrder file (w ++ u) (ns ++ ms) := by
  induction h with
  | @nil w => exact h'.skip w
  | @cons gap v w n ns first rest ih =>
    have all : InOrder file (gap ++ v ++ (w ++ u)) (n :: (ns ++ ms)) := cons first ih
    simpa using all

theorem before (h : InOrder file w ns) (rest : List Token) : InOrder file (w ++ rest) ns := by
  simpa using h.append (nil (w := rest))

variable {α : Type} {f : α → Node}

theorem flatMap {items : List (Piece α)}
    (h : ∀ i ∈ items, InOrder file i.tokens [f i.tree]) :
    InOrder file (items.flatMap (·.tokens)) (items.map fun i => f i.tree) := by
  induction items with
  | nil => exact nil
  | cons i items ih =>
    simp at h
    exact h.1.append (ih h.2)

theorem separated {items : List (Piece α)}
    (h : ∀ i ∈ items, InOrder file i.tokens [f i.tree])
    (commas : Separated (items.map (·.tokens)) w) :
    InOrder file w (items.map fun i => f i.tree) := by
  induction items generalizing w with
  | nil => exact nil
  | cons i items ih =>
    simp at h
    cases items with
    | nil => cases commas; simpa using h.1
    | cons j items =>
      cases commas with
      | @cons _ _ u _ c comma rest => exact h.1.append ((ih (by simpa using h.2) rest).skip [c])

end InOrder

/-! ## children in order -/

theorem IsVariable.receiver_inOrder {v : Variable} (h : IsVariable w v) :
    InOrder file w (v.receiver?.map Node.ofVariable).toList := by
  cases h with
  | plain => exact .nil
  | @qualified t d n receiver =>
    exact (InOrder.one (.expr (.var (.plain receiver)))).before [d, n]

/-- The tokens of an expression are those of its making with parentheses around them. -/
theorem IsExpr.inOrder {p : Place} {e : Expr} (h : IsExpr p w e) :
    InOrder file w [.expr e] := by
  induction h with
  | assign target sign source => exact .one (.expr (.assign target sign source))
  | plain _ ih => exact ih
  | binary former operator latter => exact .one (.expr (.binary former operator latter))
  | operand _ ih => exact ih
  | new word type opening closing => exact .one (.expr (.new word type opening closing))
  | cast word opening type comma operand closing =>
    exact .one (.expr (.cast word opening type comma operand closing))
  | unary _ ih => exact ih
  | sign operator operand => exact .one (.expr (.sign operator operand))
  | unsigned _ ih => exact ih
  | suffix operand operator => exact .one (.expr (.suffix operand operator))
  | unsuffixed _ ih => exact ih
  | @parens l r _ _ _ _ _ ih => exact (ih.skip [l]).before [r]
  | constant h => exact .one (.expr (.constant h))
  | var h => exact .one (.expr (.var h))
  | call method opening arguments commas closing =>
    exact .one (.expr (.call method opening arguments commas closing))

theorem IsOptional.inOrder {e : Option Expr} (h : IsOptional w e) :
    InOrder file w (e.map Node.expr).toList := by
  cases h with
  | absent => exact .nil
  | present h => exact h.inOrder

theorem MakesExpr.children {e : Expr} (h : MakesExpr w e) :
    InOrder file w (Node.expr e).children := by
  cases h with
  | @assign t a w u _ _ _ _ source =>
    simpa [Node.children, Node.fields, Node.elements] using source.inOrder.skip (t :: w ++ [a])
  | @binary _ _ _ t o w u _ _ _ former _ latter =>
    simpa [Node.children, Node.fields, Node.elements] using
      former.inOrder.append (latter.inOrder.skip [o])
  | new => exact .nil
  | @cast t l c m r w _ _ _ _ _ operand =>
    simpa [Node.children, Node.fields, Node.elements] using
      (operand.inOrder.skip [t, l, c, m]).before [r]
  | @sign t w _ _ _ operand =>
    simpa [Node.children, Node.fields, Node.elements] using operand.inOrder.skip [t]
  | @suffix t o w _ _ operand =>
    simpa [Node.children, Node.fields, Node.elements] using operand.inOrder.before [o]
  | constant => exact .nil
  | @var _ v h =>
    have all : InOrder file _ _ := h.receiver_inOrder
    cases v <;> simpa [Node.children, Node.fields, Node.elements, Variable.receiver?] using all
  | @call t l r w u v items method opening arguments commas closing =>
    have listed : InOrder file _ _ := .one (.exprs opening arguments commas closing)
    have all := method.receiver_inOrder.append listed
    cases v <;> simpa [Node.children, Node.fields, Node.elements, Node.ofExprs,
      Variable.receiver?, Function.comp_def] using all

theorem IsStmt.children {s : Stmt} (h : IsStmt w s) : InOrder file w (Node.stmt s).children := by
  cases h with
  | block opening body closing =>
    have all : InOrder file _ _ := .one (.stmts opening body closing)
    simpa [Node.children, Node.fields, Node.elements, Node.ofStmts, Function.comp_def] using all
  | @declare t n a s w _ _ _ _ init =>
    simpa [Node.children, Node.fields, Node.elements] using
      (init.inOrder.skip [t, n, a]).before [s]
  | @expr t s w e h =>
    simpa [Node.children, Node.fields, Node.elements] using h.inOrder.before [s]
  | @ifThen t l r w u _ _ _ _ condition _ branch =>
    simpa [Node.children, Node.fields, Node.elements] using
      (condition.inOrder.skip [t, l]).append ((InOrder.one (.stmt branch)).skip [r])
  | @ifElse t l r s w u v _ _ _ _ _ condition _ branch _ last =>
    simpa [Node.children, Node.fields, Node.elements] using
      ((condition.inOrder.skip [t, l]).append ((InOrder.one (.stmt branch)).skip [r])).append
        ((InOrder.one (.stmt last)).skip [s])
  | @«while» t l r w u _ _ _ _ condition _ repeated =>
    simpa [Node.children, Node.fields, Node.elements] using
      (condition.inOrder.skip [t, l]).append ((InOrder.one (.stmt repeated)).skip [r])
  | @«for» t l m n r w x y u init condition update _ _ _ first _ second _ third _ repeated =>
    have all : InOrder file _ _ := ((first.inOrder.skip [t, l]).append
      (second.inOrder.skip [m])).append ((third.inOrder.skip [n]).append
        ((InOrder.one (.stmt repeated)).skip [r]))
    cases init <;> cases condition <;> cases update <;>
      simpa [Node.children, Node.fields, Node.elements] using all
  | «break» => exact .nil
  | @«return» t s w value _ result =>
    have all : InOrder file _ _ := (result.inOrder.skip [t]).before [s]
    cases value <;> simpa [Node.children, Node.fields, Node.elements] using all

theorem IsMember.children {m : Member} (h : IsMember w m) :
    InOrder file w (Node.member m).children := by
  cases h with
  | field => exact .nil
  | @fieldInit t n a s w _ _ _ _ init =>
    simpa [Node.children, Node.fields, Node.elements] using
      (init.inOrder.skip [t, n, a]).before [s]
  | @method t n l r b c u _ _ _ _ opening parameters commas closing bodyOpening body bodyClosing =>
    have first : InOrder file _ _ := .one (.formals opening parameters commas closing)
    have second : InOrder file _ _ := .one (.stmts bodyOpening body bodyClosing)
    simpa [Node.children, Node.fields, Node.elements, Node.ofFormals, Node.ofStmts,
      Function.comp_def] using (first.skip [t, n]).append second

theorem IsClass.children {c : ClassDecl} (h : IsClass file w c) :
    InOrder file w (Node.classDecl c).children := by
  cases h with
  | @intro t n l r w _ _ _ _ _ opening members closing =>
    simpa [Node.children, Node.fields, Node.elements, Function.comp_def] using
      (InOrder.one (.members opening members closing)).skip (t :: n :: w)

/-- The children of a node follow each other in its tokens. -/
theorem Makes.children (h : Makes file w n) : InOrder file w n.children := by
  cases h with
  | program classes ending all =>
    simpa [Node.children, Node.fields, Node.elements, Function.comp_def] using
      InOrder.one (.classes classes ending all)
  | @classes t last _ _ classes ending all =>
    rw [← all]
    exact (InOrder.flatMap fun i hi => .one (.classDecl (classes i hi))).before [last]
  | classDecl h => exact h.children
  | @members l r _ _ members =>
    exact ((InOrder.flatMap fun i hi => .one (.member (members i hi))).skip [l]).before [r]
  | member h => exact h.children
  | @formals l r _ _ _ parameters commas =>
    exact ((InOrder.separated (fun i hi => .one (.formal (parameters i hi))) commas).skip
      [l]).before [r]
  | formal => exact .nil
  | @stmts l r _ _ body =>
    exact ((InOrder.flatMap fun i hi => .one (.stmt (body i hi))).skip [l]).before [r]
  | stmt h => exact h.children
  | @exprs l r _ _ _ arguments commas =>
    exact ((InOrder.separated (fun i hi => (arguments i hi).inOrder) commas).skip [l]).before [r]
  | expr h => exact h.children

theorem InOrder.mem (h : InOrder file w ns) (hn : n ∈ ns) : ∃ v, v <:+: w ∧ Makes file v n := by
  induction h with
  | nil => cases hn
  | @cons gap v u m ns first rest ih =>
    rcases List.mem_cons.1 hn with rfl | hn
    · exact ⟨v, ⟨gap, u, rfl⟩, first⟩
    · obtain ⟨x, inside, made⟩ := ih hn
      exact ⟨x, inside.trans (List.suffix_append _ _).isInfix, made⟩

/-- Wherever in the tree a node stands, it is made of some of the tokens. -/
theorem Makes.at {m : Node} {address : List Nat} (h : Makes file w n)
    (hm : n.at? address = some m) : ∃ v, v <:+: w ∧ Makes file v m := by
  induction address generalizing w n with
  | nil =>
    cases hm
    exact ⟨w, List.infix_rfl, h⟩
  | cons i address ih =>
    simp [Option.bind_eq_some_iff] at hm
    obtain ⟨c, hc, hm⟩ := hm
    obtain ⟨v, inside, made⟩ := h.children.mem (List.mem_of_getElem? hc)
    obtain ⟨x, inside', made'⟩ := ih made hm
    exact ⟨x, inside'.trans inside, made'⟩

/-! ## lines in order -/

/-- The lines of a node and of those below it, in preorder. -/
def lines (n : Node) : List Int :=
  n.outline.entries.map (·.2)

theorem lines_eq (n : Node) : lines n = n.line :: n.children.flatMap lines := by
  simp only [lines, n.entries_outline, List.map_cons, List.map_flatMap]
  rfl

theorem Makes.lines_mem (h : Makes file w n) : ∀ i ∈ lines n, ∃ t ∈ w, t.line = i := by
  induction n using Node.children_induction generalizing w with
  | node n ih =>
    rw [lines_eq]
    simp only [List.mem_cons, List.mem_flatMap]
    rintro i (rfl | ⟨c, hc, hi⟩)
    · obtain ⟨t, u, rfl, line⟩ := h.line_eq
      exact ⟨t, by simp, line.symm⟩
    · obtain ⟨v, inside, made⟩ := h.children.mem hc
      obtain ⟨t, ht, line⟩ := ih c hc made i hi
      exact ⟨t, inside.mem ht, line⟩

theorem InOrder.lines_mem (h : InOrder file w ns) :
    ∀ i ∈ ns.flatMap lines, ∃ t ∈ w, t.line = i := by
  intro i hi
  obtain ⟨n, hn, hi⟩ := List.mem_flatMap.1 hi
  obtain ⟨v, inside, made⟩ := h.mem hn
  obtain ⟨t, ht, line⟩ := made.lines_mem i hi
  exact ⟨t, inside.mem ht, line⟩

/-- The lines of the tokens never fall back. -/
def Sorted (ts : List Token) : Prop :=
  ts.Pairwise fun t u => t.line ≤ u.line

theorem InOrder.lines_sorted (h : InOrder file w ns) (sorted : Sorted w)
    (each : ∀ n ∈ ns, ∀ v, Makes file v n → Sorted v → (lines n).Pairwise (· ≤ ·)) :
    (ns.flatMap lines).Pairwise (· ≤ ·) := by
  induction h with
  | nil => exact .nil
  | @cons gap v u n ns first rest ih =>
    obtain ⟨former, latter, across⟩ := List.pairwise_append.1 sorted
    simp only [List.mem_cons, forall_eq_or_imp] at each
    have here := each.1 v first (List.pairwise_append.1 former).2.1
    refine List.pairwise_append.2 ⟨here, ih latter each.2, fun i hi j hj => ?_⟩
    obtain ⟨t, ht, rfl⟩ := first.lines_mem i hi
    obtain ⟨t', ht', rfl⟩ := rest.lines_mem j hj
    exact across t (by simp [ht]) t' ht'

theorem Makes.lines_sorted (h : Makes file w n) (sorted : Sorted w) :
    (lines n).Pairwise (· ≤ ·) := by
  induction n using Node.children_induction generalizing w with
  | node n ih =>
    rw [lines_eq, List.pairwise_cons]
    constructor
    · intro i hi
      obtain ⟨t, u, rfl, line⟩ := h.line_eq
      obtain ⟨t', ht', rfl⟩ := h.children.lines_mem i hi
      rw [line]
      rcases List.mem_cons.1 ht' with rfl | ht'
      · exact Int.le_refl _
      · exact (List.pairwise_cons.1 sorted).1 t' ht'
    · exact h.children.lines_sorted sorted fun c hc v made => ih c hc made

/-! ## lines of texts -/

theorem lexemesFrom_lines (line : Nat) (cs : List Char) :
    (∀ l ∈ Scanner.lexemesFrom line cs, (line : Int) ≤ l.token.line) ∧
      Sorted ((Scanner.lexemesFrom line cs).map (·.token)) := by
  fun_induction Scanner.lexemesFrom line cs with
  | case1 line => simp [Sorted, Scanner.ending, Scanner.lexeme]
  | case2 line c cs blank ih =>
    refine ⟨fun l hl => ?_, ih.2⟩
    have := ih.1 l hl
    omega
  | case3 line c cs blank ih =>
    have start : ((Scanner.cut c cs).lexeme line).token.line = line := rfl
    have later : ∀ l ∈ Scanner.lexemesFrom (line + Scanner.newlines (Scanner.cut c cs).spelling)
        (Scanner.cut c cs).rest, (line : Int) ≤ l.token.line := by
      intro l hl
      have := ih.1 l hl
      omega
    constructor
    · simpa [start] using later
    · simpa [Sorted, start, List.pairwise_cons] using ⟨later, ih.2⟩

theorem tokens_sorted (text : String) : Sorted (tokens text) ∧ ∀ t ∈ tokens text, 1 ≤ t.line := by
  have eq : tokens text = significant (lexemes text Source.anonymous) :=
    tokens_eq_significant text _
  rw [eq, lexemes_eq, significant]
  obtain ⟨start, sorted⟩ := lexemesFrom_lines 1 (' ' :: normalize text.toList)
  refine ⟨sorted.filter _, fun t ht => ?_⟩
  obtain ⟨l, hl, rfl⟩ := List.mem_map.1 (List.mem_filter.1 ht).1
  exact start l hl

theorem tokens_eq_append (text : String) :
    ∃ init last, tokens text = init ++ [last] ∧ last.kind = .endOfFile := by
  rw [tokens_eq_significant text Source.anonymous]
  exact significant_eq_append (lexemes_complete text _)

/-- A parsed program is made of all tokens of the text. -/
theorem makes_of_parse {text name : String} {p : Program} {q : Parser}
    (h : (Source.ofText text name).parse = .ok p q) : Makes name (tokens text) (.program p) := by
  obtain ⟨start, _, _, _, hp, sees, -⟩ := parse_begins text name
  obtain ⟨t, ts, hts⟩ := List.exists_cons_of_ne_nil sees.ne_nil
  rw [hts] at sees
  rcases parseRest_sound sees with ⟨r, q', w, last, hr, hw, derived, -⟩ | ⟨d, q', hd⟩
  · cases h.symm.trans (hp.trans hr)
    obtain ⟨init, last', split, ended⟩ := tokens_eq_append text
    obtain ⟨rfl, ⟨⟩⟩ := List.append_inj' (hw.symm.trans (hts.symm.trans split)) rfl
    rw [hts]
    cases derived with
    | intro classes => exact .program classes ended hw.symm
  · cases h.symm.trans (hp.trans hd)

/-- Each node of a parsed tree stands on the line of the first token of which it is made, and its
children follow each other in its tokens. So the lines never fall back in preorder, and they are
lines of the text. -/
theorem parse_positions {text name : String} {p : Program} {q : Parser}
    (h : (Source.ofText text name).parse = .ok p q) :
    Makes name (tokens text) (.program p) ∧
    (∀ address n, (Node.program p).at? address = some n →
      ∃ first rest, first :: rest <:+: tokens text ∧ Makes name (first :: rest) n ∧
        n.line = first.line ∧ InOrder name (first :: rest) n.children) ∧
    (lines (.program p)).Pairwise (· ≤ ·) ∧
    ∃ init last, tokens text = init ++ [last] ∧ last.kind = .endOfFile ∧
      ∀ i ∈ lines (.program p), 1 ≤ i ∧ i ≤ last.line := by
  have made := makes_of_parse h
  obtain ⟨sorted, positive⟩ := tokens_sorted text
  obtain ⟨init, last, split, ended⟩ := tokens_eq_append text
  refine ⟨made, fun address n hn => ?_, made.lines_sorted sorted, init, last, split, ended,
    fun i hi => ?_⟩
  · obtain ⟨v, inside, here⟩ := made.at hn
    obtain ⟨first, rest, rfl, line⟩ := here.line_eq
    exact ⟨first, rest, inside, here, line, here.children⟩
  · obtain ⟨t, ht, rfl⟩ := made.lines_mem i hi
    refine ⟨positive t ht, ?_⟩
    rw [split] at ht sorted
    rcases List.mem_append.1 ht with ht | ht
    · exact (List.pairwise_append.1 sorted).2.2 t ht last (by simp)
    · simp at ht
      simp [ht]

/-- An operand in parentheses stands after its opening one, and the node of the operator at it. -/
theorem parse_positions_parens :
    let text := "class A \x7b\n int f(\n ) \x7b x = (\n\n a + b) *\n c; \x7d \x7d\n"
    ∃ p q, (Source.ofText text).parse = .ok p q ∧
      lines (.program p) = [1, 1, 1, 1, 2, 2, 3, 3, 3, 3, 5, 5, 5, 6] ∧
      (lines (.program p)).Pairwise (· ≤ ·) := by
  intro text
  have accepted : (parseText text).toOption.map (fun p => lines (.program p)) =
      some [1, 1, 1, 1, 2, 2, 3, 3, 3, 3, 5, 5, 5, 6] := by
    decide +kernel
  cases parsed : parseText text with
  | error => rw [parsed] at accepted; cases accepted
  | ok p =>
    obtain ⟨q, hp, -⟩ := parse_of_parseText parsed
    rw [parsed] at accepted
    exact ⟨p, q, hp, Option.some.inj accepted, (parse_positions hp).2.2.1⟩

end Grammar
end BantamSyntax
