import BantamSyntax.Grammar.Program

/-!
# Derivations

The grammar of the language, as what it means for tokens to be a tree. An `else` may belong to any
`if` before it that has none; the trees in which it belongs to the nearest one are settled.
-/
namespace BantamSyntax
namespace Grammar

/-! ## lists -/

/-- Tokens and the tree that they are. -/
structure Piece (α : Type) where
  tokens : List Token
  tree : α

/-- The words with a comma between each two. -/
inductive Separated : List (List Token) → List Token → Prop where
  | nil : Separated [] []
  | one {w : List Token} : Separated [w] w
  | cons {v w u : List Token} {ws : List (List Token)} {c : Token} (comma : c.kind = .comma)
      (rest : Separated (v :: ws) u) : Separated (w :: v :: ws) (w ++ c :: u)

/-! ## expressions -/

/-- A name that may stand after `this` or `super` and a dot. -/
inductive IsVariable : List Token → Variable → Prop where
  | plain {t : Token} (name : t.kind = .identifier) :
      IsVariable [t] (.plain t.line t.spelling)
  | qualified {t d n : Token} (receiver : t.kind = .identifier)
      (known : t.spelling ∈ receivers) (dot : d.kind = .dot) (name : n.kind = .identifier) :
      IsVariable [t, d, n] (.qualified t.line (.plain t.line t.spelling) n.spelling)

/-- Where an expression may stand; operands of binary operators have the levels that bind more. -/
inductive Place where
  | expression
  | level (ls : List Level)
  | signed
  | suffixed
  | primary

/-- The tokens are an expression at the place, and this is its tree. What chains associates to the
left, an assignment to the right. -/
inductive IsExpr : Place → List Token → Expr → Prop where
  | assign {t a : Token} {w u : List Token} {v : Variable} {value : Expr}
      (target : IsVariable (t :: w) v) (sign : a.kind = .assign)
      (source : IsExpr .expression u value) :
      IsExpr .expression (t :: w ++ a :: u)
        (.assign t.line (v.receiver?.map Variable.name) v.name value)
  | plain {w : List Token} {e : Expr} (h : IsExpr (.level Level.all) w e) :
      IsExpr .expression w e
  | binary {l : Level} {ls : List Level} {t o : Token} {w u : List Token}
      {op : BinaryOp} {left right : Expr}
      (former : IsExpr (.level (if l.chain then l :: ls else ls)) (t :: w) left)
      (operator : l.op? o = some op) (latter : IsExpr (.level ls) u right) :
      IsExpr (.level (l :: ls)) (t :: w ++ o :: u) (.binary t.line op left right)
  | operand {l : Level} {ls : List Level} {w : List Token} {e : Expr}
      (h : IsExpr (.level ls) w e) : IsExpr (.level (l :: ls)) w e
  | new {n c l r : Token} (word : n.kind = .newWord) (type : c.kind = .identifier)
      (opening : l.kind = .leftParen) (closing : r.kind = .rightParen) :
      IsExpr (.level []) [n, c, l, r] (.new n.line c.spelling)
  | cast {t l c m r : Token} {w : List Token} {e : Expr} (word : t.kind = .castWord)
      (opening : l.kind = .leftParen) (type : c.kind = .identifier) (comma : m.kind = .comma)
      (operand : IsExpr .expression w e) (closing : r.kind = .rightParen) :
      IsExpr (.level []) (t :: l :: c :: m :: w ++ [r]) (.cast t.line c.spelling e)
  | unary {w : List Token} {e : Expr} (h : IsExpr .signed w e) : IsExpr (.level []) w e
  | sign {t : Token} {w : List Token} {op : UnaryOp} {e : Expr}
      (operator : signOp? t = some op) (operand : IsExpr .signed w e) :
      IsExpr .signed (t :: w) (.unary t.line op e)
  | unsigned {w : List Token} {e : Expr} (h : IsExpr .suffixed w e) : IsExpr .signed w e
  | suffix {t o : Token} {w : List Token} {op : UnaryOp} {e : Expr}
      (operand : IsExpr .primary (t :: w) e) (operator : suffixOp? o.kind = some op) :
      IsExpr .suffixed (t :: w ++ [o]) (.unary t.line op e)
  | unsuffixed {w : List Token} {e : Expr} (h : IsExpr .primary w e) : IsExpr .suffixed w e
  | parens {l r : Token} {w : List Token} {e : Expr} (opening : l.kind = .leftParen)
      (inner : IsExpr .expression w e) (closing : r.kind = .rightParen) :
      IsExpr .primary (l :: w ++ [r]) e
  | constant {t : Token} {kind : ConstantKind} (h : constantKind? t.kind = some kind) :
      IsExpr .primary [t] (.constant t.line kind t.spelling)
  | var {w : List Token} {v : Variable} (h : IsVariable w v) : IsExpr .primary w (.var v)
  | call {t l r : Token} {w u : List Token} {v : Variable} {items : List (Piece Expr)}
      (method : IsVariable (t :: w) v) (opening : l.kind = .leftParen)
      (arguments : ∀ i ∈ items, IsExpr .expression i.tokens i.tree)
      (commas : Separated (items.map (·.tokens)) u) (closing : r.kind = .rightParen) :
      IsExpr .primary (t :: w ++ l :: u ++ [r])
        (.call t.line v.receiver? v.name l.line (items.map (·.tree)))

theorem IsVariable.ne_nil {w : List Token} {v : Variable} (h : IsVariable w v) : w ≠ [] := by
  cases h <;> simp

theorem IsExpr.ne_nil {p : Place} {w : List Token} {e : Expr} (h : IsExpr p w e) : w ≠ [] := by
  induction h with
  | var h => exact h.ne_nil
  | _ => simp_all

/-- The tokens are an expression, or there are none. -/
inductive IsOptional : List Token → Option Expr → Prop where
  | absent : IsOptional [] none
  | present {w : List Token} {e : Expr} (h : IsExpr .expression w e) : IsOptional w (some e)

/-! ## statements -/

inductive IsStmt : List Token → Stmt → Prop where
  | block {l r : Token} {items : List (Piece Stmt)} (opening : l.kind = .leftBrace)
      (body : ∀ i ∈ items, IsStmt i.tokens i.tree) (closing : r.kind = .rightBrace) :
      IsStmt (l :: items.flatMap (·.tokens) ++ [r]) (.block l.line l.line (items.map (·.tree)))
  | declare {t n a s : Token} {w : List Token} {e : Expr} (word : t.kind = .varWord)
      (name : n.kind = .identifier) (sign : a.kind = .assign) (init : IsExpr .expression w e)
      (closing : s.kind = .semicolon) :
      IsStmt (t :: n :: a :: w ++ [s]) (.declare t.line n.spelling e)
  | expr {t s : Token} {w : List Token} {e : Expr} (h : IsExpr .expression (t :: w) e)
      (closing : s.kind = .semicolon) : IsStmt (t :: w ++ [s]) (.expr t.line e)
  | ifThen {t l r : Token} {w u : List Token} {e : Expr} {consequent : Stmt}
      (word : t.kind = .ifWord) (opening : l.kind = .leftParen)
      (condition : IsExpr .expression w e) (closing : r.kind = .rightParen)
      (branch : IsStmt u consequent) :
      IsStmt (t :: l :: w ++ r :: u) (.ifThen t.line e consequent)
  | ifElse {t l r s : Token} {w u v : List Token} {e : Expr} {consequent alternative : Stmt}
      (word : t.kind = .ifWord) (opening : l.kind = .leftParen)
      (condition : IsExpr .expression w e) (closing : r.kind = .rightParen)
      (branch : IsStmt u consequent) (other : s.kind = .elseWord) (last : IsStmt v alternative) :
      IsStmt (t :: l :: w ++ r :: u ++ s :: v) (.ifElse t.line e consequent alternative)
  | while {t l r : Token} {w u : List Token} {e : Expr} {body : Stmt}
      (word : t.kind = .whileWord) (opening : l.kind = .leftParen)
      (condition : IsExpr .expression w e) (closing : r.kind = .rightParen)
      (repeated : IsStmt u body) : IsStmt (t :: l :: w ++ r :: u) (.while t.line e body)
  | for {t l m n r : Token} {w x y u : List Token} {init condition update : Option Expr}
      {body : Stmt} (word : t.kind = .forWord) (opening : l.kind = .leftParen)
      (first : IsOptional w init) (initEnd : m.kind = .semicolon)
      (second : IsOptional x condition) (conditionEnd : n.kind = .semicolon)
      (third : IsOptional y update) (closing : r.kind = .rightParen) (repeated : IsStmt u body) :
      IsStmt (t :: l :: w ++ m :: x ++ n :: y ++ r :: u) (.for t.line init condition update body)
  | break {t s : Token} (word : t.kind = .breakWord) (closing : s.kind = .semicolon) :
      IsStmt [t, s] (.break t.line)
  | return {t s : Token} {w : List Token} {value : Option Expr} (word : t.kind = .returnWord)
      (result : IsOptional w value) (closing : s.kind = .semicolon) :
      IsStmt (t :: w ++ [s]) (.return t.line value)

theorem IsStmt.ne_nil {w : List Token} {s : Stmt} (h : IsStmt w s) : w ≠ [] := by
  cases h <;> simp

/-! ## classes -/

inductive IsFormal : List Token → Formal → Prop where
  | intro {t n : Token} (type : t.kind = .identifier) (name : n.kind = .identifier) :
      IsFormal [t, n] ⟨t.line, t.spelling, n.spelling⟩

inductive IsMember : List Token → Member → Prop where
  | field {t n s : Token} (type : t.kind = .identifier) (name : n.kind = .identifier)
      (closing : s.kind = .semicolon) :
      IsMember [t, n, s] (.field t.line t.spelling n.spelling none)
  | fieldInit {t n a s : Token} {w : List Token} {e : Expr} (type : t.kind = .identifier)
      (name : n.kind = .identifier) (sign : a.kind = .assign) (init : IsExpr .expression w e)
      (closing : s.kind = .semicolon) :
      IsMember (t :: n :: a :: w ++ [s]) (.field t.line t.spelling n.spelling (some e))
  | method {t n l r b c : Token} {u : List Token} {formals : List (Piece Formal)}
      {items : List (Piece Stmt)} (type : t.kind = .identifier) (name : n.kind = .identifier)
      (opening : l.kind = .leftParen)
      (parameters : ∀ i ∈ formals, IsFormal i.tokens i.tree)
      (commas : Separated (formals.map (·.tokens)) u) (closing : r.kind = .rightParen)
      (bodyOpening : b.kind = .leftBrace) (body : ∀ i ∈ items, IsStmt i.tokens i.tree)
      (bodyClosing : c.kind = .rightBrace) :
      IsMember (t :: n :: l :: u ++ r :: b :: items.flatMap (·.tokens) ++ [c])
        (.method t.line t.spelling n.spelling l.line (formals.map (·.tree)) b.line
          (items.map (·.tree)))

inductive IsParent : List Token → Option String → Prop where
  | absent : IsParent [] none
  | present {e n : Token} (word : e.kind = .extendsWord) (name : n.kind = .identifier) :
      IsParent [e, n] (some n.spelling)

/-- A class knows the file that it stands in. -/
inductive IsClass (file : String) : List Token → ClassDecl → Prop where
  | intro {t n l r : Token} {w : List Token} {parent : Option String}
      {items : List (Piece Member)} (word : t.kind = .classWord) (name : n.kind = .identifier)
      (heading : IsParent w parent) (opening : l.kind = .leftBrace)
      (members : ∀ i ∈ items, IsMember i.tokens i.tree) (closing : r.kind = .rightBrace) :
      IsClass file (t :: n :: w ++ l :: items.flatMap (·.tokens) ++ [r])
        ⟨t.line, n.spelling, parent, l.line, items.map (·.tree), some file⟩

/-- A program is known to start on `line` also when it has no tokens. -/
inductive IsProgram (file : String) (line : Int) : List Token → Program → Prop where
  | intro {items : List (Piece ClassDecl)}
      (classes : ∀ i ∈ items, IsClass file i.tokens i.tree) :
      IsProgram file line (items.flatMap (·.tokens)) ⟨line, line, items.map (·.tree)⟩

end Grammar

/-! ## settled trees -/

/-- The statement ends in an `if` that an `else` after it would belong to. -/
def Stmt.dangles : Stmt → Bool
  | .ifThen .. => true
  | .ifElse _ _ _ alternative => alternative.dangles
  | .while _ _ body => body.dangles
  | .for _ _ _ _ body => body.dangles
  | _ => false

mutual

/-- Each `else` belongs to the nearest `if` before it that has none. -/
def Stmt.settled : Stmt → Bool
  | .block _ _ body => Stmt.allSettled body
  | .ifThen _ _ consequent => consequent.settled
  | .ifElse _ _ consequent alternative =>
    !consequent.dangles && consequent.settled && alternative.settled
  | .while _ _ body => body.settled
  | .for _ _ _ _ body => body.settled
  | _ => true

def Stmt.allSettled : List Stmt → Bool
  | [] => true
  | s :: ss => s.settled && Stmt.allSettled ss

end

def Member.settled : Member → Bool
  | .field .. => true
  | .method _ _ _ _ _ _ body => Stmt.allSettled body

def Program.settled (p : Program) : Bool :=
  p.classes.all fun c => c.members.all Member.settled

theorem Stmt.allSettled_iff {ss : List Stmt} :
    Stmt.allSettled ss = true ↔ ∀ s ∈ ss, s.settled = true := by
  induction ss with
  | nil => simp [Stmt.allSettled]
  | cons s ss ih => simp [Stmt.allSettled, ih]

end BantamSyntax
