import BantamSyntax.Lexical.Token
import BantamSyntax.Tree.Basic
import Mathlib.Data.List.Forall2
import Mathlib.Data.Option.Basic

/-!
# Tokens and trees that differ in lines

Tokens and trees that are the same but for their lines, of which `lines` tells which may stand for
each other. The name of the file that a class comes from does not count.
-/
namespace BantamSyntax

variable {lines : Int → Int → Prop}

/-! ## tokens -/

structure Token.Alike (lines : Int → Int → Prop) (t u : Token) : Prop where
  kind : t.kind = u.kind
  spelling : t.spelling = u.spelling
  line : lines t.line u.line

/-! ## expressions -/

inductive Variable.Alike (lines : Int → Int → Prop) : Variable → Variable → Prop where
  | plain {l l' : Int} {name : String} (line : lines l l') :
      Alike lines (.plain l name) (.plain l' name)
  | qualified {l l' : Int} {r r' : Variable} {name : String} (line : lines l l')
      (receiver : Alike lines r r') : Alike lines (.qualified l r name) (.qualified l' r' name)

inductive Expr.Alike (lines : Int → Int → Prop) : Expr → Expr → Prop where
  | constant {l l' : Int} {kind : ConstantKind} {spelling : String} (line : lines l l') :
      Alike lines (.constant l kind spelling) (.constant l' kind spelling)
  | var {v v' : Variable} (h : v.Alike lines v') : Alike lines (.var v) (.var v')
  | assign {l l' : Int} {receiver : Option String} {name : String} {e e' : Expr}
      (line : lines l l') (value : Alike lines e e') :
      Alike lines (.assign l receiver name e) (.assign l' receiver name e')
  | call {l l' m m' : Int} {r r' : Option Variable} {name : String} {es es' : List Expr}
      (line : lines l l') (receiver : Option.Rel (Variable.Alike lines) r r')
      (argumentsLine : lines m m') (arguments : List.Forall₂ (Alike lines) es es') :
      Alike lines (.call l r name m es) (.call l' r' name m' es')
  | new {l l' : Int} {type : String} (line : lines l l') :
      Alike lines (.new l type) (.new l' type)
  | cast {l l' : Int} {type : String} {e e' : Expr} (line : lines l l')
      (operand : Alike lines e e') : Alike lines (.cast l type e) (.cast l' type e')
  | binary {l l' : Int} {op : BinaryOp} {e e' d d' : Expr} (line : lines l l')
      (left : Alike lines e e') (right : Alike lines d d') :
      Alike lines (.binary l op e d) (.binary l' op e' d')
  | unary {l l' : Int} {op : UnaryOp} {e e' : Expr} (line : lines l l')
      (operand : Alike lines e e') : Alike lines (.unary l op e) (.unary l' op e')

/-! ## statements -/

inductive Stmt.Alike (lines : Int → Int → Prop) : Stmt → Stmt → Prop where
  | block {l l' m m' : Int} {ss ss' : List Stmt} (line : lines l l') (bodyLine : lines m m')
      (body : List.Forall₂ (Alike lines) ss ss') : Alike lines (.block l m ss) (.block l' m' ss')
  | declare {l l' : Int} {name : String} {e e' : Expr} (line : lines l l')
      (init : e.Alike lines e') : Alike lines (.declare l name e) (.declare l' name e')
  | expr {l l' : Int} {e e' : Expr} (line : lines l l') (h : e.Alike lines e') :
      Alike lines (.expr l e) (.expr l' e')
  | ifThen {l l' : Int} {e e' : Expr} {s s' : Stmt} (line : lines l l')
      (condition : e.Alike lines e') (consequent : Alike lines s s') :
      Alike lines (.ifThen l e s) (.ifThen l' e' s')
  | ifElse {l l' : Int} {e e' : Expr} {s s' a a' : Stmt} (line : lines l l')
      (condition : e.Alike lines e') (consequent : Alike lines s s')
      (alternative : Alike lines a a') : Alike lines (.ifElse l e s a) (.ifElse l' e' s' a')
  | while {l l' : Int} {e e' : Expr} {s s' : Stmt} (line : lines l l')
      (condition : e.Alike lines e') (body : Alike lines s s') :
      Alike lines (.while l e s) (.while l' e' s')
  | for {l l' : Int} {i i' c c' u u' : Option Expr} {s s' : Stmt} (line : lines l l')
      (init : Option.Rel (Expr.Alike lines) i i') (condition : Option.Rel (Expr.Alike lines) c c')
      (update : Option.Rel (Expr.Alike lines) u u') (body : Alike lines s s') :
      Alike lines (.for l i c u s) (.for l' i' c' u' s')
  | break {l l' : Int} (line : lines l l') : Alike lines (.break l) (.break l')
  | return {l l' : Int} {e e' : Option Expr} (line : lines l l')
      (value : Option.Rel (Expr.Alike lines) e e') : Alike lines (.return l e) (.return l' e')

/-! ## classes -/

structure Formal.Alike (lines : Int → Int → Prop) (f f' : Formal) : Prop where
  line : lines f.line f'.line
  type : f.type = f'.type
  name : f.name = f'.name

inductive Member.Alike (lines : Int → Int → Prop) : Member → Member → Prop where
  | field {l l' : Int} {type name : String} {e e' : Option Expr} (line : lines l l')
      (init : Option.Rel (Expr.Alike lines) e e') :
      Alike lines (.field l type name e) (.field l' type name e')
  | method {l l' m m' b b' : Int} {type name : String} {fs fs' : List Formal}
      {ss ss' : List Stmt} (line : lines l l') (formalsLine : lines m m')
      (formals : List.Forall₂ (Formal.Alike lines) fs fs') (bodyLine : lines b b')
      (body : List.Forall₂ (Stmt.Alike lines) ss ss') :
      Alike lines (.method l type name m fs b ss) (.method l' type name m' fs' b' ss')

structure ClassDecl.Alike (lines : Int → Int → Prop) (c c' : ClassDecl) : Prop where
  line : lines c.line c'.line
  name : c.name = c'.name
  parent : c.parent = c'.parent
  membersLine : lines c.membersLine c'.membersLine
  members : List.Forall₂ (Member.Alike lines) c.members c'.members

structure Program.Alike (lines : Int → Int → Prop) (p p' : Program) : Prop where
  line : lines p.line p'.line
  classesLine : lines p.classesLine p'.classesLine
  classes : List.Forall₂ (ClassDecl.Alike lines) p.classes p'.classes

end BantamSyntax
