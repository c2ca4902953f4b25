import BantamSyntax.Grammar.Parse
import BantamSyntax.Tree.Canonical

/-!
# Symbols of trees

What a tree is printed as, said in kinds and spellings of tokens, and which trees have leaves that
can stand in a text.
-/
namespace BantamSyntax

/-- A token wherever it stands. -/
abbrev Symbol := TokenKind × String

def Token.symbol (t : Token) : Symbol :=
  (t.kind, t.spelling)

namespace Symbol

/-! ## expressions -/

def opening : Symbol := (.leftParen, "(")

def closing : Symbol := (.rightParen, ")")

def comma : Symbol := (.comma, ",")

def semicolon : Symbol := (.semicolon, ";")

def equals : Symbol := (.assign, "=")

def openBrace : Symbol := (.leftBrace, "\x7b")

def closeBrace : Symbol := (.rightBrace, "\x7d")

/-- A name and what it is reached through. -/
def reference (receiver : Option String) (name : String) : List Symbol :=
  match receiver with
  | none => [(.identifier, name)]
  | some r => [(.identifier, r), (.dot, "."), (.identifier, name)]

def ofConstant (kind : ConstantKind) (spelling : String) : Symbol :=
  match kind with
  | .integer => (.integer, spelling)
  | .boolean => (.boolean, spelling)
  | .string => (.string, spelling)

def ofBinary (op : BinaryOp) : Symbol :=
  match op with
  | .arithmetic .plus | .arithmetic .minus => (.additive, op.symbol)
  | .arithmetic _ => (.multiplicative, op.symbol)
  | .comparison _ => (.comparison, op.symbol)
  | .logical _ => (.logical, op.symbol)

def ofUnary (op : UnaryOp) : Symbol :=
  match op with
  | .negate => (.additive, op.symbol)
  | .not => (.negation, op.symbol)
  | .increment _ => (.increment, op.symbol)
  | .decrement _ => (.decrement, op.symbol)

end Symbol

open BantamSyntax.Symbol

mutual

def Expr.symbols : Expr → List Symbol
  | .constant _ kind spelling => [ofConstant kind spelling]
  | .var v => reference (v.receiver?.map Variable.name) v.name
  | .assign _ receiver name value =>
    opening :: reference receiver name ++ equals :: value.symbols ++ [closing]
  | .call _ receiver method _ arguments =>
    reference (receiver.map Variable.name) method ++ opening :: Expr.symbolsAll arguments
      ++ [closing]
  | .new _ type => [(.newWord, "new"), (.identifier, type), opening, closing]
  | .cast _ type operand =>
    (.castWord, "cast") :: opening :: (.identifier, type) :: comma :: operand.symbols ++ [closing]
  | .binary _ op left right => opening :: left.symbols ++ ofBinary op :: right.symbols ++ [closing]
  | .unary _ op operand =>
    match op.side with
    | .before => opening :: ofUnary op :: operand.symbols ++ [closing]
    | .after => opening :: operand.symbols ++ [ofUnary op, closing]

/-- Arguments, with a comma between each two. -/
def Expr.symbolsAll : List Expr → List Symbol
  | [] => []
  | [e] => e.symbols
  | e :: es => e.symbols ++ comma :: Expr.symbolsAll es

end

def Expr.symbolsOr (e : Option Expr) : List Symbol :=
  (e.map Expr.symbols).getD []

/-! ## statements -/

mutual

def Stmt.symbols : Stmt → List Symbol
  | .block _ _ body => openBrace :: Stmt.symbolsAll body ++ [closeBrace]
  | .declare _ name init =>
    (.varWord, "var") :: (.identifier, name) :: equals :: init.symbols ++ [semicolon]
  | .expr _ e => e.symbols ++ [semicolon]
  | .ifThen _ condition consequent =>
    (.ifWord, "if") :: opening :: condition.symbols ++ closing :: consequent.symbols
  | .ifElse _ condition consequent alternative =>
    (.ifWord, "if") :: opening :: condition.symbols ++ closing :: consequent.symbols
      ++ (.elseWord, "else") :: alternative.symbols
  | .while _ condition body =>
    (.whileWord, "while") :: opening :: condition.symbols ++ closing :: body.symbols
  | .for _ init condition update body =>
    (.forWord, "for") :: opening :: Expr.symbolsOr init ++ semicolon :: Expr.symbolsOr condition
      ++ semicolon :: Expr.symbolsOr update ++ closing :: body.symbols
  | .break _ => [(.breakWord, "break"), semicolon]
  | .return _ value => (.returnWord, "return") :: Expr.symbolsOr value ++ [semicolon]

def Stmt.symbolsAll : List Stmt → List Symbol
  | [] => []
  | s :: ss => s.symbols ++ Stmt.symbolsAll ss

end

/-! ## classes -/

def Formal.symbols (f : Formal) : List Symbol :=
  [(.identifier, f.type), (.identifier, f.name)]

def Formal.symbolsAll : List Formal → List Symbol
  | [] => []
  | [f] => f.symbols
  | f :: fs => f.symbols ++ comma :: Formal.symbolsAll fs

def Member.symbols : Member → List Symbol
  | .field _ type name none => [(.identifier, type), (.identifier, name), semicolon]
  | .field _ type name (some init) =>
    (.identifier, type) :: (.identifier, name) :: equals :: init.symbols ++ [semicolon]
  | .method _ type name _ formals _ body =>
    (.identifier, type) :: (.identifier, name) :: opening :: Formal.symbolsAll formals
      ++ closing :: openBrace :: Stmt.symbolsAll body ++ [closeBrace]

/-- The end of a class's heading. -/
def Symbol.ofParent (parent : Option String) : List Symbol :=
  match parent with
  | none => []
  | some name => [(.extendsWord, "extends"), (.identifier, name)]

def ClassDecl.symbols (c : ClassDecl) : List Symbol :=
  (.classWord, "class") :: (.identifier, c.name) :: ofParent c.parent
    ++ openBrace :: c.members.flatMap Member.symbols ++ [closeBrace]

def Program.symbols (p : Program) : List Symbol :=
  p.classes.flatMap ClassDecl.symbols

/-! ## kinds of symbols -/

/-- The symbol is none of a comment. -/
def Symbol.isSignificant (s : Symbol) : Bool :=
  s.1 ≠ .comment

theorem Symbol.significant_marks : [opening, closing, comma, semicolon, equals, openBrace,
    closeBrace].all isSignificant = true := rfl

theorem Symbol.significant_reference (receiver : Option String) (name : String) :
    (reference receiver name).all isSignificant = true := by
  cases receiver <;> rfl

theorem Symbol.significant_ofBinary (op : BinaryOp) : isSignificant (ofBinary op) = true := by
  rcases op with op | op | op <;> cases op <;> rfl

theorem Symbol.significant_ofUnary (op : UnaryOp) : isSignificant (ofUnary op) = true := by
  cases op <;> rfl

mutual

theorem Expr.symbols_significant (e : Expr) : e.symbols.all isSignificant = true := by
  have marks := significant_marks
  have word (k : TokenKind) (w : String) : isSignificant (k, w) = decide (k ≠ .comment) := rfl
  simp only [List.all_cons, Bool.and_eq_true] at marks
  match e with
  | .constant _ kind _ => cases kind <;> rfl
  | .var _ => exact significant_reference _ _
  | .assign _ _ _ value =>
    simp [symbols, marks, significant_reference, Expr.symbols_significant value]
  | .call _ _ _ _ arguments =>
    simp [symbols, marks, significant_reference, Expr.symbolsAll_significant arguments]
  | .new .. => rfl
  | .cast _ _ operand => simp [symbols, marks, word, Expr.symbols_significant operand]
  | .binary _ op left right =>
    simp [symbols, marks, significant_ofBinary, Expr.symbols_significant left,
      Expr.symbols_significant right]
  | .unary _ op operand =>
    cases hs : op.side <;>
      simp [symbols, hs, marks, significant_ofUnary, Expr.symbols_significant operand]

theorem Expr.symbolsAll_significant (es : List Expr) :
    (Expr.symbolsAll es).all isSignificant = true := by
  match es with
  | [] => rfl
  | [e] => exact Expr.symbols_significant e
  | e :: e' :: es =>
    have rest := Expr.symbolsAll_significant (e' :: es)
    have comma_significant : isSignificant comma = true := rfl
    simp only [symbolsAll, List.all_append, List.all_cons, Expr.symbols_significant e,
      comma_significant, rest, Bool.and_self]

end

theorem Expr.symbolsOr_significant (e : Option Expr) :
    (Expr.symbolsOr e).all isSignificant = true := by
  cases e with
  | none => rfl
  | some e => exact e.symbols_significant

mutual

theorem Stmt.symbols_significant (s : Stmt) : s.symbols.all isSignificant = true := by
  have marks := significant_marks
  have word (k : TokenKind) (w : String) : isSignificant (k, w) = decide (k ≠ .comment) := rfl
  simp only [List.all_cons, Bool.and_eq_true] at marks
  match s with
  | .block _ _ body => simp [symbols, marks, Stmt.symbolsAll_significant body]
  | .declare .. | .expr .. => simp [symbols, marks, word, Expr.symbols_significant]
  | .ifThen _ _ consequent =>
    simp [symbols, marks, word, Expr.symbols_significant, Stmt.symbols_significant consequent]
  | .ifElse _ _ consequent alternative =>
    simp [symbols, marks, word, Expr.symbols_significant, Stmt.symbols_significant consequent,
      Stmt.symbols_significant alternative]
  | .while _ _ body =>
    simp [symbols, marks, word, Expr.symbols_significant, Stmt.symbols_significant body]
  | .for _ _ _ _ body =>
    simp [symbols, marks, word, Expr.symbolsOr_significant, Stmt.symbols_significant body]
  | .break _ => rfl
  | .return .. => simp [symbols, marks, word, Expr.symbolsOr_significant]

theorem Stmt.symbolsAll_significant (ss : List Stmt) :
    (Stmt.symbolsAll ss).all isSignificant = true := by
  match ss with
  | [] => rfl
  | s :: ss => simp [symbolsAll, Stmt.symbols_significant s, Stmt.symbolsAll_significant ss]

end

theorem Formal.symbolsAll_significant (fs : List Formal) :
    (Formal.symbolsAll fs).all isSignificant = true := by
  match fs with
  | [] => rfl
  | [_] => rfl
  | _ :: f :: fs =>
    have rest := Formal.symbolsAll_significant (f :: fs)
    simpa [symbolsAll, symbols, isSignificant, comma] using rest

theorem Member.symbols_significant (m : Member) : m.symbols.all isSignificant = true := by
  have marks := significant_marks
  have name (w : String) : isSignificant (.identifier, w) = true := rfl
  simp only [List.all_cons, Bool.and_eq_true] at marks
  match m with
  | .field _ _ _ none => rfl
  | .field _ _ _ (some init) => simp [symbols, marks, name, Expr.symbols_significant init]
  | .method _ _ _ _ formals _ body =>
    simp [symbols, marks, name, Formal.symbolsAll_significant, Stmt.symbolsAll_significant]

/-- Nothing in a tree is a comment. -/
theorem Program.symbols_significant (p : Program) : p.symbols.all isSignificant = true := by
  have marks := significant_marks
  have word (k : TokenKind) (w : String) : isSignificant (k, w) = decide (k ≠ .comment) := rfl
  simp only [List.all_cons, Bool.and_eq_true] at marks
  have heading (parent : Option String) : (ofParent parent).all isSignificant = true := by
    cases parent <;> rfl
  simp [symbols, ClassDecl.symbols, List.all_flatMap, marks, word, heading,
    Member.symbols_significant]

/-! ## leaves -/

def isWord (s : String) : Bool :=
  match s.toList with
  | [] => false
  | c :: cs => c.isAlpha && cs.all Scanner.isWordChar

/-- A word that is not reserved. -/
def isName (s : String) : Bool :=
  isWord s && (TokenKind.reserved.lookup s).isNone

def isReceiver (s : String) : Bool :=
  s ∈ Grammar.receivers

theorem isName_of_isReceiver {s : String} (h : isReceiver s = true) : isName s = true := by
  simp only [isReceiver, Grammar.receivers, List.mem_cons, List.not_mem_nil, or_false,
    decide_eq_true_eq] at h
  rcases h with rfl | rfl <;> decide

/-- The text is scanned as one token that is all of it. -/
def ScansAlone (kind : TokenKind) (s : String) : Prop :=
  ∃ line last, ((Scanner.ofSource (.ofText s)).tokenize.1.lexemes.map (·.token)) =
    [⟨kind, s, line⟩, last]

def ConstantKind.Spells : ConstantKind → String → Prop
  | .integer, s => Numeral.isDigits s.toList = true ∧
    Numeral.natOfDigits s.toList ≤ LexicalFault.maxInteger
  | .boolean, s => s = "true" ∨ s = "false"
  | .string, s => ScansAlone .string s

/-- A variable can stand in a text if it is reached through `this` or `super` at most. -/
def Variable.isValid : Variable → Bool
  | .plain _ name => isName name
  | .qualified _ (.plain _ receiver) name => isReceiver receiver && isName name
  | .qualified _ (.qualified ..) _ => false

/-- What a call goes to. -/
def Variable.isReceiver : Variable → Bool
  | .plain _ name => BantamSyntax.isReceiver name
  | .qualified .. => false

theorem Variable.valid_parts {v : Variable} (h : v.isValid = true) :
    (v.receiver?.map Variable.name).all BantamSyntax.isReceiver = true ∧ isName v.name = true := by
  cases v with
  | plain => exact ⟨rfl, h⟩
  | qualified line receiver name =>
    cases receiver with
    | plain =>
      simp only [Variable.isValid, Bool.and_eq_true] at h
      exact h
    | qualified => cases h

theorem Variable.receiver_name {r : Option Variable} (h : r.all Variable.isReceiver = true) :
    (r.map Variable.name).all BantamSyntax.isReceiver = true := by
  cases r with
  | none => rfl
  | some v =>
    cases v with
    | plain => exact h
    | qualified => cases h

mutual

/-- All leaves can stand in a text. -/
def Expr.Valid : Expr → Prop
  | .constant _ kind spelling => kind.Spells spelling
  | .var v => v.isValid = true
  | .assign _ receiver name value =>
    receiver.all isReceiver = true ∧ isName name = true ∧ value.Valid
  | .call _ receiver method _ arguments =>
    receiver.all Variable.isReceiver = true ∧ isName method = true ∧ Expr.AllValid arguments
  | .new _ type => isName type = true
  | .cast _ type operand => isName type = true ∧ operand.Valid
  | .binary _ _ left right => left.Valid ∧ right.Valid
  | .unary _ _ operand => operand.Valid

def Expr.AllValid : List Expr → Prop
  | [] => True
  | e :: es => e.Valid ∧ Expr.AllValid es

end

mutual

def Stmt.Valid : Stmt → Prop
  | .block _ _ body => Stmt.AllValid body
  | .declare _ name init => isName name = true ∧ init.Valid
  | .expr _ e => e.Valid
  | .ifThen _ condition consequent => condition.Valid ∧ consequent.Valid
  | .ifElse _ condition consequent alternative =>
    condition.Valid ∧ consequent.Valid ∧ alternative.Valid
  | .while _ condition body => condition.Valid ∧ body.Valid
  | .for _ init condition update body =>
    (∀ e ∈ init, e.Valid) ∧ (∀ e ∈ condition, e.Valid) ∧ (∀ e ∈ update, e.Valid) ∧ body.Valid
  | .break _ => True
  | .return _ value => ∀ e ∈ value, e.Valid

def Stmt.AllValid : List Stmt → Prop
  | [] => True
  | s :: ss => s.Valid ∧ Stmt.AllValid ss

end

def Formal.isValid (f : Formal) : Bool :=
  isName f.type && isName f.name

def Member.Valid : Member → Prop
  | .field _ type name init => isName type = true ∧ isName name = true ∧ ∀ e ∈ init, e.Valid
  | .method _ type name _ formals _ body =>
    isName type = true ∧ isName name = true ∧ formals.all Formal.isValid = true ∧
      Stmt.AllValid body

def ClassDecl.Valid (c : ClassDecl) : Prop :=
  isName c.name = true ∧ c.parent.all isName = true ∧ ∀ m ∈ c.members, m.Valid

def Program.Valid (p : Program) : Prop :=
  ∀ c ∈ p.classes, c.Valid

/-! ## operands -/

/-- Creations and casts, which need parentheses as operands of unary operators. -/
def Expr.isCreation : Expr → Bool
  | .new .. => true
  | .cast .. => true
  | _ => false

mutual

/-- No unary operator stands at a creation or a cast. -/
def Expr.faithful : Expr → Bool
  | .constant .. => true
  | .var _ => true
  | .assign _ _ _ value => value.faithful
  | .call _ _ _ _ arguments => Expr.allFaithful arguments
  | .new .. => true
  | .cast _ _ operand => operand.faithful
  | .binary _ _ left right => left.faithful && right.faithful
  | .unary _ _ operand => !operand.isCreation && operand.faithful

def Expr.allFaithful : List Expr → Bool
  | [] => true
  | e :: es => e.faithful && Expr.allFaithful es

end

mutual

def Stmt.faithful : Stmt → Bool
  | .block _ _ body => Stmt.allFaithful body
  | .declare _ _ init => init.faithful
  | .expr _ e => e.faithful
  | .ifThen _ condition consequent => condition.faithful && consequent.faithful
  | .ifElse _ condition consequent alternative =>
    condition.faithful && consequent.faithful && alternative.faithful
  | .while _ condition body => condition.faithful && body.faithful
  | .for _ init condition update body =>
    init.all Expr.faithful && condition.all Expr.faithful && update.all Expr.faithful &&
      body.faithful
  | .break _ => true
  | .return _ value => value.all Expr.faithful

def Stmt.allFaithful : List Stmt → Bool
  | [] => true
  | s :: ss => s.faithful && Stmt.allFaithful ss

end

def Member.faithful : Member → Bool
  | .field _ _ _ init => init.all Expr.faithful
  | .method _ _ _ _ _ _ body => Stmt.allFaithful body

def Program.faithful (p : Program) : Bool :=
  p.classes.all fun c => c.members.all Member.faithful

end BantamSyntax
