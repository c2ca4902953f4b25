import BantamSyntax.Proofs.Printing.RoundTrip

/-!
# Unique readability of expressions

The symbols of an expression tell the expression and where it ends, also where the parser would not
read them.
-/
namespace BantamSyntax

open Grammar BantamSyntax.Symbol

/-! ## marks -/

/-- A name that ends before the symbols goes on into none of them. -/
def Symbol.EndName (ss : List Symbol) : Prop :=
  ∀ s ∈ ss.head?, s.1 ≠ .dot ∧ s.1 ≠ .leftParen

@[simp] theorem Symbol.endName_cons {s : Symbol} {ss : List Symbol} :
    EndName (s :: ss) ↔ s.1 ≠ .dot ∧ s.1 ≠ .leftParen := by
  simp [EndName]

theorem Symbol.endName_ofBinary (op : BinaryOp) (ss : List Symbol) :
    EndName (ofBinary op :: ss) := by
  rcases op with op | op | op <;> cases op <;> simp [ofBinary]

theorem Symbol.endName_ofUnary (op : UnaryOp) (ss : List Symbol) : EndName (ofUnary op :: ss) := by
  cases op <;> simp [ofUnary]

theorem Symbol.ofConstant_inj {kind kind' : ConstantKind} {s s' : String}
    (h : ofConstant kind s = ofConstant kind' s') : kind = kind' ∧ s = s' := by
  cases kind <;> cases kind' <;> simp_all [ofConstant]

theorem Symbol.ofBinary_inj {op op' : BinaryOp} (h : ofBinary op = ofBinary op') : op = op' := by
  rcases op with op | op | op <;> rcases op' with op' | op' | op' <;> cases op <;> cases op' <;>
    first | rfl | simp [ofBinary, BinaryOp.symbol] at h

theorem Symbol.ofUnary_inj {op op' : UnaryOp} (side : op.side = op'.side)
    (h : ofUnary op = ofUnary op') : op = op' := by
  cases op <;> cases op' <;> simp_all [ofUnary, UnaryOp.side]

/-- An operator between operands is none after one. -/
theorem Symbol.ofBinary_ne_ofUnary {op : BinaryOp} {op' : UnaryOp} (side : op'.side = .after) :
    ofBinary op ≠ ofUnary op' := by
  rcases op with op | op | op <;> cases op <;> cases op' <;>
    simp_all [ofBinary, ofUnary, UnaryOp.side]

theorem Symbol.ofBinary_ne_equals (op : BinaryOp) : ofBinary op ≠ equals := by
  rcases op with op | op | op <;> cases op <;> simp [ofBinary, equals]

theorem Symbol.ofUnary_ne_equals (op : UnaryOp) : ofUnary op ≠ equals := by
  cases op <;> simp [ofUnary, equals]

/-! ## first symbols -/

/-- The kind of the first symbol. -/
def Expr.firstKind : Expr → TokenKind
  | .constant _ kind spelling => (ofConstant kind spelling).1
  | .var _ => .identifier
  | .call .. => .identifier
  | .new .. => .newWord
  | .cast .. => .castWord
  | .assign .. => .leftParen
  | .binary .. => .leftParen
  | .unary .. => .leftParen

theorem Symbol.reference_begins (receiver : Option String) (name : String) :
    ∃ s ss, reference receiver name = (.identifier, s) :: ss := by
  cases receiver <;> exact ⟨_, _, rfl⟩

theorem Expr.symbols_begin (e : Expr) : ∃ s ss, e.symbols = (e.firstKind, s) :: ss := by
  cases e with
  | constant _ kind => cases kind <;> exact ⟨_, _, rfl⟩
  | var v => exact reference_begins _ _
  | call _ receiver method =>
    obtain ⟨s, ss, h⟩ := reference_begins (receiver.map Variable.name) method
    exact ⟨s, _, by rw [symbols, h]; rfl⟩
  | unary _ op =>
    cases side : op.side <;> exact ⟨"(", _, by simp only [symbols, side]; rfl⟩
  | _ => exact ⟨_, _, rfl⟩

theorem Expr.firstKind_eq {e e' : Expr} {ss ss' : List Symbol}
    (h : e.symbols ++ ss = e'.symbols ++ ss') : e.firstKind = e'.firstKind := by
  obtain ⟨s, u, hu⟩ := e.symbols_begin
  obtain ⟨s', u', hu'⟩ := e'.symbols_begin
  simp [hu, hu'] at h
  exact h.1.1

theorem Expr.firstKind_mem (e : Expr) : e.firstKind ∈
    [TokenKind.integer, .boolean, .string, .identifier, .newWord, .castWord, .leftParen] := by
  cases e with
  | constant _ kind => cases kind <;> simp [firstKind, ofConstant]
  | _ => simp [firstKind]

/-- A mark or a word that begins no expression. -/
theorem Expr.firstKind_ne {e : Expr} {kind : TokenKind}
    (h : kind ∉ [TokenKind.integer, .boolean, .string, .identifier, .newWord, .castWord,
      .leftParen]) : e.firstKind ≠ kind := by
  rintro rfl
  exact h e.firstKind_mem

theorem Expr.firstKind_of_cons {e : Expr} {s : Symbol} {ss ss' : List Symbol}
    (h : e.symbols ++ ss = s :: ss') : e.firstKind = s.1 := by
  obtain ⟨x, u, hu⟩ := e.symbols_begin
  simp [hu] at h
  exact congrArg Prod.fst h.1

theorem Symbol.reference_append_inj {r r' : Option String} {n n' : String} {ss ss' : List Symbol}
    (h : reference r n ++ ss = reference r' n' ++ ss') (ends : ∀ s ∈ ss.head?, s.1 ≠ .dot)
    (ends' : ∀ s ∈ ss'.head?, s.1 ≠ .dot) : r = r' ∧ n = n' ∧ ss = ss' := by
  cases r <;> cases r' <;> simp [reference] at h
  · simp [h]
  · simp [h.2] at ends
  · simp [← h.2] at ends'
  · simp [h]

/-- What reads like a variable is one. -/
theorem Expr.var_of_reference {r : Option String} {n : String} {e : Expr} {ss ss' : List Symbol}
    (ends : EndName ss) (ends' : EndName ss') (h : reference r n ++ ss = e.symbols ++ ss') :
    ∃ v, e = .var v ∧ v.receiver?.map Variable.name = r ∧ v.name = n ∧ ss = ss' := by
  have first : e.firstKind = .identifier := by
    obtain ⟨s, u, hu⟩ := reference_begins r n
    rw [hu] at h
    exact firstKind_of_cons h.symm
  cases e with
  | var v =>
    obtain ⟨rfl, rfl, rfl⟩ := reference_append_inj h (fun s hs => (ends s hs).1)
      fun s hs => (ends' s hs).1
    exact ⟨v, rfl, rfl, rfl, rfl⟩
  | call _ receiver method _ arguments =>
    simp only [symbols, List.append_assoc, List.cons_append] at h
    obtain ⟨-, -, rfl⟩ := reference_append_inj h (fun s hs => (ends s hs).1) (by simp [opening])
    simp [opening] at ends
  | constant _ kind => cases kind <;> cases first
  | _ => cases first

/-! ## expressions -/

theorem Expr.symbols_assign {line : Int} {r : Option String} {n : String} {e : Expr} :
    (Expr.assign line r n e).symbols =
      opening :: reference r n ++ equals :: e.symbols ++ [closing] :=
  rfl

theorem Expr.symbols_binary {line : Int} {op : BinaryOp} {l r : Expr} :
    (Expr.binary line op l r).symbols =
      opening :: l.symbols ++ ofBinary op :: r.symbols ++ [closing] :=
  rfl

theorem Expr.symbols_before {line : Int} {op : UnaryOp} {e : Expr} (side : op.side = .before) :
    (Expr.unary line op e).symbols = opening :: ofUnary op :: e.symbols ++ [closing] := by
  simp only [symbols, side]

theorem Expr.symbols_after {line : Int} {op : UnaryOp} {e : Expr} (side : op.side = .after) :
    (Expr.unary line op e).symbols = opening :: e.symbols ++ [ofUnary op, closing] := by
  simp only [symbols, side]

/-- No expression begins with an operator. -/
theorem Expr.symbols_ne_ofUnary {e : Expr} {op : UnaryOp} {ss ss' : List Symbol} :
    e.symbols ++ ss ≠ ofUnary op :: ss' := by
  intro h
  have mem := e.firstKind_mem
  rw [firstKind_of_cons h] at mem
  cases op <;> simp [ofUnary] at mem

theorem Symbol.reference_ne_ofUnary {r : Option String} {n : String} {op : UnaryOp}
    {ss ss' : List Symbol} : reference r n ++ ss ≠ ofUnary op :: ss' := by
  obtain ⟨s, u, hu⟩ := reference_begins r n
  cases op <;> simp [hu, ofUnary]

/-- An assignment has a mark after its target as no other expression has. -/
theorem Expr.assign_ne {r : Option String} {n : String} {e : Expr} {mark : Symbol}
    {ss ss' : List Symbol} (ends : EndName (mark :: ss')) (other : mark ≠ equals) :
    reference r n ++ equals :: ss ≠ e.symbols ++ mark :: ss' := by
  intro h
  obtain ⟨_, _, _, _, rest⟩ := var_of_reference (by simp [equals]) ends h
  exact other (List.cons.inj rest).1.symm

theorem Variable.bare_eq {v v' : Variable} (valid : v.isValid = true) (valid' : v'.isValid = true)
    (receiver : v'.receiver?.map Variable.name = v.receiver?.map Variable.name)
    (name : v'.name = v.name) : v.bare = v'.bare := by
  rw [bare_eq_variableOf valid, bare_eq_variableOf valid', receiver, name]

theorem Variable.map_bare_eq {r r' : Option Variable} (valid : r.all Variable.isReceiver = true)
    (valid' : r'.all Variable.isReceiver = true)
    (names : r.map Variable.name = r'.map Variable.name) :
    r.map Variable.bare = r'.map Variable.bare := by
  cases r with
  | none => cases r' <;> simp_all
  | some v =>
    cases r' with
    | none => simp at names
    | some v' =>
      cases v <;> cases v' <;> simp_all [Variable.isReceiver, Variable.bare, Variable.name]

theorem Expr.enclosed_cases {e : Expr} (h : e.firstKind = .leftParen) :
    (∃ line r n value, e = .assign line r n value) ∨
    (∃ line op left right, e = .binary line op left right) ∨
    (∃ line op operand, e = .unary line op operand ∧ op.side = .before) ∨
    ∃ line op operand, e = .unary line op operand ∧ op.side = .after := by
  cases e with
  | assign => exact .inl ⟨_, _, _, _, rfl⟩
  | binary => exact .inr (.inl ⟨_, _, _, _, rfl⟩)
  | unary _ op =>
    cases side : op.side with
    | before => exact .inr (.inr (.inl ⟨_, _, _, rfl, side⟩))
    | after => exact .inr (.inr (.inr ⟨_, _, _, rfl, side⟩))
  | constant _ kind => cases kind <;> cases h
  | _ => cases h

/-- The symbols tell the expression and where it ends, unless a name goes on after it. -/
def Expr.Readable (e : Expr) : Prop :=
  ∀ (e' : Expr) (ss ss' : List Symbol), e.Valid → e'.Valid → EndName ss → EndName ss' →
    e.symbols ++ ss = e'.symbols ++ ss' → e.bare = e'.bare ∧ ss = ss'

/-- The symbols tell the arguments up to a closing parenthesis. -/
def Expr.AllReadable (es : List Expr) : Prop :=
  ∀ (es' : List Expr) (ss ss' : List Symbol), Expr.AllValid es → Expr.AllValid es' →
    Expr.symbolsAll es ++ closing :: ss = Expr.symbolsAll es' ++ closing :: ss' →
    Expr.bares es = Expr.bares es' ∧ ss = ss'

namespace Expr

variable {line : Int} {e e' left right : Expr} {es : List Expr}

/-- A mark ends the expression before it, if no name goes on with it. -/
theorem Readable.upTo {mark : Symbol} {ss ss' : List Symbol} (readable : e.Readable)
    (ends : EndName [mark]) (h : e.symbols ++ mark :: ss = e'.symbols ++ mark :: ss')
    (valid : e.Valid) (valid' : e'.Valid) : e.bare = e'.bare ∧ ss = ss' := by
  obtain ⟨same, rest⟩ := readable e' _ _ valid valid' (by simpa using ends) (by simpa using ends) h
  exact ⟨same, (List.cons.inj rest).2⟩

theorem readable_constant {kind : ConstantKind} {spelling : String} :
    (constant line kind spelling).Readable := by
  intro e' ss ss' _ _ _ _ h
  have first := firstKind_eq h
  cases e' with
  | constant _ kind' spelling' =>
    simp [symbols] at h
    obtain ⟨rfl, rfl⟩ := ofConstant_inj h.1
    exact ⟨rfl, h.2⟩
  | _ => cases kind <;> cases first

theorem readable_var {v : Variable} : (var v).Readable := by
  intro e' ss ss' valid valid' ends ends' h
  obtain ⟨v', rfl, receiver, name, rfl⟩ := var_of_reference ends ends' h
  exact ⟨congrArg var (Variable.bare_eq valid valid' receiver name), rfl⟩

theorem readable_new {type : String} : (new line type).Readable := by
  intro e' ss ss' _ _ _ _ h
  have first := firstKind_eq h
  cases e' with
  | new => simpa [symbols, bare] using h
  | constant _ kind => cases kind <;> cases first
  | _ => cases first

theorem readable_cast {type : String} (operand : e.Readable) : (cast line type e).Readable := by
  intro e' ss ss' valid valid' _ _ h
  have first := firstKind_eq h
  cases e' with
  | cast _ type' e' =>
    simp [symbols] at h
    obtain ⟨rfl, h⟩ := h
    obtain ⟨same, rfl⟩ := operand.upTo (by simp [closing]) h valid.2 valid'.2
    exact ⟨by simp [bare, same], rfl⟩
  | constant _ kind => cases kind <;> cases first
  | _ => cases first

theorem readable_call {receiver : Option Variable} {method : String} {argumentsLine : Int}
    (arguments : AllReadable es) : (call line receiver method argumentsLine es).Readable := by
  intro e' ss ss' valid valid' ends ends' h
  have first := firstKind_eq h
  cases e' with
  | var v' =>
    obtain ⟨v, eq, -⟩ := var_of_reference ends' ends h.symm
    cases eq
  | call _ receiver' method' _ es' =>
    simp [symbols] at h
    obtain ⟨receivers, rfl, rest⟩ :=
      reference_append_inj h (by simp [opening]) (by simp [opening])
    obtain ⟨same, rfl⟩ := arguments es' _ _ valid.2.2 valid'.2.2 (List.cons.inj rest).2
    exact ⟨by simp [bare, same, Variable.map_bare_eq valid.1 valid'.1 receivers], rfl⟩
  | constant _ kind => cases kind <;> cases first
  | _ => cases first

theorem readable_assign {r : Option String} {n : String} (value : e.Readable) :
    (assign line r n e).Readable := by
  intro e' ss ss' valid valid' _ _ h
  rcases enclosed_cases (firstKind_eq h).symm with ⟨_, r', n', e', rfl⟩ | ⟨_, op, _, _, rfl⟩ |
    ⟨_, op, _, rfl, side⟩ | ⟨_, op, _, rfl, side⟩
  · simp [symbols] at h
    obtain ⟨rfl, rfl, rest⟩ := reference_append_inj h (by simp [equals]) (by simp [equals])
    obtain ⟨same, rfl⟩ := value.upTo (by simp [closing]) (List.cons.inj rest).2 valid.2.2 valid'.2.2
    exact ⟨by simp [bare, same], rfl⟩
  · simp [symbols] at h
    exact absurd h (assign_ne (endName_ofBinary _ _) (ofBinary_ne_equals op))
  · simp [symbols_assign, symbols_before side] at h
    exact absurd h reference_ne_ofUnary
  · simp [symbols_assign, symbols_after side] at h
    exact absurd h (assign_ne (endName_ofUnary _ _) (ofUnary_ne_equals op))

theorem readable_binary {op : BinaryOp} (hl : left.Readable) (hr : right.Readable) :
    (binary line op left right).Readable := by
  intro e' ss ss' valid valid' _ _ h
  rcases enclosed_cases (firstKind_eq h).symm with ⟨_, _, _, _, rfl⟩ |
    ⟨_, op', left', right', rfl⟩ |
    ⟨_, op', _, rfl, side⟩ | ⟨_, op', operand, rfl, side⟩
  · simp [symbols] at h
    exact absurd h.symm (assign_ne (endName_ofBinary _ _) (ofBinary_ne_equals op))
  · simp [symbols] at h
    obtain ⟨same, rest⟩ := hl left' _ _ valid.1 valid'.1 (endName_ofBinary _ _)
      (endName_ofBinary _ _) h
    obtain ⟨mark, rest⟩ := List.cons.inj rest
    obtain ⟨same', rfl⟩ := hr.upTo (by simp [closing]) rest valid.2 valid'.2
    exact ⟨by simp [bare, same, same', ofBinary_inj mark], rfl⟩
  · simp [symbols_binary, symbols_before side] at h
    exact absurd h symbols_ne_ofUnary
  · simp [symbols_binary, symbols_after side] at h
    obtain ⟨-, rest⟩ := hl operand _ _ valid.1 valid' (endName_ofBinary _ _) (endName_ofUnary _ _) h
    exact absurd (List.cons.inj rest).1 (ofBinary_ne_ofUnary side)

theorem readable_before {op : UnaryOp} (side : op.side = .before) (operand : e.Readable) :
    (unary line op e).Readable := by
  intro e' ss ss' valid valid' _ _ h
  rcases enclosed_cases (firstKind_eq h).symm with ⟨_, _, _, _, rfl⟩ | ⟨_, _, _, _, rfl⟩ |
    ⟨_, op', e', rfl, side'⟩ | ⟨_, _, _, rfl, side'⟩
  · simp [symbols_assign, symbols_before side] at h
    exact absurd h.symm reference_ne_ofUnary
  · simp [symbols_binary, symbols_before side] at h
    exact absurd h.symm symbols_ne_ofUnary
  · simp [symbols_before side, symbols_before side'] at h
    obtain ⟨same, rfl⟩ := operand.upTo (by simp [closing]) h.2 valid valid'
    obtain rfl := ofUnary_inj (side.trans side'.symm) h.1
    exact ⟨by simp [bare, same], rfl⟩
  · simp [symbols_before side, symbols_after side'] at h
    exact absurd h.symm symbols_ne_ofUnary

theorem readable_after {op : UnaryOp} (side : op.side = .after) (operand : e.Readable) :
    (unary line op e).Readable := by
  intro e' ss ss' valid valid' _ _ h
  rcases enclosed_cases (firstKind_eq h).symm with ⟨_, _, _, _, rfl⟩ | ⟨_, op', left, _, rfl⟩ |
    ⟨_, _, _, rfl, side'⟩ | ⟨_, op', e', rfl, side'⟩
  · simp [symbols_assign, symbols_after side] at h
    exact absurd h.symm (assign_ne (endName_ofUnary _ _) (ofUnary_ne_equals op))
  · simp [symbols_binary, symbols_after side] at h
    obtain ⟨-, rest⟩ := operand left _ _ valid valid'.1 (endName_ofUnary _ _)
      (endName_ofBinary _ _) h
    exact absurd (List.cons.inj rest).1.symm (ofBinary_ne_ofUnary side)
  · simp [symbols_after side, symbols_before side'] at h
    exact absurd h symbols_ne_ofUnary
  · simp [symbols_after side, symbols_after side'] at h
    obtain ⟨same, rest⟩ := operand e' _ _ valid valid' (endName_ofUnary _ _) (endName_ofUnary _ _) h
    simp at rest
    obtain rfl := ofUnary_inj (side.trans side'.symm) rest.1
    exact ⟨by simp [bare, same], rest.2⟩

theorem symbolsAll_ne_closing {ss ss' : List Symbol} {es : List Expr} (e : Expr) :
    closing :: ss ≠ symbolsAll (e :: es) ++ ss' := by
  intro h
  have mem := e.firstKind_mem
  have first : e.firstKind = .rightParen := by
    cases es with
    | nil => exact firstKind_of_cons h.symm
    | cons =>
      simp [symbolsAll] at h
      exact firstKind_of_cons h.symm
  rw [first] at mem
  simp at mem

theorem readable_nil : AllReadable [] := by
  rintro (_ | ⟨e, es⟩) ss ss' _ _ h
  · simpa [symbolsAll, bares] using h
  · exact absurd h (symbolsAll_ne_closing e)

theorem readable_cons (head : e.Readable) (tail : AllReadable es) : AllReadable (e :: es) := by
  rintro (_ | ⟨e', es'⟩) ss ss' valid valid' h
  · exact absurd h.symm (symbolsAll_ne_closing e)
  cases es with
  | nil =>
    cases es' with
    | nil =>
      simp only [symbolsAll] at h
      obtain ⟨same, rfl⟩ := head.upTo (by simp [closing]) h valid.1 valid'.1
      exact ⟨by simp [bares, same], rfl⟩
    | cons b es' =>
      simp only [symbolsAll, List.append_assoc, List.cons_append] at h
      obtain ⟨-, rest⟩ := head e' _ _ valid.1 valid'.1 (by simp [closing]) (by simp [comma]) h
      simp [closing, comma] at rest
  | cons a es =>
    cases es' with
    | nil =>
      simp only [symbolsAll, List.append_assoc, List.cons_append] at h
      obtain ⟨-, rest⟩ := head e' _ _ valid.1 valid'.1 (by simp [comma]) (by simp [closing]) h
      simp [closing, comma] at rest
    | cons b es' =>
      simp only [symbolsAll, List.append_assoc, List.cons_append] at h
      obtain ⟨same, rest⟩ := head.upTo (by simp [comma]) h valid.1 valid'.1
      obtain ⟨same', rfl⟩ := tail (b :: es') _ _ valid.2 valid'.2 rest
      exact ⟨by simpa [bares, same] using same', rfl⟩

mutual

theorem readable : (e : Expr) → e.Readable
  | .constant .. => readable_constant
  | .var _ => readable_var
  | .assign _ _ _ value => readable_assign (readable value)
  | .call _ _ _ _ arguments => readable_call (readable_all arguments)
  | .new .. => readable_new
  | .cast _ _ operand => readable_cast (readable operand)
  | .binary _ _ left right => readable_binary (readable left) (readable right)
  | .unary _ op operand => by
    cases side : op.side with
    | before => exact readable_before side (readable operand)
    | after => exact readable_after side (readable operand)

theorem readable_all : (es : List Expr) → AllReadable es
  | [] => readable_nil
  | e :: es => readable_cons (readable e) (readable_all es)

end

theorem readable_upTo {mark : Symbol} {ss ss' : List Symbol} (ends : EndName [mark])
    (h : e.symbols ++ mark :: ss = e'.symbols ++ mark :: ss') (valid : e.Valid)
    (valid' : e'.Valid) : e.bare = e'.bare ∧ ss = ss' :=
  Readable.upTo (readable e) ends h valid valid'

end Expr

end BantamSyntax
