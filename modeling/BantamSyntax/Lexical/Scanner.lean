import BantamSyntax.Input.Source
import BantamSyntax.Lexical.Fault
import BantamSyntax.Lexical.Token

/-!
# Scanners

A scanner cuts the text of a source into lexemes, looking one character ahead. White space between
lexemes is dropped; comments and faulty stretches are lexemes like any other.
-/
namespace BantamSyntax

/-- A token, and what is wrong with it if it is an error. -/
structure Lexeme where
  token : Token
  fault : Option LexicalFault := none

/-- The lookahead is nothing at the end of the input, and a blank before the first read. -/
structure Scanner where
  source : Source
  lookahead : Option Char := some ' '

abbrev ScannerM := EStateM InputFailure Scanner

namespace Scanner

/-- The line of the lookahead: a newline belongs to the line it ends. -/
def line (s : Scanner) : Nat :=
  if s.lookahead = some '\n' then s.source.line - 1 else s.source.line

/-! ## characters -/

def peek : ScannerM (Option Char) := do
  return (← get).lookahead

/-- Takes the lookahead and reads the next one; if that fails the lookahead stays. -/
def advance : ScannerM (Option Char) := fun s =>
  match s.source.next with
  | .ok c source => .ok s.lookahead ⟨source, c⟩
  | .error cause source => .error cause { s with source }

/-! ## size -/

/-- Bounds the characters and failures still to come, the lookahead included. -/
def weight (s : Scanner) : Nat :=
  s.source.weight + if s.lookahead.isSome then 1 else 0

theorem weight_of_advance {s t : Scanner} {c} (h : advance s = .ok c t) :
    c = s.lookahead ∧ t.weight + (if c.isSome then 1 else 0) ≤ s.weight := by
  unfold advance at h
  split at h
  · rename_i d source hn
    cases h
    exact ⟨rfl, Nat.add_le_add_right (Source.weight_of_next hn) _⟩
  · cases h

theorem weight_of_advance_error {s t : Scanner} {e} (h : advance s = .error e t) :
    t.weight < s.weight ∨ t.source.isStuck := by
  unfold advance at h
  split at h
  · cases h
  · rename_i e source hn
    cases h
    rcases Source.weight_of_next_error hn with h | ⟨rfl, h⟩
    · exact .inl (Nat.add_lt_add_right h _)
    · exact .inr h

/-! ## runs of characters -/

/-- Takes characters for as long as `step` has a next state, and gives the last state too. -/
def collect {σ : Type} (step : σ → Char → Option σ) (state : σ) : ScannerM (List Char × σ) :=
  fun s =>
    match _hs : s.lookahead.bind (step state) with
    | none => .ok ([], state) s
    | some state' => match _h : advance s with
      | .ok c t => match collect step state' t with
        | .ok (cs, last) u => .ok (c.toList ++ cs, last) u
        | .error cause u => .error cause u
      | .error cause t => .error cause t
termination_by s => s.weight
decreasing_by
  obtain ⟨c, hc, _⟩ := Option.bind_eq_some_iff.1 _hs
  obtain ⟨rfl, h⟩ := weight_of_advance _h
  simp only [hc, Option.isSome_some, if_true] at h
  exact h

def collectWhile (p : Char → Bool) : ScannerM (List Char) :=
  return (← collect (fun _ c => if p c then some () else none) ()).1

/-! ## literals, words and comments -/

def isBlank (c : Char) : Bool :=
  c ∈ [' ', '\t', '\n', '\r']

def isWordChar (c : Char) : Bool :=
  c.isAlpha || c.isDigit || c = '_'

def lexeme (kind : TokenKind) (spelling : List Char) (line : Int) : Lexeme :=
  ⟨⟨kind, String.ofList spelling, line⟩, none⟩

def faulty (fault : LexicalFault) (spelling : List Char) (line : Int) : Lexeme :=
  ⟨⟨.error, String.ofList spelling, line⟩, some fault⟩

/-- A lexeme of the kind, unless its spelling has a fault. -/
def checked (kind : TokenKind) (fault : Option LexicalFault) (spelling : List Char) (line : Int) :
    Lexeme :=
  match fault with
  | none => lexeme kind spelling line
  | some fault => faulty fault spelling line

/-- Words and numbers: `first` has been taken. -/
def word (first : Char) (line : Int) : ScannerM Lexeme := do
  let cs := first :: (← collectWhile isWordChar)
  return lexeme ((TokenKind.reserved.lookup (String.ofList cs)).getD .identifier) cs line

def integer (first : Char) (line : Int) : ScannerM Lexeme := do
  let cs := first :: (← collectWhile Char.isDigit)
  return checked .integer (LexicalFault.ofInteger? cs) cs line

inductive StringState where
  | body
  | escaped
  | closed
  deriving DecidableEq

/-- A backslash takes the next character with it, whatever that is. -/
def StringState.step : StringState → Char → Option StringState
  | body, '"' => some closed
  | body, '\\' => some escaped
  | body, _ => some body
  | escaped, _ => some body
  | closed, _ => none

/-- A string constant whose opening quote has been taken. -/
def string (line : Int) : ScannerM Lexeme := do
  let (cs, state) ← collect StringState.step .body
  let cs := '"' :: cs
  if state = .closed then return checked .string (LexicalFault.ofString? cs) cs line
  else return faulty .unterminatedString cs line

/-- A comment up to the end of the line; its first slash has been taken. -/
def lineComment (line : Int) : ScannerM Lexeme := do
  return lexeme .comment ('/' :: (← collectWhile (· ≠ '\n'))) line

inductive CommentState where
  | body (star : Bool)
  | closed
  deriving DecidableEq

def CommentState.step : CommentState → Char → Option CommentState
  | body true, '/' => some closed
  | body _, c => some (body (c = '*'))
  | closed, _ => none

/-- A comment between delimiters; its first slash has been taken and the star has not. -/
def blockComment (line : Int) : ScannerM Lexeme := do
  let _ ← advance
  let (cs, state) ← collect CommentState.step (.body false)
  let cs := '/' :: '*' :: cs
  if state = .closed then return lexeme .comment cs line
  else return faulty .unterminatedComment cs line

/-- What a character that starts no word, number or string begins. -/
inductive Opening where
  | single (kind : TokenKind)
  | double (kind : TokenKind)
  | lineComment
  | blockComment
  | fault (fault : LexicalFault)

/-- The longest that fits, as the next character decides. -/
def Opening.of (first : Char) (second : Option Char) : Opening :=
  match second.bind fun c => TokenKind.doubleOperators.lookup (first, c) with
  | some kind => double kind
  | none =>
    if first = '/' ∧ second = some '/' then lineComment
    else if first = '/' ∧ second = some '*' then blockComment
    else match (TokenKind.punctuators ++ TokenKind.simpleOperators).lookup first with
      | some kind => single kind
      | none => fault (if first ∈ ['&', '|'] then .bitwiseOperator else .illegalCharacter)

/-- An operator, a punctuator or a comment; `first` has been taken. -/
def operator (first : Char) (line : Int) : ScannerM Lexeme := do
  match Opening.of first (← peek) with
  | .single kind => return lexeme kind [first] line
  | .double kind => return lexeme kind (first :: (← advance).toList) line
  | .lineComment => lineComment line
  | .blockComment => blockComment line
  | .fault fault => return faulty fault [first] line

/-! ## scanning -/

def skipBlanks : ScannerM Unit := do
  let _ ← collectWhile isBlank

/-- The lexeme that goes on from its first character. -/
def lexemeFrom (first : Char) (line : Int) : ScannerM Lexeme :=
  if first.isAlpha then word first line
  else if first.isDigit then integer first line
  else if first = '"' then string line
  else operator first line

/-- The next lexeme; at the end of the input always the same empty one. -/
def scan : ScannerM Lexeme := do
  skipBlanks
  let s ← get
  match s.lookahead with
  | none => return lexeme .endOfFile [] s.line
  | some first => do
    let _ ← advance
    lexemeFrom first s.line

end Scanner
end BantamSyntax
