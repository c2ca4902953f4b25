import BantamSyntax.Diagnostic
import BantamSyntax.Grammar.Expected
import BantamSyntax.Lexical.Feed

/-!
# Parsers

A parser looks at one token of a feed at a time, passing over comments. It reports a lexical fault
when it comes to it, and a syntax error ends what it was doing.
-/
namespace BantamSyntax

/-- There is no current token until one has been read, and `taken` counts the requests made. -/
structure Parser where
  file : String
  feed : Feed
  current : Option Token := none
  diagnostics : List Diagnostic := []
  journal : List Entry := []
  taken : Nat := 0

/-- A parser that is never asked before it has read a token, and given steps enough, fails in the
first two ways only. A rejection tells the first diagnostic there is. -/
inductive ParseFailure where
  | rejected (first : Option Diagnostic)
  | input (cause : InputFailure)
  | unprimed
  | stuck
  deriving DecidableEq

abbrev ParserM := EStateM ParseFailure Parser

namespace Parser

/-! ## tokens -/

def token : ParserM Token := do
  match (← get).current with
  | some t => return t
  | none => throw .unprimed

/-- Takes a lexeme off the feed: its fault is reported, and it becomes the current token. -/
def accept (p : Parser) (l : Lexeme) : Parser :=
  { p with
    feed := p.feed.next
    current := some l.token
    diagnostics := p.diagnostics ++ (l.diagnostic? p.file).toList
    journal := p.journal ++ l.entries p.file
    taken := p.taken + 1 }

/-- Goes on to the first token that is no comment; `rest` is the feed after `first`. -/
def advanceOver (first : Scan) (rest : List Scan) : ParserM Unit := fun p =>
  match first, rest with
  | .error cause, _ => .error (.input cause) { p with feed := p.feed.next, taken := p.taken + 1 }
  | .ok l, [] => .ok () (p.accept l)
  | .ok l, next :: rest =>
    if l.token.kind = .comment then advanceOver next rest (p.accept l) else .ok () (p.accept l)

def advance : ParserM Unit := do
  let p ← get
  advanceOver p.feed.first p.feed.rest

/-- The current token, which is left behind. -/
def take : ParserM Token := do
  let t ← token
  advance
  return t

def check (kind : TokenKind) : ParserM Bool :=
  return (← token).kind = kind

def takeIf (kind : TokenKind) : ParserM Bool := do
  if ← check kind then
    advance
    return true
  else return false

def atEnd : ParserM Bool :=
  check .endOfFile

/-! ## errors -/

def found (t : Token) : String :=
  if t.kind = .endOfFile then "end of file" else "'" ++ t.spelling ++ "'"

/-- Reports that the current token is not what was expected. -/
def fail {α : Type} (expected : Expected) : ParserM α := do
  let t ← token
  let p ← get
  let d : Diagnostic :=
    ⟨.syntactic, expected.message ++ ", found " ++ found t, some t.line, some p.file⟩
  let diagnostics := p.diagnostics ++ [d]
  set { p with diagnostics, journal := p.journal ++ [Entry.registered d] }
  throw (.rejected diagnostics.head?)

def expect (kind : TokenKind) (expected : Expected) : ParserM Token := do
  if ← check kind then take else fail expected

def name (expected : Expected) : ParserM String :=
  return (← expect .identifier expected).spelling

/-! ## repetition -/

/-- Items, each after a comma. -/
def afterCommas {α : Type} (item : ParserM α) : Nat → ParserM (List α)
  | 0 => throw .stuck
  | n + 1 => do
    if ← takeIf .comma then
      let x ← item
      let xs ← afterCommas item n
      return x :: xs
    else return []

/-- Items up to a closing brace or the end of the text. -/
def untilBrace {α : Type} (item : ParserM α) : Nat → ParserM (List α)
  | 0 => throw .stuck
  | n + 1 => do
    if ← check .rightBrace then return []
    else if ← atEnd then return []
    else
      let x ← item
      let xs ← untilBrace item n
      return x :: xs

/-- Items between parentheses, of which the closing one is left. -/
def commaList {α : Type} (steps : Nat) (item : ParserM α) : ParserM (List α) := do
  if ← check .rightParen then return []
  else
    let x ← item
    let xs ← afterCommas item steps
    return x :: xs

end Parser
end BantamSyntax
