import BantamSyntax.Grammar.Program

/-!
# Parsing

The parse of a whole text, from any source.
-/
namespace BantamSyntax
namespace Grammar

open BantamSyntax.Parser

/-- Runs a rule with steps for every lexeme that is left. -/
def withSteps {α : Type} (rule : Nat → ParserM α) : ParserM α := do
  rule ((← get).feed.length + 2)

def note (e : Entry) : ParserM Unit :=
  modify fun p => { p with journal := p.journal ++ [e] }

/-- The program of a whole text. A parser that holds diagnostics, also older ones, refuses it. -/
def parse : ParserM Program := do
  note (.parsing (← get).file)
  modify fun p => { p with current := none }
  advance
  let result ← withSteps program
  let p ← get
  if p.diagnostics = [] then
    note (.parsed p.file result.classes.length)
    return result
  else throw (.rejected p.diagnostics.head?)

end Grammar

/-! ## sources -/

/-- A scanner that has not begun to read. -/
def Scanner.ofSource (s : Source) : Scanner :=
  { source := s }

def Parser.ofScanner (s : Scanner) (diagnostics : List Diagnostic := []) : Parser :=
  { file := s.source.name, feed := s.feed, diagnostics }

/-- The outcome of a parse, and what the parser holds after it. -/
def Source.parse (s : Source) (diagnostics : List Diagnostic := []) :
    EStateM.Result ParseFailure Parser Program :=
  Grammar.parse (.ofScanner (.ofSource s) diagnostics)

/-! ## texts -/

/-- The name of a text that comes from no file. -/
def Source.anonymous : String :=
  "<stream>"

def Source.ofText (text : String) (name : String := anonymous) : Source :=
  { name, reader := .ofText text.toList }

/-- The program that a text is. -/
def parseText (text : String) : Except ParseFailure Program :=
  match (Source.ofText text).parse with
  | .ok p _ => .ok p
  | .error cause _ => .error cause

end BantamSyntax
