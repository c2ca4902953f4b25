import BantamSyntax.Lexical.Scanner

/-!
# Diagnostics

What is reported about a program text, and the journal of how it came about.
-/
namespace BantamSyntax

inductive DiagnosticKind where
  | lexical
  | syntactic
  | semantic
  deriving DecidableEq

namespace DiagnosticKind

def names : List (DiagnosticKind × String) :=
  [(lexical, "LEX_ERROR"), (syntactic, "PARSE_ERROR"), (semantic, "SEMANT_ERROR")]

def name (k : DiagnosticKind) : String :=
  (names.lookup k).getD ""

def ofName? (s : String) : Option DiagnosticKind :=
  (names.find? (·.2 = s)).map (·.1)

end DiagnosticKind

structure Diagnostic where
  kind : DiagnosticKind
  message : String
  line : Option Int := none
  file : Option String := none
  deriving DecidableEq

namespace Diagnostic

/-- The place, as far as it is known; an empty file name counts as unknown. -/
def place (d : Diagnostic) : String :=
  match d.file.filter (· ≠ ""), d.line with
  | none, none => ""
  | none, some line => "line " ++ toString line ++ ": "
  | some file, none => file ++ ": "
  | some file, some line => file ++ ":" ++ toString line ++ ": "

def text (d : Diagnostic) : String :=
  d.place ++ d.kind.name ++ ": " ++ d.message

end Diagnostic

/-- What a compilation that failed says of itself, given its first diagnostic. -/
def Diagnostic.summary (first : Option Diagnostic) : String :=
  (first.map Diagnostic.text).getD "compilation failed"

def Lexeme.diagnostic? (file : String) (l : Lexeme) : Option Diagnostic :=
  l.fault.map fun fault => ⟨.lexical, fault.message, some l.token.line, some file⟩

theorem Lexeme.diagnostic?_of_sound {l : Lexeme} (h : l.fault = none) (file : String) :
    l.diagnostic? file = none := by
  rw [diagnostic?, h]
  rfl

theorem Lexeme.diagnostic?_of_fault {l : Lexeme} {fault : LexicalFault} (h : l.fault = some fault)
    (file : String) :
    l.diagnostic? file = some ⟨.lexical, fault.message, some l.token.line, some file⟩ := by
  rw [diagnostic?, h]
  rfl

/-! ## journal -/

inductive Entry where
  | registered (d : Diagnostic)
  | faulty (file : String) (line : Int) (fault : LexicalFault) (spelling : String)
  | parsing (file : String)
  | parsed (file : String) (classes : Nat)
  | exiting (status : Nat)
  deriving DecidableEq

/-- An entry with the name of the part that wrote it. -/
def Entry.text : Entry → String
  | registered d => "bantam.errors: registered " ++ d.text
  | faulty file line fault spelling =>
    "bantam.scanner: " ++ file ++ ":" ++ toString line ++ ": " ++ fault.message ++ " "
      ++ quoted spelling
  | parsing file => "bantam.parser: parsing " ++ file
  | parsed file classes =>
    "bantam.parser: parsed " ++ file ++ ": " ++ toString classes ++ " classes"
  | exiting status => "bantam.cli: parser exiting with status " ++ toString status

def Lexeme.entries (file : String) (l : Lexeme) : List Entry :=
  match l.fault, l.diagnostic? file with
  | some fault, some d => [.registered d, .faulty file l.token.line fault l.token.spelling]
  | _, _ => []

end BantamSyntax
