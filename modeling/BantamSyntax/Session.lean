import BantamSyntax.Grammar.Parse
import BantamSyntax.Input.Files

/-!
# Sessions

Sources and scanners under names, and one list of diagnostics for all that is done with them.
Scanners may share a source: each has a lookahead of its own, and what one takes the others do not
see.
-/
namespace BantamSyntax

/-- A scanner `owns` the source that was made for it alone. -/
structure SharedScanner where
  source : Nat
  owns : Bool
  lookahead : Option Char := some ' '

inductive Handle where
  | source (i : Nat)
  | scanner (k : Nat)
  deriving DecidableEq

structure Session where
  files : Files := {}
  sources : List Source := []
  scanners : List SharedScanner := []
  names : List (String × Handle) := []
  diagnostics : List Diagnostic := []

inductive SessionFailure where
  | parse (cause : ParseFailure)
  | unknown (name : String)
  deriving DecidableEq

abbrev SessionM := EStateM SessionFailure Session

namespace Session

def failInput {α : Type} (cause : InputFailure) : SessionM α :=
  throw (.parse (.input cause))

/-! ## diagnostics -/

def register (ds : List Diagnostic) : SessionM Unit :=
  modify fun s => { s with diagnostics := s.diagnostics ++ ds }

def clear : SessionM Unit :=
  modify fun s => { s with diagnostics := [] }

/-- Gives up over what has been reported. -/
def reject {α : Type} : SessionM α := do
  throw (.parse (.rejected (← get).diagnostics.head?))

/-! ## names -/

def bindName (name : String) (h : Handle) : SessionM Unit :=
  modify fun s => { s with names := (name, h) :: s.names }

def handle (name : String) : SessionM Handle := do
  match (← get).names.lookup name with
  | some h => return h
  | none => throw (.unknown name)

def sourceIndex (name : String) : SessionM Nat := do
  match ← handle name with
  | .source i => return i
  | .scanner _ => throw (.unknown name)

def scannerIndex (name : String) : SessionM Nat := do
  match ← handle name with
  | .scanner k => return k
  | .source _ => throw (.unknown name)

/-! ## sources and scanners in place -/

def source (i : Nat) : SessionM Source := do
  match (← get).sources[i]? with
  | some s => return s
  | none => throw (.unknown "")

def setSource (i : Nat) (s : Source) : SessionM Unit :=
  modify fun t => { t with sources := t.sources.set i s }

def shared (k : Nat) : SessionM SharedScanner := do
  match (← get).scanners[k]? with
  | some c => return c
  | none => throw (.unknown "")

def scanner (k : Nat) : SessionM Scanner := do
  let c ← shared k
  return ⟨← source c.source, c.lookahead⟩

/-- Puts back what a scanner has become. -/
def setScanner (k : Nat) (s : Scanner) : SessionM Unit := do
  let c ← shared k
  setSource c.source s.source
  modify fun t => { t with scanners := t.scanners.set k { c with lookahead := s.lookahead } }

def onSource {α : Type} (i : Nat) (x : SourceM α) : SessionM α := do
  match x (← source i) with
  | .ok a s => do
    setSource i s
    return a
  | .error cause s => do
    setSource i s
    failInput cause

def onScanner {α : Type} (k : Nat) (x : ScannerM α) : SessionM α := do
  match x (← scanner k) with
  | .ok a s => do
    setScanner k s
    return a
  | .error cause s => do
    setScanner k s
    failInput cause

/-! ## making them -/

def addSource (s : Source) : SessionM Nat :=
  modifyGet fun t => (t.sources.length, { t with sources := t.sources ++ [s] })

def addScanner (c : SharedScanner) : SessionM Nat :=
  modifyGet fun t => (t.scanners.length, { t with scanners := t.scanners ++ [c] })

def newSource (name : String) (s : Source) : SessionM Unit := do
  bindName name (.source (← addSource s))

/-- A scanner with a source of its own. -/
def newScanner (name : String) (s : Source) : SessionM Unit := do
  let i ← addSource s
  bindName name (.scanner (← addScanner { source := i, owns := true }))

/-- A scanner on a source that others use too. -/
def newSharedScanner (name : String) (i : Nat) : SessionM Unit := do
  bindName name (.scanner (← addScanner { source := i, owns := false }))

def openFile (name : String) : SessionM Source := do
  match (← get).files.open name with
  | .ok s => return s
  | .error cause => failInput cause

/-! ## using them -/

def nextChar (i : Nat) : SessionM (Option Char) :=
  onSource i Source.next

def report (k : Nat) (ls : List Lexeme) : SessionM Unit := do
  let file := (← scanner k).source.name
  register (ls.filterMap (·.diagnostic? file))

def scan (k : Nat) : SessionM Token := do
  let l ← onScanner k Scanner.scan
  report k [l]
  return l.token

/-- The tokens that are left. If a read fails they are lost, and only the reports remain. -/
def tokenize (k : Nat) : SessionM (List Token) := do
  let (found, s) := (← scanner k).tokenize
  setScanner k s
  report k found.lexemes
  match found.failure with
  | some cause => failInput cause
  | none => return found.lexemes.map (·.token)

/-- Closes a source, or the source that a scanner owns, and says whether it is closed. -/
def close : Handle → SessionM Bool
  | .source i => do
    let s := (← source i).close
    setSource i s
    return s.closed
  | .scanner k => do
    let c ← shared k
    let s ← source c.source
    let s := if c.owns then s.close else s
    setSource c.source s
    return s.closed

/-! ## parsing -/

/-- Parses a source and gives what is left of it. -/
def parseThrough (s : Source) : SessionM (Except ParseFailure Program × Source) := do
  let (result, p) := match s.parse (← get).diagnostics with
    | .ok program p => (Except.ok program, p)
    | .error cause p => (Except.error cause, p)
  modify fun t => { t with diagnostics := p.diagnostics }
  return (result, ((Scanner.ofSource s).after p.taken).source)

def finish (result : Except ParseFailure Program) : SessionM Program :=
  match result with
  | .ok program => return program
  | .error cause => throw (.parse cause)

/-- A source that was made to be parsed is closed after it. -/
def parse (s : Source) : SessionM Program := do
  let i ← addSource s
  let (result, s) ← parseThrough s
  setSource i s.close
  finish result

/-- A source that others use too stays open, one token and one character further on. -/
def parseShared (i : Nat) : SessionM Program := do
  let (result, s) ← parseThrough (← source i)
  setSource i s
  finish result

end Session
end BantamSyntax
