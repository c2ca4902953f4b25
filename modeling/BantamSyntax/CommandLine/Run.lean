import BantamSyntax.CommandLine.Arguments
import BantamSyntax.Grammar.Parse
import BantamSyntax.Input.Files
import BantamSyntax.Tree.Canonical

/-!
# The tools

One tool lists the tokens of files, the other their trees. Each file is treated by itself, and what
is written is a list of lines, each for one of the two output streams.
-/
namespace BantamSyntax

inductive Stream where
  | output
  | error
  deriving DecidableEq

/-- A text with a line end after it. -/
structure Written where
  stream : Stream
  text : String
  deriving DecidableEq

structure Outcome where
  written : List Written
  status : Nat := 0

def Outcome.on (o : Outcome) (stream : Stream) : String :=
  String.join ((o.written.filter (·.stream = stream)).map fun w => w.text ++ "\n")

namespace Tool

def out (text : String) : Written :=
  ⟨.output, text⟩

def err (text : String) : Written :=
  ⟨.error, text⟩

/-- The journal, if it is asked for. -/
def journal (verbose : Bool) (entries : List Entry) : List Written :=
  if verbose then entries.map (err ·.text) else []

def errorCount (n : Nat) : String :=
  toString n ++ " errors found"

/-! ## one file -/

/-- The tokens of a file and the number of faulty ones, all on the output, failures too. -/
def scanFile (files : Files) (verbose : Bool) (path : String) : List Written :=
  let failed (cause : InputFailure) := out (path ++ ": " ++ cause.message)
  out path :: match files.open path with
    | .error cause => [failed cause]
    | .ok source =>
      let found := (Scanner.ofSource source).tokenize.1
      let listed := found.lexemes.flatMap fun l =>
        journal verbose (l.entries source.name)
          ++ if l.token.kind = .endOfFile then [] else [out l.token.text]
      let errors := found.lexemes.countP (·.fault.isSome)
      listed ++ match found.failure with
        | some cause => [failed cause]
        | none => [out (if errors = 0 then "No errors found" else errorCount errors)]

/-- The tree of a file, or its canonical source, and whether there was one. -/
def parseFile (files : Files) (request : Request) (path : String) : List Written × Bool :=
  let failed (cause : InputFailure) := err (path ++ ": " ++ cause.message)
  match files.open path with
  | .error cause => ([failed cause], false)
  | .ok source => match source.parse with
    | .ok program p =>
      let text := if request.source then program.source standardWidth 0
        else (Node.program program).dumpText
      (journal request.verbose p.journal ++ [out text], true)
    | .error cause p =>
      let reported := match cause with
        | .input cause => [failed cause]
        | _ => p.diagnostics.map (err ·.text) ++ [err (errorCount p.diagnostics.length)]
      (journal request.verbose p.journal ++ reported, false)

/-! ## all files -/

def runScanner (files : Files) (request : Request) : Outcome :=
  ⟨request.paths.flatMap (scanFile files request.verbose), 0⟩

/-- The status tells whether every file had a tree. -/
def runParser (files : Files) (request : Request) : Outcome :=
  let results := request.paths.map (parseFile files request)
  let status := if results.all (·.2) then 0 else 1
  ⟨results.flatMap (·.1) ++ journal request.verbose [.exiting status], status⟩

/-- A path that cannot be a name ends the run, and nothing is written. -/
def run (t : Tool) (files : Files) (arguments : List String) : Except InputFailure Outcome :=
  match Request.ofArguments t arguments with
  | .error e => .ok ⟨[err t.usage, err (t.name ++ ": error: " ++ e.message)], 2⟩
  | .ok request =>
    if request.help then .ok ⟨t.help.map out, 0⟩
    else if request.paths.all isOpenable then match t with
      | .scanner => .ok (runScanner files request)
      | .parser => .ok (runParser files request)
    else .error .nulInName

end Tool
end BantamSyntax
