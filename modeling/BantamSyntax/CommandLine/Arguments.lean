import BantamSyntax.Text.Digit
import BantamSyntax.Text.Quoted

/-!
# Arguments

The command lines of the two tools: switches and paths in any order, except that the paths stand
together.
-/
namespace BantamSyntax

inductive Tool where
  | scanner
  | parser
  deriving DecidableEq

inductive Switch where
  | help
  | source
  | verbose
  deriving DecidableEq

namespace Tool

def name : Tool → String
  | scanner => "bantam-scanner"
  | parser => "bantam-parser"

/-- The switches under all their spellings. -/
def switches : Tool → List (String × Switch)
  | scanner => [("-h", .help), ("--help", .help), ("-v", .verbose), ("--verbose", .verbose)]
  | parser =>
    [("-h", .help), ("--help", .help), ("--source", .source), ("-v", .verbose),
      ("--verbose", .verbose)]

def usage : Tool → String
  | scanner => "usage: bantam-scanner [-h] [-v] paths [paths ...]"
  | parser => "usage: bantam-parser [-h] [--source] [-v] paths [paths ...]"

def help : Tool → List String
  | scanner =>
    [usage scanner, "", "List the tokens of Bantam source files.", "", "positional arguments:",
      "  paths          Bantam source files to scan", "", "options:",
      "  -h, --help     show this help message and exit",
      "  -v, --verbose  Log debugging information"]
  | parser =>
    [usage parser, "", "Parse Bantam source files and print their AST.", "",
      "positional arguments:", "  paths          Bantam source files to parse", "", "options:",
      "  -h, --help     show this help message and exit",
      "  --source       Print canonical source instead of the tree",
      "  -v, --verbose  Log debugging information"]

end Tool

def Switch.title : Switch → String
  | help => "-h/--help"
  | source => "--source"
  | verbose => "-v/--verbose"

/-! ## errors -/

inductive UsageError where
  | ambiguous (argument : String) (spellings : List String)
  | unwantedValue (switch : Switch) (value : String)
  | noPaths
  | unrecognized (arguments : List String)
  deriving DecidableEq

def UsageError.message : UsageError → String
  | ambiguous argument spellings =>
    "ambiguous option: " ++ argument ++ " could match " ++ ", ".intercalate spellings
  | unwantedValue switch value =>
    "argument " ++ switch.title ++ ": ignored explicit argument " ++ quoted value
  | noPaths => "the following arguments are required: paths"
  | unrecognized arguments => "unrecognized arguments: " ++ " ".intercalate arguments

/-! ## single arguments -/

/-- What stands with a switch in one argument: a value after the equals sign of a long one, letters
after a short one, with an equals sign before them or without. -/
inductive Attached where
  | nothing
  | value (text : List Char)
  | letters (text : List Char)

/-- What an argument is before its place is looked at. -/
inductive Argument where
  | path (text : String)
  | endOfSwitches
  | switch (s : Switch) (attached : Attached)
  | unknown (text : String)

/-- A line end at the end counts for nothing. -/
def lessLineEnd (s : List Char) : List Char :=
  if s.getLast? = some '\n' then s.dropLast else s

/-- Digits, with or without a point among or before them, after a minus sign. -/
def isNegativeNumber (s : List Char) : Bool :=
  match lessLineEnd s with
  | '-' :: cs =>
    !cs.isEmpty && match cs.dropWhile isDecimalDigit with
      | [] => true
      | '.' :: ds => !ds.isEmpty && ds.all isDecimalDigit
      | _ => false
  | _ => false

/-- An argument cut at its first equals sign. -/
def splitValue (s : List Char) : List Char × Option (List Char) :=
  match s.dropWhile (· ≠ '=') with
  | [] => (s, none)
  | _ :: value => (s.takeWhile (· ≠ '='), some value)

def isLong (s : List Char) : Bool :=
  ['-', '-'].isPrefixOf s

/-- The switches that an argument may mean: a long one by its beginning, a short one by its letter,
with what is attached to it. -/
def candidates (t : Tool) (s : List Char) : List (String × Switch × Attached) :=
  if isLong s then
    let (start, value) := splitValue s
    (t.switches.filter fun (spelling, _) => start.isPrefixOf spelling.toList).map
      fun (spelling, switch) => (spelling, switch, value.elim .nothing .value)
  else
    (t.switches.filter fun (spelling, _) => spelling.toList = s.take 2).map
      fun (spelling, switch) => (spelling, switch, .letters (s.drop 2))

/-- A switch spelled in full, perhaps with something after an equals sign. -/
def spelledOut? (t : Tool) (s : List Char) : Option (Switch × Attached) :=
  match t.switches.lookup (String.ofList s), splitValue s with
  | some switch, _ => some (switch, .nothing)
  | none, (_, none) => none
  | none, (start, some value) =>
    (t.switches.lookup (String.ofList start)).map
      (·, if isLong start then .value value else .letters value)

def classify (t : Tool) (text : String) : Except UsageError Argument :=
  let s := text.toList
  if s.head? ≠ some '-' ∨ s = ['-'] then .ok (.path text)
  else match spelledOut? t s with
    | some (switch, attached) => .ok (.switch switch attached)
    | none => match candidates t s with
      | [] => .ok (if isNegativeNumber s ∨ ' ' ∈ s then .path text else .unknown text)
      | [(_, switch, attached)] => .ok (.switch switch attached)
      | several => .error (.ambiguous text (several.map (·.1)))

/-- All arguments; after a double dash everything is a path. -/
def classifyAll (t : Tool) : List String → Except UsageError (List Argument)
  | [] => .ok []
  | s :: rest =>
    if s = "--" then .ok (.endOfSwitches :: rest.map .path)
    else do
      let a ← classify t s
      return a :: (← classifyAll t rest)

/-! ## whole command lines -/

structure Request where
  paths : List String
  source : Bool := false
  verbose : Bool := false
  help : Bool := false

/-- What has been read so far: the switches, the paths once they have come, and what is left over. -/
structure Reception where
  switches : List Switch := []
  paths : Option (List String) := none
  extras : List String := []

/-- The letters after a short switch are switches too. No switch takes a value: what is not a letter
of the tool is unwanted, with all after it. -/
def switchesFrom (t : Tool) (switch : Switch) : List Char → Except UsageError (List Switch)
  | [] => .ok [switch]
  | c :: cs => do
    match t.switches.lookup (String.ofList ['-', c]) with
    | some next => return switch :: (← switchesFrom t next cs)
    | none => throw (.unwantedValue switch (String.ofList (c :: cs)))

def switchesOf (t : Tool) (switch : Switch) : Attached → Except UsageError (List Switch)
  | .nothing => .ok [switch]
  | .value text => .error (.unwantedValue switch (String.ofList text))
  | .letters [] => .error (.unwantedValue switch "")
  | .letters cs => switchesFrom t switch cs

def Argument.path? : Argument → Option String
  | path s => some s
  | _ => none

/-- An argument that is no switch, as it was given. -/
def Argument.plain? : Argument → Option String
  | endOfSwitches => some "--"
  | a => a.path?

/-- A run of arguments that are no switches. The first run with a path in it gives the paths, less
the double dash; all others are left over. -/
def Reception.addRun (r : Reception) (run : List Argument) : Reception :=
  match r.paths, run.filterMap Argument.path? with
  | none, path :: more => { r with paths := some (path :: more) }
  | _, _ => { r with extras := r.extras ++ run.filterMap Argument.plain? }

/-- Goes through the arguments; `run` is the run that is being read, its last argument first. Whoever
asks for help gets it, whatever comes after. -/
def receive (t : Tool) (r : Reception) (run : List Argument) :
    List Argument → Except UsageError Reception
  | [] => .ok (r.addRun run.reverse)
  | .switch s attached :: rest => do
    let r := r.addRun run.reverse
    let r := { r with switches := r.switches ++ (← switchesOf t s attached) }
    if .help ∈ r.switches then return r else receive t r [] rest
  | .unknown s :: rest =>
    let r := r.addRun run.reverse
    receive t { r with extras := r.extras ++ [s] } [] rest
  | a :: rest => receive t r (a :: run) rest

def Request.ofArguments (t : Tool) (arguments : List String) : Except UsageError Request := do
  let r ← receive t {} [] (← classifyAll t arguments)
  let request : Request :=
    { paths := r.paths.getD []
      source := .source ∈ r.switches
      verbose := .verbose ∈ r.switches
      help := .help ∈ r.switches }
  if request.help then return request
  else match r.paths with
    | none => throw .noPaths
    | some _ => if r.extras = [] then return request else throw (.unrecognized r.extras)

end BantamSyntax
