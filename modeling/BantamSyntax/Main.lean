import BantamSyntax.CommandLine.Run

/-!
# The command line

The first argument chooses the tool, the others are its own.
-/
namespace BantamSyntax

def look (name : String) : IO (Except NameFault (List UInt8)) := do
  try
    return .ok (← IO.FS.readBinFile name).toList
  catch
    | .inappropriateType _ 21 _ => return .error .directory
    | .inappropriateType .. => return .error .notDirectory
    | .invalidArgument .. => return .error .tooLong
    | _ => return .error .missing

/-- What is found under the names that are asked for. -/
def gather (names : List String) : IO Files := do
  let found ← names.mapM fun name => return (name, ← look name)
  return ⟨fun name => (found.lookup name).getD (.error .missing)⟩

def write (w : Written) : IO Unit :=
  match w.stream with
  | .output => IO.println w.text
  | .error => IO.eprintln w.text

def perform (t : Tool) (arguments : List String) : IO UInt32 := do
  match t.run (← gather arguments) arguments with
  | .ok outcome =>
    outcome.written.forM write
    return outcome.status.toUInt32
  | .error cause =>
    IO.eprintln cause.message
    return 1

end BantamSyntax

def main : List String → IO UInt32
  | "scanner" :: arguments => BantamSyntax.perform .scanner arguments
  | "parser" :: arguments => BantamSyntax.perform .parser arguments
  | arguments => BantamSyntax.perform .parser arguments
