import BantamSyntax.Input.Directory
import BantamSyntax.Input.Source

/-!
# Files

The files that can be opened by name.
-/
namespace BantamSyntax

/-- What is found under each name. -/
structure Files where
  find : String → Except NameFault (List UInt8) := fun _ => .error .missing

def Directory.contents (d : Directory) : Files where
  find := d.find

/-- The null character ends a name for the system, so that no name can hold it. -/
def isOpenable (name : String) : Bool :=
  '\x00' ∉ name.toList

/-- A source that owns what it reads from. -/
def Files.open (fs : Files) (name : String) : Except InputFailure Source :=
  if isOpenable name then match fs.find name with
    | .ok bytes => .ok { name, reader := .ofBytes bytes, owned := true }
    | .error fault => .error (.unopened name fault)
  else .error .nulInName

end BantamSyntax
