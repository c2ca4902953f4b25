import BantamSyntax.Input.Failure

/-!
# Directories

A working directory with all that is below it, and what a name leads to from there: the parts of a
name are walked from left to right, and all but the last must lead to directories.
-/
namespace BantamSyntax

/-- Files and directories by their paths from the working directory. -/
structure Directory where
  files : List (List String × List UInt8) := []
  directories : List (List String) := []

namespace Directory

/-! ## names -/

/-- The longest name, in bytes. -/
def maxNameSize : Nat := 4095

/-- The longest part of a name, in bytes. -/
def maxPartSize : Nat := 255

/-- What stands between the slashes of a name. -/
def parts (name : String) : List String :=
  name.splitOn "/"

/-- A part that leads no further. -/
def isIdle (part : String) : Bool :=
  part = "" || part = "."

def path (name : String) : List String :=
  (parts name).filter (!isIdle ·)

def ofNames (files : List (String × List UInt8)) (directories : List String) : Directory where
  files := files.map fun (name, bytes) => (path name, bytes)
  directories := directories.map path

/-! ## walks -/

/-- Where a walk has come. Of the directories above the working directory no more is known than that
they are there. -/
inductive Place where
  | file (bytes : List UInt8)
  | below (path : List String)
  | above

def Place.isFile : Place → Bool
  | file _ => true
  | _ => false

def Place.parent : Place → Place
  | below path => if path = [] then above else below path.dropLast
  | place => place

/-- A directory is also where something is below it. -/
def at? (d : Directory) (path : List String) : Option Place :=
  match d.files.lookup path with
  | some bytes => some (.file bytes)
  | none =>
    if (d.files.map (·.1) ++ d.directories).any (path.isPrefixOf ·) then some (.below path) else none

def child? (d : Directory) (part : String) : Place → Option Place
  | .below path => d.at? (path ++ [part])
  | _ => none

def step (d : Directory) (place : Place) (part : String) : Except NameFault Place :=
  if place.isFile then .error .notDirectory
  else if isIdle part then .ok place
  else if part = ".." then .ok place.parent
  else if maxPartSize < part.utf8ByteSize then .error .tooLong
  else match d.child? part place with
    | some next => .ok next
    | none => .error .missing

def start (name : String) : Place :=
  if name.toList.head? = some '/' then .above else .below []

def find (d : Directory) (name : String) : Except NameFault (List UInt8) := do
  if name = "" then throw .missing
  if maxNameSize < name.utf8ByteSize then throw .tooLong
  match ← (parts name).foldlM d.step (start name) with
  | .file bytes => return bytes
  | _ => throw .directory

end Directory
end BantamSyntax
