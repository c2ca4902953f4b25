import BantamSyntax.Text.Quoted
import BantamSyntax.Text.Utf8

/-!
# Failing input

What can go wrong when a program text is opened or read.
-/
namespace BantamSyntax

/-- Why there is no file to be read under a name. -/
inductive NameFault where
  | missing
  | notDirectory
  | directory
  | tooLong
  deriving DecidableEq

def NameFault.text : NameFault → String
  | missing => "[Errno 2] No such file or directory"
  | notDirectory => "[Errno 20] Not a directory"
  | directory => "[Errno 21] Is a directory"
  | tooLong => "[Errno 36] File name too long"

inductive InputFailure where
  | device (report : String)
  | unopened (name : String) (fault : NameFault)
  | nulInName
  | malformed (bytes : Utf8.Malformed)
  | closed
  deriving DecidableEq

def InputFailure.message : InputFailure → String
  | .device report => report
  | .unopened name fault => fault.text ++ ": " ++ quoted name
  | .nulInName => "embedded null byte"
  | .malformed bytes => bytes.message
  | .closed => "I/O operation on closed file."

end BantamSyntax
