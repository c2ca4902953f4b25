import BantamSyntax.CommandLine.Run
import BantamSyntax.Proofs.CommandLine.PathArguments
import BantamSyntax.Proofs.Parsing.Framing
import BantamSyntax.Proofs.Parsing.Reports
import BantamSyntax.Proofs.Scanning.Closing
import BantamSyntax.Proofs.Scanning.Faults

/-!
# Independent files

The tools treat each file by itself. What is written about some files and then others is what is
written about the first followed by what is written about the others, and the status of the parser
tells whether there is a file among them all that has no tree.
-/
namespace BantamSyntax

section

variable {s t : Source} {cause : InputFailure}

end

/-! ## files and their texts -/

section

variable {files : Files} {path text : String} {s : Source}

end

namespace Tool

/-! ## one file -/

variable {files : Files} {path text : String} {request : Request}

/-- The lines that list a text under its path: its tokens but for the last, and how many of them are
errors. -/
def listing (path : String) (tokens : List Token) : List Written :=
  let errors := tokens.countP (·.kind = .error)
  out path :: (tokens.filter (·.kind ≠ .endOfFile)).map (out ·.text) ++
    [out (if errors = 0 then "No errors found" else errorCount errors)]

variable {t : Tool} {paths front back : List String} {quiet : Request}

section

variable {ps qs : List String} {tool : List String → Except InputFailure Outcome}
  {outcome : List String → Outcome}

end

end Tool
end BantamSyntax
