/-!
# Layout

A printed text is made of lines, each indented by its depth.
-/
namespace BantamSyntax

structure Line where
  depth : Nat
  text : String

namespace Line

/-- As many blanks as the number says, and none if it is negative. -/
def blanks (n : Int) : String :=
  String.ofList (List.replicate n.toNat ' ')

/-- The line with `width` blanks for each step of depth, counted from `start`. -/
def render (width start : Int) (l : Line) : String :=
  blanks ((start + l.depth) * width) ++ l.text

def renderAll (width start : Int) (ls : List Line) : String :=
  "\n".intercalate (ls.map (render width start))

end Line
end BantamSyntax
