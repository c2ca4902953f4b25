import BantamSyntax.Tree.Naming

/-!
# Walks

A visitor goes through a tree in the order of the text. At each node it runs the node's methods
from the most specific to the most general, and the last of them goes on to the children. A method
may be hooked: to report the node before or after what it would do, or to stop there.
-/
namespace BantamSyntax

inductive Hook where
  | before
  | after
  | stop
  deriving DecidableEq

/-- The report of a hooked method: the method, the node's class and its line. -/
structure Visit where
  method : String
  className : String
  line : Int
  deriving DecidableEq

abbrev Hooks := String → Option Hook

namespace Outline

/--
The chain of methods at one node. Only a method that stops gives a value; the others hand on what
they fall back on, and the children's values are dropped.
-/
def chain (hooks : Hooks) (className : String) (line : Int) (inner : List Visit) :
    List String → List Visit × Option String
  | [] => (inner, none)
  | method :: rest =>
    let visit : Visit := ⟨method, className, line⟩
    match hooks method with
    | none => chain hooks className line inner rest
    | some .before =>
      let (visits, value) := chain hooks className line inner rest
      (visit :: visits, value)
    | some .after =>
      let (visits, value) := chain hooks className line inner rest
      (visits ++ [visit], value)
    | some .stop => ([visit], some (method ++ "@" ++ toString line))

mutual

def walk (hooks : Hooks) : Outline → List Visit × Option String
  | absent => ([], none)
  | node label line children =>
    chain hooks label.className line (walkAll hooks children) label.visits

def walkAll (hooks : Hooks) : List Outline → List Visit
  | [] => []
  | c :: cs => (walk hooks c).1 ++ walkAll hooks cs

end

end Outline
end BantamSyntax
