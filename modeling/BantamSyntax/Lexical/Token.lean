import BantamSyntax.Lexical.Kind
import BantamSyntax.Text.Quoted

/-!
# Tokens

A token is a stretch of program text with its kind and the line it starts on.
-/
namespace BantamSyntax

structure Token where
  kind : TokenKind
  spelling : String
  line : Int
  deriving DecidableEq

namespace Token

def text (t : Token) : String :=
  t.kind.name ++ " '" ++ t.spelling ++ "' (line " ++ toString t.line ++ ")"

/-- The token on one line, whatever its spelling holds. -/
def inspect (t : Token) : String :=
  "Token(" ++ t.kind.name ++ ", " ++ quoted t.spelling ++ ", line=" ++ toString t.line ++ ")"

/-- An operator, and if spellings are given one of these: a kind may stand for several operators. -/
def isOperator (t : Token) (spellings : List String := []) : Bool :=
  t.kind.isOperator && (spellings.isEmpty || t.spelling ∈ spellings)

end Token
end BantamSyntax
