import BantamSyntax.Grammar.Statement

/-!
# Grammar of programs

The rules for classes and their members, and the parse of a whole program.
-/
namespace BantamSyntax
namespace Grammar

open BantamSyntax.Parser

/-! ## members -/

def formal : ParserM Formal := do
  let line := (← token).line
  let type ← name .parameterType
  let name ← name .parameterName
  return ⟨line, type, name⟩

def parameters (steps : Nat) : ParserM (List Formal) :=
  commaList steps formal

def methodRest (steps : Nat) (line : Int) (type name : String) : ParserM Member := do
  let formalsLine := (← take).line
  let formals ← parameters steps
  let _ ← expect .rightParen .parametersClosing
  if ← check .leftBrace then
    let (bodyLine, ss) ← body steps (statement steps)
    return .method line type name formalsLine formals bodyLine ss
  else fail .methodOpening

def member (steps : Nat) : ParserM Member := do
  let line := (← token).line
  let type ← name .memberType
  let name ← name .memberName
  if ← takeIf .assign then
    let init ← expression steps
    let _ ← expect .semicolon .fieldEnd
    return .field line type name (some init)
  else if ← takeIf .semicolon then return .field line type name none
  else if ← check .leftParen then methodRest steps line type name
  else fail .memberRest

/-! ## classes -/

def classDeclaration (steps : Nat) : ParserM ClassDecl := do
  let line := (← token).line
  let _ ← expect .classWord .classWord
  let className ← name .className
  let parent ← if ← takeIf .extendsWord then some <$> name .parentName else pure none
  let membersLine := (← expect .leftBrace .classOpening).line
  let members ← untilBrace (member steps) steps
  let _ ← expect .rightBrace .classClosing
  return ⟨line, className, parent, membersLine, members, some (← get).file⟩

def classes (steps : Nat) : Nat → ParserM (List ClassDecl)
  | 0 => throw .stuck
  | n + 1 => do
    if ← atEnd then return []
    else
      let c ← classDeclaration steps
      let cs ← classes steps n
      return c :: cs

def program (steps : Nat) : ParserM Program := do
  let line := (← token).line
  return ⟨line, line, ← classes steps steps⟩

end Grammar
end BantamSyntax
