import Abacus.Text.Space

/-!
# Statements

A script is cut into statements at semicolons and line breaks. A statement is an assignment when it starts
with a name and an equals sign that something follows.
-/

namespace Abacus

def dropReturns (t : Text) : Text := t.filter (· != 13)

/-- The statements of a script: trimmed, blank ones left out. -/
def splitStatements (script : Text) : List Text :=
  ((Text.pieces (fun b => b == 59 || b == 10) (dropReturns script)).map Text.trim).filter (!·.isEmpty)

/-- Blanks inside an assignment: tab, line feed, form feed, carriage return and space. -/
def isInnerBlank (b : UInt8) : Bool := b == 9 || b == 10 || b == 12 || b == 13 || b == 32

def isNameByte (b : UInt8) : Bool := Text.isLetter b || Text.isDigit b || b == 95

/-- A statement: what it assigns to, if anything, and its expression. -/
structure Statement where
  target : Option Text
  expression : Text
deriving DecidableEq, Repr

namespace Statement

/-- The name in front of an equals sign, and the expression after it. -/
def assignment? (t : Text) : Option (Text × Text) :=
  let body := t.dropWhile isInnerBlank
  let name := body.takeWhile isNameByte
  match name with
  | [] => none
  | b :: _ =>
    if Text.isDigit b then none
    else
      match (body.dropWhile isNameByte).dropWhile isInnerBlank with
      | 61 :: after =>
        let expression := after.dropWhile isInnerBlank
        if expression.isEmpty then none else some (name, expression)
      | _ => none

def ofText (t : Text) : Statement :=
  match assignment? t with
  | some (name, expression) => ⟨some name, expression⟩
  | none => ⟨none, t⟩

end Statement

end Abacus
