import Abacus.Decimal.Layout
import Abacus.Decimal.Read
import Abacus.Text.Quoted

/-!
# Table cells

A cell of a column for whole numbers. A text put into it becomes a number when it spells one, and stays a text
otherwise.
-/

namespace Abacus

inductive Cell where
  | int (n : Int)
  | real (x : Float)
  | text (t : Text)

namespace Cell

def isSpaceByte (b : UInt8) : Bool := b == 32 || (9 ≤ b && b ≤ 13)

/-- A decimal number without a base prefix, a named value or separators. -/
def spellsNumber (t : Text) : Bool :=
  let (_, body) := Numeral.sign t
  (body.head?.elim false fun b => Text.isDigit b || b == 46) &&
    body.all (fun b => Text.isDigit b || b == 46 || b == 101 || b == 69 || b == 43 || b == 45)

/-- A number without fraction becomes whole, as far as 64 bits reach. -/
def ofFloat (x : Float) : Cell :=
  let n := x.toInt64.toInt
  if Float.ofInt n == x && -(Nat.pow 2 63) < n && n < Nat.pow 2 63 - 1 then .int n else .real x

/-- What a text becomes in a column for whole numbers. -/
def ofText (t : Text) : Cell :=
  let body := ((t.dropWhile isSpaceByte).reverse.dropWhile isSpaceByte).reverse
  match Numeral.integer body with
  | .ok n => .int n
  | .error _ =>
    if spellsNumber body then
      match Numeral.float body with
      | .ok x => ofFloat x
      | .error .outOfRange => .real (Binary.infinity (body.head? == some 45))
      | .error .malformed => .text t
    else .text t

/-- A cell that does not hold a whole number cannot be read as one. -/
def toInt : Cell → Except Text Int
  | .int n => .ok n
  | .real x => .error (unreadable "float64" (showValue x))
  | .text t => .error (unreadable "string" t)
where
  unreadable (kind shown : Text) : Text :=
    ("converting driver.Value type " : Text) ++ kind ++ (" (" : Text) ++ shown.quoted ++
      (") to a int: invalid syntax" : Text)

/-- The error of a column that could not be read. -/
def scanError (index : Nat) (column reason : Text) : Text :=
  ("sql: Scan error on column index " : Text) ++ Text.ofNat index ++ (", name " : Text) ++ column.quoted ++
    (": " : Text) ++ reason

/-- Numbers come before texts. -/
def atMost : Cell → Cell → Bool
  | .int a, .int b => a ≤ b
  | .text a, .text b => a ≤ b
  | .text _, _ => false
  | _, .text _ => true
  | .real a, .real b => a ≤ b
  | .int a, .real b => Float.ofInt a ≤ b
  | .real a, .int b => a ≤ Float.ofInt b

/-- The greatest cell; zero of none. -/
def greatest : List Cell → Cell
  | [] => .int 0
  | [c] => c
  | c :: cs =>
    let g := greatest cs
    if c.atMost g then g else c

end Cell

end Abacus
