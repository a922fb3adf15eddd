/-!
# Binary floating point

A finite double is `mantissa * 2 ^ exponent` with an integer mantissa. `Binary.ofRatio?` rounds an exact
quotient to the nearest double, a tie to the even mantissa.
-/

namespace Abacus

/-- The magnitude `mantissa * 2 ^ exponent`. -/
structure Binary where
  mantissa : Nat
  exponent : Int
deriving DecidableEq, Repr

inductive Binary.Class where
  | nan
  | infinite (negative : Bool)
  | finite (negative : Bool) (magnitude : Binary)
deriving DecidableEq, Repr

namespace Binary

def leastExponent : Int := -1074

def greatestExponent : Int := 971

/-- The value that 64 bits stand for: a sign, 11 bits of exponent and 52 of fraction. -/
def classOfBits (bits : Nat) : Class :=
  let negative := decide (Nat.pow 2 63 ≤ bits)
  let field : Nat := bits / Nat.pow 2 52 % Nat.pow 2 11
  let fraction : Nat := bits % Nat.pow 2 52
  if field = 2047 then
    if fraction = 0 then .infinite negative else .nan
  else if field = 0 then .finite negative ⟨fraction, leastExponent⟩
  else .finite negative ⟨Nat.pow 2 52 + fraction, (field : Int) - 1075⟩

def classOf (x : Float) : Class := classOfBits x.toBits.toNat

def isFinite (x : Float) : Bool :=
  match classOf x with
  | .finite .. => true
  | _ => false

/-- The double with the given sign and magnitude; the mantissa is below `2 ^ 53`. -/
def toFloat (negative : Bool) (b : Binary) : Float :=
  let sign := if negative then Nat.pow 2 63 else 0
  let field := if b.mantissa < Nat.pow 2 52 then 0 else (b.exponent + 1075).toNat
  Float.ofBits (sign + field * Nat.pow 2 52 + b.mantissa % Nat.pow 2 52).toUInt64

def infinity (negative : Bool) : Float := if negative then -1.0 / 0.0 else 1.0 / 0.0

def nan : Float := 0.0 / 0.0

/-- The quotient rounded to an integer, a half to the even neighbour. -/
def divideToEven (num den : Nat) : Nat :=
  let q := num / den
  let r := num % den
  if 2 * r < den then q
  else if den < 2 * r then q + 1
  else if q % 2 = 0 then q else q + 1

/-- The greatest `e` with `2 ^ e ≤ num / den`, for positive arguments. -/
def floorLog (num den : Nat) : Int :=
  let e : Int := (num.log2 : Int) - den.log2
  let fits := if 0 ≤ e then den * Nat.pow 2 e.toNat ≤ num else den ≤ num * Nat.pow 2 (-e).toNat
  if fits then e else e - 1

/-- The double nearest to `num / den`; `none` when that lies beyond all finite doubles. -/
def ofRatio? (num den : Nat) : Option Binary :=
  if num = 0 then some ⟨0, leastExponent⟩
  else
    let q := max (floorLog num den - 52) leastExponent
    let m :=
      if 0 ≤ q then divideToEven num (den * Nat.pow 2 q.toNat)
      else divideToEven (num * Nat.pow 2 (-q).toNat) den
    -- Rounding up can carry into a mantissa of one more bit.
    let b : Binary := if m = Nat.pow 2 53 then ⟨Nat.pow 2 52, q + 1⟩ else ⟨m, q⟩
    if greatestExponent < b.exponent then none else some b

end Binary

end Abacus
