import Abacus.Decimal.Binary

/-!
# Shortest digits

The fewest decimal digits that read back as a given double, and of those the nearest to it; an exact tie
goes to the even last digit.
-/

namespace Abacus

/-- The number `0.d₁d₂… * 10 ^ point`, its digits without zeros at either end. -/
structure Digits where
  digits : List Nat
  point : Int
deriving DecidableEq, Repr

namespace Shortest

/-- A magnitude with the ends of the interval of reals that round to it, over a common denominator. The
ends belong to the interval when the mantissa is even. -/
structure Interval where
  low : Nat
  value : Nat
  high : Nat
  den : Nat
  closed : Bool

/-- Half a step below and above; the step below a power of two is half as wide. -/
def interval (b : Binary) : Interval :=
  -- In quarters of a step, so that both ends are whole numbers.
  let narrow := b.mantissa = Nat.pow 2 52 ∧ Binary.leastExponent < b.exponent
  let low := if narrow then 4 * b.mantissa - 1 else 4 * b.mantissa - 2
  let num := if 0 ≤ b.exponent then Nat.pow 2 b.exponent.toNat else 1
  let den := if 0 ≤ b.exponent then 1 else Nat.pow 2 (-b.exponent).toNat
  ⟨low * num, 4 * b.mantissa * num, (4 * b.mantissa + 2) * num, 4 * den, b.mantissa % 2 = 0⟩

/-- `n / den` lies in the interval. -/
def Interval.has (i : Interval) (n den : Nat) : Bool :=
  if i.closed then i.low * den ≤ n * i.den && n * i.den ≤ i.high * den
  else i.low * den < n * i.den && n * i.den < i.high * den

/-- The grid point, a multiple of `10 ^ unit`, that lies in the interval nearest to its value. -/
def Interval.onGrid? (i : Interval) (unit : Int) : Option Nat :=
  let num := if 0 ≤ unit then Nat.pow 10 unit.toNat else 1
  let den := if 0 ≤ unit then 1 else Nat.pow 10 (-unit).toNat
  let below := i.value * den / (i.den * num)
  let rest := i.value * den % (i.den * num)
  let above := below + 1
  match i.has (below * num) den, i.has (above * num) den with
  | true, true =>
    if 2 * rest < i.den * num then some below
    else if i.den * num < 2 * rest then some above
    else if below % 2 = 0 then some below else some above
  | true, false => some below
  | false, true => some above
  | false, false => none

/-- The first of `count` ever finer grids that has a point in the interval. -/
def search (i : Interval) : Nat → Int → Option (Nat × Int)
  | 0, _ => none
  | count + 1, unit =>
    match i.onGrid? unit with
    | some n => some (n, unit)
    | none => search i count (unit - 1)

/-- The least `k` with `num / den < 10 ^ k`, from an estimate that is at most one too small. -/
def decimalPoint (num den : Nat) : Int :=
  let e : Int := (num.log2 : Int) - den.log2 - 1
  let k := e * 30103 / 100000
  let reaches (j : Int) : Bool :=
    if 0 ≤ j then Nat.pow 10 j.toNat * den ≤ num else den ≤ num * Nat.pow 10 (-j).toNat
  if reaches (k + 1) then k + 2 else if reaches k then k + 1 else k

def stripZeros (ds : List Nat) : List Nat := (ds.reverse.dropWhile (· = 0)).reverse

/-- The shortest digits of a positive magnitude. -/
def digits (b : Binary) : Digits :=
  let i := interval b
  let point := decimalPoint i.value i.den
  -- Seventeen digits tell any two doubles apart, so one of the grids has a point.
  match search i 17 (point - 1) with
  | some (n, unit) =>
    let ds := (Nat.toDigits 10 n).map (fun c => c.toNat - 48)
    ⟨stripZeros ds, (ds.length : Int) + unit⟩
  | none => ⟨[], 0⟩

end Shortest

end Abacus
