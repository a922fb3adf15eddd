import Abacus.Decimal.Read

/-!
# Durations

A duration is a number of nanoseconds of 64 bits. In text it is a sequence of decimal numbers with units,
such as `1h30m` or `1.5s`.
-/

namespace Abacus

namespace Duration

def second : Int := 1000000000

def millisecond : Int := 1000000

def minute : Int := 60 * second

def unit? (name : Text) : Option Nat :=
  let units : List (Text × Nat) :=
    [("ns", 1), ("us", 1000), ("µs", 1000), ("μs", 1000), ("ms", 1000000), ("s", 1000000000),
      ("m", 60000000000), ("h", 3600000000000)]
  units.lookup name

/-- The value of digits; `none` beyond `2 ^ 63`. -/
def whole? (ds : Text) : Option Nat :=
  let n := ds.foldl (fun n b => n * 10 + (b.toNat - 48)) 0
  if n ≤ Nat.pow 2 63 then some n else none

/-- The digits of a fraction as a numerator and a power of ten; digits past 63 bits are dropped. -/
def fraction (ds : Text) : Nat × Float :=
  let step : Nat × Float × Bool → UInt8 → Nat × Float × Bool := fun (x, scale, full) b =>
    if full then (x, scale, true)
    else
      let y := x * 10 + (b.toNat - 48)
      if (Nat.pow 2 63 - 1) / 10 < x || Nat.pow 2 63 < y then (x, scale, true) else (y, scale * 10, false)
  let (x, scale, _) := ds.foldl step (0, 1.0, false)
  (x, scale)

/-- Nanoseconds in the fraction of a unit, rounded down. -/
def fractionOf (unit : Nat) (ds : Text) : Nat :=
  let (x, scale) := fraction ds
  if x = 0 then 0 else (Float.ofNat x * (Float.ofNat unit / scale)).toUInt64.toNat

def isNumberByte (b : UInt8) : Bool := Text.isDigit b || b == 46

/-- Adds up numbers with units; at most `fuel` of them. -/
def sum? : Nat → Nat → Text → Option Nat
  | _, total, [] => some total
  | 0, _, _ => none
  | fuel + 1, total, t =>
    let pre := t.takeWhile Text.isDigit
    let rest := t.dropWhile Text.isDigit
    let (post, rest) : Text × Text :=
      match rest with
      | 46 :: r => (r.takeWhile Text.isDigit, r.dropWhile Text.isDigit)
      | r => ([], r)
    if pre.isEmpty && post.isEmpty then none
    else do
      let v ← whole? pre
      let unit ← unit? (rest.takeWhile (!isNumberByte ·))
      if Nat.pow 2 63 / unit < v then none
      else
        let v := v * unit + fractionOf unit post
        if Nat.pow 2 63 < v || Nat.pow 2 63 < total + v then none
        else sum? fuel (total + v) (rest.dropWhile (!isNumberByte ·))

def ofText? (t : Text) : Option Int :=
  let (negative, body) := Numeral.sign t
  if body = ("0" : Text) then some 0
  else if body.isEmpty then none
  else
    match sum? body.length 0 body with
    | none => none
    | some d => if negative then some (-(d : Int)) else if d < Nat.pow 2 63 then some d else none

end Duration

end Abacus
