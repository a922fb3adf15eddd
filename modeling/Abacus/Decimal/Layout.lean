import Abacus.Decimal.Shortest
import Abacus.Text.Bytes

/-!
# Numbers as text

How digits are set out: positionally or with an exponent. `Layout` is the choice of a format; `showValue`
is the format of the variable table.
-/

namespace Abacus

/-- When a number is written with an exponent, and how wide the exponent is at least. The exponent is that
of the first digit. -/
structure Layout where
  positional : Int → Bool
  exponentWidth : Nat

namespace Digits

def text (ds : List Nat) : Text := ds.map (fun d => (48 + d).toUInt8)

/-- Without an exponent: zeros fill the places between the digits and the point. -/
def positional (d : Digits) : Text :=
  if d.point ≤ 0 then ("0." : Text) ++ List.replicate (-d.point).toNat 48 ++ text d.digits
  else
    let whole := d.digits.take d.point.toNat
    let frac := d.digits.drop d.point.toNat
    let zeros := List.replicate (d.point.toNat - whole.length) 48
    text whole ++ zeros ++ (if frac.isEmpty then [] else 46 :: text frac)

/-- One digit, the others after a point, and a signed exponent. -/
def scientific (width : Nat) (d : Digits) : Text :=
  let e := d.point - 1
  let mark : Text := if e < 0 then "e-" else "e+"
  match d.digits with
  | [] => []
  | [a] => text [a] ++ mark ++ Text.padded width e.natAbs
  | a :: rest => text [a] ++ (46 :: text rest) ++ mark ++ Text.padded width e.natAbs

end Digits

namespace Layout

def finite (l : Layout) (negative : Bool) (b : Binary) : Text :=
  let body : Text :=
    if b.mantissa = 0 then "0"
    else
      let d := Shortest.digits b
      if l.positional (d.point - 1) then d.positional else d.scientific l.exponentWidth
  if negative then 45 :: body else body

def render (l : Layout) (x : Float) : Text :=
  match Binary.classOf x with
  | .nan => "NaN"
  | .infinite negative => if negative then "-Inf" else "+Inf"
  | .finite negative b => l.finite negative b

/-- Values are positional from 0.0001 up to below a million. -/
def value : Layout := ⟨fun e => -4 ≤ e && e < 6, 2⟩

end Layout

def showValue (x : Float) : Text := Layout.value.render x

end Abacus
