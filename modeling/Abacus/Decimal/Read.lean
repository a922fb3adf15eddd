import Abacus.Decimal.Binary
import Abacus.Text.Bytes

/-!
# Reading numbers

Decimal and hexadecimal floating-point numerals and integer numerals, with a base prefix and underscores
between digits where they are allowed.
-/

namespace Abacus

/-- Why a text is no number of the wanted kind. -/
inductive NumeralError where
  | malformed
  | outOfRange
deriving DecidableEq, Repr

namespace Numeral

/-- The sign in front, and the rest. -/
def sign : Text → Bool × Text
  | 45 :: t => (true, t)
  | 43 :: t => (false, t)
  | t => (false, t)

/-- A base prefix `0b`, `0o` or `0x`: the base and the rest. -/
def basePrefix? : Text → Option (Nat × Text)
  | 48 :: b :: t =>
    match Text.lowerByte b with
    | 98 => some (2, t)
    | 111 => some (8, t)
    | 120 => some (16, t)
    | _ => none
  | _ => none

/-- What stood last while underscores are checked. -/
inductive Last where
  | start
  | digit
  | underscore
  | other
deriving DecidableEq

def separatedAfter (hexadecimal : Bool) : Last → Text → Bool
  | last, [] => last != .underscore
  | last, b :: t =>
    if Text.isDigit b || (hexadecimal && (Text.hexValue b).isSome) then separatedAfter hexadecimal .digit t
    else if b = 95 then last == .digit && separatedAfter hexadecimal .underscore t
    else last != .underscore && separatedAfter hexadecimal .other t

/-- Each underscore stands between digits; a base prefix counts as a digit. -/
def underscoresSeparate (t : Text) : Bool :=
  let (_, body) := sign t
  match basePrefix? body with
  | some (base, rest) => separatedAfter (base == 16) .digit rest
  | none => separatedAfter false .start body

/-- The digits read so far: their value, how many stand after the point, whether there was a digit. -/
structure Mantissa where
  value : Nat
  places : Nat
  seen : Bool
  point : Bool

def digitIn? (base : Nat) (b : UInt8) : Option Nat :=
  match Text.hexValue b with
  | some d => if d < base then some d else none
  | none => none

def mantissa (base : Nat) (m : Mantissa) : Text → Mantissa × Text
  | [] => (m, [])
  | b :: t =>
    if b = 95 then mantissa base m t
    else if b = 46 then
      if m.point then (m, b :: t) else mantissa base { m with point := true } t
    else
      match digitIn? base b with
      | some d =>
        let places := if m.point then m.places + 1 else m.places
        mantissa base { m with value := m.value * base + d, places, seen := true } t
      | none => (m, b :: t)

/-- Reads the digits of an exponent; beyond five digits its size no longer matters. -/
def exponentDigits (e : Nat) : Text → Nat × Text
  | [] => (e, [])
  | b :: t =>
    if b = 95 then exponentDigits e t
    else if Text.isDigit b then exponentDigits (if e < 10000 then e * 10 + (b.toNat - 48) else e) t
    else (e, b :: t)

/-- The exponent after its mark; `none` when no digit follows. -/
def exponent? (t : Text) : Option (Int × Text) :=
  let (negative, rest) := sign t
  match rest with
  | b :: _ =>
    if Text.isDigit b then
      let (e, rest) := exponentDigits 0 rest
      some (if negative then -(e : Int) else e, rest)
    else none
  | [] => none

/-- `value * base ^ scale` as a double. -/
def scaled (negative : Bool) (value base : Nat) (scale : Int) : Except NumeralError Float :=
  let ratio :=
    if 0 ≤ scale then Binary.ofRatio? (value * Nat.pow base scale.toNat) 1
    else Binary.ofRatio? value (Nat.pow base (-scale).toNat)
  match ratio with
  | some b => .ok (b.toFloat negative)
  | none => .error .outOfRange

/-- The spelled-out values, in any case; only the infinities take a sign. -/
def special? (t : Text) : Option Float :=
  let (negative, body) := sign t
  let word := Text.lowerAscii body
  if word = ("inf" : Text) || word = ("infinity" : Text) then some (Binary.infinity negative)
  else if Text.lowerAscii t = ("nan" : Text) then some Binary.nan
  else none

/-- A hexadecimal prefix with something behind it. -/
def isHexadecimal : Text → Bool
  | 48 :: b :: _ :: _ => Text.lowerByte b == 120
  | _ => false

/-- The exponent behind the digits, and the rest; a hexadecimal numeral must have one. -/
def tail? (hexadecimal : Bool) (rest : Text) : Option (Int × Text) :=
  let mark : UInt8 := if hexadecimal then 112 else 101
  match rest with
  | b :: t => if Text.lowerByte b = mark then exponent? t else if hexadecimal then none else some (0, rest)
  | [] => if hexadecimal then none else some (0, [])

/-- A decimal numeral, or a hexadecimal one with a binary exponent. -/
def float (t : Text) : Except NumeralError Float :=
  match special? t with
  | some x => .ok x
  | none =>
    let (negative, body) := sign t
    let hexadecimal := isHexadecimal body
    let base := if hexadecimal then 16 else 10
    let (m, rest) := mantissa base ⟨0, 0, false, false⟩ (if hexadecimal then body.drop 2 else body)
    match tail? hexadecimal rest with
    | some (e, []) =>
      if !m.seen || (t.contains 95 && !underscoresSeparate t) then .error .malformed
      else if m.value = 0 then scaled negative 0 2 0
      else if hexadecimal then scaled negative m.value 2 (e - 4 * m.places)
      else scaled negative m.value 10 (e - m.places)
    | _ => .error .malformed

/-- Digits of one base, refused as soon as the value passes `2 ^ 64`. -/
def digitsBelow64 (base : Nat) (underscores : Bool) (value : Nat) : Text → Except NumeralError Nat
  | [] => .ok value
  | b :: t =>
    if b = 95 && underscores then digitsBelow64 base underscores value t
    else
      let digit :=
        if Text.isDigit b then some (b.toNat - 48)
        else if Text.isLetter b then some ((Text.lowerByte b).toNat - 87)
        else none
      match digit with
      | none => .error .malformed
      | some d =>
        if base ≤ d then .error .malformed
        else if Nat.pow 2 64 ≤ value * base + d then .error .outOfRange
        else digitsBelow64 base underscores (value * base + d) t

/-- The signed number, if it fits into 64 bits. -/
def signed64 (negative : Bool) (n : Nat) : Except NumeralError Int :=
  if negative then if n ≤ Nat.pow 2 63 then .ok (-(n : Int)) else .error .outOfRange
  else if n < Nat.pow 2 63 then .ok n else .error .outOfRange

/-- A decimal integer of 64 bits. -/
def integer (t : Text) : Except NumeralError Int := do
  let (negative, body) := sign t
  if body.isEmpty then .error .malformed
  else
    let n ← digitsBelow64 10 false 0 body
    signed64 negative n

/-- An integer of 64 bits with an optional base prefix, a leading zero meaning octal, and underscores. -/
def integerLiteral (t : Text) : Except NumeralError Int := do
  let (negative, body) := sign t
  if body.isEmpty then .error .malformed
  else
    let (base, digits) :=
      match body with
      | 48 :: rest =>
        match basePrefix? body with
        | some (base, tail) => if tail.isEmpty then (8, rest) else (base, tail)
        | none => (8, rest)
      | _ => (10, body)
    let n ← digitsBelow64 base true 0 digits
    if t.contains 95 && !underscoresSeparate t then .error .malformed
    else signed64 negative n

/-- The words and figures for the truth values. -/
def bool? (t : Text) : Option Bool :=
  let yes : List Text := ["1", "t", "T", "true", "TRUE", "True"]
  let no : List Text := ["0", "f", "F", "false", "FALSE", "False"]
  if yes.contains t then some true else if no.contains t then some false else none

end Numeral

end Abacus
