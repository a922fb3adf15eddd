/-!
# Texts as bytes

A text is a list of bytes. Scripts, file names and messages are texts: a script need not be well-formed
UTF-8, and what is shown of it keeps the bytes it had. Texts are ordered byte by byte.
-/

namespace Abacus

/-- A text is its bytes. -/
abbrev Text := List UInt8

namespace Text

def ofString (s : String) : Text := s.toUTF8.data.toList

instance : Coe String Text := ⟨ofString⟩

def ofChar (c : Char) : Text := String.utf8EncodeChar c

/-- The decimal digits of a natural number, most significant first. -/
def ofNat (n : Nat) : Text := (Nat.toDigits 10 n).map (fun c => c.toNat.toUInt8)

/-- Decimal digits, with a minus sign in front of a negative number. -/
def ofInt : Int → Text
  | .ofNat n => ofNat n
  | .negSucc n => 45 :: ofNat (n + 1)

def ofBool (b : Bool) : Text := if b then "true" else "false"

/-- At least `width` digits, with zeros in front. -/
def padded (width n : Nat) : Text :=
  let digits := ofNat n
  List.replicate (width - digits.length) 48 ++ digits

/-- The texts one after the other, with `sep` between neighbours. -/
def join (sep : Text) : List Text → Text
  | [] => []
  | [t] => t
  | t :: rest => t ++ sep ++ join sep rest

def unlines (ts : List Text) : Text := ts.flatMap (· ++ [10])

def startsWith (t pre : Text) : Bool := pre.isPrefixOf t

/-- Some stretch of `t` equals `part`. -/
def hasPart (part : Text) : Text → Bool
  | [] => part.isEmpty
  | b :: t => part.isPrefixOf (b :: t) || hasPart part t

/-- What stands before the first `b`, and what stands after it if there is one. -/
def cutAt (b : UInt8) : Text → Text × Option Text
  | [] => ([], none)
  | c :: t =>
    if c = b then ([], some t)
    else
      let (before, after) := cutAt b t
      (c :: before, after)

/-- The pieces between the bytes that satisfy `p`; there is one more piece than such bytes. -/
def pieces (p : UInt8 → Bool) : Text → List Text
  | [] => [[]]
  | b :: t =>
    if p b then [] :: pieces p t
    else
      match pieces p t with
      | [] => [[b]]
      | q :: qs => (b :: q) :: qs

/-- The part after the last `b`, and the part before it if there is one. -/
def cutAtLast (b : UInt8) (t : Text) : Option Text × Text :=
  let (back, front) := cutAt b t.reverse
  (front.map List.reverse, back.reverse)

def isDigit (b : UInt8) : Bool := 48 ≤ b && b ≤ 57

def isLower (b : UInt8) : Bool := 97 ≤ b && b ≤ 122

def isUpper (b : UInt8) : Bool := 65 ≤ b && b ≤ 90

def isLetter (b : UInt8) : Bool := isLower b || isUpper b

/-- Capital ASCII letters become small, all other bytes stay. -/
def lowerByte (b : UInt8) : UInt8 := if isUpper b then b + 32 else b

def lowerAscii (t : Text) : Text := t.map lowerByte

def hexValue (b : UInt8) : Option Nat :=
  if isDigit b then some (b.toNat - 48)
  else
    let l := lowerByte b
    if 97 ≤ l && l ≤ 102 then some (l.toNat - 87) else none

/-- The small hexadecimal digit of a value below 16. -/
def hexDigit (n : Nat) : UInt8 := if n < 10 then (48 + n).toUInt8 else (87 + n).toUInt8

/-- The last `width` hexadecimal digits of `n`. -/
def hex : Nat → Nat → Text
  | 0, _ => []
  | width + 1, n => hex width (n / 16) ++ [hexDigit (n % 16)]

/-- Ascending byte order. -/
def sort (ts : List Text) : List Text := ts.mergeSort (fun a b => decide (a ≤ b))

end Text

end Abacus
