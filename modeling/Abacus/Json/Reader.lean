import Abacus.Json
import Abacus.Text.Quoted

/-!
# Reading JSON

`Json.first` reads the value a text starts with, `Json.read` a text that is one value. Bytes that are no
character are read as the replacement character, and so are halves of surrogate pairs.
-/

namespace Abacus

inductive JsonError where
  | unexpectedEnd
  | invalid (byte : UInt8) (place : Text)
  | tooDeep
deriving DecidableEq, Repr

namespace JsonError

def message : JsonError → Text
  | .unexpectedEnd => "unexpected end of JSON input"
  | .invalid b place =>
    ("invalid character " : Text) ++ Quoted.single (Char.ofNat b.toNat) ++ (32 :: place)
  | .tooDeep => "exceeded max depth"

end JsonError

namespace Json

def isBlank (b : UInt8) : Bool := b == 32 || b == 9 || b == 10 || b == 13

def skipBlanks (t : Text) : Text := t.dropWhile isBlank

/-- The text does not go on as it should. -/
def fail {α : Type} (place : Text) : Text → Except JsonError α
  | [] => .error .unexpectedEnd
  | b :: _ => .error (.invalid b place)

/-- The code unit that four hexadecimal digits spell, and the rest. -/
def codeUnit? : Text → Option (Nat × Text)
  | a :: b :: c :: d :: rest => do
    let a ← Text.hexValue a
    let b ← Text.hexValue b
    let c ← Text.hexValue c
    let d ← Text.hexValue d
    return (((a * 16 + b) * 16 + c) * 16 + d, rest)
  | _ => none

/-- The first byte that is no hexadecimal digit where four are needed. -/
def badUnit (t : Text) : JsonError :=
  match (t.take 4).find? (fun b => (Text.hexValue b).isNone) with
  | some b => .invalid b "in \\u hexadecimal character escape"
  | none => .unexpectedEnd

/-- The second half of a surrogate pair, written as an escape. -/
def lowHalf? : Text → Option Nat
  | 92 :: 117 :: t =>
    match codeUnit? t with
    | some (u, _) => if 0xDC00 ≤ u && u < 0xE000 then some u else none
    | none => none
  | _ => none

/-- The byte that a one-letter escape stands for. -/
def escaped? (b : UInt8) : Option UInt8 :=
  match b with
  | 34 => some 34
  | 92 => some 92
  | 47 => some 47
  | 98 => some 8
  | 102 => some 12
  | 110 => some 10
  | 114 => some 13
  | 116 => some 9
  | _ => none

/-- Reads a string after its opening quote. `acc` holds the bytes read, last first; `skip` bytes are already
accounted for. -/
def stringAfter (acc : Text) : Nat → Text → Except JsonError (Text × Text)
  | _, [] => .error .unexpectedEnd
  | skip + 1, _ :: t => stringAfter acc skip t
  | 0, b :: t =>
    if b = 34 then .ok (Text.wellFormed acc.reverse, t)
    else if b < 0x20 then .error (.invalid b "in string literal")
    else if b = 92 then
      match t with
      | [] => .error .unexpectedEnd
      | e :: r =>
        match escaped? e with
        | some c => stringAfter (c :: acc) 1 t
        | none =>
          if e = 117 then
            match codeUnit? r with
            | none => .error (badUnit r)
            | some (u, more) =>
              -- Half of a surrogate pair without the other one reads as the replacement character.
              if 0xD800 ≤ u && u < 0xE000 then
                match lowHalf? more with
                | some l =>
                  if u < 0xDC00 then
                    let c := Char.ofNat (0x10000 + (u - 0xD800) * 1024 + (l - 0xDC00))
                    stringAfter ((Text.ofChar c).reverse ++ acc) 11 t
                  else stringAfter ((Text.ofChar (Char.ofNat 0xFFFD)).reverse ++ acc) 5 t
                | none => stringAfter ((Text.ofChar (Char.ofNat 0xFFFD)).reverse ++ acc) 5 t
              else stringAfter ((Text.ofChar (Char.ofNat u)).reverse ++ acc) 5 t
          else .error (.invalid e "in string escape code")
    else stringAfter (b :: acc) 0 t

/-- Reads the digits, of which there must be one. -/
def digits (place : Text) (t : Text) : Except JsonError (Text × Text) :=
  match t.takeWhile Text.isDigit with
  | [] => fail place t
  | ds => .ok (ds, t.dropWhile Text.isDigit)

def signPart : Text → Text × Text
  | 45 :: t => ([45], t)
  | t => ([], t)

/-- A zero stands alone. -/
def wholePart : Text → Except JsonError (Text × Text)
  | 48 :: t => .ok ([48], t)
  | t => digits "in numeric literal" t

def fractionPart : Text → Except JsonError (Text × Text)
  | 46 :: t => do
    let (ds, t) ← digits "after decimal point in numeric literal" t
    .ok (46 :: ds, t)
  | t => .ok ([], t)

def exponentPart : Text → Except JsonError (Text × Text)
  | e :: t =>
    if e = 101 || e = 69 then do
      let (mark, t) : Text × Text :=
        match t with
        | 43 :: r => ([e, 43], r)
        | 45 :: r => ([e, 45], r)
        | _ => ([e], t)
      let (ds, t) ← digits "in exponent of numeric literal" t
      .ok (mark ++ ds, t)
    else .ok ([], e :: t)
  | [] => .ok ([], [])

/-- Reads a number: a sign, an integer without leading zeros, a fraction and an exponent. -/
def numeral (t : Text) : Except JsonError (Text × Text) := do
  let (sign, t) := signPart t
  let (whole, t) ← wholePart t
  let (fraction, t) ← fractionPart t
  let (exponent, t) ← exponentPart t
  .ok (sign ++ whole ++ fraction ++ exponent, t)

/-- Reads the rest of a fixed word. -/
def word (name : Text) (v : Json) : Text → Text → Except JsonError (Json × Text)
  | [], t => .ok (v, t)
  | w :: ws, t =>
    let place := ("in literal " : Text) ++ name ++ (" (expecting " : Text) ++ Quoted.single (Char.ofNat w.toNat) ++ [41]
    match t with
    | [] => .error .unexpectedEnd
    | b :: r => if b = w then word name v ws r else .error (.invalid b place)

def maxNesting : Nat := 10000

mutual

/-- Reads a value at most `fuel` bytes long; `depth` arrays and objects are open around it. -/
def value (depth : Nat) : Nat → Text → Except JsonError (Json × Text)
  | 0, _ => .error .unexpectedEnd
  | fuel + 1, t =>
    match skipBlanks t with
    | 34 :: r => do
      let (s, r) ← stringAfter [] 0 r
      .ok (.string s, r)
    | 123 :: r =>
      if maxNesting ≤ depth then .error .tooDeep
      else
        match skipBlanks r with
        | 125 :: r => .ok (.object [], r)
        | r => do
          let (ms, r) ← members (depth + 1) fuel r
          .ok (.object ms, r)
    | 91 :: r =>
      if maxNesting ≤ depth then .error .tooDeep
      else
        match skipBlanks r with
        | 93 :: r => .ok (.array [], r)
        | r => do
          let (vs, r) ← items (depth + 1) fuel r
          .ok (.array vs, r)
    | 116 :: r => word "true" (.bool true) "rue" r
    | 102 :: r => word "false" (.bool false) "alse" r
    | 110 :: r => word "null" .null "ull" r
    | b :: r =>
      if b = 45 || Text.isDigit b then do
        let (n, r) ← numeral (b :: r)
        .ok (.number n, r)
      else .error (.invalid b "looking for beginning of value")
    | [] => .error .unexpectedEnd

/-- Reads the members of an object up to its closing brace. -/
def members (depth : Nat) : Nat → Text → Except JsonError (List (Text × Json) × Text)
  | 0, _ => .error .unexpectedEnd
  | fuel + 1, t =>
    match skipBlanks t with
    | 34 :: r => do
      let (k, r) ← stringAfter [] 0 r
      match skipBlanks r with
      | 58 :: r =>
        let (v, r) ← value depth fuel r
        match skipBlanks r with
        | 44 :: r =>
          let (ms, r) ← members depth fuel r
          .ok ((k, v) :: ms, r)
        | 125 :: r => .ok ([(k, v)], r)
        | r => fail "after object key:value pair" r
      | r => fail "after object key" r
    | r => fail "looking for beginning of object key string" r

/-- Reads the items of an array up to its closing bracket. -/
def items (depth : Nat) : Nat → Text → Except JsonError (List Json × Text)
  | 0, _ => .error .unexpectedEnd
  | fuel + 1, t => do
    let (v, r) ← value depth fuel t
    match skipBlanks r with
    | 44 :: r =>
      let (vs, r) ← items depth fuel r
      .ok (v :: vs, r)
    | 93 :: r => .ok ([v], r)
    | r => fail "after array element" r

end

/-- The value that a text starts with, and the rest. -/
def first (t : Text) : Except JsonError (Json × Text) := value 0 (t.length + 1) t

def read (t : Text) : Except JsonError Json := do
  let (v, r) ← first t
  match skipBlanks r with
  | [] => .ok v
  | b :: _ => .error (.invalid b "after top-level value")

end Json

end Abacus
