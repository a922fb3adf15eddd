import Abacus.Text.Bytes

/-!
# Characters of a text

Reading a text as UTF-8 gives well-formed characters and stray bytes: each byte of an ill-formed sequence
stands alone. Nothing is lost, so the bytes can be had back.
-/

namespace Abacus

/-- A well-formed character, or one byte that belongs to none. -/
inductive Rune where
  | char (c : Char)
  | stray (b : UInt8)
deriving DecidableEq, Repr

namespace Rune

/-- What the rune looks like: a stray byte shows as the replacement character. -/
def toChar : Rune → Char
  | .char c => c
  | .stray _ => Char.ofNat 0xFFFD

def bytes : Rune → Text
  | .char c => Text.ofChar c
  | .stray b => [b]

end Rune

namespace Text

/-- The last six bits of a continuation byte. -/
def continuation? (b : UInt8) : Option Nat :=
  if 0x80 ≤ b && b < 0xC0 then some (b.toNat % 64) else none

/-- The character with code `n`, refused below `least` (an overlong form) and for surrogates. -/
def scalar? (least n : Nat) : Option Char :=
  if least ≤ n && (n < 0xD800 || (0xDFFF < n && n < 0x110000)) then some (Char.ofNat n) else none

/-- The character that starts with the byte `b`, if the bytes after it complete one, with the number of
bytes it takes beyond the first. -/
def multibyte? (b : UInt8) (t : Text) : Option (Char × Nat) :=
  let n := b.toNat
  if n < 0xC0 then none
  else if n < 0xE0 then
    match t with
    | b₁ :: _ => do
      let c₁ ← continuation? b₁
      let c ← scalar? 0x80 (n % 32 * 64 + c₁)
      return (c, 1)
    | _ => none
  else if n < 0xF0 then
    match t with
    | b₁ :: b₂ :: _ => do
      let c₁ ← continuation? b₁
      let c₂ ← continuation? b₂
      let c ← scalar? 0x800 ((n % 16 * 64 + c₁) * 64 + c₂)
      return (c, 2)
    | _ => none
  else if n < 0xF8 then
    match t with
    | b₁ :: b₂ :: b₃ :: _ => do
      let c₁ ← continuation? b₁
      let c₂ ← continuation? b₂
      let c₃ ← continuation? b₃
      let c ← scalar? 0x10000 (((n % 8 * 64 + c₁) * 64 + c₂) * 64 + c₃)
      return (c, 3)
    | _ => none
  else none

/-- The rune that starts with the byte `b`, and how many further bytes it takes. -/
def leadRune (b : UInt8) (t : Text) : Rune × Nat :=
  if b < 0x80 then (.char (Char.ofNat b.toNat), 0)
  else
    match multibyte? b t with
    | some (c, k) => (.char c, k)
    | none => (.stray b, 0)

/-- The runes of a text once the next `skip` bytes are passed over. -/
def runesAfter : Nat → Text → List Rune
  | _, [] => []
  | 0, b :: t =>
    let (r, k) := leadRune b t
    r :: runesAfter k t
  | skip + 1, _ :: t => runesAfter skip t

def runes (t : Text) : List Rune := runesAfter 0 t

def ofRunes (rs : List Rune) : Text := rs.flatMap Rune.bytes

/-- The characters of a text, each stray byte read as the replacement character. -/
def chars (t : Text) : List Char := (runes t).map Rune.toChar

def ofChars (cs : List Char) : Text := cs.flatMap ofChar

/-- The text as it is shown: valid UTF-8, each stray byte as a replacement character. -/
def display (t : Text) : String := String.ofList (chars t)

/-- The text with each stray byte replaced by the bytes of the replacement character. -/
def wellFormed (t : Text) : Text := ofChars (chars t)

def runeCount (t : Text) : Nat := (runes t).length

/-- Small letters for capital ones, and for the two other characters whose small form is an ASCII letter. -/
def lower (t : Text) : Text :=
  (runes t).flatMap fun
    | .char c =>
      if c.toNat = 0x130 then [105]
      else if c.toNat = 0x212A then [107]
      else (ofChar c).map (fun b => if c.toNat < 0x80 then lowerByte b else b)
    | .stray b => [b]

/-- The form under which texts that differ only in the case of ASCII letters agree, together with the two
other characters that count as an ASCII letter in another case. -/
def caseFold (t : Text) : Text :=
  (runes t).flatMap fun
    | .char c =>
      if c.toNat = 0x17F then [115]
      else if c.toNat = 0x212A then [107]
      else (ofChar c).map (fun b => if c.toNat < 0x80 then lowerByte b else b)
    | .stray b => [b]

end Text

end Abacus
