import Abacus.Text.Printable
import Abacus.Text.Utf8

/-!
# Quoted text

A text between double quotes in which every byte can be told: printable characters stand for themselves,
the rest is escaped, and a stray byte is written in hexadecimal. A quoted text is one line.
-/

namespace Abacus

namespace Quoted

/-- The letter that stands for a control character after a backslash. -/
def controlLetter? (c : Char) : Option Char :=
  match c.toNat with
  | 0x07 => some 'a'
  | 0x08 => some 'b'
  | 0x09 => some 't'
  | 0x0A => some 'n'
  | 0x0B => some 'v'
  | 0x0C => some 'f'
  | 0x0D => some 'r'
  | _ => none

/-- One character as it stands between quotes; `printable` decides beyond ASCII. -/
def escapeChar (printable : Char → Bool) (c : Char) : Text :=
  if c = '"' || c = '\\' then 92 :: Text.ofChar c
  else if printable c then Text.ofChar c
  else
    match controlLetter? c with
    | some l => 92 :: Text.ofChar l
    | none =>
      if c.toNat < 0x80 then ("\\x" : Text) ++ Text.hex 2 c.toNat
      else if c.toNat < 0x10000 then ("\\u" : Text) ++ Text.hex 4 c.toNat
      else ("\\U" : Text) ++ Text.hex 8 c.toNat

def escapeRune (printable : Char → Bool) : Rune → Text
  | .char c => escapeChar printable c
  | .stray b => ("\\x" : Text) ++ Text.hex 2 b.toNat

end Quoted

/-- The text between double quotes, with escapes. -/
def Text.quoted (t : Text) : Text :=
  34 :: ((Text.runes t).flatMap (Quoted.escapeRune isPrintable) ++ [34])

/-- A character between single quotes, with escapes. -/
def Quoted.single (c : Char) : Text :=
  let inner : Text :=
    if c = '\'' then "\\'"
    else if c = '"' then "\""
    else Quoted.escapeChar isPrintable c
  39 :: (inner ++ [39])

end Abacus
