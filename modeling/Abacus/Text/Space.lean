import Abacus.Text.Utf8

/-!
# White space

The characters with the Unicode property White_Space, and trimming them off both ends of a text.
-/

namespace Abacus

/-- White space: the ASCII blanks, the next-line and no-break space, and the Unicode spaces. -/
def isSpace (c : Char) : Bool :=
  let n := c.toNat
  (0x09 ≤ n && n ≤ 0x0D) || n == 0x20 || n == 0x85 || n == 0xA0 || n == 0x1680
    || (0x2000 ≤ n && n ≤ 0x200A) || n == 0x2028 || n == 0x2029 || n == 0x202F || n == 0x205F || n == 0x3000

namespace Rune

/-- A stray byte is never white space. -/
def isSpace : Rune → Bool
  | .char c => Abacus.isSpace c
  | .stray _ => false

end Rune

namespace Text

def trim (t : Text) : Text :=
  ofRunes (((runes t).dropWhile Rune.isSpace).reverse.dropWhile Rune.isSpace).reverse

/-- Nothing but white space. -/
def isBlank (t : Text) : Bool := (trim t).isEmpty

end Text

end Abacus
