import Abacus.Text.Quoted

/-!
# TOML

The values and lines of a TOML document as they are written. A key is a path of names.
-/

namespace Abacus.Toml

abbrev Key := List Text

inductive Value where
  | string (t : Text)
  | integer (n : Int)
  | float (x : Float)
  | bool (b : Bool)
  | datetime
  | array (items : List Value)
  | inline (pairs : List (Key × Value))

/-- One line of a document that says something. -/
inductive Line where
  | table (key : Key)
  | tableArray (key : Key)
  | pair (key : Key) (value : Value)

def isBareChar (c : Char) : Bool := c.isAlphanum || c = '_' || c = '-'

/-- A character of a quoted name. -/
def escapeKeyRune : Rune → Text
  | .stray b => [b]
  | .char c =>
    let n := c.toNat
    if c = '"' then "\\\""
    else if c = '\\' then "\\\\"
    else if n = 8 then "\\b"
    else if n = 9 then "\\t"
    else if n = 10 then "\\n"
    else if n = 12 then "\\f"
    else if n = 13 then "\\r"
    else if n < 0x20 || n = 0x7F then ("\\u" : Text) ++ Text.hex 4 n
    else Text.ofChar c

/-- A name as it would stand in a key: bare if it can. -/
def renderName (name : Text) : Text :=
  if !name.isEmpty && name.chars.all isBareChar then name
  else 34 :: (name.runes.flatMap escapeKeyRune ++ [34])

def renderKey (key : Key) : Text := Text.join "." (key.map renderName)

end Abacus.Toml
