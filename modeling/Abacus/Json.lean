import Abacus.Text.Utf8

/-!
# JSON values

Values with their object members in order and their numbers as written, and the text of a value. Text is
written so that it may stand inside HTML.
-/

namespace Abacus

inductive Json where
  | null
  | bool (b : Bool)
  | number (literal : Text)
  | string (t : Text)
  | array (items : List Json)
  | object (members : List (Text × Json))

namespace Json

def ofInt (n : Int) : Json := .number (Text.ofInt n)

def ofNat (n : Nat) : Json := .number (Text.ofNat n)

/-- The member of that name; of several the last. -/
def get? : Json → Text → Option Json
  | .object ms, key => ms.reverse.lookup key
  | _, _ => none

/-- One rune inside a string. -/
def escape : Rune → Text
  | .stray _ => "\\ufffd"
  | .char c =>
    let n := c.toNat
    if c = '"' then "\\\""
    else if c = '\\' then "\\\\"
    else if n = 8 then "\\b"
    else if n = 9 then "\\t"
    else if n = 10 then "\\n"
    else if n = 12 then "\\f"
    else if n = 13 then "\\r"
    else if n < 0x20 || c = '<' || c = '>' || c = '&' || n = 0x2028 || n = 0x2029 then
      ("\\u" : Text) ++ Text.hex 4 n
    else Text.ofChar c

def quote (t : Text) : Text := 34 :: (t.runes.flatMap escape ++ [34])

mutual

/-- The value without blanks. -/
def render : Json → Text
  | .null => "null"
  | .bool b => Text.ofBool b
  | .number l => l
  | .string t => quote t
  | .array items => (91 :: renderItems items) ++ [93]
  | .object members => (123 :: renderMembers members) ++ [125]

def renderItems : List Json → Text
  | [] => []
  | [v] => v.render
  | v :: vs => v.render ++ (44 :: renderItems vs)

def renderMembers : List (Text × Json) → Text
  | [] => []
  | [(k, v)] => quote k ++ (58 :: v.render)
  | (k, v) :: ms => quote k ++ (58 :: v.render) ++ (44 :: renderMembers ms)

end

end Json

end Abacus
