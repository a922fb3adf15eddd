import Abacus.Decimal.Layout
import Abacus.Text.Quoted
import Abacus.Text.Space

/-!
# Log lines

A log record has a level, a message and named values, and is written as one line of `name=value` pairs. A
value that could be misread is quoted.
-/

namespace Abacus

inductive Level where
  | debug
  | info
  | warn
  | error
deriving DecidableEq, Repr

namespace Level

def name : Level → Text
  | .debug => "DEBUG"
  | .info => "INFO"
  | .warn => "WARN"
  | .error => "ERROR"

def rank : Level → Nat
  | .debug => 0
  | .info => 1
  | .warn => 2
  | .error => 3

end Level

inductive LogValue where
  | text (t : Text)
  | int (n : Int)
  | float (x : Float)
  | list (ts : List Text)

namespace LogValue

def plain : LogValue → Text
  | .text t => t
  | .int n => Text.ofInt n
  | .float x => showValue x
  | .list ts => (91 :: Text.join " " ts) ++ [93]

end LogValue

structure LogRecord where
  level : Level
  message : Text
  values : List (Text × LogValue)

namespace LogRecord

/-- A rune that forces quotes: a blank, an equals sign, a double quote, a control character, and beyond
ASCII whatever is white space, unprintable or no character. -/
def forcesQuotes : Rune → Bool
  | .stray _ => true
  | .char c =>
    let n := c.toNat
    if n < 0x80 then n ≤ 0x20 || c = '=' || c = '"'
    else n == 0xFFFD || isSpace c || !isPrintable c

def field (t : Text) : Text := if t.isEmpty || t.runes.any forcesQuotes then t.quoted else t

def render (r : LogRecord) : Text :=
  let part : Text × LogValue → Text := fun (k, v) => (32 :: field k) ++ (61 :: field v.plain)
  ("level=" : Text) ++ r.level.name ++ (" msg=" : Text) ++ field r.message ++ r.values.flatMap part ++ [10]

def renderFrom (least : Level) (rs : List LogRecord) : Text :=
  (rs.filter (fun r => least.rank ≤ r.level.rank)).flatMap render

end LogRecord

end Abacus
