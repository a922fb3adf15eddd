import Abacus.Automaton
import Abacus.Text.Quoted

/-!
# Tokens

A token is a lexeme with its kind and the line it starts on. `classify` gives every lexeme a kind: the
fixed words first, then the two automata.
-/

namespace Abacus

/-- The lexical category of a token; codes beyond the named ones are kept as they are. -/
inductive Kind where
  | endOfInput
  | reservedWord
  | identifier
  | number
  | operator
  | symbol
  | unknown
  | other (code : Nat)
deriving DecidableEq, Repr

namespace Kind

def ofCode : Nat → Kind
  | 0 => .endOfInput
  | 1 => .reservedWord
  | 2 => .identifier
  | 3 => .number
  | 4 => .operator
  | 5 => .symbol
  | 6 => .unknown
  | n => .other n

def name : Kind → Text
  | .endOfInput => "EndOfInput"
  | .reservedWord => "ReservedWord"
  | .identifier => "Identifier"
  | .number => "Number"
  | .operator => "Operator"
  | .symbol => "Symbol"
  | .unknown => "Unknown"
  | .other n => ("Kind(" : Text) ++ Text.ofNat n ++ (")" : Text)

end Kind

structure Token where
  kind : Kind
  text : Text
  line : Int
deriving DecidableEq, Repr

namespace Token

/-- Kind, quoted text and line. -/
def render (t : Token) : Text :=
  t.kind.name ++ (", " : Text) ++ t.text.quoted ++ (", " : Text) ++ Text.ofInt t.line

def listing (ts : List Token) : Text := Text.unlines (ts.map render)

def is (t : Token) (kind : Kind) (text : Text) : Bool := t.kind == kind && t.text == text

def lineBreak : Text := [10]

def isLineBreak (t : Token) : Bool := t.is .symbol lineBreak

def eof (line : Int) : Token := ⟨.endOfInput, "EOF", line⟩

end Token

/-! ## Classification -/

/-- Words that are no variable names. -/
def reservedWords : List Text :=
  ["entero", "falso", "fmientras", "fsi", "imprime", "mientras", "real", "si", "sino", "verdadero"]

def operatorTexts : List Text := ["&", "*", "+", "-", "/", "<", "=", ">", "|"]

def symbolTexts : List Text := ["\n", "(", ")", ","]

/-- The kind of a lexeme: the first rule that applies. -/
def classify (t : Text) : Kind :=
  if reservedWords.contains t then .reservedWord
  else if Automaton.identifier.accepts t then .identifier
  else if Automaton.number.accepts t then .number
  else if operatorTexts.contains t then .operator
  else if symbolTexts.contains t then .symbol
  else .unknown

end Abacus
