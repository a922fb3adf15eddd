import Abacus.Text.Space
import Abacus.Token

/-!
# Scanning

A scanner hands out the tokens of a source one at a time. It reads characters only until a token is ready,
so its line counter and its diagnostics can be ahead of the token handed out. A line break is handed out
only after a token that is no line break.
-/

namespace Abacus

/-- Characters that end a lexeme and are tokens themselves. -/
def separators : List Char := [',', '(', ')', '=', '+', '-', '*', '/', '^', '<', '>', '|', '&']

/-- ASCII letters, digits, the underscore and the point: what lexemes longer than one character are made of. -/
def isLexemeChar (c : Char) : Bool := c.isAlphanum || c = '_' || c = '.'

/-- The state between two calls. `pending` is the unfinished lexeme, last character first; `ready` holds
tokens that are read but not yet handed out. -/
structure Scanner where
  rest : List Char
  line : Nat
  pending : List Char
  ready : List Token
  last : Option Token
  diagnostics : Array Token
deriving Repr

namespace Scanner

/-- A scanner at the start of a source; stray bytes are read as replacement characters. -/
def start (source : Text) : Scanner :=
  { rest := source.chars, line := 1, pending := [], ready := [], last := none, diagnostics := #[] }

/-- Makes a lexeme ready as a token, and notes it if its kind is unknown. -/
def emit (s : Scanner) (lexeme : Text) : Scanner :=
  let tok : Token := ⟨classify lexeme, lexeme, s.line⟩
  { s with
    ready := s.ready ++ [tok]
    diagnostics := if tok.kind = .unknown then s.diagnostics.push tok else s.diagnostics }

def flush (s : Scanner) : Scanner :=
  if s.pending.isEmpty then s
  else { s.emit (Text.ofChars s.pending.reverse) with pending := [] }

def step (s : Scanner) (c : Char) : Scanner :=
  if c = '\n' then
    let s := s.flush.emit Token.lineBreak
    { s with line := s.line + 1 }
  else if isSpace c then s.flush
  else if separators.contains c then s.flush.emit (Text.ofChar c)
  else if isLexemeChar c then { s with pending := c :: s.pending }
  else s.flush.emit (Text.ofChar c)

/-- No line break is handed out now: at the start, and right after another one. -/
def suppressesBreak (s : Scanner) : Bool :=
  match s.last with
  | none => true
  | some t => t.isLineBreak

/-- The ready tokens that are going to be handed out. -/
def surfacing (s : Scanner) : List Token :=
  if s.suppressesBreak then s.ready.dropWhile Token.isLineBreak else s.ready

/-- Reads on through the characters `cs` until a token surfaces. -/
def nextOver (s : Scanner) : List Char → Token × Scanner
  | [] =>
    match s.surfacing with
    | tok :: more => (tok, { s with rest := [], ready := more, last := some tok })
    | [] =>
      -- Only a lexeme can be left over, so no line break is suppressed here.
      let s := { s with ready := [] }.flush
      match s.ready with
      | tok :: more => (tok, { s with rest := [], ready := more, last := some tok })
      | [] => (Token.eof s.line, { s with rest := [] })
  | c :: cs =>
    match s.surfacing with
    | tok :: more => (tok, { s with rest := c :: cs, ready := more, last := some tok })
    | [] => nextOver ({ s with ready := [] }.step c) cs

/-- The next token; at the end of the source, the end-of-input token for ever. -/
def next (s : Scanner) : Token × Scanner := s.nextOver s.rest

/-- The tokens that at most `calls` calls hand out before the end of the input. -/
def drain : Nat → Scanner → List Token
  | 0, _ => []
  | calls + 1, s =>
    let (tok, s') := s.next
    if tok.kind = .endOfInput then [] else tok :: drain calls s'

end Scanner

/-- All tokens of a source. A token has at least one character, so there are no more tokens than those. -/
def tokenize (source : Text) : List Token :=
  let s := Scanner.start source
  s.drain s.rest.length

end Abacus
