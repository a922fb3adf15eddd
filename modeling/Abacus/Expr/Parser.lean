import Abacus.Decimal.Read
import Abacus.Expr
import Abacus.Fault
import Abacus.Token

/-!
# Parsing expressions

A parser reads tokens with one token of lookahead:

    expression = term, then perhaps + or - and an expression
    term       = factor, then perhaps * or / and a term
    factor     = ( expression ), a number or an identifier

so all four operators group to the right. Every expression and term opens a level, and only so many may be
open at a time. A level refused by that limit is still counted as open afterwards.
-/

namespace Abacus

/-- The state of a parser. `depth` counts the open levels. -/
structure Parser where
  rest : List Token
  endLine : Int
  current : Token
  depth : Nat
  limit : Nat
  failed : Bool

namespace Parser

def defaultLimit : Nat := 512

/-- A parser before the first token. The end of the input is on the line of the last token. -/
def start (tokens : List Token) (limit : Nat) : Parser :=
  { rest := tokens
    endLine := (tokens.getLast?.map Token.line).getD 1
    current := ⟨.endOfInput, [], 0⟩
    depth := 0
    limit
    failed := false }

def advance (p : Parser) : Parser :=
  match p.rest with
  | tok :: rest => { p with current := tok, rest }
  | [] => { p with current := Token.eof p.endLine }

def enter (p : Parser) : Parser := { p with depth := p.depth + 1 }

def leave (p : Parser) : Parser := { p with depth := p.depth - 1 }

/-! ## Faults -/

def describe (t : Token) : Text :=
  if t.kind = .endOfInput then "end of input" else t.kind.name ++ (32 :: t.text.quoted)

/-- A fault at the current token. -/
def faultAt (p : Parser) (code : Code) (message : Text) : Fault :=
  ((Fault.of code message).attach Fault.tokenKey (.text p.current.text)).attach Fault.lineKey (.int p.current.line)

def fail (p : Parser) (f : Fault) : Except Fault Expr × Parser := (.error f, { p with failed := true })

/-- The current token fits nowhere; a token of unknown kind is the scanner's fault. -/
def unexpectedFault (p : Parser) : Fault :=
  if p.current.kind = .unknown then
    p.faultAt .lexical (("unrecognized token " : Text) ++ p.current.text.quoted)
  else p.faultAt .syntactic (("unexpected " : Text) ++ describe p.current)

def unclosedFault (p : Parser) : Fault :=
  p.faultAt .syntactic (("expected \")\" but found " : Text) ++ describe p.current)

def numberFault (p : Parser) : Fault :=
  p.faultAt .syntactic (("invalid number " : Text) ++ p.current.text.quoted)

def trailingFault (p : Parser) : Fault :=
  p.faultAt .syntactic (("unexpected " : Text) ++ p.current.text.quoted ++ (" after expression" : Text))

def nestingFault (p : Parser) : Fault :=
  (Fault.of .syntactic "expression too deeply nested").attach Fault.lineKey (.int p.current.line)

/-! ## Lookahead -/

/-- The operator of an operator token, if it is one of `ops`. -/
def operatorIn? (t : Token) (ops : List Operator) : Option Operator :=
  if t.kind = .operator then
    match Operator.ofText? t.text with
    | some op => if ops.contains op then some op else none
    | none => none
  else none

def sum? (t : Token) : Option Operator := operatorIn? t [.add, .sub]

def product? (t : Token) : Option Operator := operatorIn? t [.mul, .div]

/-- An expression ends before a closing parenthesis and at the end of the input. -/
def closes (t : Token) : Bool := t.is .symbol ")" || t.kind == .endOfInput

/-! ## Rules -/

/-- Reads a factor; `inner` reads what stands in parentheses. -/
def factor (inner : Parser → Except Fault Expr × Parser) (p : Parser) : Except Fault Expr × Parser :=
  match p.current.kind with
  | .symbol =>
    if p.current.text = ("(" : Text) then
      match inner p.advance with
      | (.error f, p) => (.error f, p)
      | (.ok e, p) => if p.current.is .symbol ")" then (.ok e, p.advance) else p.fail p.unclosedFault
    else p.fail p.unexpectedFault
  | .number =>
    match Numeral.float p.current.text with
    | .ok x => (.ok (.number x), p.advance)
    | .error _ => p.fail p.numberFault
  | .identifier => (.ok (.variable p.current.text), p.advance)
  | _ => p.fail p.unexpectedFault

mutual

/-- Reads an expression with `room` levels left to open. -/
def expression : Nat → Parser → Except Fault Expr × Parser
  -- The refused level is never left: the ways below are the only ones that close what they opened.
  | 0, p => p.enter.fail p.nestingFault
  | room + 1, p =>
    match term room p.enter with
    | (.error f, p) => (.error f, p.leave)
    | (.ok left, p) =>
      match sum? p.current with
      | some op =>
        match expression room p.advance with
        | (.error f, p) => (.error f, p.leave)
        | (.ok right, p) => (.ok (.binary op left right), p.leave)
      | none =>
        if closes p.current then (.ok left, p.leave)
        else p.leave.fail p.unexpectedFault

/-- Reads a term with `room` levels left to open. -/
def term : Nat → Parser → Except Fault Expr × Parser
  | 0, p => p.enter.fail p.nestingFault
  | room + 1, p =>
    match factor (expression room) p.enter with
    | (.error f, p) => (.error f, p.leave)
    | (.ok left, p) =>
      match product? p.current with
      | some op =>
        match term room p.advance with
        | (.error f, p) => (.error f, p.leave)
        | (.ok right, p) => (.ok (.binary op left right), p.leave)
      | none =>
        if (sum? p.current).isSome || closes p.current then (.ok left, p.leave)
        else p.leave.fail p.unexpectedFault

end

/-- Why the tokens are no expression. Where only something follows a complete tree, the tree is kept. -/
structure Rejection where
  fault : Fault
  tree : Option Expr

/-- Reads one expression, which must end at the end of the input. -/
def parse (p : Parser) : Except Rejection Expr × Parser :=
  let p := p.advance
  match expression (p.limit - p.depth) p with
  | (.error f, p) => (.error ⟨f, none⟩, p)
  | (.ok e, p) =>
    match p.current.kind with
    | .endOfInput => (.ok e, p)
    | .unknown => (.error ⟨p.unexpectedFault, some e⟩, { p with failed := true })
    | _ => (.error ⟨p.trailingFault, some e⟩, { p with failed := true })

end Parser

def parse (tokens : List Token) (limit : Nat) : Except Fault Expr :=
  (Parser.start tokens limit).parse.1.mapError Parser.Rejection.fault

end Abacus
