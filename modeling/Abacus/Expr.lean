import Abacus.Decimal.Layout

/-!
# Expressions

Trees of numbers, variables and binary operations. An operator is any byte; four of them mean something. A
hole is a missing operand.
-/

namespace Abacus

/-- The byte of an operator. -/
structure Operator where
  byte : UInt8
deriving DecidableEq, Repr

namespace Operator

def add : Operator := ⟨43⟩

def sub : Operator := ⟨45⟩

def mul : Operator := ⟨42⟩

def div : Operator := ⟨47⟩

/-- The character whose code is the byte. -/
def text (o : Operator) : Text := Text.ofChar (Char.ofNat o.byte.toNat)

/-- The arithmetic operator that a text spells. -/
def ofText? : Text → Option Operator
  | [b] => if [add, sub, mul, div].contains ⟨b⟩ then some ⟨b⟩ else none
  | _ => none

end Operator

inductive Expr where
  | number (value : Float)
  | variable (name : Text)
  | binary (op : Operator) (left right : Expr)
  | hole

namespace Expr

/-- The tree with every operation in parentheses. -/
def render : Expr → Text
  | .number x => showValue x
  | .variable name => name
  | .binary op l r => (40 :: l.render) ++ (32 :: op.text) ++ (32 :: r.render) ++ [41]
  | .hole => "<nil>"

/-- The height of the tree; a number or variable has depth one. -/
def depth : Expr → Nat
  | .number _ => 1
  | .variable _ => 1
  | .binary _ l r => 1 + max l.depth r.depth
  | .hole => 0

end Expr

end Abacus
