import Abacus.Environment
import Abacus.Expr
import Abacus.Fault
import Abacus.Text.Quoted

/-!
# Evaluation

Both operands of an operation are evaluated, the left one first, before the operation itself.
-/

namespace Abacus

namespace Fault

def undefinedVariable (name : Text) : Fault :=
  (of .undefinedVariable (("variable " : Text) ++ name ++ (" is not defined" : Text))).attach variableKey (.text name)

def divisionByZero : Fault := of .divisionByZero "division by zero"

def unknownOperator (op : Operator) : Fault :=
  of .unknownOperator (("unknown operator " : Text) ++ op.text.quoted)

def emptyExpression : Fault := of .internal "nil expression"

end Fault

namespace Operator

/-- Division by a zero of either sign is a fault. -/
def apply (op : Operator) (left right : Float) : Except Fault Float :=
  if op = add then .ok (left + right)
  else if op = sub then .ok (left - right)
  else if op = mul then .ok (left * right)
  else if op = div then if right == 0.0 then .error .divisionByZero else .ok (left / right)
  else .error (.unknownOperator op)

end Operator

namespace Expr

def eval (env : Environment) : Expr → Except Fault Float
  | .number x => .ok x
  | .variable name =>
    match env.get? name with
    | some x => .ok x
    | none => .error (.undefinedVariable name)
  | .binary op l r => do
    let x ← l.eval env
    let y ← r.eval env
    op.apply x y
  | .hole => .error .emptyExpression

end Expr

end Abacus
