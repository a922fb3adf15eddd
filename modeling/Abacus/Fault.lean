import Abacus.Text.Bytes

/-!
# Faults and problems

A fault is what goes wrong in a script or a request: a code, a message, and a context of named details. A
problem is an error as it travels: a fault, plain text, or either under further notes. Only the first fault
of a problem gives it its code and takes new details.
-/

namespace Abacus

/-- What kind of fault; texts beyond the named codes are kept as they are. -/
inductive Code where
  | lexical
  | syntactic
  | undefinedVariable
  | divisionByZero
  | unknownOperator
  | notFound
  | validation
  | internal
  | rateLimited
  | other (name : Text)
deriving DecidableEq, Repr

inductive Family where
  | none
  | lexical
  | syntactic
  | semantic
deriving DecidableEq, Repr

namespace Family

def name : Family → Text
  | .none => "Error"
  | .lexical => "LexicalError"
  | .syntactic => "SyntaxError"
  | .semantic => "SemanticError"

end Family

namespace Code

def all : List Code :=
  [.lexical, .syntactic, .undefinedVariable, .divisionByZero, .unknownOperator, .notFound, .validation,
    .internal, .rateLimited]

def name : Code → Text
  | .lexical => "LEXICAL_ERROR"
  | .syntactic => "SYNTAX_ERROR"
  | .undefinedVariable => "UNDEFINED_VARIABLE"
  | .divisionByZero => "DIVISION_BY_ZERO"
  | .unknownOperator => "UNKNOWN_OPERATOR"
  | .notFound => "NOT_FOUND"
  | .validation => "VALIDATION_ERROR"
  | .internal => "INTERNAL_ERROR"
  | .rateLimited => "RATE_LIMITED"
  | .other t => t

def ofName (t : Text) : Code := (all.find? (fun c => c.name == t)).getD (.other t)

def family : Code → Family
  | .lexical => .lexical
  | .syntactic => .syntactic
  | .undefinedVariable | .divisionByZero | .unknownOperator => .semantic
  | _ => .none

end Code

inductive Detail where
  | text (t : Text)
  | int (n : Int)
  | bool (b : Bool)
  | null
deriving DecidableEq, Repr

def Detail.render : Detail → Text
  | .text t => t
  | .int n => Text.ofInt n
  | .bool b => Text.ofBool b
  | .null => "<nil>"

/-! ## Context -/

/-- Details by name, in ascending order of their names. -/
structure Context where
  entries : List (Text × Detail)
deriving DecidableEq, Repr

namespace Context

def empty : Context := ⟨[]⟩

/-- Puts a detail at its place in the order, or over the one of that name. -/
def insertEntry (key : Text) (value : Detail) : List (Text × Detail) → List (Text × Detail)
  | [] => [(key, value)]
  | (k, v) :: rest =>
    if key < k then (key, value) :: (k, v) :: rest
    else if key = k then (key, value) :: rest
    else (k, v) :: insertEntry key value rest

def insert (c : Context) (key : Text) (value : Detail) : Context := ⟨insertEntry key value c.entries⟩

def find? (c : Context) (key : Text) : Option Detail := c.entries.lookup key

/-- The details in braces, each as `name=value`. -/
def render (c : Context) : Text :=
  let part : Text × Detail → Text := fun (k, v) => k ++ (61 :: v.render)
  123 :: (Text.join " " (c.entries.map part) ++ [125])

end Context

/-! ## Faults -/

structure Fault where
  code : Code
  message : Text
  context : Context
deriving DecidableEq, Repr

namespace Fault

/-- The details that users get to see with a message. -/
def statementKey : Text := "statement"

def lineKey : Text := "line"

def tokenKey : Text := "token"

def variableKey : Text := "variable"

def textKey : Text := "text"

def of (code : Code) (message : Text) : Fault := ⟨code, message, .empty⟩

def attach (f : Fault) (key : Text) (value : Detail) : Fault := { f with context := f.context.insert key value }

/-- Code, message, cause and context on one line. -/
def renderOver (f : Fault) (cause : Option Text) : Text :=
  let head := (91 :: f.code.name) ++ ("] " : Text) ++ f.message
  let because : Text :=
    match cause with
    | some t => (": " : Text) ++ t
    | none => []
  let details : Text := if f.context.entries.isEmpty then [] else 32 :: f.context.render
  head ++ because ++ details

/-- The short text for users: family, message, and where it happened. -/
def userMessage (f : Fault) : Text :=
  let whereAt (key label : Text) : List Text :=
    match f.context.find? key with
    | some v => [label ++ (32 :: v.render)]
    | none => []
  let places := whereAt statementKey "statement" ++ whereAt lineKey "line"
  let tail : Text := if places.isEmpty then [] else (" (" : Text) ++ Text.join ", " places ++ (")" : Text)
  f.code.family.name ++ (": " : Text) ++ f.message ++ tail

end Fault

/-! ## Problems -/

/-- An error with its causes. A note keeps the text it had when it was made. -/
inductive Problem where
  | plain (text : Text)
  | fault (f : Fault)
  | caused (f : Fault) (cause : Problem)
  | noted (text : Text) (cause : Problem)
deriving DecidableEq, Repr

namespace Problem

def render : Problem → Text
  | .plain t => t
  | .fault f => f.renderOver none
  | .caused f cause => f.renderOver (some cause.render)
  | .noted t _ => t

/-- The first fault on the way to the root cause. -/
def firstFault? : Problem → Option Fault
  | .plain _ => none
  | .fault f => some f
  | .caused f _ => some f
  | .noted _ cause => cause.firstFault?

def mapFirstFault (g : Fault → Fault) : Problem → Problem
  | .plain t => .plain t
  | .fault f => .fault (g f)
  | .caused f cause => .caused (g f) cause
  | .noted t cause => .noted t (cause.mapFirstFault g)

/-- One step towards the root cause. -/
def cause? : Problem → Option Problem
  | .plain _ => none
  | .fault _ => none
  | .caused _ cause => some cause
  | .noted _ cause => some cause

/-- A problem without a fault counts as internal. -/
def code (p : Problem) : Code :=
  match p.firstFault? with
  | some f => f.code
  | none => .internal

def family (p : Problem) : Family := p.code.family

def hasCode (p : Problem) (c : Code) : Bool :=
  match p.firstFault? with
  | some f => f.code == c
  | none => false

def userMessage (p : Problem) : Text :=
  match p.firstFault? with
  | some f => f.userMessage
  | none => p.render

/-- The internal fault around what was no fault. -/
def internalWrapper (key : Text) (value : Detail) : Fault := (Fault.of .internal "wrapped error").attach key value

/-- Adds a detail to the first fault, or wraps a problem that has none. -/
def addContext (p : Problem) (key : Text) (value : Detail) : Problem :=
  match p.firstFault? with
  | some _ => p.mapFirstFault (·.attach key value)
  | none => .caused (internalWrapper key value) p

/-- A detail added where there is no problem makes one. -/
def addContextTo (p : Option Problem) (key : Text) (value : Detail) : Problem :=
  match p with
  | some p => p.addContext key value
  | none => .fault (internalWrapper key value)

/-- A fault on top of a problem, or on its own. -/
def wrap (p : Option Problem) (code : Code) (message : Text) : Problem :=
  match p with
  | some p => .caused (.of code message) p
  | none => .fault (.of code message)

/-- A note in front that can be looked through. -/
def note (p : Option Problem) (message : Text) : Problem :=
  match p with
  | some p => .noted (message ++ (": " : Text) ++ p.render) p
  | none => .plain (message ++ (": %!w(<nil>)" : Text))

/-- A note in front that hides what it stands on. -/
def obscure (p : Option Problem) (message : Text) : Problem :=
  match p with
  | some p => .plain (message ++ (": " : Text) ++ p.render)
  | none => .plain (message ++ (": <nil>" : Text))

end Problem

/-- Why work is broken off from outside: whoever asked for it has gone, or its time is up. -/
inductive Interruption where
  | cancelled
  | deadline
deriving DecidableEq, Repr

namespace Interruption

def message : Interruption → Text
  | .cancelled => "context canceled"
  | .deadline => "context deadline exceeded"

def problem (why : Interruption) : Problem := .plain why.message

end Interruption

/-- The name of a problem's code; empty where there is no problem. -/
def codeNameOf : Option Problem → Text
  | some p => p.code.name
  | none => []

def familyOf : Option Problem → Family
  | some p => p.family
  | none => .none

end Abacus
