import Abacus.Text.Bytes

/-!
# Environments

The variables of one run with their values, in the order of their first assignment.
-/

namespace Abacus

structure Environment where
  entries : List (Text × Float)

namespace Environment

def empty : Environment := ⟨[]⟩

instance : Inhabited Environment := ⟨empty⟩

/-- Replaces the value of a name where it stands, or adds the name at the end. -/
def setEntry (name : Text) (value : Float) : List (Text × Float) → List (Text × Float)
  | [] => [(name, value)]
  | (n, v) :: rest => if n = name then (n, value) :: rest else (n, v) :: setEntry name value rest

def set (e : Environment) (name : Text) (value : Float) : Environment := ⟨setEntry name value e.entries⟩

def get? (e : Environment) (name : Text) : Option Float := e.entries.lookup name

/-- Names in order of first assignment. -/
def names (e : Environment) : List Text := e.entries.map Prod.fst

def size (e : Environment) : Nat := e.entries.length

end Environment

end Abacus
