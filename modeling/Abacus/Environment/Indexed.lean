import Abacus.Environment
import Std.Data.HashMap.Basic

/-!
# Environments with an index

An environment in two parts: a map, where the value of a name is found at once, and the names in the order of
their first assignment. Both change together.
-/

namespace Abacus.Environment

structure Indexed where
  values : Std.HashMap Text Float
  order : Array Text

namespace Indexed

def empty : Indexed := ⟨∅, #[]⟩

instance : Inhabited Indexed := ⟨empty⟩

def get? (e : Indexed) (name : Text) : Option Float := e.values[name]?

/-- Overwrites the value of a name. A name that has none yet also goes to the end of the order. -/
def set (e : Indexed) (name : Text) (value : Float) : Indexed where
  values := e.values.insert name value
  order := if e.values.contains name then e.order else e.order.push name

def reset (_ : Indexed) : Indexed := ⟨∅, #[]⟩

def size (e : Indexed) : Nat := e.values.size

def names (e : Indexed) : List Text := e.order.toList

/-- A map of its own, with the values of this moment. -/
def snapshot (e : Indexed) : Std.HashMap Text Float :=
  e.values.fold (fun copy name value => copy.insert name value) ∅

/-- The names with their values, in order. -/
def toEnvironment (e : Indexed) : Environment :=
  ⟨e.names.filterMap fun name => (e.get? name).map fun value => (name, value)⟩

end Indexed

end Abacus.Environment
