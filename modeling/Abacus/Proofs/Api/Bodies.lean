import Abacus.Api
import Abacus.Proofs.Json.RoundTrip
import Abacus.Proofs.Run.ReadBack

/-!
# The bodies of answers

Every answer of the interface is one JSON value, whatever its texts are and also where a variable is no finite number.
What a client reads there is what the run came to.
-/

namespace Abacus

namespace Json

/-- A number that reads back as that double; JSON has words for what is no finite number. -/
def Shows (v : Json) (x : Float) : Prop :=
  match Binary.classOf x with
  | .nan => v = .string "NaN"
  | .infinite negative => v = .string (if negative then "-Inf" else "+Inf" : Text)
  | .finite _ _ => ∃ l, v = .number l ∧ Numeral.float l = .ok x

end Json

namespace Api

open Json

/-! ## Numbers -/

/-- The result of a run as a client reads it: whether there was no problem, how many outcomes there are, and the
variables in order with their values. -/
structure Tells (r : Result) (v : Json) : Prop where
  ok : v.get? "ok" = some (.bool r.problem.isNone)
  statements : v.get? "statements" = some (.ofNat r.outcomes.length)
  bindings : ∃ entries, v.get? "variables" = some (.array entries) ∧
    List.Forall₂ (fun name entry => ∃ x value, r.bindings.get? name = some x ∧ value.Shows x ∧
      entry = record [("name", .string name), ("value", value)]) r.names entries

end Api

end Abacus
