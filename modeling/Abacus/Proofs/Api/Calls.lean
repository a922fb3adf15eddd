import Mathlib.Data.List.Induction
import Abacus.Api

/-!
# What a request calls for

A body is decoded if the members that are used are texts, and the call then carries them: under each name the last text,
with the name in any case. A run that names no source comes from the interface itself.
-/

namespace Abacus

namespace Api

/-! ## Members -/

/-- There is no text under the name. -/
def Lacks (ms : List (Text × Json)) (name : Text) : Prop := ∀ m ∈ ms, m.1.caseFold = name → ∀ t, m.2 ≠ .string t

/-- The text that members have under a name: the last one, or the empty text where there is none. -/
inductive Says (ms : List (Text × Json)) (name : Text) : Text → Prop where
  | last {before after : List (Text × Json)} {key t : Text} (split : ms = before ++ (key, .string t) :: after)
      (named : key.caseFold = name) (final : Lacks after name) : Says ms name t
  | absent (lacks : Lacks ms name) : Says ms name []

section
variable {ms : List (Text × Json)} {name : Text}

section
variable {after : List (Text × Json)} (h : Lacks after name)
include h

theorem Says.append {t : Text} (hs : Says ms name t) : Says (ms ++ after) name t := by
  cases hs with
  | @last before rest key t split named final =>
      have hsplit : ms ++ after = before ++ (key, .string t) :: (rest ++ after) := by
        rw [split, List.append_assoc, List.cons_append]
      exact .last hsplit named fun m hm => (List.mem_append.mp hm).elim (final m) (h m)
  | absent lacks => exact .absent fun m hm => (List.mem_append.mp hm).elim (lacks m) (h m)

end

end

/-! ## Calls -/

end Api

end Abacus
