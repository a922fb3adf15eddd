import Abacus.Text.Bytes

/-!
# Spans

A span is one traced piece of work. Its status is an error exactly when it has a failure text.
-/

namespace Abacus

structure Span where
  name : Text
  parent : Option Text
  failure : Option Text
  attributes : List (Text × Text)
  exceptions : List Text
deriving DecidableEq, Repr

namespace Span

def status (s : Span) : Text := if s.failure.isSome then "Error" else "Unset"

def description (s : Span) : Text := s.failure.getD []

end Span

end Abacus
