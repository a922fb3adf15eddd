import Abacus.Text.Utf8

/-!
# Retrying

A database that is locked may be free a moment later, so an operation on it is tried several times. Any other
failure ends the attempts.
-/

namespace Abacus

namespace Retry

def maxAttempts : Nat := 5

/-- A failure that tells of a lock. -/
def isLock (message : Text) : Bool :=
  let t := Text.lower message
  Text.hasPart "database is locked" t || Text.hasPart "busy" t

/-- Attempt number `k` and at most `left` more after it: how many were made in all, and the last failure. -/
def attemptsFrom (attempt : Nat → Option Text) (k : Nat) : Nat → Nat × Option Text
  | 0 => (k, attempt k)
  | left + 1 =>
    match attempt k with
    | none => (k, none)
    | some e => if isLock e then attemptsFrom attempt (k + 1) left else (k, some e)

/-- Tries an operation; a failure is reported under its name. -/
def run (operation : Text) (attempt : Nat → Option Text) : Nat × Option Text :=
  let (calls, failure) := attemptsFrom attempt 1 (maxAttempts - 1)
  (calls, failure.map fun e => operation ++ (": " : Text) ++ e)

end Retry

end Abacus
