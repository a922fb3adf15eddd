import Abacus.History.Store
import Abacus.Run

/-!
# Health

Whether the parts of the program work: the engine, by scanning a small expression, and the history, by reaching its
database.
-/

namespace Abacus

def version : Text := "1.0.0"

def versionText : Text := ("calcscript v" : Text) ++ version

structure Health where
  status : Text
  /-- What is said of each part, in order of the names. -/
  components : List (Text × Text)

namespace Health

def probe : Text := "1 + 1"

/-- Checks an interpreter and a store; either may be missing. -/
def check (interpreter : Option Interpreter) (store : Option Store) (interrupted : Option Interruption) : Health :=
  let (status, engine) : Text × Text :=
    match interpreter with
    | none => ("down", "missing")
    | some i =>
      let n := (i.tokens probe).length
      if n = 3 then ("up", ("ok (max depth " : Text) ++ Text.ofNat i.limit ++ (")" : Text))
      else ("degraded", ("unexpected token count " : Text) ++ Text.ofNat n)
  let (status, history) : Text × Text :=
    match store with
    | none => (status, "disabled")
    | some s =>
      match s.ping interrupted with
      | some e => ("degraded", ("unreachable: " : Text) ++ e.message)
      | none => (status, "ok")
  ⟨status, [("engine", engine), ("history", history)]⟩

end Health

end Abacus
