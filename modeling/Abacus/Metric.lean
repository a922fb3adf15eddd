import Abacus.Fault
import Abacus.Token

/-!
# Metrics

Counters of what the program does. A stretch of work yields the list of its increments; the value of a
counter is the number of times it occurs there.
-/

namespace Abacus

/-- The steps that every statement goes through. -/
inductive Stage where
  | scan
  | parse
  | evaluate
deriving DecidableEq, Repr

def Stage.name : Stage → Text
  | .scan => "scan"
  | .parse => "parse"
  | .evaluate => "evaluate"

/-- What became of a record on its way to the history. -/
inductive WriteResult where
  | ok
  | error
  | dropped
deriving DecidableEq, Repr

def WriteResult.name : WriteResult → Text
  | .ok => "ok"
  | .error => "error"
  | .dropped => "dropped"

def statusWord (ok : Bool) : Text := if ok then "ok" else "error"

inductive Metric where
  | statements
  | stage (s : Stage)
  | tokens (k : Kind)
  | runs (ok : Bool)
  | errors (code : Code)
  | historyWrites (r : WriteResult)
  | httpRequests (status : Nat) (route : Text)
deriving DecidableEq, Repr

namespace Metric

def label (key value : Text) : Text := key ++ (61 :: value)

def labelled (name : Text) (labels : List Text) : Text := name ++ (123 :: Text.join "," labels) ++ [125]

def name : Metric → Text
  | .statements => "statements_total"
  | .stage s => labelled "stage_seconds" [label "stage" s.name]
  | .tokens k => labelled "tokens_total" [label "kind" k.name]
  | .runs ok => labelled "runs_total" [label "status" (statusWord ok)]
  | .errors c => labelled "errors_total" [label "code" c.name]
  | .historyWrites r => labelled "history_writes_total" [label "result" r.name]
  | .httpRequests status route =>
    labelled "http_requests_total" [label "code" (Text.ofNat status), label "route" route]

/-- How often each metric occurs among the increments, in order of first occurrence. -/
def tally (increments : List Metric) : List (Metric × Nat) :=
  increments.eraseDups.map fun m => (m, increments.count m)

end Metric

end Abacus
