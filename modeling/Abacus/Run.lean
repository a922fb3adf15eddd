import Abacus.Expr.Eval
import Abacus.Expr.Parser
import Abacus.Log
import Abacus.Metric
import Abacus.Span
import Abacus.Statement
import Abacus.Token.Scanner

/-!
# Running scripts

An interpreter runs the statements of a script in order, from an empty environment, until one faults or the
run is interrupted. What it did before stays in the result. Beside the result a run leaves a journal: metric
increments, the setting of a gauge, spans in the order they end, and log records.
-/

namespace Abacus

structure Outcome where
  index : Nat
  statement : Text
  name : Option Text
  value : Float

/-- The trace that work leaves behind. -/
structure Journal where
  metrics : List Metric
  spans : List Span
  log : List LogRecord
  /-- What the gauge of a run's variables was set to last; `none` where it was left alone. -/
  gauge : Option Nat

namespace Journal

def empty : Journal := ⟨[], [], [], none⟩

def append (a b : Journal) : Journal :=
  ⟨a.metrics ++ b.metrics, a.spans ++ b.spans, a.log ++ b.log, b.gauge.or a.gauge⟩

instance : Append Journal := ⟨append⟩

end Journal

def runSpanName : Text := "Interpreter.Run"

def stageSpan (s : Stage) (parent : Option Text) (attributes : List (Text × Text)) (failure : Option Text) : Span :=
  { name := s.name, parent, failure, attributes, exceptions := [] }

/-- The journal of one scan; a token of unknown kind is logged. -/
def scanJournal (parent : Option Text) (tokens : List Token) : Journal where
  metrics := tokens.map (fun t => .tokens t.kind) ++ [.stage .scan]
  spans := [stageSpan .scan parent [("tokens", Text.ofNat tokens.length)] none]
  log := (tokens.filter (fun t => t.kind == .unknown)).map fun t =>
    ⟨.warn, "lexical error", [("token", .text t.text), ("line", .int t.line)]⟩
  gauge := none

/-- The journal of a parse or an evaluation. -/
def stageJournal (s : Stage) (failure : Option Text) : Journal where
  metrics := [.stage s]
  spans := [stageSpan s (some runSpanName) [] failure]
  log := []
  gauge := none

/-- The text of a fault as its stage sees it. -/
def failureOf {α : Type} : Except Fault α → Option Text
  | .error f => some (f.renderOver none)
  | .ok _ => none

/-- Runs one statement in an environment. A fault leaves the environment alone. -/
def runStatement (limit : Nat) (env : Environment) (index : Nat) (text : Text) :
    Except Fault (Outcome × Environment) × Journal :=
  let st := Statement.ofText text
  let tokens := tokenize st.expression
  let parsed := parse tokens limit
  let opening : Journal := ⟨[.statements], [], [], none⟩
  let journal := opening ++ scanJournal (some runSpanName) tokens ++ stageJournal .parse (failureOf parsed)
  match parsed with
  | .error f => (.error f, journal)
  | .ok e =>
    let value := e.eval env
    let journal := journal ++ stageJournal .evaluate (failureOf value)
    match value with
    | .error f => (.error f, journal)
    | .ok x =>
      let outcome : Outcome := ⟨index, text, st.target, x⟩
      match st.target with
      | none => (.ok (outcome, env), journal)
      | some name =>
        let assigned : LogRecord := ⟨.debug, "assigned", [("name", .text name), ("value", .float x)]⟩
        (.ok (outcome, env.set name x), journal ++ ⟨[], [], [assigned], none⟩)

/-- What running some statements leads to. -/
structure Progress where
  environment : Environment
  outcomes : List Outcome
  problem : Option Problem
  journal : Journal

/-- A statement's fault with the place of the statement. -/
def located (f : Fault) (index : Nat) (text : Text) : Problem :=
  .fault ((f.attach Fault.statementKey (.int index)).attach Fault.textKey (.text text))

/-- Runs statements from number `index` on; `interrupted k` tells whether, and why, the run is found interrupted before
statement `k`. -/
def runStatements (limit : Nat) (interrupted : Nat → Option Interruption) (env : Environment) (index : Nat) :
    List Text → Progress
  | [] => ⟨env, [], none, .empty⟩
  | text :: rest =>
    match interrupted index with
    | some why => ⟨env, [], some why.problem, .empty⟩
    | none =>
      match runStatement limit env index text with
      | (.error f, journal) => ⟨env, [], some (located f index text), journal⟩
      | (.ok (outcome, env), journal) =>
        let p := runStatements limit interrupted env (index + 1) rest
        { p with outcomes := outcome :: p.outcomes, journal := journal ++ p.journal }

/-- The result of a run: the variables at its end, an outcome per completed statement, and what stopped it. -/
structure Result where
  runId : Text
  bindings : Environment
  outcomes : List Outcome
  problem : Option Problem

namespace Result

def names (r : Result) : List Text := r.bindings.names

end Result

/-- One `name = value` line per name; a name without a value shows zero. -/
def formatVariables (names : List Text) (values : Text → Option Float) : Text :=
  Text.unlines (names.map fun n => n ++ (" = " : Text) ++ showValue ((values n).getD 0))

def Result.table (r : Result) : Text := formatVariables r.names r.bindings.get?

/-- An interpreter keeps the variables of its last run and the nesting limit for the next. -/
structure Interpreter where
  environment : Environment
  limit : Nat

namespace Interpreter

/-- A limit that is not positive leaves the default in place. -/
def new (limit : Int) : Interpreter := ⟨.empty, if 0 < limit then limit.toNat else Parser.defaultLimit⟩

/-- Changes the limit; one that is not positive is ignored. -/
def setLimit (i : Interpreter) (limit : Int) : Interpreter :=
  if 0 < limit then { i with limit := limit.toNat } else i

/-- A script and the place it came from. -/
structure Request where
  source : Text
  script : Text

/-- What a run leaves: its result, what the caller is told stopped it, how many statements its script has, and
its journal. -/
structure Report where
  result : Result
  problem : Option Problem
  statements : Nat
  journal : Journal

/-- The metrics, span and log of a finished run, with the number of variables that it leaves. -/
def closing (runId source : Text) (statements : Nat) (problem : Option Problem) (size : Nat) : Journal where
  metrics :=
    match problem with
    | some p => [.errors p.code, .runs false]
    | none => [.runs true]
  spans := [{
    name := runSpanName
    parent := none
    failure := problem.map Problem.userMessage
    attributes := [("run.id", runId), ("run.source", source), ("run.statements", Text.ofNat statements)]
    exceptions := (problem.map Problem.render).toList }]
  log :=
    match problem with
    | some p => [⟨.debug, "run stopped", [("run_id", .text runId), ("error", .text p.render)]⟩]
    | none => []
  gauge := some size

/-- Runs a script from an empty environment. -/
def execute (i : Interpreter) (interrupted : Nat → Option Interruption) (runId : Text) (req : Request) :
    Report × Interpreter :=
  let i := { i with environment := .empty }
  let statements := splitStatements req.script
  let p := runStatements i.limit interrupted i.environment 1 statements
  let result : Result := ⟨runId, p.environment, p.outcomes, p.problem⟩
  let journal := p.journal ++ closing runId req.source statements.length p.problem result.names.length
  (⟨result, result.problem, statements.length, journal⟩, { i with environment := p.environment })

def tokens (_ : Interpreter) (source : Text) : List Token := tokenize (dropReturns source)

def tokensJournal (i : Interpreter) (source : Text) : Journal := scanJournal none (i.tokens source)

end Interpreter

/-- An interruption from the start, or never any. -/
def always (why : Option Interruption) : Nat → Option Interruption := fun _ => why

end Abacus
