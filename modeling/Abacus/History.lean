import Abacus.Fault
import Abacus.History.Schema
import Abacus.Instant
import Abacus.Json.Reader
import Abacus.Metric

/-!
# The history of runs

A table of runs keyed by id. A row holds the fields of a record as columns: the instant as text of fixed width, the
variables as a JSON object. Rows are read newest first, and by id among those of one instant.
-/

namespace Abacus

/-- What is kept of a run. The variables are ordered by name. -/
structure RunRecord where
  id : Text
  timestamp : Instant
  source : Text
  script : Text
  status : Text
  statements : Int
  errorCode : Text
  errorMessage : Text
  bindings : List (Text × Float)
  duration : Int

structure Row where
  id : Text
  time : Text
  source : Text
  script : Text
  status : Text
  statements : Cell
  errorCode : Text
  errorMessage : Text
  bindings : Text
  micros : Int

/-- Why a database did not do what was asked. -/
inductive Refusal where
  | duplicateId
  | closed
  | interrupted (why : Interruption)
deriving DecidableEq, Repr

def Refusal.message : Refusal → Text
  | .duplicateId => "constraint failed: UNIQUE constraint failed: runs.id (1555)"
  | .closed => SchemaError.closedText
  | .interrupted why => why.message

/-- The operations that name themselves when they fail. -/
inductive Operation where
  | save
  | load
  | prune
deriving DecidableEq, Repr

def Operation.name : Operation → Text
  | .save => "save run"
  | .load => "load runs"
  | .prune => "prune runs"

inductive HistoryError where
  | unencodable (value : Text)
  | refused (operation : Operation) (why : Refusal)
  | unreachable (why : Refusal)
  | notOpen
  | badStatements (reason : Text)
  | badTime (text : Text) (why : Instant.ReadError)
  | badVariables (id reason : Text)
  | emptyPath
  | directory (path : Text)
  | noDirectory (path reason : Text)
  | notDatabase (path : Text)
  | badSchema (path : Text) (why : SchemaError)
deriving DecidableEq, Repr

def HistoryError.message : HistoryError → Text
  | .unencodable v => ("encode variables: json: unsupported value: " : Text) ++ v
  | .refused op why => op.name ++ (": " : Text) ++ why.message
  | .unreachable why => why.message
  | .notOpen => "history store is not open"
  | .badStatements reason => ("scan run row: " : Text) ++ Cell.scanError 5 "statements" reason
  | .badTime t why => ("parse run timestamp " : Text) ++ t.quoted ++ (": " : Text) ++ why.message t
  | .badVariables id reason => ("decode variables for run " : Text) ++ id ++ (": " : Text) ++ reason
  | .emptyPath => "history path must not be empty"
  | .directory p => ("history path " : Text) ++ p.quoted ++ (" is a directory, expected file" : Text)
  | .noDirectory p reason => ("create history directory " : Text) ++ p.quoted ++ (": " : Text) ++ reason
  | .notDatabase p => ("ping sqlite history " : Text) ++ p.quoted ++ (": file is not a database (26)" : Text)
  | .badSchema p why => ("initialize sqlite schema " : Text) ++ p.quoted ++ (": " : Text) ++ why.message

/-! ## Variables as text -/

/-- Numbers in JSON are positional from a millionth up to below 10^21. -/
def Layout.json : Layout := ⟨fun e => -6 ≤ e && e < 21, 1⟩

/-- A value under its name, in order of the names; of two values the later. -/
def putVariable (name : Text) (value : Float) : List (Text × Float) → List (Text × Float)
  | [] => [(name, value)]
  | (n, v) :: rest =>
    if n = name then (n, value) :: rest
    else if name < n then (name, value) :: (n, v) :: rest
    else (n, v) :: putVariable name value rest

def orderVariables (vs : List (Text × Float)) : List (Text × Float) :=
  vs.foldl (fun acc (n, v) => putVariable n v acc) []

/-- A JSON object with a member per variable. What is no finite number cannot be written. -/
def encodeVariables (vs : List (Text × Float)) : Except HistoryError Text :=
  match vs.find? (fun (_, v) => !Binary.isFinite v) with
  | some (_, v) => .error (.unencodable (showValue v))
  | none => .ok (Json.object (vs.map fun (n, v) => (n, Json.number (Layout.json.render v)))).render

/-- What a JSON value is called in an error. -/
def Json.kind : Json → Text
  | .null => "null"
  | .bool _ => "bool"
  | .number _ => "number"
  | .string _ => "string"
  | .array _ => "array"
  | .object _ => "object"

def misfit (found wanted : Text) : Text :=
  ("json: cannot unmarshal " : Text) ++ found ++ (" into Go value of type " : Text) ++ wanted

/-- The number that a member of the object holds; a null counts as zero. -/
def decodeNumber : Json → Except Text Float
  | .null => .ok 0
  | .number l =>
    match Numeral.float l with
    | .ok x => .ok x
    | .error _ => .error (misfit (("number " : Text) ++ l) "float64")
  | j => .error (misfit j.kind "float64")

/-- Reads variables back. A null holds none. -/
def decodeVariables (t : Text) : Except Text (List (Text × Float)) :=
  match Json.read t with
  | .error e => .error e.message
  | .ok .null => .ok []
  | .ok (.object ms) => do
    let vs ← ms.mapM fun (n, j) => do return (n, ← decodeNumber j)
    return orderVariables vs
  | .ok j => .error (misfit j.kind "map[string]float64")

/-! ## Rows -/

namespace Row

/-- The columns of a record. Of the duration whole microseconds are kept. -/
def ofRecord (r : RunRecord) : Except HistoryError Row := do
  let bindings ← encodeVariables r.bindings
  return {
    id := r.id
    time := Instant.stored r.timestamp
    source := r.source
    script := r.script
    status := r.status
    statements := .int r.statements
    errorCode := r.errorCode
    errorMessage := r.errorMessage
    bindings
    micros := Int.tdiv r.duration 1000 }

/-- The record of a row. Of several unreadable columns the number of statements is reported first, then the instant. -/
def toRecord (r : Row) : Except HistoryError RunRecord := do
  let statements ← (r.statements.toInt).mapError .badStatements
  let timestamp ← (Instant.readStored r.time).mapError (.badTime r.time)
  let bindings ← (decodeVariables r.bindings).mapError (.badVariables r.id)
  return { r with timestamp, statements, bindings, duration := r.micros * 1000 }

/-- The reading order: later texts of the instant first, then ascending ids. -/
def before (a b : Row) : Bool := b.time < a.time || (a.time = b.time && a.id ≤ b.id)

end Row

/-! ## The table -/

/-- A database with its schema and the rows of its table of runs. -/
structure Database where
  schema : Schema
  rows : List Row

namespace Database

def empty : Database := ⟨.empty, []⟩

def ordered (d : Database) : List Row := d.rows.mergeSort Row.before

/-- Adds a row; an id that is there already is refused. -/
def insert (d : Database) (r : Row) : Except Refusal Database :=
  if d.rows.any (fun q => q.id == r.id) then .error .duplicateId else .ok { d with rows := d.rows ++ [r] }

/-- The rows from an instant on, in reading order, and the first of them only if there is a limit. -/
def select (d : Database) (since : Instant) (limit : Int) : List Row :=
  let rows := if since = 0 then d.ordered else d.ordered.filter (fun r => Instant.stored since ≤ r.time)
  if 0 < limit then rows.take limit.toNat else rows

/-- Keeps the first `keep` rows in reading order, and tells how many went. -/
def prune (d : Database) (keep : Int) : Nat × Database :=
  let kept := (d.ordered.take keep.toNat).map Row.id
  let rows := d.rows.filter (fun r => kept.contains r.id)
  (d.rows.length - rows.length, { d with rows })

/-- Overwrites one column of the rows with an id. -/
def overwrite (d : Database) (id : Text) (change : Row → Row) : Database :=
  { d with rows := d.rows.map fun r => if r.id = id then change r else r }

end Database

end Abacus
