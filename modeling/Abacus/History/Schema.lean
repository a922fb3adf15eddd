import Abacus.History.Cell

/-!
# The schema of the history

Which tables, views and indexes a database has, and how it is brought to the version this program works with. A
database of a later version is refused. A step that fails leaves the database as it was before that step.
-/

namespace Abacus

/-- The table that records which versions were reached. -/
inductive VersionTable where
  | unversioned
  | versioned (versions : List Cell) (required : Option Text)

/-- What stands under the name of the table of runs. -/
inductive RunsObject where
  | table
  | view
deriving DecidableEq, Repr

structure Schema where
  closed : Bool
  versionTable : Option VersionTable
  runs : Option RunsObject
  indexes : List Text

inductive SchemaError where
  | closed
  | noVersionColumn
  | badVersion (reason : Text)
  | newer (version : Int)
  | viewIndexed
  | missingColumn (name : Text)
deriving DecidableEq, Repr

namespace Schema

def current : Int := 1

def empty : Schema := ⟨false, none, none, []⟩

def runIndexes : List Text := ["idx_runs_status", "idx_runs_ts"]

/-- The names of all tables and indexes, ascending. A view is neither. -/
def objects (s : Schema) : List Text :=
  let runs : List Text := if s.runs = some .table then ["runs"] else []
  let versions : List Text := if s.versionTable.isSome then ["schema_migrations"] else []
  Text.sort (s.indexes ++ runs ++ versions)

/-- Makes the version table if there is none. -/
def prepare (s : Schema) : Schema :=
  match s.versionTable with
  | none => { s with versionTable := some (.versioned [] none) }
  | some _ => s

def version (s : Schema) : Except SchemaError Int :=
  match s.versionTable with
  | none => .ok 0
  | some .unversioned => .error .noVersionColumn
  | some (.versioned vs _) =>
    match (Cell.greatest vs).toInt with
    | .ok n => .ok n
    | .error reason => .error (.badVersion reason)

def migrate (s : Schema) : Except SchemaError Schema :=
  match s.runs, s.versionTable with
  | some .view, _ => .error .viewIndexed
  | _, some (.versioned _ (some column)) => .error (.missingColumn column)
  | _, some (.versioned vs none) =>
    .ok { s with runs := some .table, indexes := runIndexes, versionTable := some (.versioned (.int current :: vs) none) }
  | _, _ => .error .noVersionColumn

/-- Brings a schema to the current version. -/
def ensure (s : Schema) : Option SchemaError × Schema :=
  if s.closed then (some .closed, s)
  else
    let s := s.prepare
    match s.version with
    | .error e => (some e, s)
    | .ok v =>
      if current < v then (some (.newer v), s)
      else if current ≤ v then (none, s)
      else
        match s.migrate with
        | .error e => (some e, s)
        | .ok t => (none, t)

def addVersion (s : Schema) (n : Int) : Schema :=
  match s.versionTable with
  | some (.versioned vs r) => { s with versionTable := some (.versioned (.int n :: vs) r) }
  | _ => s

end Schema

namespace SchemaError

def closedText : Text := "sql: database is closed"

def message : SchemaError → Text
  | .closed => ("create schema_migrations table: " : Text) ++ closedText
  | .noVersionColumn => "read schema_migrations version: SQL logic error: no such column: version (1)"
  | .badVersion reason =>
    ("read schema_migrations version: " : Text) ++ Cell.scanError 0 "COALESCE(MAX(version), 0)" reason
  | .newer v =>
    ("schema version " : Text) ++ Text.ofInt v ++ (" is newer than supported version " : Text) ++
      Text.ofInt Schema.current
  | .viewIndexed => "apply migration 1: SQL logic error: views may not be indexed (1)"
  | .missingColumn name =>
    ("record migration 1: constraint failed: NOT NULL constraint failed: schema_migrations." : Text) ++ name ++
      (" (1299)" : Text)

end SchemaError

end Abacus
