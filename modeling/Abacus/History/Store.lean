import Abacus.FileTree
import Abacus.History
import Abacus.Text.Space

/-!
# The history store

A store is an opened database file. Saving fills in what a record leaves unset; a failed operation changes nothing.
-/

namespace Abacus

/-- Files, and the databases among them by their places. -/
structure Disk where
  files : FileTree
  databases : List (List Text × Database)

structure Store where
  path : Text
  place : List Text
  database : Database
  closed : Bool

namespace Disk

def ofFiles (files : FileTree) : Disk := ⟨files, []⟩

/-- The database at a place. A file that is there and was never one is only accepted when it is empty. -/
def database? (d : Disk) (place : List Text) : Option Database :=
  match d.databases.lookup place with
  | some db => some db
  | none =>
    match d.files.node? place with
    | some (.file (_ :: _)) => none
    | _ => some .empty

def keep (d : Disk) (s : Store) : Disk :=
  { d with databases := (s.place, s.database) :: d.databases.filter (·.1 != s.place) }

end Disk

namespace Store

/-- Opens the database at a path, with its directory made if need be, and brings its schema up to date. -/
def openAt (disk : Disk) (path : Text) : Except HistoryError (Store × Disk) := do
  let path := Text.trim path
  if path.isEmpty then .error .emptyPath
  if (disk.files.isDirectory path).toOption == some true then .error (.directory path)
  let dir := Path.dir path
  let files ← if dir = ("." : Text) then pure disk.files else (disk.files.makeDirs dir).mapError (.noDirectory dir)
  let disk := { disk with files }
  let place ← (files.locate true path).mapError fun e => .noDirectory dir e.message
  let some db := disk.database? place | .error (.notDatabase path)
  match db.schema.ensure with
  | (some e, _) => .error (.badSchema path e)
  | (none, schema) =>
    let files := if (files.node? place).isSome then files else files.put place (.file [])
    let store : Store := ⟨path, place, { db with schema }, false⟩
    return (store, { disk with files }.keep store)

def close (s : Store) : Store := { s with closed := true }

/-- Why a store does not do what is asked: it is closed, or whoever asks is interrupted. -/
def refusal? (s : Store) (interrupted : Option Interruption) : Option Refusal :=
  if s.closed then some .closed else interrupted.map .interrupted

def ping (s : Store) (interrupted : Option Interruption) : Option HistoryError :=
  (s.refusal? interrupted).map .unreachable

/-- A record with what it leaves unset filled in. -/
def complete (fresh : Text) (now : Instant) (r : RunRecord) : RunRecord :=
  { r with
    id := if r.id.isEmpty then fresh else r.id
    timestamp := if r.timestamp = 0 then now else r.timestamp
    status := if r.status.isEmpty then statusWord true else r.status }

/-- Adds a run and answers its id. -/
def save (s : Store) (interrupted : Option Interruption) (fresh : Text) (now : Instant) (r : RunRecord) :
    Except HistoryError (Text × Store) := do
  let row ← Row.ofRecord (complete fresh now r)
  match s.refusal? interrupted with
  | some why => .error (.refused .save why)
  | none =>
    let database ← (s.database.insert row).mapError (.refused .save)
    return (row.id, { s with database })

/-- The runs from an instant on, newest first. One row that cannot be read fails the whole. -/
def load (s : Store) (interrupted : Option Interruption) (since : Instant) (limit : Int) :
    Except HistoryError (List RunRecord) :=
  match s.refusal? interrupted with
  | some why => .error (.refused .load why)
  | none => (s.database.select since limit).mapM Row.toRecord

/-- Keeps the newest runs; a number that is not positive keeps all. -/
def prune (s : Store) (interrupted : Option Interruption) (keep : Int) : Except HistoryError (Nat × Store) :=
  if keep ≤ 0 then .ok (0, s)
  else
    match s.refusal? interrupted with
    | some why => .error (.refused .prune why)
    | none =>
      let (gone, database) := s.database.prune keep
      .ok (gone, { s with database })

end Store

/-! ## Listing -/

/-- At least `width` characters, with blanks behind. -/
def Text.fill (width : Nat) (t : Text) : Text := t ++ List.replicate (width - t.runeCount) 32

namespace RunRecord

def line (r : RunRecord) : Text :=
  let gap : Text := "  "
  Instant.plain r.timestamp ++ gap ++ r.id ++ gap ++ Text.fill 5 r.status ++ gap ++ Text.fill 10 r.source ++ gap ++
    ("statements=" : Text) ++ Text.ofInt r.statements ++ (" variables=" : Text) ++ Text.ofNat r.bindings.length ++
    (if r.errorMessage.isEmpty then [] else gap ++ r.errorMessage)

end RunRecord

/-- What is said when a listing is asked for and no history is kept. -/
def historyDisabled : Text := "--history requires history.enabled = true in config"

/-- The listing of runs, newest first. -/
def listRuns (rs : List RunRecord) : Text :=
  if rs.isEmpty then "No recorded runs.\n" else Text.unlines (rs.map RunRecord.line)

end Abacus
