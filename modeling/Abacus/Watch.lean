import Abacus.FileTree
import Abacus.Glob
import Abacus.Text.Space

/-!
# Watching files

A watcher knows the files it was given by name and the directories whose files it covers, and decides by patterns on
the base name which changes count. Directories are covered with all below them, save hidden ones.
-/

namespace Abacus

/-- What happened to a file. -/
structure FileEvent where
  name : Text
  created : Bool
  written : Bool

inductive WatchError where
  | noReceiver
  | badPattern (why : GlobError)
  | unreachable (path : Text) (why : FileError)
deriving DecidableEq, Repr

def WatchError.message : WatchError → Text
  | .noReceiver => "invalid argument"
  | .badPattern e => e.message
  | .unreachable p e => FileTree.accessError "stat" p e

structure Watcher where
  included : List (List Glob)
  excluded : List (List Glob)
  /-- The files watched by name. -/
  targets : List Text
  /-- The directories all of whose files are watched. -/
  dirs : List Text

namespace Watcher

/-- A set of paths as an ascending list. -/
def insertPath (p : Text) : List Text → List Text
  | [] => [p]
  | q :: qs => if p = q then q :: qs else if p < q then p :: q :: qs else q :: insertPath p qs

/-- Reads patterns; blank ones are left out. -/
def readPatterns (ps : List Text) : Except WatchError (List (List Glob)) :=
  ((ps.map Text.trim).filter (!·.isEmpty)).mapM fun p => (Glob.read p).mapError .badPattern

def new (included excluded : List Text) : Except WatchError Watcher := do
  return ⟨← readPatterns included, ← readPatterns excluded, [], []⟩

/-- A base name counts if no pattern excludes it and, where there are including patterns, one of them matches. -/
def selects (w : Watcher) (base : Text) : Bool :=
  !w.excluded.any (Glob.matchesName · base) && (w.included.isEmpty || w.included.any (Glob.matchesName · base))

/-- A change of the file at a path counts. -/
def accepts (w : Watcher) (path : Text) : Bool :=
  let p := Path.clean path
  w.targets.contains p || (w.dirs.contains (Path.dir p) && w.selects (Path.base p))

/-- The directories at and below a place that no hidden name leads to, as the steps below it. -/
def visibleBelow (files : FileTree) (place : List Text) : List (List Text) :=
  files.entries.filterMap fun (q, n) =>
    let below := q.drop place.length
    if n == .directory && place.isPrefixOf q && !below.isEmpty && !below.any Path.isHidden then some below else none

/-- Covers a directory and all below it. The directory itself may be hidden; a link to one is not followed. -/
def cover (w : Watcher) (files : FileTree) (root : Text) : Watcher :=
  match files.resolve root with
  | .error _ => w
  | .ok place =>
    if files.node? place != some .directory then w
    else
      let below := (visibleBelow files place).map fun steps => Path.join (root :: steps)
      { w with dirs := (Path.clean root :: below).foldl (fun ds p => insertPath p ds) w.dirs }

/-- Watches one path: a file by name, a directory with all below it. -/
def add (w : Watcher) (files : FileTree) (path : Text) : Except WatchError Watcher :=
  match files.isDirectory path with
  | .error e => .error (.unreachable path e)
  | .ok true => .ok (w.cover files path)
  | .ok false => .ok { w with targets := insertPath (Path.clean path) w.targets }

/-- Watches paths in turn until one cannot be reached. -/
def addAll (w : Watcher) (files : FileTree) : List Text → Option WatchError × Watcher
  | [] => (none, w)
  | p :: ps =>
    match w.add files p with
    | .error e => (some e, w)
    | .ok w => w.addAll files ps

/-- Handles an event: a new directory in a covered one is covered too; a change that counts is passed on. -/
def handle (w : Watcher) (files : FileTree) (e : FileEvent) : Option Text × Watcher :=
  -- A directory is no change of its own, whether it is covered or not.
  if e.created && (files.isDirectory e.name).toOption == some true then
    (none, if w.dirs.contains (Path.dir (Path.clean e.name)) then w.cover files e.name else w)
  else if (e.written || e.created) && w.accepts e.name then (some e.name, w)
  else (none, w)

end Watcher

/-! ## Debouncing -/

/-- Changes are gathered until no more have come for a while. `outstanding` counts the deliveries that a timer has
started and that have not yet taken the changes; a timer that has fired cannot be stopped. -/
structure Debouncer where
  pending : List Text
  armed : Bool
  outstanding : Nat
  closed : Bool
deriving DecidableEq, Repr

namespace Debouncer

def new : Debouncer := ⟨[], false, 0, false⟩

/-- Notes a change and starts the timer anew. -/
def schedule (d : Debouncer) (path : Text) : Debouncer :=
  if d.closed then d else { d with pending := Watcher.insertPath (Path.clean path) d.pending, armed := true }

def fire (d : Debouncer) : Debouncer :=
  if d.armed then { d with armed := false, outstanding := d.outstanding + 1 } else d

/-- A delivery takes the changes. Those of files that exist are passed on together. -/
def flush (d : Debouncer) (present : Text → Bool) : Option (List Text) × Debouncer :=
  let paths := d.pending.filter present
  (if paths.isEmpty then none else some paths, { d with pending := [], outstanding := d.outstanding - 1 })

def close (d : Debouncer) : Debouncer := { d with armed := false, closed := true }

end Debouncer

end Abacus
