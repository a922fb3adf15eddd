import Abacus.Config.Load
import Abacus.Watch

/-!
# Reloading a configuration

A configuration file is watched through its directory, so that a file saved by renaming is seen too. A change
of the file leads to a reload; one that cannot be loaded is rejected and the settings in force stay.
-/

namespace Abacus

/-- The watch on one configuration file. -/
structure Reloader where
  path : Text

namespace Reloader

def new (path : Text) : Reloader := ⟨Path.clean path⟩

/-- Watching needs the directory of the file, not the file. -/
def start (r : Reloader) (files : FileTree) : Except FileError Unit := do
  let _ ← files.lookup (Path.dir r.path)
  return ()

/-- The event is a change of the file and leads to a reload. -/
def reacts (r : Reloader) (e : FileEvent) : Bool :=
  Path.clean e.name = r.path && (e.written || e.created)

def reload (r : Reloader) (files : FileTree) (vars : Config.Variables) : Except Config.LoadError Config :=
  Config.load files vars r.path

end Reloader

end Abacus
