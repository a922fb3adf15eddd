import Abacus.Config
import Abacus.FileTree
import Abacus.Log

/-!
# Where log lines go

Log lines go to the error stream, so that they do not mix with script output. While the terminal shows the user
interface they go to a file of their own; a link is refused, and where the file cannot be used they go to the error
stream after a warning.
-/

namespace Abacus

inductive LogTarget where
  | errorStream
  | file (place : List Text)
  | nowhere
deriving DecidableEq, Repr

namespace LogTarget

/-- The names of the variables that the path of the log file depends on. -/
def variableNames : List Text := ["XDG_STATE_HOME", "HOME"]

def filePath (vars : Config.Variables) : Text :=
  let set (key : Text) : Text := (vars.lookup key).getD []
  if !(set "XDG_STATE_HOME").isEmpty then Path.join [set "XDG_STATE_HOME", "calcscript", "calcscript.log"]
  else if !(set "HOME").isEmpty then Path.join [set "HOME", ".local", "state", "calcscript", "calcscript.log"]
  else "calcscript.log"

/-- The place of the log file, which is made if it is not there; or why it cannot be used. -/
def openFile (files : FileTree) (path : Text) : Except (Text × FileTree) (List Text × FileTree) :=
  match files.makeDirs (Path.dir path) with
  | .error reason =>
    .error (("warning: failed to create log dir for " : Text) ++ path ++ (": " : Text) ++ reason, files)
  | .ok files =>
    let failed (e : FileError) : Text × FileTree :=
      (("warning: failed to open log file " : Text) ++ path ++ (": " : Text) ++ FileTree.accessError "open" path e, files)
    match files.resolve path with
    | .error e => .error (failed e)
    | .ok place =>
      match files.node? place with
      | some (.link _) => .error (("warning: refusing to write logs to symlink path " : Text) ++ path, files)
      | some .directory => .error (failed .isDirectory)
      | some (.file _) => .ok (place, files)
      | none => .ok (place, files.put place (.file []))

/-- The target of a program's log lines, and the warning that comes first, if any. -/
def choose (files : FileTree) (vars : Config.Variables) (ui : Bool) : LogTarget × Option Text × FileTree :=
  if ui then
    match openFile files (filePath vars) with
    | .ok (place, files) => (.file place, none, files)
    | .error (warning, files) => (.errorStream, some warning, files)
  else (.errorStream, none, files)

def leastLevel (verbose : Bool) : Level := if verbose then .debug else .info

end LogTarget

def FileTree.append (files : FileTree) (place : List Text) (t : Text) : FileTree :=
  match files.node? place with
  | some (.file content) => files.put place (.file (content ++ t))
  | _ => files

end Abacus
