import Abacus.CommandLine
import Std.Time.DateTime.Timestamp

/-!
# The program

Gives a call of the program what it needs from outside: arguments, variables, the files it may read, identifiers and
instants. All that a session writes goes to the streams of the process.
-/

namespace Abacus

namespace Program

/-- A random identifier: thirty-two hexadecimal digits in five groups, marked as random. -/
def identifier (seed n : Nat) : Text :=
  let digits := Text.hex 30 ((seed + n) % Nat.pow 16 30)
  digits.take 8 ++ (45 :: (digits.drop 8).take 4) ++ (45 :: 52 :: (digits.drop 12).take 3) ++
    (45 :: 56 :: (digits.drop 15).take 3) ++ (45 :: (digits.drop 18))

def epoch : Instant := Instant.ofDateTime ⟨1970, 1, 1, 0, 0, 0, 0⟩

def write (stream : IO.FS.Stream) (t : Text) : IO Unit := do
  unless t.isEmpty do
    stream.write ⟨t.toArray⟩
    stream.flush

/-- Prints what a session wrote, and forgets it. -/
def emit (s : Session) : IO Session := do
  write (← IO.getStdout) s.console.out
  write (← IO.getStderr) s.console.err
  return { s with console := ⟨[], []⟩ }

/-- Adds a file to a tree, as far as it is there. What is there and cannot be read is taken for a directory. -/
def addFile (files : FileTree) (path : Text) : IO FileTree := do
  try
    let content ← IO.FS.readBinFile path.display
    return files.install path content.toList
  catch
    | .noFileOrDirectory .. => return files
    | _ => return files.install (path ++ [47]) []

def settings : IO Config.Variables := do
  let mut vars := []
  for name in Config.overrides.map Prod.fst ++ LogTarget.variableNames do
    if let some value ← IO.getEnv name.display then vars := vars ++ [(name, (value : Text))]
  return vars

/-- The files whose content is not the one in the tree. -/
def changed (files : FileTree) (paths : List Text) : IO (List (Text × Text)) := do
  let now ← paths.foldlM addFile (FileTree.empty files.cwd)
  return paths.filterMap fun p =>
    match now.read p with
    | .ok content => if (files.read p).toOption == some content then none else some (p, content)
    | .error _ => none

/-- Passes changed files to a session that stays, until the process is stopped. -/
partial def follow (s : Session) (paths : List Text) : IO Unit := do
  IO.sleep 100
  let changes ← changed s.files paths
  let s ← if changes.isEmpty then pure s else emit (s.change changes)
  follow s paths

/-- Runs one call and answers its exit code. -/
def run (args : List Text) : IO UInt32 := do
  let options := (Options.parse args).toOption
  let given := (options.map Options.paths).getD []
  let config := [(options.map Options.configPath).getD Config.searchPath, "calcscript.toml"]
  let cwd := (← IO.getEnv "PWD").getD "."
  let files ← (given ++ config).foldlM addFile (FileTree.empty cwd)
  let seed ← IO.rand 0 (Nat.pow 16 30 - 1)
  let time ← Std.Time.Timestamp.now
  let now : Instant := epoch + time.toNanosecondsSinceUnixEpoch.val
  let supply : Supply := ⟨identifier seed, fun n => now + (n : Int), id⟩
  let stdin ← if (options.map Options.readsInput).getD false then (← IO.getStdin).readBinToEnd else pure .empty
  let (code, s) := Session.start ⟨.ofFiles files, ← settings, supply, 0⟩ args stdin.toList
  let s ← emit s
  match code with
  | some code => return code.toUInt32
  | none =>
    follow s (given ++ config)
    return 0

end Program

end Abacus

/-- The calculator's command line. -/
def main (args : List String) : IO UInt32 := Abacus.Program.run (args.map Abacus.Text.ofString)
