import Abacus.Path

/-!
# File trees

The files a program can see: a working directory and what is in it. A path is looked up from the working
directory, or from the root when it is rooted; the working directory itself has a rooted name. Links on the way are
followed, and whether one at the end is depends on who looks.
-/

namespace Abacus

/-- Why a file could not be used. -/
inductive FileError where
  | notFound
  | notDirectory
  | isDirectory
  | inPlace
  | tooManyLinks
deriving DecidableEq, Repr

def FileError.message : FileError → Text
  | .notFound => "no such file or directory"
  | .notDirectory => "not a directory"
  | .isDirectory => "is a directory"
  | .inPlace => "file exists"
  | .tooManyLinks => "too many levels of symbolic links"

inductive FileNode where
  | file (content : Text)
  | directory
  | link (target : Text)
deriving DecidableEq, Repr

/-- The entries below the working directory by the names that lead to them. `cwd` is its rooted name. -/
structure FileTree where
  cwd : Text
  entries : List (List Text × FileNode)
deriving Repr

namespace FileTree

def empty (cwd : Text) : FileTree := ⟨cwd, []⟩

/-- What stands at a place; the working directory is always there. -/
def node? (t : FileTree) (place : List Text) : Option FileNode :=
  if place.isEmpty then some .directory else t.entries.lookup place

def put (t : FileTree) (place : List Text) (n : FileNode) : FileTree :=
  { t with entries := t.entries.filter (·.1 != place) ++ [(place, n)] }

def remove (t : FileTree) (place : List Text) : FileTree :=
  { t with entries := t.entries.filter (fun e => !place.isPrefixOf e.1) }

/-- The steps of a path below the working directory; `none` for a rooted path that leads elsewhere. -/
def steps? (t : FileTree) (p : Text) : Option (List Text) :=
  if !t.cwd.isEmpty && (p = t.cwd || (t.cwd ++ [47]).isPrefixOf p) then
    some (Path.parts (p.drop t.cwd.length))
  else if p.head? = some 47 then none
  else some (Path.parts p)

/-- Takes steps from a place, up to a link that is to be followed. Each step needs a directory to start from. What is
above the working directory is not in the tree. From a link, `onward` takes the steps of its target and those that are
left, from where the target starts; a link at the end is the end itself unless it is gone `through`. -/
def walk (t : FileTree) (through : Bool) (onward : List Text → List Text → Except FileError (List Text))
    (place : List Text) : List Text → Except FileError (List Text)
  | [] => .ok place
  | step :: rest =>
    match t.node? place with
    | none => .error .notFound
    | some (.file _) | some (.link _) => .error .notDirectory
    | some .directory =>
      if step.isEmpty || step = ("." : Text) then t.walk through onward place rest
      else if step = (".." : Text) then
        if place.isEmpty then .error .notFound else t.walk through onward place.dropLast rest
      else
        match t.node? (place ++ [step]) with
        | some (.link target) =>
          if !through && rest.isEmpty then .ok (place ++ [step])
          else
            match t.steps? target with
            | some steps => onward (if target.head? = some 47 then [] else place) (steps ++ rest)
            | none => .error .notFound
        | _ => t.walk through onward (place ++ [step]) rest

/-- Follows steps from a place, past no more than so many links. -/
def follow (t : FileTree) (through : Bool) : Nat → List Text → List Text → Except FileError (List Text)
  | 0 => t.walk through fun _ _ => .error .tooManyLinks
  | n + 1 => t.walk through (t.follow through n)

/-- The most links that are followed for one path. -/
def maxLinks : Nat := 40

/-- The place that a path names, whether or not something is there. -/
def locate (t : FileTree) (through : Bool) (p : Text) : Except FileError (List Text) :=
  if p.isEmpty then .error .notFound
  else
    match t.steps? p with
    | some steps => t.follow through maxLinks [] steps
    | none => .error .notFound

/-- The place of what has that name, be it a link. -/
def resolve (t : FileTree) (p : Text) : Except FileError (List Text) := t.locate false p

/-- What a path leads to, and its place. -/
def lookup (t : FileTree) (p : Text) : Except FileError (List Text × FileNode) := do
  let place ← t.locate true p
  match t.node? place with
  | some n => return (place, n)
  | none => .error .notFound

/-- The path names a directory, or nothing that can be found, or something else. -/
def isDirectory (t : FileTree) (p : Text) : Except FileError Bool := do
  let (_, n) ← t.lookup p
  return n == .directory

def exists? (t : FileTree) (p : Text) : Bool := (t.lookup p).toOption.isSome

/-- The content of a file. The error says which step failed. -/
def read (t : FileTree) (p : Text) : Except (Text × FileError) Text :=
  match t.lookup p with
  | .error e => .error ("open", e)
  | .ok (_, .file content) => .ok content
  | .ok _ => .error ("read", .isDirectory)

/-- How a failed access is reported. -/
def accessError (verb p : Text) (e : FileError) : Text := verb ++ (32 :: p) ++ (": " : Text) ++ e.message

/-- Makes a directory and all above it, from the top down. Nothing is made where a link stands that leads nowhere. -/
def makeDirs (t : FileTree) (p : Text) : Except Text FileTree :=
  let rec go (t : FileTree) (done : Text) : List Text → Except Text FileTree
    | [] => .ok t
    | part :: rest =>
      let here := if done.isEmpty then part else done ++ (47 :: part)
      match t.lookup here, t.resolve here with
      | .ok (_, .directory), _ => go t here rest
      | .ok _, _ => .error (accessError "mkdir" here .notDirectory)
      | .error _, .error e => .error (accessError "mkdir" here e)
      | .error _, .ok place =>
        if (t.node? place).isSome then .error (accessError "mkdir" here .inPlace)
        else go (t.put place .directory) here rest
  match t.steps? p with
  | some steps => go t (if p.head? = some 47 then t.cwd else []) (steps.filter (!·.isEmpty))
  | none => .error (accessError "mkdir" p .notFound)

/-- The tree with a file at a path, its directories made as needed. A path that ends in a slash is a
directory. -/
def install (t : FileTree) (p content : Text) : FileTree :=
  let names := (Path.parts (Path.clean p)).filter (fun s => !s.isEmpty && s != (".": Text))
  let above := (List.range names.length).map names.take
  let t := above.foldl (fun t place =>
    if place.isEmpty || (t.node? place).isSome then t else t.put place .directory) t
  if names.isEmpty then t
  else if p.getLast? = some 47 then t.put names .directory
  else t.put names (.file content)

end FileTree

end Abacus
