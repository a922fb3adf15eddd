import Abacus.Toml.Reader

/-!
# TOML documents

The tables that the lines of a document add up to, and the keys in the order in which they are written. A
name is set once. A table that only came up on the way to another, or through a dotted key, may still be
given a header of its own.
-/

namespace Abacus.Toml

/-- What a name stands for. The last of several tables is the one that lines go on with. -/
inductive Node where
  | value (v : Value)
  | table (entries : List (Text × Node))
  | tables (elements : List (List (Text × Node)))

abbrev Entries := List (Text × Node)

/-- Sets a name to a node, in place or at the end. -/
def Entries.put (name : Text) (n : Node) : Entries → Entries
  | [] => [(name, n)]
  | (k, m) :: rest => if k = name then (k, n) :: rest else (k, m) :: Entries.put name n rest

/-- Changes the entries that a path of names leads to. A missing table on the way is made. -/
def Entries.change (f : Entries → Option Entries) : Key → Entries → Option Entries
  | [], t => f t
  | k :: ks, t =>
    match t.lookup k with
    | none => (Entries.change f ks []).map fun s => Entries.put k (.table s) t
    | some (.table s) => (Entries.change f ks s).map fun s => Entries.put k (.table s) t
    | some (.tables es) =>
      match es.reverse with
      | [] => none
      | e :: before => (Entries.change f ks e).map fun e => Entries.put k (.tables (e :: before).reverse) t
    | some (.value _) => none

/-- The entries that a path leads to. -/
def Entries.at? : Key → Entries → Option Entries
  | [], t => some t
  | k :: ks, t =>
    match t.lookup k with
    | some (.table s) => Entries.at? ks s
    | some (.tables es) => es.getLast?.bind (Entries.at? ks)
    | _ => none

/-- A document while it is built up: its tables, those that came up only implicitly, the table that lines
are about, and the keys written so far. -/
structure Builder where
  entries : Entries
  implicits : List Key
  context : Key
  keys : List Key

namespace Builder

def start : Builder := ⟨[], [], [], []⟩

def markImplicit (b : Builder) (key : Key) : Builder := { b with implicits := key :: b.implicits }

def unmark (b : Builder) (key : Key) : Builder := { b with implicits := b.implicits.filter (· != key) }

/-- Sets a name in the table at `context`. A name that came up implicitly keeps its table. -/
def set (b : Builder) (context : Key) (name : Text) (n : Node) : Option Builder := do
  let here ← b.entries.at? context
  let key := context ++ [name]
  match here.lookup name with
  | none =>
    let entries ← b.entries.change (fun t => some (t.put name n)) context
    return { b with entries }
  | some _ =>
    if b.implicits.contains key then
      match n with
      | .value (.array _) =>
        let entries ← b.entries.change (fun t => some (t.put name n)) context
        return { b with entries }.unmark key
      | _ => return b.unmark key
    else none

/-- Makes the tables above a key that are not yet there; they are implicit. -/
def reachParents (b : Builder) (parent : Key) : Option Builder := do
  let missing := (List.range (parent.length + 1)).map parent.take |>.filter fun p => (b.entries.at? p).isNone
  let entries ← b.entries.change some parent
  return { b with entries, implicits := missing ++ b.implicits }

/-- Turns to the table of a key, or to a new one of an array of tables. -/
def open? (b : Builder) (key : Key) (array : Bool) : Option Builder := do
  let parent := key.dropLast
  let name ← key.getLast?
  let b ← b.reachParents parent
  if array then
    let here ← b.entries.at? parent
    let node ← match here.lookup name with
      | none => some (.tables [[]])
      | some (.tables es) => some (.tables (es ++ [[]]))
      | some _ => none
    let entries ← b.entries.change (fun t => some (t.put name node)) parent
    return { b with entries, context := key }
  else
    let b ← b.set parent name (.table [])
    return { b with context := key }

/-- The tables that the front names of a dotted key stand for. -/
def openDotted (b : Builder) : Key → Option Builder
  | [] => some b
  | name :: rest => do
    let key := b.context ++ [name]
    let b ← (b.markImplicit key).open? key false
    b.openDotted rest

/-- Sets a dotted key in the current context, which stays what it was. `enter` puts the inline tables of the
value in place first. -/
def assignWith (b : Builder) (enter : Builder → Key → Option Builder) (key : Key) (v : Value) : Option Builder := do
  let outer := b.context
  let name ← key.getLast?
  let b ← b.openDotted key.dropLast
  let context := b.context
  let b ← enter { b with keys := (context ++ [name]) :: b.keys } (context ++ [name])
  let b ← b.set context name (match v with
    | .inline _ => .table []
    | v => .value v)
  return { b with context := outer }

mutual

/-- Enters the inline tables of a value at the key where it stands. -/
def enterValue (b : Builder) (key : Key) (inArray : Bool) : Value → Option Builder
  | .inline pairs => do
    let b ← (b.markImplicit key).open? key inArray
    b.enterPairs key pairs
  | .array items => b.enterItems key items
  | _ => some b

def enterPairs (b : Builder) (key : Key) : List (Key × Value) → Option Builder
  | [] => some b
  | (k, v) :: rest => do
    let b ← assignWith { b with context := key } (fun b key => b.enterValue key false v) k v
    b.enterPairs key rest

def enterItems (b : Builder) (key : Key) : List Value → Option Builder
  | [] => some b
  | v :: rest => do
    let b ← b.enterValue key true v
    b.enterItems key rest

end

def assign (b : Builder) (key : Key) (v : Value) : Option Builder :=
  b.assignWith (fun b key => b.enterValue key false v) key v

def add (b : Builder) : Line → Option Builder
  | .table key => do
    let b ← b.open? key false
    return { b with keys := key :: b.keys }
  | .tableArray key => do
    let b ← b.open? key true
    return { b with keys := key :: b.keys }
  | .pair key v => b.assign key v

end Builder

structure Document where
  entries : Entries
  keys : List Key

/-- The document that a text is. -/
def document? (t : Text) : Option Document := do
  let lines ← lines? t
  let b ← lines.foldlM Builder.add Builder.start
  return ⟨b.entries, b.keys.reverse⟩

end Abacus.Toml
