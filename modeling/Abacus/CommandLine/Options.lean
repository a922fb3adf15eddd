import Abacus.Config.Load

/-!
# Command line options

Flags come before the script paths, each with one or two dashes. A switch may be given a truth value after an equals
sign; other flags take their value there or from the next argument.
-/

namespace Abacus

structure Options where
  configPath : Text
  tokens : Bool
  ui : Bool
  watch : Bool
  serve : Bool
  history : Int
  verbose : Bool
  version : Bool
  paths : List Text
deriving DecidableEq, Repr

inductive FlagError where
  | helpAsked
  | undefined (name : Text)
  | badSyntax (argument : Text)
  | needsValue (name : Text)
  | badSwitch (name value : Text)
  | badNumber (name value : Text) (why : NumeralError)
deriving DecidableEq, Repr

def FlagError.message : FlagError → Text
  | .helpAsked => "flag: help requested"
  | .undefined name => ("flag provided but not defined: -" : Text) ++ name
  | .badSyntax argument => ("bad flag syntax: " : Text) ++ argument
  | .needsValue name => ("flag needs an argument: -" : Text) ++ name
  | .badSwitch name value =>
    ("invalid boolean value " : Text) ++ value.quoted ++ (" for -" : Text) ++ name ++ (": parse error" : Text)
  | .badNumber name value why =>
    let reason : Text :=
      match why with
      | .malformed => "parse error"
      | .outOfRange => "value out of range"
    ("invalid value " : Text) ++ value.quoted ++ (" for flag -" : Text) ++ name ++ (": " : Text) ++ reason

namespace Options

def initial : Options := ⟨Config.searchPath, false, false, false, false, 0, false, false, []⟩

/-- How the value of a flag is put into the options. -/
inductive Flag where
  | switch (set : Bool → Options → Options)
  | number (set : Int → Options → Options)
  | text (set : Text → Options → Options)

/-- A flag with its name and what the usage says of it. -/
structure Entry where
  name : Text
  flag : Flag
  purpose : Text

def flags : List Entry := [
  ⟨"config", .text fun v o => { o with configPath := v },
    ("Path to config file (default " : Text) ++ Config.searchPath.quoted ++ (")" : Text)⟩,
  ⟨"history", .number fun v o => { o with history := v },
    "Print the N most recent recorded runs and exit (requires history.enabled)"⟩,
  ⟨"serve", .switch fun v o => { o with serve := v }, "Start the HTTP API"⟩,
  ⟨"tokens", .switch fun v o => { o with tokens := v }, "Print the token list instead of running the script"⟩,
  ⟨"ui", .switch fun v o => { o with ui := v }, "Enable terminal UI mode"⟩,
  ⟨"verbose", .switch fun v o => { o with verbose := v }, "Enable verbose logging"⟩,
  ⟨"version", .switch fun v o => { o with version := v }, "Print version and exit"⟩,
  ⟨"watch", .switch fun v o => { o with watch := v }, "Re-run scripts when they change on disk"⟩]

/-- The kind of value that a flag takes, after a blank. -/
def Flag.placeholder : Flag → Text
  | .switch _ => []
  | .number _ => " int"
  | .text _ => " string"

def usage : Text :=
  Text.unlines ("Usage of calcscript:" :: flags.flatMap fun e =>
    [("  -" : Text) ++ e.name ++ e.flag.placeholder, ("    \t" : Text) ++ e.purpose])

/-- The name of a flag and the value given with it; `none` for an argument that is no flag. -/
def split? (argument : Text) : Option (Except FlagError (Text × Option Text)) :=
  match argument with
  | 45 :: c :: rest =>
    let name := if c = 45 then rest else c :: rest
    match name with
    | [] => some (.error (.badSyntax argument))
    | first :: more =>
      if first = 45 || first = 61 then some (.error (.badSyntax argument))
      else
        let (front, value) := Text.cutAt 61 more
        some (.ok (first :: front, value))
  | _ => none

def setSwitch (o : Options) (name : Text) (set : Bool → Options → Options) (value : Option Text) :
    Except FlagError Options :=
  match value with
  | none => .ok (set true o)
  | some v =>
    match Numeral.bool? v with
    | some b => .ok (set b o)
    | none => .error (.badSwitch name v)

def setNumber (o : Options) (name : Text) (set : Int → Options → Options) (value : Text) : Except FlagError Options :=
  match Numeral.integerLiteral value with
  | .ok n => .ok (set n o)
  | .error e => .error (.badNumber name value e)

/-- Reads arguments up to the first that is no flag, or past two dashes that stand alone. -/
def parseFrom (o : Options) : List Text → Except FlagError Options
  | [] => .ok { o with paths := [] }
  | argument :: rest =>
    if argument = ("--" : Text) then .ok { o with paths := rest }
    else
      match split? argument with
      | none => .ok { o with paths := argument :: rest }
      | some (.error e) => .error e
      | some (.ok (name, value)) =>
        match flags.find? (·.name == name) with
        | none => .error (if name = ("help" : Text) || name = ("h" : Text) then .helpAsked else .undefined name)
        | some ⟨_, .switch set, _⟩ => do parseFrom (← o.setSwitch name set value) rest
        | some ⟨_, .number set, _⟩ =>
          match value, rest with
          | some v, rest => do parseFrom (← o.setNumber name set v) rest
          | none, v :: rest => do parseFrom (← o.setNumber name set v) rest
          | none, [] => .error (.needsValue name)
        | some ⟨_, .text set, _⟩ =>
          match value, rest with
          | some v, rest => parseFrom (set v o) rest
          | none, v :: rest => parseFrom (set v o) rest
          | none, [] => .error (.needsValue name)

def parse (args : List Text) : Except FlagError Options := parseFrom initial args

/-- The program goes on until it is told to stop. -/
def longRunning (o : Options) : Bool := o.ui || o.watch || o.serve

/-- A script comes from the standard input. -/
def readsInput (o : Options) : Bool :=
  !o.longRunning && !o.version && o.history ≤ 0 && (o.paths.isEmpty || o.paths.contains ("-" : Text))

/-- What makes the options contradict one another. -/
def conflict? (o : Options) : Option Text :=
  let listing := decide (0 < o.history)
  if 1 < ([o.ui, o.watch, o.serve, listing].filter id).length then
    some "--ui, --watch, --serve and --history cannot be combined"
  else if o.tokens && (o.ui || o.serve || listing) then some "--tokens only applies to script and watch modes"
  else if o.history < 0 then some (("--history must be positive, got " : Text) ++ Text.ofInt o.history)
  else if o.ui && 1 < o.paths.length then some "--ui accepts at most one script path"
  else none

end Options

end Abacus
