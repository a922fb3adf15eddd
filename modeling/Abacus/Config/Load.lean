import Abacus.Config
import Abacus.Toml.Document

/-!
# Loading a configuration

A configuration file is a TOML document of known keys. Without a file every setting has its default.
-/

namespace Abacus

namespace Config

/-! ## Settings in a document -/

/-- Reads a setting off the node it is written as. -/
abbrev Setting (α : Type) := Toml.Node → Option α

namespace Setting

def int : Setting Int
  | .value (.integer n) => some n
  | _ => none

def bool : Setting Bool
  | .value (.bool b) => some b
  | _ => none

def text : Setting Text
  | .value (.string t) => some t
  | _ => none

def texts : Setting (List Text)
  | .value (.array items) => items.mapM fun
    | .string t => some t
    | _ => none
  | _ => none

/-- Nanoseconds, or a text with units. -/
def duration : Setting Int
  | .value (.integer n) => some n
  | .value (.string t) => Duration.ofText? t
  | _ => none

/-- An integer stands for a float if a double holds it and its neighbours. -/
def float : Setting Float
  | .value (.float x) => some x
  | .value (.integer n) => if n.natAbs < Nat.pow 2 53 then some (Float.ofInt n) else none
  | _ => none

/-- The setting under a name, which may be written in any case; unset ones keep their value. -/
def read {α : Type} (s : Setting α) (entries : Toml.Entries) (name : Text) (unset : α) : Option α :=
  match entries.lookup name with
  | some n => s n
  | none =>
    match entries.find? (fun e => e.1.caseFold == name) with
    | some (_, n) => s n
    | none => some unset

def table : Setting Toml.Entries
  | .table entries => some entries
  | _ => none

end Setting

def sections : List (Text × List Text) :=
  [("engine", ["max_depth"]),
    ("history", ["enabled", "path", "busy_timeout", "retain"]),
    ("watch", ["paths", "debounce", "include", "exclude"]),
    ("server", ["enabled", "address", "rate_limit", "burst", "limiter_ttl", "max_body_size"]),
    ("observability", ["metrics_enabled", "tracing_enabled", "otlp_endpoint", "service_name"])]

/-- A key that means something. -/
def isKnown : Toml.Key → Bool
  | [name] => name.caseFold = ("version" : Text) || (sections.lookup name.caseFold).isSome
  | [name, field] => ((sections.lookup name.caseFold).getD []).contains field.caseFold
  | _ => false

/-- The settings of a document; `none` when one has a value of the wrong type. -/
def ofEntries? (e : Toml.Entries) : Option Config := do
  let c := zero
  let version ← Setting.int.read e "version" c.version
  let engine ← Setting.table.read e "engine" []
  let history ← Setting.table.read e "history" []
  let watch ← Setting.table.read e "watch" []
  let server ← Setting.table.read e "server" []
  let observability ← Setting.table.read e "observability" []
  return {
    version
    engine := ⟨← Setting.int.read engine "max_depth" c.engine.maxDepth⟩
    history := {
      enabled := ← Setting.bool.read history "enabled" c.history.enabled
      path := ← Setting.text.read history "path" c.history.path
      busyTimeout := ← Setting.duration.read history "busy_timeout" c.history.busyTimeout
      retain := ← Setting.int.read history "retain" c.history.retain }
    watch := {
      paths := ← Setting.texts.read watch "paths" c.watch.paths
      debounce := ← Setting.duration.read watch "debounce" c.watch.debounce
      included := ← Setting.texts.read watch "include" c.watch.included
      excluded := ← Setting.texts.read watch "exclude" c.watch.excluded }
    server := {
      enabled := ← Setting.bool.read server "enabled" c.server.enabled
      address := ← Setting.text.read server "address" c.server.address
      rateLimit := ← Setting.float.read server "rate_limit" c.server.rateLimit
      burst := ← Setting.int.read server "burst" c.server.burst
      limiterTtl := ← Setting.duration.read server "limiter_ttl" c.server.limiterTtl
      maxBodySize := ← Setting.int.read server "max_body_size" c.server.maxBodySize }
    observability := {
      metricsEnabled := ← Setting.bool.read observability "metrics_enabled" c.observability.metricsEnabled
      tracingEnabled := ← Setting.bool.read observability "tracing_enabled" c.observability.tracingEnabled
      otlpEndpoint := ← Setting.text.read observability "otlp_endpoint" c.observability.otlpEndpoint
      serviceName := ← Setting.text.read observability "service_name" c.observability.serviceName } }

/-! ## Files -/

inductive LoadError where
  | unreadable (verb path : Text) (e : FileError)
  | malformed
  | unknownKey (key : Toml.Key)
  | noDirectory
  | invalid (message : Text)

namespace LoadError

def isNotFound : LoadError → Bool
  | .unreadable _ _ .notFound => true
  | _ => false

def message : LoadError → Text
  | .unreadable verb path e => FileTree.accessError verb path e
  | .malformed => "toml: invalid document"
  | .unknownKey key => ("unknown config key " : Text) ++ (Toml.renderKey key).quoted
  | .noDirectory => "cwd must not be empty"
  | .invalid m => m

/-- Loading came as far as to look at variables: all that can still be wrong then is what the settings are. -/
def reachesOverrides {α : Type} : Except LoadError α → Bool
  | .ok _ => true
  | .error (.invalid _) => true
  | .error _ => false

end LoadError

/-- A checked configuration, or the first thing wrong with it. -/
def checked (files : FileTree) (c : Config) : Except LoadError Config :=
  match c.problems files with
  | [] => .ok c
  | m :: _ => .error (.invalid m)

/-- A decoded configuration settled and checked. -/
def settle (files : FileTree) (vars : Variables) (c : Config) : Except LoadError Config :=
  checked files (c.withOverrides vars).withDefaults.normalize

def ofText (files : FileTree) (vars : Variables) (t : Text) : Except LoadError Config :=
  match Toml.document? t with
  | none => .error .malformed
  | some doc =>
    match ofEntries? doc.entries with
    | none => .error .malformed
    | some c =>
      match doc.keys.find? (!isKnown ·) with
      | some key => .error (.unknownKey key)
      | none => settle files vars c

def load (files : FileTree) (vars : Variables) (path : Text) : Except LoadError Config :=
  match files.read path with
  | .error (verb, e) => .error (.unreadable verb path e)
  | .ok t => ofText files vars t

/-! ## Finding the file -/

/-- The path that stands for a search. -/
def searchPath : Text := "./data/config/calcscript.toml"

def candidates (cwd : Text) : Except LoadError (List Text) :=
  if cwd.isBlank then .error .noDirectory
  else .ok [Path.join [cwd, "data/config/calcscript.toml"], Path.join [cwd, "calcscript.toml"]]

def firstOf (files : FileTree) (vars : Variables) : List Text → Except LoadError (Option (Config × Text))
  | [] => .ok none
  | p :: rest =>
    match load files vars p with
    | .ok c => .ok (some (c, p))
    | .error e => if e.isNotFound then firstOf files vars rest else .error e

/-- The configuration of a run, and the file it came from if there is one. -/
def discover (files : FileTree) (vars : Variables) (path cwd : Text) : Except LoadError (Config × Option Text) :=
  if path != searchPath then (load files vars path).map (·, some path)
  else do
    match ← firstOf files vars (← candidates cwd) with
    | some (c, p) => return (c, some p)
    | none =>
      let c ← checked files (default.withOverrides vars)
      return (c, none)

end Config

end Abacus
