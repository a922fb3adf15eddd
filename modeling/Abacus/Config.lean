import Abacus.Address
import Abacus.Decimal.Read
import Abacus.Duration
import Abacus.Expr.Parser
import Abacus.FileTree
import Abacus.Glob
import Abacus.Text.Space

/-!
# Configuration

The settings of the program. A configuration is settled in steps: overrides from the environment, defaults
for what is unset, trimming, and last a check that lists everything wrong with it.
-/

namespace Abacus

namespace Config

structure Engine where
  maxDepth : Int

structure History where
  enabled : Bool
  path : Text
  busyTimeout : Int
  retain : Int

structure Watch where
  paths : List Text
  debounce : Int
  included : List Text
  excluded : List Text

structure Server where
  enabled : Bool
  address : Text
  rateLimit : Float
  burst : Int
  limiterTtl : Int
  maxBodySize : Int

structure Observability where
  metricsEnabled : Bool
  tracingEnabled : Bool
  otlpEndpoint : Text
  serviceName : Text

end Config

structure Config where
  version : Int
  engine : Config.Engine
  history : Config.History
  watch : Config.Watch
  server : Config.Server
  observability : Config.Observability

namespace Config

/-- Everything unset. -/
def zero : Config where
  version := 0
  engine := ⟨0⟩
  history := ⟨false, [], 0, 0⟩
  watch := ⟨[], 0, [], []⟩
  server := ⟨false, [], 0, 0, 0, 0⟩
  observability := ⟨false, false, [], []⟩

/-! ## Defaults -/

def orPositive (n default : Int) : Int := if n ≤ 0 then default else n

/-- A text with nothing but white space counts as unset. -/
def orGiven (t default : Text) : Text := if t.isBlank then default else t

def orSome (ts default : List Text) : List Text := if ts.isEmpty then default else ts

def withDefaults (c : Config) : Config where
  version := if c.version = 0 then 1 else c.version
  engine := ⟨orPositive c.engine.maxDepth Parser.defaultLimit⟩
  history :=
    { c.history with
      path := orGiven c.history.path "data/history.db"
      busyTimeout := orPositive c.history.busyTimeout (2 * Duration.second) }
  watch :=
    { c.watch with
      debounce := if c.watch.debounce = 0 then 300 * Duration.millisecond else c.watch.debounce
      included := orSome c.watch.included ["*.calc", "*.txt"]
      excluded := orSome c.watch.excluded [".*", "*~"] }
  server :=
    { c.server with
      address := orGiven c.server.address "127.0.0.1:8787"
      rateLimit := if c.server.rateLimit ≤ 0 then 20 else c.server.rateLimit
      burst := orPositive c.server.burst 40
      limiterTtl := orPositive c.server.limiterTtl (5 * Duration.minute)
      maxBodySize := orPositive c.server.maxBodySize 65536 }
  observability :=
    { c.observability with serviceName := orGiven c.observability.serviceName "calcscript" }

def default : Config := zero.withDefaults

/-! ## Trimming -/

/-- The texts trimmed, without those that are blank. -/
def trimAll (ts : List Text) : List Text := (ts.map Text.trim).filter (!·.isEmpty)

def normalize (c : Config) : Config :=
  { c with
    history := { c.history with path := c.history.path.trim }
    watch :=
      { c.watch with
        paths := trimAll c.watch.paths
        included := trimAll c.watch.included
        excluded := trimAll c.watch.excluded }
    server := { c.server with address := c.server.address.trim }
    observability := { c.observability with otlpEndpoint := c.observability.otlpEndpoint.trim } }

/-! ## Overrides -/

abbrev Variables := List (Text × Text)

namespace Override

def text (vars : Variables) (key : Text) (old : Text) : Text := (vars.lookup key).getD old

/-- A value that cannot be read leaves the setting alone. -/
def reading {α : Type} (read : Text → Option α) (vars : Variables) (key : Text) (old : α) : α :=
  ((vars.lookup key).bind read).getD old

def int? (t : Text) : Option Int := (Numeral.integer t).toOption

def bool? (t : Text) : Option Bool := Numeral.bool? t.lower

def float? (t : Text) : Option Float := (Numeral.float t).toOption

def int : Variables → Text → Int → Int := reading int?

def bool : Variables → Text → Bool → Bool := reading bool?

def float : Variables → Text → Float → Float := reading float?

def duration : Variables → Text → Int → Int := reading Duration.ofText?

end Override

def withOverrides (vars : Variables) (c : Config) : Config :=
  { c with
    engine := ⟨Override.int vars "CALCSCRIPT_ENGINE_MAX_DEPTH" c.engine.maxDepth⟩
    history :=
      { c.history with
        enabled := Override.bool vars "CALCSCRIPT_HISTORY_ENABLED" c.history.enabled
        path := Override.text vars "CALCSCRIPT_HISTORY_PATH" c.history.path
        retain := Override.int vars "CALCSCRIPT_HISTORY_RETAIN" c.history.retain }
    watch := { c.watch with debounce := Override.duration vars "CALCSCRIPT_WATCH_DEBOUNCE" c.watch.debounce }
    server :=
      { c.server with
        enabled := Override.bool vars "CALCSCRIPT_SERVER_ENABLED" c.server.enabled
        address := Override.text vars "CALCSCRIPT_SERVER_ADDRESS" c.server.address
        rateLimit := Override.float vars "CALCSCRIPT_SERVER_RATE_LIMIT" c.server.rateLimit
        burst := Override.int vars "CALCSCRIPT_SERVER_BURST" c.server.burst }
    observability :=
      { metricsEnabled :=
          Override.bool vars "CALCSCRIPT_OBSERVABILITY_METRICS_ENABLED" c.observability.metricsEnabled
        tracingEnabled :=
          Override.bool vars "CALCSCRIPT_OBSERVABILITY_TRACING_ENABLED" c.observability.tracingEnabled
        otlpEndpoint := Override.text vars "CALCSCRIPT_OBSERVABILITY_OTLP_ENDPOINT" c.observability.otlpEndpoint
        serviceName := Override.text vars "CALCSCRIPT_OBSERVABILITY_SERVICE_NAME" c.observability.serviceName } }

/-- How the values of a variable are read. -/
inductive Override.Kind where
  | text
  | int
  | bool
  | float
  | duration
deriving DecidableEq, Repr

/-- A value that overrides the setting. -/
def Override.Kind.accepts : Override.Kind → Text → Bool
  | .text, _ => true
  | .int, t => (Override.int? t).isSome
  | .bool, t => (Override.bool? t).isSome
  | .float, t => (Override.float? t).isSome
  | .duration, t => (Duration.ofText? t).isSome

/-- The variables that override a setting, in the order in which they are looked at. -/
def overrides : List (Text × Override.Kind) := [
  ("CALCSCRIPT_ENGINE_MAX_DEPTH", .int),
  ("CALCSCRIPT_HISTORY_ENABLED", .bool),
  ("CALCSCRIPT_HISTORY_PATH", .text),
  ("CALCSCRIPT_HISTORY_RETAIN", .int),
  ("CALCSCRIPT_WATCH_DEBOUNCE", .duration),
  ("CALCSCRIPT_SERVER_ENABLED", .bool),
  ("CALCSCRIPT_SERVER_ADDRESS", .text),
  ("CALCSCRIPT_SERVER_RATE_LIMIT", .float),
  ("CALCSCRIPT_SERVER_BURST", .int),
  ("CALCSCRIPT_OBSERVABILITY_METRICS_ENABLED", .bool),
  ("CALCSCRIPT_OBSERVABILITY_TRACING_ENABLED", .bool),
  ("CALCSCRIPT_OBSERVABILITY_OTLP_ENDPOINT", .text),
  ("CALCSCRIPT_OBSERVABILITY_SERVICE_NAME", .text)]

/-- The variables that take effect, with their values. -/
def inEffect (vars : Variables) : Variables :=
  overrides.filterMap fun (key, kind) =>
    ((vars.lookup key).filter kind.accepts).map fun value => (key, value)

/-! ## Checking -/

def checkVersion (c : Config) : List Text :=
  if c.version = 1 then []
  else [("unsupported config version " : Text) ++ Text.ofInt c.version ++ ("; supported version is 1" : Text)]

def checkEngine (c : Config) : List Text :=
  if 8 ≤ c.engine.maxDepth then []
  else [("engine.max_depth must be >= 8, got " : Text) ++ Text.ofInt c.engine.maxDepth]

def checkHistory (c : Config) : List Text :=
  if !c.history.enabled then []
  else if c.history.path.isEmpty then ["history.path must not be empty when history is enabled"]
  else if c.history.retain < 0 then
    [("history.retain must be >= 0, got " : Text) ++ Text.ofInt c.history.retain]
  else []

/-- The place of an item in a list setting, with the item. -/
def itemLabel (setting : Text) (i : Nat) (t : Text) : Text :=
  setting ++ (91 :: Text.ofNat i) ++ ("] " : Text) ++ t.quoted

def checkPatterns (setting : Text) (patterns : List Text) : List Text :=
  let bad := patterns.zipIdx.filterMap fun (t, i) =>
    match Glob.read t with
    | .error e => some (itemLabel setting i t ++ (": " : Text) ++ e.message)
    | .ok _ => none
  bad.take 1

def checkWatch (c : Config) : List Text :=
  if c.watch.debounce < 0 then ["watch.debounce must not be negative"]
  else (checkPatterns "watch.include" c.watch.included ++ checkPatterns "watch.exclude" c.watch.excluded).take 1

def checkServer (c : Config) : List Text :=
  if !c.server.enabled then []
  else
    match splitAddress c.server.address with
    | .error f =>
      [("server.address " : Text) ++ c.server.address.quoted ++ (": " : Text) ++ f.message c.server.address]
    | .ok _ => []

def checkObservability (c : Config) : List Text :=
  let endpoint := c.observability.otlpEndpoint
  if c.observability.tracingEnabled && endpoint.isEmpty then
    ["observability.otlp_endpoint is required when tracing is enabled"]
  else if Text.hasPart "://" endpoint then
    [("observability.otlp_endpoint must be host:port, got " : Text) ++ endpoint.quoted]
  else []

def checkWatchPaths (files : FileTree) (c : Config) : List Text :=
  c.watch.paths.zipIdx.filterMap fun (p, i) =>
    match files.lookup p with
    | .error .notFound => some (itemLabel "watch.paths" i p ++ (" does not exist" : Text))
    | _ => none

def checkHistoryPath (files : FileTree) (c : Config) : List Text :=
  if !c.history.enabled then []
  else
    let isDirectory : List Text :=
      match files.isDirectory c.history.path with
      | .ok true => [("history.path " : Text) ++ c.history.path.quoted ++ (" is a directory" : Text)]
      | _ => []
    let parent := Path.dir c.history.path
    let badParent : List Text :=
      match files.isDirectory parent with
      | .ok false => [("history.path parent " : Text) ++ parent.quoted ++ (" is not a directory" : Text)]
      | _ => []
    isDirectory ++ badParent

def problems (files : FileTree) (c : Config) : List Text :=
  c.checkVersion ++ c.checkEngine ++ c.checkHistory ++ c.checkWatch ++ c.checkServer ++ c.checkObservability
    ++ c.checkWatchPaths files ++ c.checkHistoryPath files

end Config

end Abacus
