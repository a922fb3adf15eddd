import Abacus.Bucket.Registry
import Abacus.CommandLine.LogTarget
import Abacus.CommandLine.Options
import Abacus.Config.Reload
import Abacus.Health
import Abacus.History.Recorder

/-!
# The command line program

One call of the program: it reads its options and its configuration, opens the history if there is to be one, and
then runs scripts, lists the history, or stays and watches. A program that stays is a session; file changes are passed
to it until it is stopped. What time, identifiers and the network give is supplied from outside.
-/

namespace Abacus

/-- What the program takes from outside: fresh identifiers, instants, and the address that a listener gets. -/
structure Supply where
  id : Nat → Text
  time : Nat → Instant
  bound : Text → Text

/-- What the program finds when it starts. `used` tells how much of the supply is gone. -/
structure World where
  disk : Disk
  settings : Config.Variables
  supply : Supply
  used : Nat

/-- What the program wrote. -/
structure Console where
  out : Text
  err : Text

structure Session where
  world : World
  console : Console
  options : Options
  target : LogTarget
  config : Config
  interpreter : Interpreter
  recorder : Option (Recorder Store)
  reloader : Option Reloader
  watcher : Option Watcher

namespace Session

def begin (w : World) (o : Options) : Session :=
  ⟨w, ⟨[], []⟩, o, .errorStream, .default, .new 0, none, none, none⟩

def files (s : Session) : FileTree := s.world.disk.files

def setFiles (s : Session) (files : FileTree) : Session :=
  { s with world := { s.world with disk := { s.world.disk with files } } }

def print (s : Session) (t : Text) : Session := { s with console := { s.console with out := s.console.out ++ t } }

def complain (s : Session) (t : Text) : Session := { s with console := { s.console with err := s.console.err ++ t } }

/-- Writes log records from the least level upwards. -/
def log (s : Session) (rs : List LogRecord) : Session :=
  let lines := LogRecord.renderFrom (LogTarget.leastLevel s.options.verbose) rs
  match s.target with
  | .errorStream => s.complain lines
  | .file place => s.setFiles (s.files.append place lines)
  | .nowhere => s

def report (s : Session) (level : Level) (message : Text) (values : List (Text × LogValue)) : Session :=
  s.log [⟨level, message, values⟩]

/-- Logs the variables that an attempt to load the configuration took into account. -/
def logOverrides {α : Type} (s : Session) (loaded : Except Config.LoadError α) : Session :=
  if Config.LoadError.reachesOverrides loaded then
    s.log ((Config.inEffect s.world.settings).map fun (key, value) =>
      ⟨.debug, "applying env override", [("key", .text key), ("value", .text value)]⟩)
  else s

/-! ## Running scripts -/

/-- Lets the recorder write all that is queued. -/
def drainHistory (s : Session) : Session :=
  match s.recorder with
  | none => s
  | some r =>
    let r := r.drain (.ofStore s.config.history.retain)
    { s with recorder := some { r with log := [] } }.log r.log

/-- Runs a script and prints its variables, also those from before a fault; or prints its tokens. -/
def runOne (s : Session) (source script : Text) : Bool × Session :=
  if s.options.tokens then
    let s := s.log (s.interpreter.tokensJournal script).log
    (true, s.print (Token.listing (s.interpreter.tokens script)))
  else
    let req : Interpreter.Request := ⟨source, script⟩
    let (rep, interpreter) := s.interpreter.execute (always none) (s.world.supply.id s.world.used) req
    let record := RunRecord.ofReport req rep (s.world.supply.time s.world.used)
    let s := { s with
      interpreter
      recorder := s.recorder.map fun (r : Recorder Store) => r.record record
      world := { s.world with used := s.world.used + 1 } }
    let s := (s.log rep.journal.log).print rep.result.table
    match rep.problem with
    | none => (true, s.drainHistory)
    | some p => (false, (s.complain (source ++ (": " : Text) ++ p.userMessage ++ [10])).drainHistory)

def heading (path : Text) : Text := ("# " : Text) ++ path ++ [10]

/-- The scripts named on the command line, each with its source. A dash stands for the standard input, which is empty
once it was read. -/
def readInputs (files : FileTree) (stdin : Text) : List Text → Except Text (List (Text × Text))
  | [] => .ok []
  | p :: ps => do
    if p = ("-" : Text) then return (("stdin" : Text), stdin) :: (← readInputs files [] ps)
    else
      match files.read p with
      | .error (verb, e) => .error (FileTree.accessError verb p e)
      | .ok script => return (p, script) :: (← readInputs files stdin ps)

/-- Runs scripts in turn. The exit code tells whether one of them failed. -/
def runScripts (s : Session) (headings : Bool) : List (Text × Text) → Nat × Session
  | [] => (0, s)
  | (source, script) :: rest =>
    let s := if headings then s.print (heading source) else s
    let (ok, s) := s.runOne source script
    let (code, s) := s.runScripts headings rest
    (if ok then code else 1, s)

def scriptMode (s : Session) (stdin : Text) : Nat × Session :=
  let paths : List Text := if s.options.paths.isEmpty then ["-"] else s.options.paths
  match readInputs s.files stdin paths with
  | .error e => (1, s.complain (e ++ [10]))
  | .ok inputs => s.runScripts (1 < inputs.length) inputs

/-! ## Listing the history -/

def historyMode (s : Session) : Nat × Session :=
  match s.recorder with
  | none => (1, s.complain (historyDisabled ++ [10]))
  | some r =>
    match r.state.load none 0 s.options.history with
    | .error e => (1, s.report .error "failed to load history" [("error", .text e.message)])
    | .ok runs => (0, s.print (listRuns runs))

/-! ## Staying -/

/-- Runs changed files, each under its heading. One that cannot be read is skipped. -/
def rerun (s : Session) (paths : List Text) : Session :=
  paths.foldl (fun s p =>
    match s.files.read p with
    | .error (verb, e) =>
      s.report .warn "failed to read changed script"
        [("path", .text p), ("error", .text (FileTree.accessError verb p e))]
    | .ok script => ((s.print (heading p)).runOne p script).2) s

/-- Starts watching: the files among the paths are run once. -/
def watchMode (s : Session) (paths : List Text) : Option Text × Session :=
  if paths.isEmpty then (some "watch mode needs a script path or watch.paths in config", s)
  else
    match Watcher.new s.config.watch.included s.config.watch.excluded with
    | .error e => (some e.message, s)
    | .ok w =>
      match w.addAll s.files paths with
      | (some e, _) => (some e.message, s)
      | (none, w) =>
        let given := paths.filter fun p => (s.files.isDirectory p).toOption == some false
        let s := { s with watcher := some w }.rerun given
        (none, s.report .info "watching scripts" [("paths", .list paths)])

/-- Why no listener can be had at an address. -/
def listenError? (address : Text) : Option Text :=
  match splitAddress address with
  | .error f => some (f.message address)
  | .ok (_, port) =>
    if port.isEmpty then none
    else
      match Numeral.integer port with
      | .ok n =>
        if 0 ≤ n && n ≤ 65535 then none
        else some (("address " : Text) ++ port ++ (": invalid port" : Text))
      | .error .outOfRange => some (("address " : Text) ++ port ++ (": invalid port" : Text))
      | .error .malformed => some (("lookup tcp/" : Text) ++ port ++ (": unknown port" : Text))

/-- Starts to listen, if the address allows it. -/
def startServer (s : Session) : Except Text Session :=
  let address := s.config.server.address
  match listenError? address with
  | some e => .error (("listen on " : Text) ++ address ++ (": listen tcp: " : Text) ++ e)
  | none => .ok (s.report .info "api server starting" [("addr", .text (s.world.supply.bound address))])

def startReloader (s : Session) (path : Option Text) : Session :=
  match path with
  | none => s
  | some path =>
    let r := Reloader.new path
    match r.start s.files with
    | .error e => s.report .warn "config reload disabled" [("path", .text path), ("error", .text e.message)]
    | .ok _ => { s with reloader := some r }.report .info "watching config" [("path", .text r.path)]

/-- Enters a mode that stays; an exit code means that it could not. -/
def stay (s : Session) (configPath : Option Text) : Option Nat × Session :=
  let s := s.startReloader configPath
  let started := if s.options.serve || s.config.server.enabled then s.startServer else .ok s
  match started with
  | .error e => (some 1, s.report .error "failed to start api server" [("error", .text e)])
  | .ok s =>
    if s.options.watch then
      let paths := if s.options.paths.isEmpty then s.config.watch.paths else s.options.paths
      match s.watchMode paths with
      | (some e, s) => (some 1, s.report .error "watch mode failed" [("error", .text e)])
      | (none, s) => (none, s)
    else (none, s)

/-! ## File changes -/

/-- How long after a change the configuration is read again. -/
def reloadDelay : Int := 100 * Duration.millisecond

def reloadConfig (s : Session) (r : Reloader) : Session :=
  let next := r.reload s.files s.world.settings
  let s := s.logOverrides next
  match next with
  | .error e => s.report .warn "config reload rejected" [("path", .text r.path), ("error", .text e.message)]
  | .ok c =>
    let s := s.report .info "config reloaded" [("path", .text r.path)]
    { s with interpreter := s.interpreter.setLimit c.engine.maxDepth }.report .info "config reloaded"
      [("max_depth", .int c.engine.maxDepth)]

/-- The event as a watch on the directory of `path` reports it. -/
def seenFrom (s : Session) (path : Text) (e : FileEvent) : FileEvent :=
  let place (p : Text) := (s.files.locate true (Path.dir p)).toOption
  if place e.name == place path then { e with name := Path.join [Path.dir path, Path.base e.name] } else e

/-- Passes events to the watcher and runs what changed, all at once. -/
def runChanged (s : Session) (events : List FileEvent) : Session :=
  match s.watcher with
  | none => s
  | some w =>
    let step : Watcher × Debouncer → FileEvent → Watcher × Debouncer := fun (w, d) e =>
      let (changed, w) := w.handle s.files e
      (w, changed.elim d d.schedule)
    let (w, d) := events.foldl step (w, .new)
    let s := { s with watcher := some w }
    match d.fire.flush s.files.exists? with
    | (some paths, _) => s.rerun paths
    | (none, _) => s

def reloadChanged (s : Session) (events : List FileEvent) : Session :=
  match s.reloader with
  | none => s
  | some r => if events.any (fun e => r.reacts (s.seenFrom r.path e)) then s.reloadConfig r else s

/-- Puts files in place and lets the session see that. What is due sooner happens first. -/
def change (s : Session) (changes : List (Text × Text)) : Session :=
  let s := s.setFiles (changes.foldl (fun t (p, content) => t.install p content) s.files)
  let events := changes.map fun (p, _) => (⟨p, true, false⟩ : FileEvent)
  if s.config.watch.debounce < reloadDelay then (s.runChanged events).reloadChanged events
  else (s.reloadChanged events).runChanged events

/-! ## Start and end -/

def openHistory (s : Session) : Except HistoryError Session :=
  if s.config.history.enabled then do
    let (store, disk) ← Store.openAt s.world.disk s.config.history.path
    return { s with world := { s.world with disk }, recorder := some (.new 0 store) }
  else return s

/-- Ends a session: what is queued for the history is written and its database kept. -/
def close (s : Session) : Session :=
  match s.recorder with
  | none => s
  | some r =>
    let r := r.finish (.ofStore s.config.history.retain)
    let s := { s with recorder := some { r with log := [] } }.log r.log
    { s with world := { s.world with disk := s.world.disk.keep r.state } }

def openLog (s : Session) : Session :=
  let (target, warning, files) := LogTarget.choose s.files s.world.settings s.options.ui
  let s := { s.setFiles files with target }
  warning.elim s fun w => s.complain (w ++ [10])

/-- Does the work of a call once its options are read. No exit code means that the session stays. -/
def work (s : Session) (stdin : Text) : Option Nat × Session :=
  let s := s.openLog
  let found := Config.discover s.files s.world.settings s.options.configPath s.files.cwd
  let s := s.logOverrides found
  match found with
  | .error e => (some 1, s.report .error "failed to load config" [("error", .text e.message)])
  | .ok (config, path) =>
    let s := { s with config, interpreter := .new config.engine.maxDepth }
    match s.openHistory with
    | .error e =>
      (some 1, s.report .error "failed to initialize runtime"
        [("error", .text (("open history store: " : Text) ++ e.message))])
    | .ok s =>
      let ended : Nat × Session → Option Nat × Session := fun (code, s) => (some code, s.close)
      if 0 < s.options.history then ended s.historyMode
      else if !s.options.longRunning then ended (s.scriptMode stdin)
      else
        match s.stay path with
        | (some code, s) => ended (code, s)
        | (none, s) => (none, s)

def start (w : World) (args : List Text) (stdin : Text) : Option Nat × Session :=
  match Options.parse args with
  | .error e =>
    let said := if e = .helpAsked then [] else e.message ++ [10]
    (some 2, (begin w .initial).complain (said ++ Options.usage))
  | .ok o =>
    let s := begin w o
    if o.version then (some 0, s.print (versionText ++ [10]))
    else
      match o.conflict? with
      | some e => (some 2, s.complain (e ++ [10]))
      | none => s.work stdin

end Session

end Abacus
