import Abacus.Run
import Abacus.Screen.Editor
import Abacus.Text.Quoted
import Abacus.Text.Space

/-!
# The interactive screen

The screen shows a text box, and below it either the variables of the last run or the tokens of the script. It is driven
by events: an event changes the screen and may ask for work, and the result of the work changes it again.
-/

namespace Abacus

/-- The list that the screen shows. -/
inductive Panel where
  | bindings
  | tokens
deriving DecidableEq, Repr

namespace Panel

def name : Panel → Text
  | .bindings => "variables"
  | .tokens => "tokens"

def title : Panel → Text
  | .bindings => "Variables"
  | .tokens => "Tokens"

def other : Panel → Panel
  | .bindings => .tokens
  | .tokens => .bindings

end Panel

/-- A line of a list, with what is said about it. -/
structure Entry where
  title : Text
  detail : Text
deriving DecidableEq, Repr

namespace Entry

/-- The text that a search in the list would look at. -/
def searched (e : Entry) : Text := e.title ++ e.detail

def ofToken (t : Token) : Entry := ⟨t.kind.name, t.text.quoted ++ (" on line " : Text) ++ Text.ofInt t.line⟩

/-- The variables of a result, in the order in which they were first set. -/
def ofResult (r : Result) : List Entry := r.names.map fun n => ⟨n, showValue ((r.bindings.get? n).getD 0)⟩

end Entry

inductive Key where
  | interrupt
  | escape
  | tab
  | run
  | listTokens
  | clear
  | pageUp
  | pageDown
  | enter
  | backspace
deriving DecidableEq, Repr

def Key.ofName? (name : Text) : Option Key :=
  [(("ctrl+c" : Text), Key.interrupt), ("esc", .escape), ("tab", .tab), ("ctrl+r", .run), ("ctrl+t", .listTokens),
    ("ctrl+l", .clear), ("pgup", .pageUp), ("pgdown", .pageDown), ("enter", .enter), ("backspace", .backspace)].lookup name

/-- What reaches the screen from outside. -/
inductive ScreenEvent where
  | key (k : Key)
  | typed (c : Char)
  | filled (text : Text)
  | loaded (path script : Text)
  | unreadable (path reason : Text)
  | resized (width height : Int)
  | unrelated
deriving DecidableEq, Repr

/-- The work that the screen asks for. -/
inductive Task where
  | run (source script : Text)
  | tokenize (script : Text)
  | quit
deriving DecidableEq, Repr

def Task.name : Task → Text
  | .run _ _ => "run"
  | .tokenize _ => "tokens"
  | .quit => "quit"

/-- What the screen tells about the last run. -/
structure LastRun where
  time : Text
  statements : Nat
  bindings : Nat
deriving DecidableEq, Repr

structure Screen where
  /-- Without an interpreter the screen asks for no runs. -/
  interpreter : Option Interpreter
  editor : Editor
  bindings : List Entry
  tokens : List Entry
  panel : Panel
  /-- The file that the script was loaded from, empty where there is none. -/
  path : Text
  lastRun : Option LastRun
  /-- What stopped the last run, empty where nothing did. -/
  problem : Text
  unknown : Nat
  loadError : Text
  listWidth : Int
  listHeight : Int

namespace Screen

def new (interpreter : Option Interpreter) : Screen :=
  ⟨interpreter, .empty, [], [], .bindings, [], none, [], 0, [], 0, 0⟩

def source (s : Screen) : Text := if s.path.isEmpty then "ui" else s.path

/-! ## Events -/

/-- A run of a script, if there is an interpreter for it. -/
def askRun (s : Screen) (script : Text) : Option Task := s.interpreter.map fun _ => .run s.source script

def askTokens (s : Screen) (script : Text) : Option Task := s.interpreter.map fun _ => .tokenize script

def press (s : Screen) : Key → Screen × Option Task
  | .interrupt | .escape => (s, some .quit)
  | .tab => ({ s with panel := s.panel.other }, none)
  | .run => (s, s.askRun s.editor.toText)
  | .listTokens => (s, s.askTokens s.editor.toText)
  | .clear => ({ s with editor := .empty }, none)
  | .pageUp | .pageDown => (s, none)
  | .enter => ({ s with editor := s.editor.newline }, none)
  | .backspace => ({ s with editor := s.editor.backspace }, none)

/-- The height of a list, at least. -/
def leastHeight : Int := 5

/-- The blank columns at both sides, and the rows besides the list. -/
def frame : Int × Int := (4, 18)

/-- Takes an event in. A loaded script is run as it was read, whatever the text box makes of it. -/
def update (s : Screen) : ScreenEvent → Screen × Option Task
  | .key k => s.press k
  | .typed c => ({ s with editor := s.editor.insert [c] }, none)
  | .filled text => ({ s with editor := .ofText text }, none)
  | .loaded path script =>
    let s := { s with loadError := [], path, editor := .ofText script }
    (s, s.askRun script)
  | .unreadable path reason =>
    ({ s with loadError := ("Reading " : Text) ++ path ++ (" failed: " : Text) ++ reason }, none)
  | .resized width height =>
    ({ s with listWidth := width - frame.1, listHeight := max leastHeight (height - frame.2) }, none)
  | .unrelated => (s, none)

def showTokens (s : Screen) (ts : List Token) : Screen :=
  { s with tokens := ts.map .ofToken, unknown := (ts.filter (·.kind == .unknown)).length }

/-- Takes in the result of a run that ended at a time, and the tokens of its script. -/
def showResult (s : Screen) (time : Text) (r : Result) (ts : List Token) : Screen :=
  { s with
    lastRun := some ⟨time, r.outcomes.length, r.names.length⟩
    problem := (r.problem.map Problem.userMessage).getD []
    bindings := Entry.ofResult r }.showTokens ts

/-- Does the work that was asked for. -/
def perform (s : Screen) (runId time : Text) (task : Task) : Screen :=
  match s.interpreter, task with
  | some i, .run source script =>
    let (report, i) := i.execute (always none) runId ⟨source, script⟩
    { s with interpreter := some i }.showResult time report.result (i.tokens script)
  | some i, .tokenize script => { s.showTokens (i.tokens script) with panel := .tokens }
  | _, _ => s

/-- Takes an event in and does the work it asks for. -/
def handle (s : Screen) (runId time : Text) (e : ScreenEvent) : Screen × Option Task :=
  let (s, task) := s.update e
  ((task.map (s.perform runId time)).getD s, task)

/-! ## Texts -/

/-- Text as it is laid out: a tab is four columns wide. -/
def laidOut (t : Text) : Text := t.flatMap fun b => if b = 9 then [32, 32, 32, 32] else [b]

def bar : Text := " | "

def status (s : Screen) : Text :=
  match s.lastRun with
  | none => "No run yet"
  | some r =>
    laidOut (Text.join bar ([("Last run: " : Text) ++ r.time, Text.ofNat r.statements ++ (" statements" : Text),
      Text.ofNat r.bindings ++ (" variables" : Text)] ++ if s.path.isEmpty then [] else [s.path]))

def summary (s : Screen) : Text :=
  let outcome := if !s.problem.isEmpty then [laidOut s.problem] else if s.lastRun.isSome then ["OK"] else []
  let warning := if s.unknown = 0 then [] else [Text.ofNat s.unknown ++ (" unknown tokens" : Text)]
  Text.join bar (outcome ++ warning)

def keys : Text := "Keys: ctrl+r run | ctrl+t tokens | tab panel | pgup/pgdown page | ctrl+l clear | esc quit"

/-- What the keys do. A script from a file is loaded again when the file changes. -/
def help (s : Screen) : Text := if s.path.isEmpty then keys else keys ++ bar ++ ("reloads on save" : Text)

def heading : Text := "Calculator Script"

/-- The lines above the text box, without blanks at either end. -/
def top (s : Screen) : List Text :=
  ((Text.pieces (· = 10) (Text.unlines [[], heading, s.status ++ bar ++ s.summary, [], s.help])).take 5).map Text.trim

/-- The title of a list can be read if the list is the one shown and is wide enough for it. -/
def showsTitle (s : Screen) (p : Panel) : Bool := s.panel = p && p.title.length + 5 ≤ s.listWidth

/-- The entries of both lists. -/
def entries (s : Screen) : List Entry := s.bindings ++ s.tokens

/-- The last line below the list, empty where no file failed to load. -/
def errorLine (s : Screen) : Text :=
  ((((Text.pieces (· = 10) (laidOut s.loadError)).map Text.trim).filter (!·.isEmpty)).getLast?).getD []

end Screen

end Abacus
