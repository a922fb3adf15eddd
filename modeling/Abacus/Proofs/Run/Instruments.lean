import Abacus.Proofs.Run.Composition
import Abacus.Proofs.Run.Isolation

/-!
# The instruments agree with the runs

What a statement counts and which spans it opens depends on its text and on the nesting limit: it is scanned and
parsed, and evaluated if it parses. So the counters, the gauge and the spans of a run tell what its result tells: how
many statements were tried, what they consist of, and whether the last one faulted.
-/

namespace Abacus

def Metric.isTokens : Metric → Bool
  | .tokens _ => true
  | _ => false

namespace Journal

@[simp] theorem metrics_append (a b : Journal) : (a ++ b).metrics = a.metrics ++ b.metrics := rfl

@[simp] theorem spans_append (a b : Journal) : (a ++ b).spans = a.spans ++ b.spans := rfl

/-! ## The journal of some stages -/

/-- A journal with these increments and with a span inside the run for each of these stages. If `failed`, the last of
the spans is in error; no other one is. -/
structure Shows (metrics : List Metric) (stages : List Stage) (failed : Bool) (j : Journal) : Prop where
  increments : j.metrics = metrics
  names : j.spans.map Span.name = stages.map Stage.name
  parents : ∀ s ∈ j.spans, s.parent = some runSpanName
  statuses : ∃ n, j.spans.map Span.status = List.replicate n ("Unset" : Text) ++ (if failed then ["Error"] else [] : List Text)

theorem Shows.append {ms ms' : List Metric} {gs gs' : List Stage} {failed : Bool} {j j' : Journal}
    (h : Shows ms gs false j) (h' : Shows ms' gs' failed j') : Shows (ms ++ ms') (gs ++ gs') failed (j ++ j') := by
  obtain ⟨n, hn⟩ := h.statuses
  obtain ⟨n', hn'⟩ := h'.statuses
  refine ⟨?_, ?_, fun s hs => ?_, n + n', ?_⟩
  · rw [metrics_append, h.increments, h'.increments]
  · rw [spans_append, List.map_append, h.names, h'.names, List.map_append]
  · rcases List.mem_append.mp hs with hs | hs
    · exact h.parents s hs
    · exact h'.parents s hs
  · rw [spans_append, List.map_append, hn, hn', if_neg Bool.false_ne_true, List.append_nil, ← List.append_assoc,
      List.replicate_append_replicate]

theorem shows_unspanned (ms : List Metric) (log : List LogRecord) : Shows ms [] false ⟨ms, [], log, none⟩ :=
  ⟨rfl, rfl, nofun, 0, rfl⟩

theorem shows_scanJournal (tokens : List Token) :
    Shows (tokens.map (fun t => .tokens t.kind) ++ [.stage .scan]) [.scan] false
      (scanJournal (some runSpanName) tokens) :=
  ⟨rfl, rfl, List.forall_mem_singleton.mpr rfl, 1, rfl⟩

theorem shows_stageJournal (g : Stage) (failure : Option Text) :
    Shows [.stage g] [g] failure.isSome (stageJournal g failure) := by
  refine ⟨rfl, rfl, List.forall_mem_singleton.mpr rfl, ?_⟩
  cases failure with
  | none => exact ⟨1, rfl⟩
  | some message => exact ⟨0, rfl⟩

end Journal

/-! ## One statement -/

def scanned (text : Text) : List Token := tokenize (Statement.ofText text).expression

def parses (limit : Nat) (text : Text) : Bool := (parse (scanned text) limit).isOk

def stagesOf (limit : Nat) (text : Text) : List Stage :=
  [.scan, .parse] ++ if parses limit text then [.evaluate] else []

/-- What is counted for a statement, in order. -/
def attemptMetrics (limit : Nat) (text : Text) : List Metric :=
  .statements :: (scanned text).map (fun t => .tokens t.kind) ++ (stagesOf limit text).map .stage

section
variable {limit : Nat} {text : Text}

theorem stagesOf_of_error {f : Fault} (h : parse (scanned text) limit = .error f) :
    stagesOf limit text = [.scan, .parse] := by
  simp [stagesOf, parses, h, Except.isOk, Except.toBool]

theorem stagesOf_of_ok {e : Expr} (h : parse (scanned text) limit = .ok e) :
    stagesOf limit text = [.scan, .parse, .evaluate] := by
  simp [stagesOf, parses, h, Except.isOk, Except.toBool]

end

theorem shows_runStatement (limit : Nat) (env : Environment) (index : Nat) (text : Text) :
    (runStatement limit env index text).2.Shows (attemptMetrics limit text) (stagesOf limit text)
      (!(runStatement limit env index text).1.isOk) := by
  have hscan := (Journal.shows_unspanned [.statements] []).append (Journal.shows_scanJournal (scanned text))
  cases hp : parse (scanned text) limit with
  | error f =>
      have hparse := hscan.append (Journal.shows_stageJournal .parse (failureOf (parse (scanned text) limit)))
      rw [attemptMetrics, stagesOf_of_error hp]
      unfold scanned at hp hparse ⊢
      simpa [runStatement, hp, failureOf, Except.isOk, Except.toBool] using hparse
  | ok e =>
      have hparse := hscan.append (Journal.shows_stageJournal .parse none)
      have hvalue := fun failure => hparse.append (Journal.shows_stageJournal .evaluate failure)
      rw [attemptMetrics, stagesOf_of_ok hp]
      unfold scanned at hp hvalue ⊢
      cases hv : e.eval env with
      | error f =>
          have hfail := hvalue (some (f.renderOver none))
          simpa [runStatement, hp, hv, failureOf, Except.isOk, Except.toBool] using hfail
      | ok x =>
          cases ht : (Statement.ofText text).target with
          | none => simpa [runStatement, hp, hv, ht, failureOf, Except.isOk, Except.toBool] using hvalue none
          | some name =>
              have hlog := (hvalue none).append
                (Journal.shows_unspanned [] [⟨.debug, "assigned", [("name", .text name), ("value", .float x)]⟩])
              simpa [runStatement, hp, hv, ht, failureOf, Except.isOk, Except.toBool] using hlog

/-! ## The statements of a run -/

/-- Whether a statement's own fault stopped the run. An interruption is no fault. -/
def faulted : Option Problem → Bool
  | some (.fault _) => true
  | _ => false

/-- How many statements were begun: the completed ones, and one more if it faulted. -/
def attempted (outcomes : List Outcome) (problem : Option Problem) : Nat := outcomes.length + (faulted problem).toNat

theorem shows_runStatements (limit : Nat) (interrupted : Nat → Option Interruption) (env : Environment) (index : Nat)
    (stmts : List Text) :
    let p := runStatements limit interrupted env index stmts
    let tried := stmts.take (attempted p.outcomes p.problem)
    p.journal.Shows (tried.flatMap (attemptMetrics limit)) (tried.flatMap (stagesOf limit)) (faulted p.problem) := by
  induction stmts generalizing env index with
  | nil => exact Journal.shows_unspanned [] []
  | cons text rest ih =>
      have hs := shows_runStatement limit env index text
      simp only [runStatements]
      split
      · exact Journal.shows_unspanned [] []
      · rcases hr : runStatement limit env index text with ⟨f | ⟨o, env'⟩, j⟩
        · rw [hr] at hs
          simpa [attempted, faulted, located, Except.isOk, Except.toBool] using hs
        · rw [hr] at hs
          have hrest := hs.append (ih env' (index + 1))
          simpa only [attempted, List.length_cons, Nat.add_right_comm _ 1, List.take_succ_cons, List.flatMap_cons]
            using hrest

/-! ## What the statements count -/

section
variable (limit : Nat) (tried : List Text)

theorem count_statements_attempts : (tried.flatMap (attemptMetrics limit)).count .statements = tried.length := by
  have hone (text : Text) : (attemptMetrics limit text).count .statements = 1 := by
    simp [attemptMetrics, List.count_eq_zero]
  simp [List.count_flatMap, Function.comp_def, hone]

theorem count_tokens_attempts (k : Kind) :
    (tried.flatMap (attemptMetrics limit)).count (.tokens k) =
      (tried.flatMap scanned).countP fun t => t.kind = k := by
  have hone (text : Text) :
      (attemptMetrics limit text).count (.tokens k) = (scanned text).countP fun t => t.kind = k := by
    simp [attemptMetrics, List.count, List.countP_map, Function.comp_def, beq_eq_decide]
  simp [List.count_flatMap, List.countP_flatMap, Function.comp_def, hone]

theorem countP_isTokens_attempts :
    (tried.flatMap (attemptMetrics limit)).countP Metric.isTokens = (tried.flatMap scanned).length := by
  have hone (text : Text) : (attemptMetrics limit text).countP Metric.isTokens = (scanned text).length := by
    simp [attemptMetrics, Metric.isTokens, List.countP_map, Function.comp_def]
  simp [List.countP_flatMap, List.length_flatMap, Function.comp_def, hone]

theorem count_stage_attempts (g : Stage) :
    (tried.flatMap (attemptMetrics limit)).count (.stage g) = (tried.flatMap (stagesOf limit)).count g := by
  have hone (text : Text) : (attemptMetrics limit text).count (.stage g) = (stagesOf limit text).count g := by
    simp [attemptMetrics, List.count, List.countP_map, Function.comp_def, beq_eq_decide]
  simp [List.count_flatMap, Function.comp_def, hone]

theorem count_runs_attempts (ok : Bool) : (tried.flatMap (attemptMetrics limit)).count (.runs ok) = 0 := by
  simp [attemptMetrics, List.count_eq_zero]

theorem count_errors_attempts (c : Code) : (tried.flatMap (attemptMetrics limit)).count (.errors c) = 0 := by
  simp [attemptMetrics, List.count_eq_zero]

theorem count_stagesOf :
    (tried.flatMap (stagesOf limit)).count .scan = tried.length ∧
      (tried.flatMap (stagesOf limit)).count .parse = tried.length ∧
      (tried.flatMap (stagesOf limit)).count .evaluate = tried.countP (parses limit) := by
  induction tried with
  | nil => exact ⟨rfl, rfl, rfl⟩
  | cons text tried ih =>
      obtain ⟨hs, hp, he⟩ := ih
      simp only [List.flatMap_cons, List.count_append, List.length_cons, List.countP_cons, hs, hp, he, stagesOf]
      cases parses limit text <;> simp <;> omega

end

/-- A run tries its first statements: those with an outcome, and then the one that faulted. -/
theorem attempted_runStatements (limit : Nat) (interrupted : Nat → Option Interruption) (env : Environment)
    (index : Nat) (stmts : List Text) :
    let p := runStatements limit interrupted env index stmts
    attempted p.outcomes p.problem ≤ stmts.length ∧
      p.outcomes.map Outcome.statement = stmts.take p.outcomes.length := by
  intro p
  have hn : attempted p.outcomes p.problem ≤ stmts.length := by
    rcases problem_runStatements limit interrupted env index stmts with
      ⟨hp, hl⟩ | ⟨text, why, ht, _, hp⟩ | ⟨text, f, ht, _, hp⟩
    · rw [hp]
      exact Nat.le_of_eq hl
    · rw [hp]
      exact Nat.le_of_lt (List.getElem?_eq_some_iff.mp ht).1
    · rw [hp]
      exact (List.getElem?_eq_some_iff.mp ht).1
  refine ⟨hn, List.ext_getElem ?_ fun k hk _ => ?_⟩
  · rw [List.length_map, List.length_take]
    unfold attempted at hn
    omega
  · rw [List.length_map] at hk
    have hs := (outcome_runStatements limit interrupted env index stmts (List.getElem?_eq_getElem hk)).2.2.1
    rw [List.getElem_map, List.getElem_take]
    exact (List.getElem?_eq_some_iff.mp hs).2.symm

/-! ## Histories -/

namespace Interpreter

/-- The journal of a step. Setting the limit leaves none. -/
def stepJournal (i : Interpreter) : Step → Journal
  | .execute interrupted runId req => (i.execute interrupted runId req).1.journal
  | .tokens source => i.tokensJournal source
  | .setLimit _ => .empty

def journal (i : Interpreter) : List Step → Journal
  | [] => .empty
  | s :: steps => i.stepJournal s ++ (i.step s).journal steps

theorem journal_concat (i : Interpreter) (steps : List Step) (s : Step) :
    i.journal (steps ++ [s]) = i.journal steps ++ (i.after steps).stepJournal s := by
  induction steps generalizing i with
  | nil => exact (Journal.append_empty _).trans (Journal.empty_append _).symm
  | cons t steps ih =>
      show i.stepJournal t ++ (i.step t).journal (steps ++ [s]) = _
      rw [ih, ← Journal.append_assoc]
      rfl

/-- The readings after a run with the result `res` against the ones before it. A run that was not stopped tried all of
its statements, an interrupted one those with an outcome, and any other one also the statement that faulted. -/
structure RunRead (limit : Nat) (stmts : List Text) (res : Result) (old new : Journal) : Prop where
  within : attempted res.outcomes res.problem ≤ stmts.length
  completed : res.outcomes.map Outcome.statement = stmts.take res.outcomes.length
  statements : new.metrics.count .statements = old.metrics.count .statements + attempted res.outcomes res.problem
  scans : new.metrics.count (.stage .scan) = old.metrics.count (.stage .scan) + attempted res.outcomes res.problem
  parses : new.metrics.count (.stage .parse) = old.metrics.count (.stage .parse) + attempted res.outcomes res.problem
  evaluations : new.metrics.count (.stage .evaluate) = old.metrics.count (.stage .evaluate) +
    (stmts.take (attempted res.outcomes res.problem)).countP (Abacus.parses limit)
  tokens (k : Kind) : new.metrics.count (.tokens k) = old.metrics.count (.tokens k) +
    ((stmts.take (attempted res.outcomes res.problem)).flatMap scanned).countP fun t => t.kind = k
  allTokens : new.metrics.countP Metric.isTokens = old.metrics.countP Metric.isTokens +
    ((stmts.take (attempted res.outcomes res.problem)).flatMap scanned).length
  runs (ok : Bool) : new.metrics.count (.runs ok) =
    old.metrics.count (.runs ok) + if ok = res.problem.isNone then 1 else 0
  errors (c : Code) : new.metrics.count (.errors c) =
    old.metrics.count (.errors c) + if res.problem.map Problem.code = some c then 1 else 0
  gauge : new.gauge = some res.names.length
  /-- The run's own span is the last to end, and the others are those of its stages. -/
  spans : ∃ stages run, new.spans = old.spans ++ stages ++ [run] ∧
    run.name = runSpanName ∧ run.parent = none ∧
    run.status = (if res.problem = none then "Unset" else "Error" : Text) ∧
    (∀ s ∈ stages, s.name ≠ runSpanName ∧ s.parent = some runSpanName) ∧
    (∀ g, new.metrics.count (.stage g) = old.metrics.count (.stage g) + stages.countP fun s => s.name = g.name) ∧
    ∃ m, stages.map Span.status =
      List.replicate m ("Unset" : Text) ++ (if faulted res.problem then ["Error"] else [] : List Text)

/-- The readings after a listing of tokens against the ones before it. -/
structure ScanRead (listed : List Token) (old new : Journal) : Prop where
  tokens (k : Kind) : new.metrics.count (.tokens k) = old.metrics.count (.tokens k) + listed.countP fun t => t.kind = k
  allTokens : new.metrics.countP Metric.isTokens = old.metrics.countP Metric.isTokens + listed.length
  others (m : Metric) (h : m.isTokens = false) :
    new.metrics.count m = old.metrics.count m + if m = .stage .scan then 1 else 0
  gauge : new.gauge = old.gauge
  span : ∃ s, new.spans = old.spans ++ [s] ∧ s.name = Stage.scan.name ∧ s.parent = none ∧ s.status = ("Unset" : Text)

theorem count_closing (runId source : Text) (n : Nat) (problem : Option Problem) (size : Nat) :
    (∀ ok, (closing runId source n problem size).metrics.count (.runs ok) = if ok = problem.isNone then 1 else 0) ∧
    (∀ c, (closing runId source n problem size).metrics.count (.errors c) =
      if problem.map Problem.code = some c then 1 else 0) ∧
    (closing runId source n problem size).metrics.count .statements = 0 ∧
    (∀ g, (closing runId source n problem size).metrics.count (.stage g) = 0) ∧
    (∀ k, (closing runId source n problem size).metrics.count (.tokens k) = 0) ∧
    (closing runId source n problem size).metrics.countP Metric.isTokens = 0 := by
  cases problem with
  | none => simp [closing, List.count_cons, Metric.isTokens]
  | some p => simp [closing, List.count_cons, Metric.isTokens]

theorem name_injective {g g' : Stage} (h : g.name = g'.name) : g = g' := by
  cases g <;> cases g' <;> first | rfl | exact absurd h (by decide)

section
variable {ms : List Metric} {gs : List Stage} {failed : Bool} {j : Journal}

theorem name_ne_of_mem_spans (hj : j.Shows ms gs failed) {s : Span} (hs : s ∈ j.spans) : s.name ≠ runSpanName := by
  have hmem : s.name ∈ gs.map Stage.name := hj.names ▸ List.mem_map_of_mem hs
  obtain ⟨g, -, hg⟩ := List.mem_map.mp hmem
  rw [← hg]
  cases g <;> decide

theorem countP_spans (hj : j.Shows ms gs failed) (g : Stage) : j.spans.countP (fun s => s.name = g.name) = gs.count g := by
  have hnames : (j.spans.map Span.name).countP (· = g.name) = gs.count g := by
    rw [hj.names, List.countP_map]
    exact List.countP_congr fun g' _ => by simpa using ⟨name_injective, congrArg Stage.name⟩
  rw [← hnames, List.countP_map]
  rfl

end

theorem runRead_closing {limit : Nat} {stmts : List Text} {res : Result} {j : Journal}
    (hn : attempted res.outcomes res.problem ≤ stmts.length)
    (hdone : res.outcomes.map Outcome.statement = stmts.take res.outcomes.length)
    (hj : j.Shows ((stmts.take (attempted res.outcomes res.problem)).flatMap (attemptMetrics limit))
      ((stmts.take (attempted res.outcomes res.problem)).flatMap (stagesOf limit)) (faulted res.problem))
    (old : Journal) (runId source : Text) (n : Nat) :
    RunRead limit stmts res old (old ++ (j ++ closing runId source n res.problem res.names.length)) := by
  obtain ⟨hruns, herrors, hstatements, hstage, htoken, htokens⟩ :=
    count_closing runId source n res.problem res.names.length
  have hlength := List.length_take_of_le hn
  generalize ht : stmts.take (attempted res.outcomes res.problem) = tried at hj hlength
  obtain ⟨hscan, hparse, hevaluate⟩ := count_stagesOf limit tried
  have hcount (m : Metric) :
      (old ++ (j ++ closing runId source n res.problem res.names.length)).metrics.count m =
        old.metrics.count m + ((tried.flatMap (attemptMetrics limit)).count m +
          (closing runId source n res.problem res.names.length).metrics.count m) := by
    rw [Journal.metrics_append, Journal.metrics_append, hj.increments, List.count_append, List.count_append]
  have hstages (g : Stage) :
      (old ++ (j ++ closing runId source n res.problem res.names.length)).metrics.count (.stage g) =
        old.metrics.count (.stage g) + (tried.flatMap (stagesOf limit)).count g := by
    rw [hcount, count_stage_attempts, hstage, Nat.add_zero]
  constructor
  · exact hn
  · exact hdone
  · rw [hcount, hstatements, count_statements_attempts, hlength, Nat.add_zero]
  · rw [hstages, hscan, hlength]
  · rw [hstages, hparse, hlength]
  · rw [hstages, hevaluate, ht]
  · intro k
    rw [hcount, htoken, count_tokens_attempts, ht, Nat.add_zero]
  · rw [Journal.metrics_append, Journal.metrics_append, hj.increments, List.countP_append, List.countP_append, htokens,
      countP_isTokens_attempts, ht, Nat.add_zero]
  · intro ok
    rw [hcount, hruns, count_runs_attempts, Nat.zero_add]
  · intro c
    rw [hcount, herrors, count_errors_attempts, Nat.zero_add]
  · rfl
  · refine ⟨j.spans, _, (List.append_assoc _ _ _).symm, rfl, rfl, ?_,
      fun s hs => ⟨name_ne_of_mem_spans hj hs, hj.parents s hs⟩, fun g => ?_, hj.statuses⟩
    · cases res.problem with
      | none => rfl
      | some p => rfl
    · rw [hstages, countP_spans hj g]

theorem runRead (i : Interpreter) (interrupted : Nat → Option Interruption) (runId : Text) (req : Request)
    (old : Journal) :
    RunRead i.limit (splitStatements req.script) (i.execute interrupted runId req).1.result old
      (old ++ (i.execute interrupted runId req).1.journal) :=
  let ⟨hn, hdone⟩ := attempted_runStatements i.limit interrupted .empty 1 (splitStatements req.script)
  runRead_closing hn hdone (shows_runStatements i.limit interrupted .empty 1 (splitStatements req.script)) old runId
    req.source _

theorem scanRead (i : Interpreter) (source : Text) (old : Journal) :
    ScanRead (i.tokens source) old (old ++ i.tokensJournal source) := by
  constructor
  · intro k
    simp [tokensJournal, scanJournal, List.count, List.countP_map, Function.comp_def, beq_eq_decide]
  · simp [tokensJournal, scanJournal, Metric.isTokens, List.countP_map, Function.comp_def]
  · intro m h
    have hm : (i.tokens source).countP (fun t => decide (Metric.tokens t.kind = m)) = 0 :=
      List.countP_eq_zero.mpr fun t _ ht => by
        rw [← of_decide_eq_true ht] at h
        cases h
    simp [tokensJournal, scanJournal, List.count, List.countP_map, Function.comp_def, beq_eq_decide, hm, @eq_comm _ m]
  · rfl
  · exact ⟨_, rfl, rfl, rfl, rfl⟩

/-- Counters, gauge and spans agree with what was done, whatever was done before. -/
theorem instruments_agree (i : Interpreter) (before : List Step) :
    (∀ interrupted runId req,
      RunRead (i.after before).limit (splitStatements req.script)
        ((i.after before).execute interrupted runId req).1.result
        (i.journal before) (i.journal (before ++ [.execute interrupted runId req]))) ∧
    ∀ source,
      ScanRead ((i.after before).tokens source) (i.journal before) (i.journal (before ++ [.tokens source])) := by
  refine ⟨fun interrupted runId req => ?_, fun source => ?_⟩
  · rw [journal_concat]
    exact runRead _ _ _ _ _
  · rw [journal_concat]
    exact scanRead _ _ _

end Interpreter

end Abacus
