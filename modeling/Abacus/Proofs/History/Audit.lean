import Abacus.Proofs.History.Retention
import Abacus.Proofs.History.Saving
import Abacus.Proofs.Run.ReadBack

/-!
# The audit of runs

A recorder that drops nothing and whose store keeps all rows writes a row for each run whose variables are finite
numbers, and the row tells what became of the run. A run that ends with an infinite variable leaves no row.
-/

namespace Abacus

open scoped List

/-! ## A store that keeps all rows -/

/-- The record that a caller offers. -/
def RecorderEvent.offered? : RecorderEvent → Option RunRecord
  | .record run => some run
  | _ => none

namespace Recorder

section
variable {σ : Type} {sink : Sink σ} {r r' : Recorder σ} {e : RecorderEvent}

theorem Change.accepted_sublist (h : Change sink r e r') : r'.accepted <+ r.accepted ++ e.offered?.toList := by
  cases h with
  | accept _ => exact List.Sublist.refl _
  | _ => exact List.sublist_append_left _ _

theorem filterMap_offered?_cons (e : RecorderEvent) (es : List RecorderEvent) :
    (e :: es).filterMap RecorderEvent.offered? = e.offered?.toList ++ es.filterMap RecorderEvent.offered? := by
  rw [List.filterMap_cons]
  cases e.offered? <;> rfl

theorem accepted_sublist_steps (sink : Sink σ) (r : Recorder σ) (es : List RecorderEvent) :
    (r.steps sink es).accepted <+ r.accepted ++ es.filterMap RecorderEvent.offered? := by
  induction es generalizing r with
  | nil => exact List.sublist_append_left _ _
  | cons e es ih =>
      rw [filterMap_offered?_cons, ← List.append_assoc]
      exact (ih (r.step sink e)).trans ((change_step sink r e).accepted_sublist.append (List.Sublist.refl _))

theorem countP_isRecord (es : List RecorderEvent) :
    es.countP RecorderEvent.isRecord = (es.filterMap RecorderEvent.offered?).length := by
  induction es with
  | nil => rfl
  | cons e es ih =>
      rw [filterMap_offered?_cons, List.countP_cons, List.length_append, ih, Nat.add_comm]
      cases e <;> rfl

/-- A recorder that dropped nothing let in all that was offered. -/
theorem accepted_eq_offered (sink : Sink σ) (capacity : Int) (state : σ) {es : List RecorderEvent}
    (hd : ((new capacity state).steps sink es).results.count .dropped = 0) :
    ((new capacity state).steps sink es).accepted = es.filterMap RecorderEvent.offered? := by
  have hb := (balanced_new capacity state).steps sink es
  have hlength := hb.offered
  rw [hd, Nat.zero_add, Nat.add_zero, countP_isRecord] at hlength
  exact (accepted_sublist_steps sink (new capacity state) es).eq_of_length hlength

end

section
variable {unset : RunRecord → Text × Instant} {keep : Int} {initial : List Row} {r r' : Recorder Store}
  {e : RecorderEvent}

/-- What a recorder has made of a store that held the rows `initial` and keeps all rows. -/
structure Keeps (unset : RunRecord → Text × Instant) (initial : List Row) (r : Recorder Store) : Prop where
  usable : r.state.closed = false
  rows : r.state.database.rows = initial ++ savedRows unset r.handed
  results : r.results.filter (· != .dropped) = r.handed.map (saveResult unset)

theorem Keeps.change (hk : keep ≤ 0) (h : Change (Sink.ofStoreWith unset keep) r e r') (hr : Keeps unset initial r)
    (hf : FreshIds unset initial r'.handed) : Keeps unset initial r' := by
  obtain ⟨usable, rows, results⟩ := hr
  have hsub : r.state.database.rows <+ initial ++ savedRows unset r.handed := rows ▸ List.Sublist.refl _
  cases h with
  | accept _ => exact ⟨usable, rows, results⟩
  | drop _ => exact ⟨usable, rows, by simpa using results⟩
  | close => exact ⟨usable, rows, results⟩
  | abandon => exact ⟨usable, rows, results⟩
  | take _ _ => exact ⟨usable, rows, results⟩
  | pause _ _ _ _ => exact ⟨usable, rows, results⟩
  | @save run rest state next saved =>
      rcases save_cases keep usable hsub hf with ⟨row, hrow, -, hok⟩ | ⟨-, why, hw⟩
      · obtain rfl := Except.ok.inj (hok.symm.trans saved)
        exact ⟨usable, by simp [rows, savedRows, hrow], by simp [results, saveResult, hrow]⟩
      · cases hw.symm.trans saved
  | @fail run rest why log next failed =>
      rcases save_cases keep usable hsub hf with ⟨row, -, -, hok⟩ | ⟨hrow, -⟩
      · cases hok.symm.trans failed
      · exact ⟨usable, by simp [rows, savedRows, hrow], by simp [results, saveResult, hrow]⟩
  | @tidy state log written pruned =>
      -- With no number of rows to keep, tidying leaves the store alone.
      have htidy : (Sink.ofStoreWith unset keep).tidy r.state = .ok r.state := by
        simp [Sink.ofStoreWith, Store.prune, hk, Except.map, Except.mapError]
      obtain rfl : r.state = state := by
        rcases pruned with hok | ⟨why, hw, _⟩
        · exact Except.ok.inj (htidy.symm.trans hok)
        · cases htidy.symm.trans hw
      exact ⟨usable, rows, results⟩

theorem Keeps.steps (hk : keep ≤ 0) (es : List RecorderEvent) {n : Nat} (hb : Balanced n r) (hr : Keeps unset initial r)
    (hf : FreshIds unset initial (r.steps (Sink.ofStoreWith unset keep) es).accepted) :
    Keeps unset initial (r.steps (Sink.ofStoreWith unset keep) es) :=
  preserved_steps (fun _ _ _ hc hr hf => hr.change hk hc hf) es hb hr hf

theorem keeps_new (unset : RunRecord → Text × Instant) (capacity : Int) {store : Store} (ho : store.closed = false) :
    Keeps unset store.database.rows (new capacity store) :=
  ⟨ho, by simp [new, savedRows], rfl⟩

/-- A recorder that is done has handed on all it let in, unless a caller gave up on it. -/
theorem handed_eq_accepted {σ : Type} {sink : Sink σ} (capacity : Int) (state : σ) {es : List RecorderEvent}
    (hdone : ((new capacity state).steps sink es).done = true) (hn : .abandon ∉ es) :
    ((new capacity state).steps sink es).handed = ((new capacity state).steps sink es).accepted := by
  have hb := (balanced_new capacity state).steps sink es
  have ha : ((new capacity state).steps sink es).abandoned = false := abandoned_steps sink es rfl hn
  simp only [done, Bool.and_eq_true, List.isEmpty_iff] at hdone
  have hq := (hb.left hdone.1.1).resolve_left (by simp [ha])
  rw [hb.order, hdone.1.2, hq.2, List.append_nil, List.append_nil]

end

end Recorder

/-! ## Runs and their records -/

/-- All variables hold finite numbers. -/
def Environment.isFinite (e : Environment) : Bool := e.entries.all fun (_, x) => Binary.isFinite x

/-- A run that an interpreter is asked for, with the id and the instant under which it is recorded. -/
structure Execution where
  request : Interpreter.Request
  interrupted : Nat → Option Interruption
  runId : Text
  now : Instant

namespace Execution

def report (x : Execution) (i : Interpreter) : Interpreter.Report := (i.execute x.interrupted x.runId x.request).1

/-- The reports of runs on one interpreter, one after the other. -/
def reports (i : Interpreter) : List Execution → List (Execution × Interpreter.Report)
  | [] => []
  | x :: xs => (x, x.report i) :: reports (i.execute x.interrupted x.runId x.request).2 xs

def recordOf (p : Execution × Interpreter.Report) : RunRecord := .ofReport p.1.request p.2 p.1.now

end Execution

/-- The row tells of the run: what was run, how it ended, and the variables that it left. -/
structure Row.Tells (row : Row) (x : Execution) (report : Interpreter.Report) : Prop where
  id : row.id = x.runId
  time : row.time = Instant.stored x.now
  source : row.source = x.request.source
  script : row.script = x.request.script
  status : row.status = "ok" ↔ report.problem = none
  code : row.errorCode = codeNameOf report.problem
  message : row.errorMessage = (report.problem.map Problem.userMessage).getD []
  statements : row.statements = .int (splitStatements x.request.script).length
  bindings : ∃ vs, decodeVariables row.bindings = .ok vs ∧ Ascending vs ∧
    ∀ n, vs.lookup n = report.result.bindings.get? n

namespace Execution

theorem length_reports (i : Interpreter) (xs : List Execution) : (reports i xs).length = xs.length := by
  induction xs generalizing i with
  | nil => rfl
  | cons x xs ih => rw [reports, List.length_cons, ih, List.length_cons]

variable (x : Execution) (i : Interpreter)

theorem nodup_names_report : (x.report i).result.names.Nodup := by
  show (runStatements _ _ .empty 1 _).environment.names.Nodup
  rw [environment_runStatements]
  exact nodup_names_foldl_assign (by simp) _

theorem isUtf8_of_mem_names_report {n : Text} (h : n ∈ (x.report i).result.names) : n.IsUtf8 := by
  have hid := (of_mem_names_runStatements h).1
  exact Text.isUtf8_of_ascii fun b hb => (isLexemeChar_of_identifier hid b hb).1

theorem complete_recordOf (p : Execution × Interpreter.Report) : Store.complete [] 0 (recordOf p) = recordOf p := by
  have hid : (if (recordOf p).id.isEmpty then [] else (recordOf p).id) = (recordOf p).id := by
    split
    · rename_i h
      exact (List.isEmpty_iff.mp h).symm
    · rfl
  have hnow : (if (recordOf p).timestamp = 0 then 0 else (recordOf p).timestamp) = (recordOf p).timestamp := by
    split
    · rename_i h
      exact h.symm
    · rfl
  have hstatus : (recordOf p).status.isEmpty = false := by
    show (statusWord _).isEmpty = false
    cases p.2.result.problem.isNone <;> rfl
  rw [Store.complete, hid, hnow, hstatus]
  rfl

theorem statusWord_isNone_eq_ok (problem : Option Problem) : statusWord problem.isNone = "ok" ↔ problem = none := by
  cases problem with
  | none => exact iff_of_true rfl rfl
  | some _ =>
      have herror : statusWord false ≠ "ok" := by decide
      exact iff_of_false herror nofun

/-- The record of a run becomes a row that tells of the run, if the variables are finite. -/
theorem row?_recordOf :
    let report := x.report i
    let row? := (recordOf (x, report)).row? fun _ => ([], 0)
    report.result.bindings.isFinite = true ∧ (∃ row, row? = some row ∧ row.Tells x report) ∨
      report.result.bindings.isFinite = false ∧ row? = none := by
  intro report row?
  have hrow : row? = (Row.ofRecord (recordOf (x, report))).toOption := by
    rw [← complete_recordOf]
    rfl
  have hnodup : (report.result.bindings.entries.map Prod.fst).Nodup := x.nodup_names_report i
  rcases Row.ofRecord_cases (recordOf (x, report)) with ⟨hfinite, -⟩ | ⟨⟨p, hp, hx⟩, why, hw⟩
  · have hutf8 : ∀ p ∈ (recordOf (x, report)).bindings, p.1.IsUtf8 := fun p hp =>
      x.isUtf8_of_mem_names_report i (List.mem_map_of_mem (mem_of_mem_orderVariables hp))
    have hordered : Ascending (recordOf (x, report)).bindings := ascending_orderVariables _
    -- The names are in order already, so what is read back is what was written.
    have hread := decodeVariables_of_finite hutf8 hfinite
    rw [orderVariables_of_ascending hordered] at hread
    refine .inl ⟨?_, _, by rw [hrow, Row.ofRecord_eq (encodeVariables_of_finite hfinite)]; rfl, ?_⟩
    · exact List.all_eq_true.mpr fun p hp => hfinite p ((mem_orderVariables hnodup).mpr hp)
    · refine ⟨rfl, rfl, rfl, rfl, ?_, ?_, rfl, rfl, _, hread, hordered, lookup_orderVariables hnodup⟩
      · exact statusWord_isNone_eq_ok report.result.problem
      · show (report.result.problem.map fun p => p.code.name).getD [] = codeNameOf report.result.problem
        cases report.result.problem <;> rfl
  · refine .inr ⟨?_, by rw [hrow, hw]; rfl⟩
    exact List.all_eq_false.mpr ⟨p, mem_of_mem_orderVariables hp, by simp [hx]⟩

/-- The rows of runs tell, one by one, of those runs that left finite variables. -/
theorem forall₂_savedRows (i : Interpreter) (xs : List Execution) :
    List.Forall₂ (fun row p => row.Tells p.1 p.2) (savedRows (fun _ => ([], 0)) ((reports i xs).map recordOf))
      ((reports i xs).filter fun p => p.2.result.bindings.isFinite) := by
  induction xs generalizing i with
  | nil => exact .nil
  | cons x xs ih =>
      rw [reports, List.map_cons, savedRows]
      rcases x.row?_recordOf i with ⟨hfinite, row, hrow, htells⟩ | ⟨hfinite, hrow⟩
      · simp only [List.filterMap_cons_some hrow, List.filter_cons, hfinite, ↓reduceIte]
        exact .cons htells (ih _)
      · simp only [List.filterMap_cons_none hrow, List.filter_cons, hfinite, Bool.false_eq_true, ↓reduceIte]
        exact ih _

theorem map_saveResult (i : Interpreter) (xs : List Execution) :
    ((reports i xs).map recordOf).map (saveResult fun _ => ([], 0)) =
      (reports i xs).map fun p => if p.2.result.bindings.isFinite then .ok else .error := by
  induction xs generalizing i with
  | nil => rfl
  | cons x xs ih =>
      rw [reports, List.map_cons, List.map_cons, List.map_cons, ih, saveResult]
      rcases x.row?_recordOf i with ⟨hfinite, row, hrow, -⟩ | ⟨hfinite, hrow⟩ <;> rw [hrow, hfinite] <;> rfl

theorem map_storedId_recordOf (i : Interpreter) (xs : List Execution) :
    ((reports i xs).map recordOf).map (RunRecord.storedId fun _ => ([], 0)) = xs.map runId := by
  induction xs generalizing i with
  | nil => rfl
  | cons x xs ih =>
      have hid : (recordOf (x, x.report i)).storedId (fun _ => ([], 0)) = x.runId := by
        rw [RunRecord.storedId, complete_recordOf]
        rfl
      rw [reports, List.map_cons, List.map_cons, List.map_cons, ih, hid]

end Execution

namespace Recorder

open Execution

/-- The audit of the runs on one interpreter. A recorder that dropped nothing, whose store was empty and keeps all
rows, has written when it is done a row for each run that left only finite variables, and none for any other; the rows
are in the order of the runs, and each tells of its run, however that ended. The metrics count the runs that left no
row as failures. -/
theorem rows_tell_of_runs (i : Interpreter) (xs : List Execution) (capacity keep : Int) (store : Store)
    (es : List RecorderEvent) (hk : keep ≤ 0) (ho : store.closed = false) (hempty : store.database.rows = [])
    (hids : (xs.map runId).Nodup) (hoffered : es.filterMap RecorderEvent.offered? = (reports i xs).map recordOf) :
    let r := (new capacity store).steps (.ofStore keep) es
    r.done = true → .abandon ∉ es → r.results.count .dropped = 0 →
      List.Forall₂ (fun row p => row.Tells p.1 p.2) r.state.database.rows
        ((reports i xs).filter fun p => p.2.result.bindings.isFinite) ∧
      r.results = ((reports i xs).map fun p => if p.2.result.bindings.isFinite then .ok else .error) ∧
      (r.state.database.rows.length = xs.length ↔ ∀ p ∈ reports i xs, p.2.result.bindings.isFinite = true) := by
  intro r hdone hn hdropped
  have haccepted : r.accepted = (reports i xs).map recordOf :=
    (accepted_eq_offered (.ofStore keep) capacity store hdropped).trans hoffered
  have hhanded : r.handed = (reports i xs).map recordOf := (handed_eq_accepted capacity store hdone hn).trans haccepted
  -- No row is refused for its id, so a record without a row is one with a variable that cannot be written.
  have hfresh : FreshIds (fun _ => ([], 0)) store.database.rows r.accepted := by
    rw [FreshIds, hempty, haccepted, map_storedId_recordOf]
    exact hids
  obtain ⟨-, hrows, hresults⟩ : Keeps (fun _ => ([], 0)) store.database.rows r :=
    (keeps_new _ capacity ho).steps hk es (balanced_new capacity store) hfresh
  rw [hhanded, hempty, List.nil_append] at hrows
  rw [hhanded, map_saveResult] at hresults
  have htells := forall₂_savedRows i xs
  rw [← hrows] at htells
  refine ⟨htells, ?_, ?_⟩
  · rw [← hresults, List.filter_eq_self.mpr fun x hx => ?_]
    have hne : x ≠ .dropped := by
      rintro rfl
      exact List.count_eq_zero.mp hdropped hx
    simpa using hne
  · rw [htells.length_eq, ← length_reports i xs, List.length_filter_eq_length_iff]

/-- The runs of a fresh interpreter are offered, and after the closing the worker takes them in one batch. -/
def offeredThenClosed (xs : List Execution) : List RecorderEvent :=
  (reports (.new 0) xs).map (fun p => .record (recordOf p)) ++ .close :: .fetch .ready :: batchEvents xs.length

def afterRuns (xs : List Execution) : Recorder Store :=
  (new 4 Store.blank).steps (.ofStore 0) (offeredThenClosed xs)

/-- Squaring takes the variable beyond the finite numbers. -/
def overflowingRun : Execution :=
  ⟨⟨"cli", "x = 10000000000\nx = x * x\nx = x * x\nx = x * x\nx = x * x\nx = x * x"⟩, always none, "3", 7⟩

/-- A run to the end, one that a fault stops, and one with an infinite variable. -/
def threeRuns : List Execution :=
  [⟨⟨"cli", "a = 2; b = a + 3"⟩, always none, "1", 5⟩, ⟨⟨"api", "c = 1; d"⟩, always none, "2", 6⟩, overflowingRun]

theorem threeRuns_told :
    (afterRuns threeRuns).done = true ∧ (afterRuns threeRuns).results = [.ok, .ok, .error] ∧
      (afterRuns threeRuns).state.database.rows.length = 2 ∧
      List.Forall₂ (fun row p => row.Tells p.1 p.2) (afterRuns threeRuns).state.database.rows
        ((reports (.new 0) threeRuns).filter fun p => p.2.result.bindings.isFinite) := by
  have hdone : (afterRuns threeRuns).done = true := by decide +kernel
  have hresults : (afterRuns threeRuns).results = [.ok, .ok, .error] := by decide +kernel
  have hdropped : (afterRuns threeRuns).results.count .dropped = 0 := by decide +kernel
  refine ⟨hdone, hresults, by decide +kernel, ?_⟩
  -- Spelled out on both sides, or the two recorders would be run to compare them.
  unfold afterRuns at *
  exact (rows_tell_of_runs (.new 0) threeRuns 4 0 Store.blank (offeredThenClosed threeRuns) (by decide) rfl rfl
    (by decide) rfl hdone (by simp [offeredThenClosed, batchEvents]) hdropped).1

/-- A run that met no problem leaves no row, as one of its variables is infinite. -/
theorem overflowingRun_leaves_no_row :
    (overflowingRun.report (.new 0)).problem = none ∧ (afterRuns [overflowingRun]).done = true ∧
      (afterRuns [overflowingRun]).results = [.error] ∧ (afterRuns [overflowingRun]).state.database.rows = [] :=
  ⟨rfl, by decide +kernel, by decide +kernel, List.isEmpty_iff.mp (by decide +kernel)⟩

end Recorder

end Abacus
