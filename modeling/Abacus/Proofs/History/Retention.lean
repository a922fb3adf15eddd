import Abacus.Proofs.History.Conservation
import Abacus.Proofs.History.Order

/-!
# Retention does not depend on batches

A recorder over a store prunes it after each batch. A row that a pruning takes away has enough rows before it for good,
so the rows left after the last batch are the newest of all that were there and all that were saved, wherever the
batches were cut.
-/

namespace Abacus

open scoped List

/-! ## Rows of records -/

namespace RunRecord

/-- The id under which a record is stored. -/
def storedId (unset : RunRecord → Text × Instant) (run : RunRecord) : Text :=
  (Store.complete (unset run).1 (unset run).2 run).id

/-- The row that a record becomes, if its variables can be written. -/
def row? (unset : RunRecord → Text × Instant) (run : RunRecord) : Option Row :=
  (Row.ofRecord (Store.complete (unset run).1 (unset run).2 run)).toOption

end RunRecord

section
variable (unset : RunRecord → Text × Instant)

/-- What a store answers to a record whose id is new to it. -/
def saveResult (run : RunRecord) : WriteResult := if (run.row? unset).isSome then .ok else .error

/-- The rows of the records that could be saved. -/
def savedRows (runs : List RunRecord) : List Row := runs.filterMap (RunRecord.row? unset)

/-- The rows and the records all have ids of their own. -/
def FreshIds (rows : List Row) (runs : List RunRecord) : Prop :=
  (rows.map Row.id ++ runs.map (RunRecord.storedId unset)).Nodup

variable {unset}

theorem row?_eq_some {run : RunRecord} {row : Row} (h : run.row? unset = some row) :
    Row.ofRecord (Store.complete (unset run).1 (unset run).2 run) = .ok row := by
  unfold RunRecord.row? at h
  cases hr : Row.ofRecord (Store.complete (unset run).1 (unset run).2 run) with
  | ok r => rw [hr] at h; cases h; rfl
  | error e => rw [hr] at h; cases h

theorem id_of_row? {run : RunRecord} {row : Row} (h : run.row? unset = some row) : row.id = run.storedId unset := by
  have hr := row?_eq_some h
  simp only [Row.ofRecord] at hr
  cases hv : encodeVariables (Store.complete (unset run).1 (unset run).2 run).bindings with
  | ok bindings => rw [hv] at hr; cases hr; rfl
  | error e => rw [hv] at hr; cases hr

theorem ids_savedRows (runs : List RunRecord) :
    (savedRows unset runs).map Row.id <+ runs.map (RunRecord.storedId unset) := by
  induction runs with
  | nil => exact .slnil
  | cons run runs ih =>
      cases hr : run.row? unset with
      | none => rw [savedRows, List.filterMap_cons_none hr]; exact ih.cons _
      | some row =>
          rw [savedRows, List.filterMap_cons_some hr, List.map_cons, List.map_cons, id_of_row? hr]
          exact ih.cons_cons _

namespace FreshIds

variable {rows : List Row} {runs : List RunRecord}

theorem sublist (h : FreshIds unset rows runs) {runs' : List RunRecord} (hs : runs' <+ runs) :
    FreshIds unset rows runs' :=
  List.Nodup.sublist ((List.Sublist.refl _).append (hs.map _)) h

theorem distinctIds (h : FreshIds unset rows runs) : DistinctIds (rows ++ savedRows unset runs) := by
  rw [DistinctIds, List.map_append]
  exact List.Nodup.sublist ((List.Sublist.refl _).append (ids_savedRows runs)) h

end FreshIds

/-! ## What a store does as a sink -/

variable {s : Store} {run : RunRecord} (keep : Int)

theorem insert_of_notMem {d : Database} {row : Row} (hn : row.id ∉ d.rows.map Row.id) :
    d.insert row = .ok { d with rows := d.rows ++ [row] } := by
  have ha : d.rows.any (fun q => q.id == row.id) = false := by simpa [List.any_eq_false] using hn
  rw [Database.insert, ha]
  rfl

theorem save_of_row? (ho : s.closed = false) {row : Row} (hr : run.row? unset = some row)
    (hn : row.id ∉ s.database.rows.map Row.id) :
    (Sink.ofStoreWith unset keep).save run s =
      .ok { s with database := { s.database with rows := s.database.rows ++ [row] } } := by
  have hf : s.refusal? none = none := by simp [Store.refusal?, ho]
  simp only [Sink.ofStoreWith, Store.save, row?_eq_some hr, bind, Except.bind, hf, insert_of_notMem hn]
  rfl

theorem save_of_row?_eq_none (hr : run.row? unset = none) :
    ∃ why, (Sink.ofStoreWith unset keep).save run s = .error why := by
  unfold RunRecord.row? at hr
  cases hv : Row.ofRecord (Store.complete (unset run).1 (unset run).2 run) with
  | ok row => rw [hv] at hr; cases hr
  | error e => exact ⟨e.message, by simp only [Sink.ofStoreWith, Store.save, hv]; rfl⟩

theorem prune_of_open (ho : s.closed = false) {keep : Int} (hk : 0 < keep) :
    s.prune none keep = .ok ((s.database.prune keep).1, { s with database := (s.database.prune keep).2 }) := by
  simp [Store.prune, Int.not_le.mpr hk, Store.refusal?, ho]

end

/-! ## The rows that stay -/

namespace Recorder

variable {unset : RunRecord → Text × Instant} {keep : Int} {initial : List Row} {r r' : Recorder Store}
  {e : RecorderEvent}

/-- A record with an id of its own is saved unless it has no row. -/
theorem save_cases (keep : Int) {s : Store} {handed : List RunRecord} {run : RunRecord} (ho : s.closed = false)
    (hs : s.database.rows <+ initial ++ savedRows unset handed) (hf : FreshIds unset initial (handed ++ [run])) :
    (∃ row, run.row? unset = some row ∧ DistinctIds (initial ++ savedRows unset handed ++ [row]) ∧
      (Sink.ofStoreWith unset keep).save run s =
        .ok { s with database := { s.database with rows := s.database.rows ++ [row] } }) ∨
    run.row? unset = none ∧ ∃ why, (Sink.ofStoreWith unset keep).save run s = .error why := by
  cases hrow : run.row? unset with
  | none => exact .inr ⟨rfl, save_of_row?_eq_none keep hrow⟩
  | some row =>
      have hd : DistinctIds (initial ++ savedRows unset handed ++ [row]) := by
        simpa [savedRows, hrow] using hf.distinctIds
      have hnd := hd.sublist (hs.append (.refl [row]))
      rw [DistinctIds, List.map_append] at hnd
      have hn : row.id ∉ s.database.rows.map Row.id := fun hm =>
        (List.nodup_append.mp hnd).2.2 _ hm _ (List.mem_singleton_self _) rfl
      exact .inl ⟨row, rfl, hd, save_of_row? keep ho hrow hn⟩

/-- What every step preserves while the records have ids of their own holds after all steps. -/
theorem preserved_steps {σ : Type} {sink : Sink σ} {P : Recorder σ → Prop}
    (hP : ∀ r e r', Change sink r e r' → P r → FreshIds unset initial r'.handed → P r') (es : List RecorderEvent)
    {r : Recorder σ} {n : Nat} (hb : Balanced n r) (hr : P r)
    (hf : FreshIds unset initial (r.steps sink es).accepted) : P (r.steps sink es) := by
  induction es generalizing n r with
  | nil => exact hr
  | cons e es ih =>
      have hc := change_step sink r e
      have hb' := hb.change hc
      have hp := hb'.handed_isPrefix.trans (accepted_prefix_steps sink es _)
      exact ih hb' (hP r e _ hc hr (hf.sublist hp.sublist)) hf

/-- What a recorder has made of a store that held the rows `initial`. -/
structure Retains (unset : RunRecord → Text × Instant) (keep : Int) (initial : List Row) (r : Recorder Store) :
    Prop where
  usable : r.state.closed = false
  rows : r.state.database.rows <+ initial ++ savedRows unset r.handed
  -- Between prunings rows come in that the next pruning may take away, never so that one of the first is missing.
  first : top keep.toNat r.state.database.rows = top keep.toNat (initial ++ savedRows unset r.handed)
  tidied : r.untidy = false → r.handed ≠ [] →
    readingOrder r.state.database.rows = top keep.toNat (initial ++ savedRows unset r.handed)
  due : r.batch ≠ [] → r.untidy = true
  results : r.results.filter (· != .dropped) = r.handed.map (saveResult unset)

theorem Retains.change (hk : 0 < keep) (h : Change (Sink.ofStoreWith unset keep) r e r')
    (hr : Retains unset keep initial r) (hf : FreshIds unset initial r'.handed) : Retains unset keep initial r' := by
  obtain ⟨usable, rows, first, tidied, due, results⟩ := hr
  cases h with
  | accept _ => exact ⟨usable, rows, first, tidied, due, results⟩
  | drop _ => exact ⟨usable, rows, first, tidied, due, by simpa using results⟩
  | close => exact ⟨usable, rows, first, tidied, due, results⟩
  | abandon => exact ⟨usable, rows, first, tidied, due, results⟩
  | take _ _ => exact ⟨usable, rows, first, fun hu => by simp at hu, fun _ => rfl, results⟩
  | pause _ _ _ _ => exact ⟨usable, rows, first, tidied, due, results⟩
  | @save run rest state next saved =>
      have hu : r.untidy = true := due (by simp [next])
      rcases save_cases keep usable rows hf with ⟨row, hrow, hd, hok⟩ | ⟨_, why, hw⟩
      · obtain rfl := Except.ok.inj (hok.symm.trans saved)
        have hall : initial ++ savedRows unset (r.handed ++ [run]) = initial ++ savedRows unset r.handed ++ [row] := by
          simp [savedRows, hrow]
        have hs := rows.append (.refl [row])
        refine ⟨usable, hall ▸ hs, ?_, fun hu' => ?_, fun _ => hu, by simp [results, saveResult, hrow]⟩
        · rw [hall, top_concat _ hd, top_concat _ (hd.sublist hs), first]
        · cases hu.symm.trans hu'
      · cases hw.symm.trans saved
  | @fail run rest why log next failed =>
      have hu : r.untidy = true := due (by simp [next])
      rcases save_cases keep usable rows hf with ⟨row, _, _, hok⟩ | ⟨hrow, _⟩
      · cases hok.symm.trans failed
      · have hall : savedRows unset (r.handed ++ [run]) = savedRows unset r.handed := by simp [savedRows, hrow]
        refine ⟨usable, hall ▸ rows, hall ▸ first, fun hu' => ?_, fun _ => hu, by simp [results, saveResult, hrow]⟩
        cases hu.symm.trans hu'
  | @tidy state log written pruned =>
      have htidy : (Sink.ofStoreWith unset keep).tidy r.state =
          .ok { r.state with database := (r.state.database.prune keep).2 } := by
        simp only [Sink.ofStoreWith, prune_of_open usable hk]
        rfl
      obtain rfl : _ = state := by
        rcases pruned with hok | ⟨why, hw, _⟩
        · exact Except.ok.inj (htidy.symm.trans hok)
        · cases htidy.symm.trans hw
      have ho := r.state.database.readingOrder_prune keep (hf.distinctIds.sublist rows)
      have hs := (r.state.database.prune_rows_sublist keep).trans rows
      refine ⟨usable, hs, ?_, fun _ _ => ho.trans first, fun hb => absurd written hb, results⟩
      rw [top, ho, top, List.take_take, Nat.min_self]
      exact first

theorem Retains.steps (hk : 0 < keep) (es : List RecorderEvent) {n : Nat} (hb : Balanced n r)
    (hr : Retains unset keep initial r)
    (hf : FreshIds unset initial (r.steps (Sink.ofStoreWith unset keep) es).accepted) :
    Retains unset keep initial (r.steps (Sink.ofStoreWith unset keep) es) :=
  preserved_steps (fun _ _ _ hc hr hf => hr.change hk hc hf) es hb hr hf

theorem retains_new (unset : RunRecord → Text × Instant) (keep capacity : Int) {store : Store}
    (ho : store.closed = false) : Retains unset keep store.database.rows (new capacity store) where
  usable := ho
  rows := List.sublist_append_left _ _
  first := by simp [new, savedRows]
  tidied _ hn := absurd rfl hn
  due hb := absurd rfl hb
  results := rfl

/-- What a recorder leaves in a store does not depend on how its records fall into batches. Whenever a batch has been
written and none is under way, the rows are the newest `keep` of those that were there at first and those that were
saved, and only what cannot be written as a row was not saved. Pruning a store once leaves what a reader limited to
`keep` rows saw before, and answers how many rows went. -/
theorem newest_rows_after_batches (unset : RunRecord → Text × Instant) (keep capacity : Int) (store : Store)
    (es : List RecorderEvent) (hk : 0 < keep) (ho : store.closed = false) (hd : DistinctIds store.database.rows) :
    let initial := store.database.rows
    let r := (new capacity store).steps (.ofStoreWith unset keep) es
    (FreshIds unset initial r.accepted → r.untidy = false → r.handed ≠ [] →
      Newest keep.toNat (initial ++ savedRows unset r.handed) r.state.database.rows ∧
      r.results.filter (· != .dropped) = r.handed.map (saveResult unset) ∧
      r.accepted = r.handed ++ r.queue.items) ∧
    ∃ gone pruned, store.prune none keep = .ok (gone, pruned) ∧
      pruned.load none 0 0 = store.load none 0 keep ∧
      gone + pruned.database.rows.length = initial.length ∧
      Newest keep.toNat initial pruned.database.rows := by
  intro initial r
  refine ⟨fun hf hu hn => ?_, _, _, prune_of_open ho hk, ?_, store.database.prune_count keep, ?_⟩
  · have hb : Balanced _ r := (balanced_new capacity store).steps (.ofStoreWith unset keep) es
    have hr : Retains unset keep initial r :=
      (retains_new unset keep capacity ho).steps hk es (balanced_new capacity store) hf
    have hbatch : r.batch = [] := by
      by_contra hne
      cases hu.symm.trans (hr.due hne)
    have hd' := (hf.sublist hb.handed_isPrefix.sublist).distinctIds
    exact ⟨newest_of_readingOrder hd' hr.rows (hr.tidied hu hn), hr.results, by rw [hb.order, hbatch, List.append_nil]⟩
  · have hs : (store.database.prune keep).2.select 0 0 = store.database.select 0 keep := by
      simp only [Database.select, hk, ↓reduceIte, Int.lt_irrefl]
      exact store.database.readingOrder_prune keep hd
    simp only [Store.load, Store.refusal?, ho, Bool.false_eq_true, ↓reduceIte, hs]
  · exact newest_of_readingOrder hd (store.database.prune_rows_sublist keep)
      (store.database.readingOrder_prune keep hd)

/-- A store that holds two rows. -/
def sampleStore : Store where
  path := "history.db"
  place := ["history.db"]
  database := ⟨.empty, [sampleRow "a" "2024-01-02", sampleRow "b" "2024-01-01"]⟩
  closed := false
where
  sampleRow (id time : Text) : Row := ⟨id, time, [], [], "ok", .int 1, [], [], "\x7b\x7d", 0⟩

def sampleRuns : List RunRecord := [sampleRun "c" "cli" 5, sampleRun "d" "cli" 7, sampleRun "e" "cli" 6]

/-- Three records in two batches, the first of one record. -/
def twoBatches : List RecorderEvent :=
  [.record (sampleRun "c" "cli" 5), .fetch .ready, .more, .write, .tidy, .record (sampleRun "d" "cli" 7),
    .record (sampleRun "e" "cli" 6), .fetch .ready, .more, .more, .write, .write, .tidy]

def afterTwoBatches : Recorder Store := (new 4 sampleStore).steps (.ofStore 2) twoBatches

theorem newest_rows_after_twoBatches :
    afterTwoBatches.handed = sampleRuns ∧
      afterTwoBatches.state.database.rows.length = 2 ∧
      Newest 2 (sampleStore.database.rows ++ savedRows (fun _ => ([], 0)) afterTwoBatches.handed)
        afterTwoBatches.state.database.rows := by
  -- The records go their way whatever the sink is, so a sink that is easy to run shows where they are.
  have hs : InStep afterTwoBatches _ :=
    (inStep_new 4 sampleStore ([] : List RunRecord)).steps (.ofStore 2) twoBatches (.ofList [])
  have hh : afterTwoBatches.handed = sampleRuns := hs.handed.symm
  have ha : afterTwoBatches.accepted = sampleRuns := hs.accepted.symm
  have hf : FreshIds (fun _ => ([], 0)) sampleStore.database.rows afterTwoBatches.accepted := by
    rw [ha, FreshIds]
    decide
  have hd : DistinctIds sampleStore.database.rows := by
    rw [DistinctIds]
    decide
  have hne : afterTwoBatches.handed ≠ [] := by simp [hh, sampleRuns]
  have hn : Newest 2 (sampleStore.database.rows ++ savedRows (fun _ => ([], 0)) afterTwoBatches.handed) _ :=
    ((newest_rows_after_batches _ 2 4 sampleStore twoBatches (by decide) rfl hd).1 hf hs.untidy.symm hne).1
  refine ⟨hh, hn.size.trans ?_, hn⟩
  rw [hh]
  rfl

end Recorder

end Abacus
