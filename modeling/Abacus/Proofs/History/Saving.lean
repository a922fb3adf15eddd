import Abacus.Proofs.History.Columns
import Abacus.Proofs.History.Retention

/-!
# Saving and loading runs

A table of runs is a table of their rows. A call that saves a run adds one row or fails and adds none; it fails just if
the id is taken or a variable is no finite number. What is loaded are the runs that were saved, in an order that the
runs alone decide.
-/

namespace Abacus

open scoped List

/-! ## Rows and the records they were made of -/

/-- The row was made of the record, which can be read back from it. -/
structure Row.Shows (row : Row) (r : RunRecord) : Prop where
  made : Row.ofRecord r = .ok row
  storable : r.Storable

section
variable {row row' : Row} {r r' : RunRecord} (h : row.Shows r)
include h

theorem Row.Shows.record : row.toRecord = .ok r.kept := Row.toRecord_of_ofRecord h.storable h.made

theorem Row.Shows.columns : row.id = r.id ∧ row.time = Instant.stored r.timestamp := Row.columns_of_ofRecord h.made

theorem Row.Shows.stored_le_iff {t : Instant} (ht : Instant.InRange t) :
    Instant.stored t ≤ row.time ↔ t ≤ r.timestamp := by
  rw [h.columns.2, Instant.stored_le_iff ht h.storable.instant]

end

/-- Of two runs the later one comes first, and of two of one instant the one with the smaller id. -/
def RunRecord.Newer (a b : RunRecord) : Prop := b.timestamp < a.timestamp ∨ a.timestamp = b.timestamp ∧ a.id < b.id

theorem Row.Shows.newer {row row' : Row} {r r' : RunRecord} (h : row.Shows r) (h' : row'.Shows r')
    (hp : row.Precedes row') : r.Newer r' := by
  have htime : row.time ≤ row'.time ↔ r.timestamp ≤ r'.timestamp := by
    rw [h.columns.2]
    exact h'.stored_le_iff h.storable.instant
  have htime' : row'.time ≤ row.time ↔ r'.timestamp ≤ r.timestamp := by
    rw [h'.columns.2]
    exact h.stored_le_iff h'.storable.instant
  rcases hp with hlt | ⟨he, hid⟩
  · exact .inl (Int.not_le.mp fun hle => List.not_le.mpr hlt (htime.mpr hle))
  · refine .inr ⟨Int.le_antisymm (htime.mp (he ▸ List.le_refl _)) (htime'.mp (he ▸ List.le_refl _)), ?_⟩
    rwa [← h.columns.1, ← h'.columns.1]

theorem exists_shows {rows : List Row} {rs : List RunRecord} (h : List.Forall₂ Row.Shows rows rs) {r : RunRecord}
    (hr : r ∈ rs) : ∃ row ∈ rows, row.Shows r := by
  induction h with
  | nil => cases hr
  | cons hrow _ ih =>
      rcases List.mem_cons.mp hr with rfl | hr
      · exact ⟨_, List.mem_cons_self, hrow⟩
      · obtain ⟨row, hm, hrow⟩ := ih hr
        exact ⟨row, List.mem_cons_of_mem _ hm, hrow⟩

theorem mapM_toRecord {rows : List Row} {rs : List RunRecord} (h : List.Forall₂ Row.Shows rows rs) :
    rows.mapM Row.toRecord = .ok (rs.map RunRecord.kept) := by
  induction h with
  | nil => rfl
  | cons hr _ ih =>
      rw [List.mapM_cons, hr.record, ih]
      rfl

theorem pairwise_newer {rows : List Row} {rs : List RunRecord} (h : List.Forall₂ Row.Shows rows rs)
    (hp : rows.Pairwise Row.Precedes) : rs.Pairwise RunRecord.Newer := by
  induction h with
  | nil => exact .nil
  | @cons row r rows rs hr hrs ih =>
      obtain ⟨hfirst, hrest⟩ := List.pairwise_cons.mp hp
      refine List.pairwise_cons.mpr ⟨fun r' hr' => ?_, ih hrest⟩
      obtain ⟨row', hrow', hshows⟩ := exists_shows hrs hr'
      exact hr.newer hshows (hfirst row' hrow')

/-! ## Calls -/

/-- A call that saves a run, with the id and the instant that it takes where the run leaves them unset. -/
structure SaveCall where
  fresh : Text
  now : Instant
  run : RunRecord

namespace SaveCall

/-- The record that a call saves. -/
def record (c : SaveCall) : RunRecord := Store.complete c.fresh c.now c.run

/-- The id is taken, or a variable is no finite number. -/
def Refused (taken : List Text) (c : SaveCall) : Prop :=
  c.record.id ∈ taken ∨ ∃ p ∈ c.record.bindings, Binary.isFinite p.2 = false

instance (taken : List Text) (c : SaveCall) : Decidable (c.Refused taken) := inferInstanceAs (Decidable (_ ∨ _))

end SaveCall

/-- The records of a table after calls: each call adds its record unless it is refused. -/
def recordsAfter (stored : List RunRecord) : List SaveCall → List RunRecord
  | [] => stored
  | c :: calls => recordsAfter (if c.Refused (stored.map RunRecord.id) then stored else stored ++ [c.record]) calls

theorem insert_of_mem {d : Database} {row : Row} (h : row.id ∈ d.rows.map Row.id) :
    d.insert row = .error .duplicateId := by
  have ha : d.rows.any (fun q => q.id == row.id) = true := by simpa [List.any_eq_true] using h
  rw [Database.insert, ha]
  rfl

namespace Store

/-- What a call answers, and the store after it. -/
def answer (s : Store) (c : SaveCall) : Except HistoryError Text × Store :=
  match s.save none c.fresh c.now c.run with
  | .ok (id, s') => (.ok id, s')
  | .error why => (.error why, s)

def afterCalls (s : Store) (calls : List SaveCall) : Store := calls.foldl (fun s c => (s.answer c).2) s

/-- The store is open, and its table holds a row for each of the records, which have ids of their own. -/
structure Holds (s : Store) (stored : List RunRecord) : Prop where
  usable : s.closed = false
  rows : List.Forall₂ Row.Shows s.database.rows stored
  distinct : (stored.map RunRecord.id).Nodup

section
variable {s : Store} {stored : List RunRecord} (hs : s.Holds stored)
include hs

theorem Holds.ids : s.database.rows.map Row.id = stored.map RunRecord.id := by
  have hrows := hs.rows
  generalize s.database.rows = rows at hrows
  clear hs
  induction hrows with
  | nil => rfl
  | cons hr _ ih => rw [List.map_cons, List.map_cons, ih, hr.columns.1]

/-- All that a call can do to a table. -/
theorem Holds.answer_cases (c : SaveCall) :
    (c.Refused (stored.map RunRecord.id) ∧ ∃ why, s.answer c = (.error why, s)) ∨
      ¬ c.Refused (stored.map RunRecord.id) ∧ ∃ row, Row.ofRecord c.record = .ok row ∧
        s.answer c =
          (.ok c.record.id, { s with database := { s.database with rows := s.database.rows ++ [row] } }) := by
  have hopen : s.refusal? none = none := by simp [refusal?, hs.usable]
  have hsave (row : Row) (hrow : Row.ofRecord c.record = .ok row) : s.save none c.fresh c.now c.run = (do
      let database ← (s.database.insert row).mapError (.refused .save)
      return (row.id, { s with database })) := by
    unfold SaveCall.record at hrow
    simp only [Store.save, hrow, hopen]
    rfl
  rcases Row.ofRecord_cases c.record with ⟨hfinite, row, hrow⟩ | ⟨hinfinite, why, hw⟩
  · have hid : row.id = c.record.id := (Row.columns_of_ofRecord hrow).1
    by_cases htaken : c.record.id ∈ stored.map RunRecord.id
    · have hm : row.id ∈ s.database.rows.map Row.id := by rwa [hs.ids, hid]
      refine .inl ⟨.inl htaken, .refused .save .duplicateId, ?_⟩
      simp only [Store.answer, hsave row hrow, bind, Except.bind, insert_of_mem hm]
      rfl
    · have hn : row.id ∉ s.database.rows.map Row.id := by rwa [hs.ids, hid]
      refine .inr ⟨fun hrefused => ?_, row, hrow, ?_⟩
      · rcases hrefused with hrefused | ⟨p, hp, hx⟩
        · exact htaken hrefused
        · rw [hfinite p hp] at hx
          cases hx
      · simp only [Store.answer, hsave row hrow, bind, Except.bind, insert_of_notMem hn, hid]
        rfl
  · refine .inl ⟨.inr hinfinite, why, ?_⟩
    unfold SaveCall.record at hw
    simp only [Store.answer, Store.save, hw]
    rfl

theorem Holds.answer {c : SaveCall} (hc : c.record.Storable) :
    (s.answer c).2.Holds (if c.Refused (stored.map RunRecord.id) then stored else stored ++ [c.record]) := by
  rcases hs.answer_cases c with ⟨hrefused, why, hw⟩ | ⟨hadmitted, row, hrow, ha⟩
  · rw [if_pos hrefused, hw]
    exact hs
  · rw [if_neg hadmitted, ha]
    refine ⟨hs.usable, List.rel_append hs.rows (.cons ⟨hrow, hc⟩ .nil), ?_⟩
    rw [List.map_append, List.nodup_append]
    refine ⟨hs.distinct, List.nodup_singleton _, fun a ha b hb => ?_⟩
    rintro rfl
    exact hadmitted (.inl (List.mem_singleton.mp hb ▸ ha))

end

/-- A table after calls holds what the calls added. -/
theorem Holds.afterCalls {calls : List SaveCall} (hc : ∀ c ∈ calls, c.record.Storable) {s : Store}
    {stored : List RunRecord} (hs : s.Holds stored) : (s.afterCalls calls).Holds (recordsAfter stored calls) := by
  induction calls generalizing s stored with
  | nil => exact hs
  | cons c calls ih => exact ih (fun d hd => hc d (List.mem_cons_of_mem c hd)) (hs.answer (hc c List.mem_cons_self))

end Store

/-! ## Loading -/

/-- The first items, if there is a limit. -/
def firstOf {α : Type} (limit : Int) (xs : List α) : List α := if 0 < limit then xs.take limit.toNat else xs

theorem pairwise_precedes {rows : List Row} (h : DistinctIds rows) : (readingOrder rows).Pairwise Row.Precedes := by
  have hdistinct : (readingOrder rows).Pairwise fun a b => a.id ≠ b.id :=
    List.pairwise_map.mp (h.perm (readingOrder_perm rows).symm)
  exact ((pairwise_readingOrder rows).and hdistinct).imp fun ⟨hb, hne⟩ => Row.precedes_of_before hb hne

theorem Database.select_eq (d : Database) (since : Instant) (limit : Int) :
    d.select since limit =
      firstOf limit ((readingOrder d.rows).filter fun r => since = 0 ∨ Instant.stored since ≤ r.time) := by
  rw [select, firstOf]
  by_cases h : since = 0
  · simp [h, ordered, readingOrder]
  · simp [h, ordered, readingOrder]

namespace Store

theorem load_of_open {s : Store} (h : s.closed = false) (since : Instant) (limit : Int) :
    s.load none since limit = (s.database.select since limit).mapM Row.toRecord := by
  simp [load, refusal?, h]

section
variable {s : Store} {stored : List RunRecord} (hs : s.Holds stored)
include hs

theorem Holds.distinctIds : DistinctIds s.database.rows := by
  rw [DistinctIds, hs.ids]
  exact hs.distinct

/-- What is loaded are the stored records from an instant on, the newest first. -/
theorem Holds.load {since : Instant} (ht : Instant.InRange since) (limit : Int) :
    ∃ found, found ~ stored.filter (fun r => since = 0 ∨ since ≤ r.timestamp) ∧ found.Pairwise RunRecord.Newer ∧
      s.load none since limit = .ok ((firstOf limit found).map RunRecord.kept) := by
  have hfilter : List.Forall₂ Row.Shows
      (s.database.rows.filter fun r => since = 0 ∨ Instant.stored since ≤ r.time)
      (stored.filter fun r => since = 0 ∨ since ≤ r.timestamp) :=
    List.rel_filter (fun row r hr => by simp [hr.stored_le_iff ht]) hs.rows
  obtain ⟨found, hfound, hp⟩ := List.perm_comp_forall₂ ((readingOrder_perm s.database.rows).filter _) hfilter
  refine ⟨found, hp, pairwise_newer hfound ((pairwise_precedes hs.distinctIds).filter _), ?_⟩
  rw [load_of_open hs.usable, Database.select_eq]
  refine mapM_toRecord ?_
  rw [firstOf, firstOf]
  split
  · exact List.forall₂_take _ hfound
  · exact hfound

/-- The order in which rows came into a table does not matter. -/
theorem Holds.load_eq {other : Store} (ho : other.closed = false) (hp : other.database.rows ~ s.database.rows)
    (since : Instant) (limit : Int) : other.load none since limit = s.load none since limit := by
  have horder : readingOrder other.database.rows = readingOrder s.database.rows :=
    readingOrder_eq (hs.distinctIds.perm hp.symm) ((readingOrder_perm _).trans hp.symm) (pairwise_readingOrder _)
  rw [load_of_open ho, load_of_open hs.usable, Database.select_eq, Database.select_eq, horder]

end

/-- Runs go into a table and come out again whole. Each of a row of calls either fails and leaves the store as it is, or
answers the id of its record and adds one row, the one of the record; it fails just if the id is in the table or a
variable is no finite number. What is loaded are the records that were added, as far as they are not older than `since`,
newest first, those of one instant by their ids, and the first of them if there is a limit; a `since` of zero leaves
none out. The order in which the rows were added does not show. -/
theorem load_after_calls (s : Store) (stored : List RunRecord) (calls : List SaveCall) (hs : s.Holds stored)
    (hc : ∀ c ∈ calls, c.record.Storable) :
    (∀ earlier c later, calls = earlier ++ c :: later →
      let before := s.afterCalls earlier
      let after := s.afterCalls (earlier ++ [c])
      let refused :=
        c.record.id ∈ before.database.rows.map Row.id ∨ ∃ p ∈ c.record.bindings, Binary.isFinite p.2 = false
      (refused ∧ (∃ why, before.answer c = (.error why, after)) ∧ after = before) ∨
        ¬ refused ∧ before.answer c = (.ok c.record.id, after) ∧
          ∃ row, after.database.rows = before.database.rows ++ [row] ∧ row.toRecord = .ok c.record.kept) ∧
    ∀ since limit, Instant.InRange since →
      (∃ found, found ~ (recordsAfter stored calls).filter (fun r => since = 0 ∨ since ≤ r.timestamp) ∧
        found.Pairwise RunRecord.Newer ∧
        (s.afterCalls calls).load none since limit = .ok ((firstOf limit found).map RunRecord.kept)) ∧
      ∀ other : Store, other.closed = false → other.database.rows ~ (s.afterCalls calls).database.rows →
        other.load none since limit = (s.afterCalls calls).load none since limit := by
  have hall := Holds.afterCalls hc hs
  refine ⟨?_, fun since limit ht => ⟨hall.load ht limit, fun other ho hp => hall.load_eq ho hp since limit⟩⟩
  rintro earlier c later rfl
  have hbefore : (s.afterCalls earlier).Holds (recordsAfter stored earlier) :=
    Holds.afterCalls (fun d hd => hc d (List.mem_append_left _ hd)) hs
  have hafter : s.afterCalls (earlier ++ [c]) = ((s.afterCalls earlier).answer c).2 := by
    rw [Store.afterCalls, List.foldl_append]
    rfl
  have hstorable := hc c (List.mem_append_right _ List.mem_cons_self)
  dsimp only
  rw [hafter, hbefore.ids]
  rcases hbefore.answer_cases c with ⟨hrefused, why, hw⟩ | ⟨hadmitted, row, hrow, ha⟩
  · exact .inl ⟨hrefused, ⟨why, by rw [hw]⟩, by rw [hw]⟩
  · exact .inr ⟨hadmitted, by rw [ha], row, by rw [ha], Row.toRecord_of_ofRecord hstorable hrow⟩

/-- An open store with an empty table. -/
def blank : Store := ⟨"history.db", ["history.db"], .empty, false⟩

theorem holds_blank : blank.Holds [] := ⟨rfl, .nil, List.nodup_nil⟩

/-- A run that sets one variable. -/
def sampleCall (id : Text) (timestamp : Instant) (x : Float) : SaveCall :=
  ⟨"fresh", 5, ⟨id, timestamp, "api", "x = 1", [], 1, [], [], [([120], x)], 2500⟩⟩

theorem storable_sampleCall {id : Text} {timestamp : Instant} {x : Float}
    (h : Instant.InRange (sampleCall id timestamp x).record.timestamp) :
    (sampleCall id timestamp x).record.Storable := by
  refine ⟨h, fun p hp => ?_, List.pairwise_singleton _ _⟩
  rw [List.mem_singleton.mp hp]
  show Text.IsUtf8 [120]
  decide

/-- Of these calls the second and the third are refused: an id comes again, and a variable is infinite. -/
def fourCalls : List SaveCall :=
  [sampleCall "a" 7 1, sampleCall "a" 8 1, sampleCall "b" 9 (Binary.infinity false), sampleCall [] 0 2]

theorem fourCalls_loaded :
    (blank.Holds [] ∧ ∀ c ∈ fourCalls, c.record.Storable) ∧
      ∃ found, found ~ [(sampleCall "a" 7 1).record, (sampleCall [] 0 2).record] ∧ found.Pairwise RunRecord.Newer ∧
        (blank.afterCalls fourCalls).load none 3 1 = .ok ((found.take 1).map RunRecord.kept) := by
  have hc : ∀ c ∈ fourCalls, c.record.Storable := by
    simp only [fourCalls, List.mem_cons, List.not_mem_nil, or_false, forall_eq_or_imp, forall_eq]
    refine ⟨storable_sampleCall ?_, storable_sampleCall ?_, storable_sampleCall ?_, storable_sampleCall ?_⟩ <;>
      decide +kernel
  refine ⟨⟨holds_blank, hc⟩, ?_⟩
  obtain ⟨found, hp, hn, hl⟩ := ((load_after_calls blank [] fourCalls holds_blank hc).2 3 1 (by decide)).1
  exact ⟨found, hp, hn, hl⟩

/-- A run of the year 0, before the instant that is zero. -/
def yearZero : SaveCall := sampleCall "a" (-18489600000000000) 1

/-- A run that is older than a `since` of zero is loaded all the same. -/
theorem zeroSince_leaves_none_out :
    ∃ runs, (blank.afterCalls [yearZero]).load none 0 0 = .ok runs ∧ ∃ r ∈ runs, ¬ (0 : Instant) ≤ r.timestamp := by
  have hc : ∀ c ∈ [yearZero], c.record.Storable := by
    simp only [List.mem_singleton, forall_eq]
    exact storable_sampleCall (by decide +kernel)
  obtain ⟨found, hp, -, hl⟩ := (Holds.afterCalls hc holds_blank).load (show Instant.InRange 0 by decide) 0
  obtain rfl : found = [yearZero.record] := List.perm_singleton.mp hp
  exact ⟨_, hl, _, List.mem_singleton_self _, by decide⟩

end Store

end Abacus
