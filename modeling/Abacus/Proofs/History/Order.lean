import Mathlib.Data.List.Sort
import Abacus.History

/-!
# The reading order of rows

Rows are read by descending text of the instant and then by ascending id. Among rows with ids of their own the order is
strict, so that a list of rows has one arrangement, and the first rows of it are found as well by adding one row at a
time and keeping the first. Pruning a table keeps just these.
-/

namespace Abacus

open scoped List

namespace Row

/-- Later instants come first, and of one instant the smaller id. -/
def Precedes (a b : Row) : Prop := b.time < a.time ∨ a.time = b.time ∧ a.id < b.id

theorem before_iff {a b : Row} : a.before b = true ↔ b.time < a.time ∨ a.time = b.time ∧ a.id ≤ b.id := by
  simp [before]

theorem before_total (a b : Row) : (a.before b || b.before a) = true := by
  rw [Bool.or_eq_true, before_iff, before_iff]
  by_cases hab : a.time < b.time
  · exact .inr (.inl hab)
  · by_cases hba : b.time < a.time
    · exact .inl (.inl hba)
    · have he : a.time = b.time := List.le_antisymm (List.not_lt.mp hba) (List.not_lt.mp hab)
      exact (List.le_total a.id b.id).imp (fun h => .inr ⟨he, h⟩) fun h => .inr ⟨he.symm, h⟩

theorem before_trans (a b c : Row) (hab : a.before b = true) (hbc : b.before c = true) : a.before c = true := by
  rw [before_iff] at hab hbc ⊢
  rcases hab with hab | ⟨hab, ha⟩
  · rcases hbc with hbc | ⟨hbc, _⟩
    · exact .inl (List.lt_trans hbc hab)
    · exact .inl (hbc ▸ hab)
  · rcases hbc with hbc | ⟨hbc, hb⟩
    · exact .inl (hab ▸ hbc)
    · exact .inr ⟨hab.trans hbc, List.le_trans ha hb⟩

theorem id_eq_of_before {a b : Row} (hab : a.before b = true) (hba : b.before a = true) : a.id = b.id := by
  rw [before_iff] at hab hba
  rcases hab with hab | ⟨hab, ha⟩
  · rcases hba with hba | ⟨hba, _⟩
    · exact absurd hba (List.lt_asymm hab)
    · exact absurd (hba ▸ hab) (List.lt_irrefl _)
  · rcases hba with hba | ⟨_, hb⟩
    · exact absurd (hab ▸ hba) (List.lt_irrefl _)
    · exact List.le_antisymm ha hb

theorem precedes_of_before {a b : Row} (h : a.before b = true) (hne : a.id ≠ b.id) : a.Precedes b := by
  rcases before_iff.mp h with h | ⟨he, hi⟩
  · exact .inl h
  · refine .inr ⟨he, ?_⟩
    by_cases hlt : a.id < b.id
    · exact hlt
    · exact absurd (List.le_antisymm hi (List.not_lt.mp hlt)) hne

instance : Std.Total fun a b : Row => a.before b = true := ⟨fun a b => by simpa using before_total a b⟩

instance : IsTrans Row fun a b => a.before b = true := ⟨before_trans⟩

end Row

/-! ## Arrangements -/

/-- No two rows have one id. -/
def DistinctIds (rows : List Row) : Prop := (rows.map Row.id).Nodup

theorem DistinctIds.sublist {rows all : List Row} (h : DistinctIds all) (hs : rows <+ all) : DistinctIds rows :=
  List.Nodup.sublist (hs.map Row.id) h

theorem DistinctIds.perm {rows rows' : List Row} (h : DistinctIds rows) (hp : rows ~ rows') : DistinctIds rows' :=
  (hp.map Row.id).nodup_iff.mp h

theorem DistinctIds.eq {rows : List Row} (h : DistinctIds rows) {a b : Row} (ha : a ∈ rows) (hb : b ∈ rows)
    (he : a.id = b.id) : a = b := List.inj_on_of_nodup_map h ha hb he

def readingOrder (rows : List Row) : List Row := rows.mergeSort Row.before

/-- The first `keep` rows in reading order. -/
def top (keep : Nat) (rows : List Row) : List Row := (readingOrder rows).take keep

theorem readingOrder_perm (rows : List Row) : readingOrder rows ~ rows := List.mergeSort_perm rows _

theorem pairwise_readingOrder (rows : List Row) : (readingOrder rows).Pairwise fun a b => a.before b = true :=
  List.pairwise_mergeSort Row.before_trans Row.before_total rows

/-- Rows with ids of their own can be arranged in one way only. -/
theorem readingOrder_eq {rows arranged : List Row} (h : DistinctIds rows) (hp : arranged ~ rows)
    (ha : arranged.Pairwise fun a b => a.before b = true) : readingOrder rows = arranged := by
  have hperm : readingOrder rows ~ arranged := (readingOrder_perm rows).trans hp.symm
  refine hperm.eq_of_pairwise (fun a b hma hmb hab hba => ?_) (pairwise_readingOrder rows) ha
  exact h.eq ((readingOrder_perm rows).mem_iff.mp hma) (hp.mem_iff.mp hmb) (Row.id_eq_of_before hab hba)

theorem readingOrder_concat {rows : List Row} {x : Row} (h : DistinctIds (rows ++ [x])) :
    readingOrder (rows ++ [x]) = (readingOrder rows).orderedInsert (fun a b => a.before b = true) x := by
  refine readingOrder_eq h ?_ ((pairwise_readingOrder rows).orderedInsert x _)
  calc (readingOrder rows).orderedInsert (fun a b => a.before b = true) x
      ~ x :: readingOrder rows := List.perm_orderedInsert _ x _
    _ ~ x :: rows := (readingOrder_perm rows).cons x
    _ ~ rows ++ [x] := (List.perm_append_singleton x rows).symm

/-- Of a row put into a list, the first rows depend on the first rows of the list only. -/
theorem take_orderedInsert_take (keep : Nat) (x : Row) (rows : List Row) :
    ((rows.take keep).orderedInsert (fun a b => a.before b = true) x).take keep =
      (rows.orderedInsert (fun a b => a.before b = true) x).take keep := by
  induction rows generalizing keep with
  | nil => simp
  | cons b rows ih =>
      cases keep with
      | zero => rfl
      | succ keep =>
          simp only [List.take_succ_cons, List.orderedInsert]
          split
          · cases keep with
            | zero => rfl
            | succ keep => simp [List.take_take]
          · simp only [List.take_succ_cons, ih]

theorem top_concat (keep : Nat) {rows : List Row} {x : Row} (h : DistinctIds (rows ++ [x])) :
    top keep (rows ++ [x]) = ((top keep rows).orderedInsert (fun a b => a.before b = true) x).take keep := by
  rw [top, readingOrder_concat h, top, take_orderedInsert_take]

/-! ## Pruning -/

theorem filter_take_ids {rows : List Row} (h : DistinctIds rows) (keep : Nat) :
    rows.filter (fun r => ((rows.take keep).map Row.id).contains r.id) = rows.take keep := by
  have hd : ((rows.take keep).map Row.id ++ (rows.drop keep).map Row.id).Nodup := by
    rw [← List.map_append, List.take_append_drop]
    exact h
  have ht : ∀ r ∈ rows.take keep, ((rows.take keep).map Row.id).contains r.id = true := fun r hr =>
    List.contains_iff_mem.mpr (List.mem_map_of_mem hr)
  have hr : ∀ r ∈ rows.drop keep, ¬ ((rows.take keep).map Row.id).contains r.id = true := fun r hr hc => by
    have hm : r.id ∈ (rows.take keep).map Row.id := by simpa using hc
    exact (List.nodup_append.mp hd).2.2 r.id hm r.id (List.mem_map_of_mem hr) rfl
  calc rows.filter _
      = (rows.take keep ++ rows.drop keep).filter _ := by rw [List.take_append_drop]
    _ = rows.take keep := by rw [List.filter_append, List.filter_eq_self.mpr ht, List.filter_eq_nil_iff.mpr hr,
          List.append_nil]

namespace Database

variable (d : Database) (keep : Int)

theorem prune_rows_sublist : (d.prune keep).2.rows <+ d.rows := List.filter_sublist

theorem prune_count : (d.prune keep).1 + (d.prune keep).2.rows.length = d.rows.length :=
  Nat.sub_add_cancel (d.prune_rows_sublist keep).length_le

theorem readingOrder_prune (h : DistinctIds d.rows) : readingOrder (d.prune keep).2.rows = top keep.toNat d.rows := by
  have ho : DistinctIds (readingOrder d.rows) := h.perm (readingOrder_perm d.rows).symm
  have hp : (d.prune keep).2.rows ~ top keep.toNat d.rows := by
    have hf := filter_take_ids ho keep.toNat
    rw [top, ← hf]
    exact (readingOrder_perm d.rows).symm.filter _
  refine readingOrder_eq (h.sublist (d.prune_rows_sublist keep)) hp.symm ?_
  exact (pairwise_readingOrder d.rows).sublist (List.take_sublist _ _)

end Database

/-! ## The newest rows -/

/-- `kept` are the `keep` rows of `all` that come first, or all of them if there are no more. -/
structure Newest (keep : Nat) (all kept : List Row) : Prop where
  rows : kept <+ all
  size : kept.length = min keep all.length
  first : ∀ a ∈ kept, ∀ b ∈ all, b ∉ kept → a.Precedes b

theorem newest_of_readingOrder {keep : Nat} {all kept : List Row} (h : DistinctIds all) (hs : kept <+ all)
    (ho : readingOrder kept = top keep all) : Newest keep all kept := by
  have hk : kept ~ top keep all := ho ▸ (readingOrder_perm kept).symm
  have hp : top keep all ++ (readingOrder all).drop keep ~ all := by
    rw [top, List.take_append_drop]
    exact readingOrder_perm all
  refine ⟨hs, ?_, fun a ha b hb hn => ?_⟩
  · rw [hk.length_eq, top, List.length_take, (readingOrder_perm all).length_eq]
  · have hb' : b ∈ (readingOrder all).drop keep :=
      (List.mem_append.mp (hp.mem_iff.mpr hb)).resolve_left fun hm => hn (hk.mem_iff.mpr hm)
    have hsorted := pairwise_readingOrder all
    rw [← List.take_append_drop keep (readingOrder all)] at hsorted
    have hab := (List.pairwise_append.mp hsorted).2.2 a (hk.mem_iff.mp ha) b hb'
    refine Row.precedes_of_before hab fun he => hn ?_
    rwa [← h.eq (hs.subset ha) hb he]

end Abacus
