import Abacus.History.Store
import Abacus.Proofs.Context
import Abacus.Proofs.Instant
import Abacus.Proofs.Json.RoundTrip

/-!
# Records as rows

Variables are written in the order of their names and read back as they were, unless one of them is no finite number.
A row gives back the record it was made of, its duration cut to whole microseconds.
-/

namespace Abacus

/-! ## The order of the names -/

/-- The names ascend, as those of a finished list of variables do. -/
def Ascending (vs : List (Text × Float)) : Prop := vs.Pairwise fun p q => p.1 < q.1

theorem mem_putVariable {name : Text} {value : Float} {vs : List (Text × Float)} {p : Text × Float}
    (h : p ∈ putVariable name value vs) : p = (name, value) ∨ p ∈ vs := by
  induction vs with
  | nil => exact .inl (List.mem_singleton.mp h)
  | cons q vs ih =>
      rw [putVariable] at h
      split at h
      · rename_i hn
        rcases List.mem_cons.mp h with rfl | h
        · exact .inl (by rw [hn])
        · exact .inr (List.mem_cons_of_mem q h)
      · split at h
        · exact List.mem_cons.mp h
        · rcases List.mem_cons.mp h with rfl | h
          · exact .inr List.mem_cons_self
          · exact (ih h).imp_right (List.mem_cons_of_mem q)

theorem Ascending.putVariable {vs : List (Text × Float)} (h : Ascending vs) (name : Text) (value : Float) :
    Ascending (putVariable name value vs) := by
  induction vs with
  | nil => exact List.pairwise_singleton _ _
  | cons q vs ih =>
      obtain ⟨hq, hvs⟩ := List.pairwise_cons.mp h
      rw [Abacus.putVariable]
      split
      · exact List.pairwise_cons.mpr ⟨hq, hvs⟩
      · rename_i hne
        split
        · rename_i hlt
          refine List.pairwise_cons.mpr ⟨fun p hp => ?_, h⟩
          rcases List.mem_cons.mp hp with rfl | hp
          · exact hlt
          · exact List.lt_trans hlt (hq p hp)
        · rename_i hlt
          refine List.pairwise_cons.mpr ⟨fun p hp => ?_, ih hvs⟩
          rcases mem_putVariable hp with rfl | hp
          · exact Std.lt_of_le_of_ne (List.not_lt.mp hlt) hne
          · exact hq p hp

theorem lookup_putVariable (name : Text) (value : Float) (n : Text) (vs : List (Text × Float)) :
    (putVariable name value vs).lookup n = if n = name then some value else vs.lookup n := by
  induction vs with
  | nil => simp [putVariable, lookup_cons_ite]
  | cons q vs ih =>
      obtain ⟨k, v⟩ := q
      rw [putVariable]
      split
      · rename_i hk
        subst hk
        by_cases hn : n = k <;> simp [lookup_cons_ite, hn]
      · rename_i hk
        split
        · rw [lookup_cons_ite]
        · by_cases hn : n = k
          · simp [hn, hk]
          · simp only [lookup_cons_ite, hn, ↓reduceIte, ih]

/-- A name that is greater than all the others goes to the end. -/
theorem putVariable_of_lt {name : Text} {vs : List (Text × Float)} (h : ∀ p ∈ vs, p.1 < name) (value : Float) :
    putVariable name value vs = vs ++ [(name, value)] := by
  induction vs with
  | nil => rfl
  | cons q vs ih =>
      have hq := h q List.mem_cons_self
      rw [putVariable, if_neg fun he => List.lt_irrefl _ (he ▸ hq), if_neg (List.lt_asymm hq),
        ih fun p hp => h p (List.mem_cons_of_mem q hp)]
      rfl

theorem orderVariables_eq (vs : List (Text × Float)) :
    orderVariables vs = vs.foldl (fun acc p => putVariable p.1 p.2 acc) [] := rfl

theorem orderVariables_of_ascending {vs : List (Text × Float)} (h : Ascending vs) : orderVariables vs = vs := by
  have hfold (acc vs : List (Text × Float)) (h : Ascending (acc ++ vs)) :
      vs.foldl (fun acc p => putVariable p.1 p.2 acc) acc = acc ++ vs := by
    induction vs generalizing acc with
    | nil => exact (List.append_nil acc).symm
    | cons q vs ih =>
        have hlast : ∀ p ∈ acc, p.1 < q.1 := fun p hp => (List.pairwise_append.mp h).2.2 p hp q List.mem_cons_self
        have hput : putVariable q.1 q.2 acc = acc ++ [q] := putVariable_of_lt hlast q.2
        rw [List.foldl_cons, hput, ih _ (by simpa using h), List.append_assoc]
        rfl
  exact hfold [] vs h

theorem ascending_orderVariables (vs : List (Text × Float)) : Ascending (orderVariables vs) := by
  have hfold (acc : List (Text × Float)) (h : Ascending acc) :
      Ascending (vs.foldl (fun acc p => putVariable p.1 p.2 acc) acc) := by
    induction vs generalizing acc with
    | nil => exact h
    | cons q vs ih => exact ih _ (h.putVariable q.1 q.2)
  exact hfold [] .nil

theorem mem_of_mem_orderVariables {vs : List (Text × Float)} {p : Text × Float} (h : p ∈ orderVariables vs) :
    p ∈ vs := by
  have hfold (acc vs : List (Text × Float)) (h : p ∈ vs.foldl (fun acc q => putVariable q.1 q.2 acc) acc) :
      p ∈ acc ∨ p ∈ vs := by
    induction vs generalizing acc with
    | nil => exact .inl h
    | cons q vs ih =>
        rcases ih _ h with h | h
        · rcases mem_putVariable h with rfl | h
          · exact .inr List.mem_cons_self
          · exact .inl h
        · exact .inr (List.mem_cons_of_mem q h)
  exact (hfold [] vs h).resolve_left List.not_mem_nil

/-- Ordering variables leaves each its value. -/
theorem lookup_orderVariables {vs : List (Text × Float)} (h : (vs.map Prod.fst).Nodup) (n : Text) :
    (orderVariables vs).lookup n = vs.lookup n := by
  have hfold (acc vs : List (Text × Float)) (h : (vs.map Prod.fst).Nodup) :
      (vs.foldl (fun acc p => putVariable p.1 p.2 acc) acc).lookup n = (vs.lookup n).or (acc.lookup n) := by
    induction vs generalizing acc with
    | nil => rfl
    | cons q vs ih =>
        obtain ⟨k, v⟩ := q
        obtain ⟨hk, hvs⟩ := List.nodup_cons.mp h
        rw [List.foldl_cons, ih _ hvs, lookup_putVariable, lookup_cons_ite]
        by_cases hn : n = k
        · have hnone : vs.lookup n = none := List.lookup_eq_none_iff.mpr fun p hp => by
            have hne : k ≠ p.1 := by
              rintro rfl
              exact hk (List.mem_map.mpr ⟨p, hp, rfl⟩)
            simp [hn, hne]
          rw [hnone, if_pos hn, if_pos hn]
          rfl
        · rw [if_neg hn, if_neg hn]
  rw [orderVariables_eq, hfold [] vs h]
  cases vs.lookup n <;> rfl

/-- Ordering variables with names of their own loses none. -/
theorem mem_orderVariables {vs : List (Text × Float)} (h : (vs.map Prod.fst).Nodup) {p : Text × Float} :
    p ∈ orderVariables vs ↔ p ∈ vs := by
  refine ⟨mem_of_mem_orderVariables, fun hp => ?_⟩
  obtain ⟨before, after, rfl⟩ := List.append_of_mem hp
  have hfirst : ∀ q ∈ before, (p.1 != q.1) = true := fun q hq => by
    rw [List.map_append] at h
    have hne := (List.nodup_append.mp h).2.2 q.1 (List.mem_map_of_mem hq) p.1 List.mem_cons_self
    simpa using hne.symm
  have hlookup : (orderVariables (before ++ p :: after)).lookup p.1 = some p.2 := by
    rw [lookup_orderVariables h]
    exact List.lookup_eq_some_iff.mpr ⟨before, after, rfl, hfirst⟩
  obtain ⟨front, back, hsplit, -⟩ := List.lookup_eq_some_iff.mp hlookup
  rw [hsplit]
  exact List.mem_append_right _ List.mem_cons_self

/-! ## Variables as text -/

theorem encodeVariables_eq_error {vs : List (Text × Float)} (h : ∃ p ∈ vs, Binary.isFinite p.2 = false) :
    ∃ why, encodeVariables vs = .error why := by
  obtain ⟨p, hp, hx⟩ := h
  unfold encodeVariables
  split
  · exact ⟨_, rfl⟩
  · rename_i hf
    have hnot := List.find?_eq_none.mp hf p hp
    simp [hx] at hnot

theorem encodeVariables_of_finite {vs : List (Text × Float)} (h : ∀ p ∈ vs, Binary.isFinite p.2 = true) :
    encodeVariables vs = .ok (Json.object (Json.numbers .json vs)).render := by
  unfold encodeVariables
  split
  · rename_i hf
    have hx := List.find?_some hf
    simp [h _ (List.mem_of_find?_eq_some hf)] at hx
  · rfl

/-- Variables with finite values are read back in the order of their names. -/
theorem decodeVariables_of_finite {vs : List (Text × Float)} (hnames : ∀ p ∈ vs, p.1.IsUtf8)
    (h : ∀ p ∈ vs, Binary.isFinite p.2 = true) :
    decodeVariables (Json.object (Json.numbers .json vs)).render = .ok (orderVariables vs) := by
  have hnumber {p : Text × Float} (hp : p ∈ vs) : decodeNumber (.number (Layout.json.render p.2)) = .ok p.2 := by
    simp only [decodeNumber, Layout.json.float_render (h p hp)]
  have hmap : ∀ us : List (Text × Float), us ⊆ vs →
      (Json.numbers .json us).mapM (fun m => do return (m.1, ← decodeNumber m.2)) = (.ok us : Except Text _) := by
    intro us hus
    induction us with
    | nil => rfl
    | cons p us ih =>
        have htail := ih fun q hq => hus (List.mem_cons_of_mem p hq)
        have hhead := hnumber (hus List.mem_cons_self)
        rw [Json.numbers] at htail ⊢
        rw [List.map_cons, List.mapM_cons, htail]
        simp only [hhead]
        rfl
  rw [decodeVariables, Json.read_numbers hnames h]
  show ((Json.numbers .json vs).mapM fun m => do return (m.1, ← decodeNumber m.2)) >>= _ = _
  rw [hmap vs (List.Subset.refl vs)]
  rfl

/-! ## Rows -/

namespace RunRecord

/-- A record as a row gives it back: of the duration whole microseconds are kept. -/
def kept (r : RunRecord) : RunRecord := { r with duration := Int.tdiv r.duration 1000 * 1000 }

/-- The texts are UTF-8, the instant falls into the years 0 to 9999, and the variables are in order. -/
structure Storable (r : RunRecord) : Prop where
  instant : Instant.InRange r.timestamp
  names : ∀ p ∈ r.bindings, p.1.IsUtf8
  ordered : Ascending r.bindings

end RunRecord

namespace Row

/-- The row of a record, when its variables have been written. -/
theorem ofRecord_eq {r : RunRecord} {t : Text} (h : encodeVariables r.bindings = .ok t) :
    ofRecord r = .ok ⟨r.id, Instant.stored r.timestamp, r.source, r.script, r.status, .int r.statements, r.errorCode,
      r.errorMessage, t, Int.tdiv r.duration 1000⟩ := by
  simp only [ofRecord, h]
  rfl

/-- A record becomes a row just if its variables are finite numbers. -/
theorem ofRecord_cases (r : RunRecord) :
    (∀ p ∈ r.bindings, Binary.isFinite p.2 = true) ∧ (∃ row, ofRecord r = .ok row) ∨
      (∃ p ∈ r.bindings, Binary.isFinite p.2 = false) ∧ ∃ why, ofRecord r = .error why := by
  by_cases h : ∀ p ∈ r.bindings, Binary.isFinite p.2 = true
  · exact .inl ⟨h, _, ofRecord_eq (encodeVariables_of_finite h)⟩
  · have hinfinite : ∃ p ∈ r.bindings, Binary.isFinite p.2 = false := by simpa using h
    obtain ⟨why, hw⟩ := encodeVariables_eq_error hinfinite
    exact .inr ⟨hinfinite, why, by simp only [ofRecord, hw]; rfl⟩

theorem columns_of_ofRecord {r : RunRecord} {row : Row} (h : ofRecord r = .ok row) :
    row.id = r.id ∧ row.time = Instant.stored r.timestamp := by
  rcases ofRecord_cases r with ⟨hfinite, -⟩ | ⟨-, why, hw⟩
  · obtain rfl := Except.ok.inj ((ofRecord_eq (encodeVariables_of_finite hfinite)).symm.trans h)
    exact ⟨rfl, rfl⟩
  · cases hw.symm.trans h

/-- A row gives back the record that it was made of. -/
theorem toRecord_of_ofRecord {r : RunRecord} {row : Row} (hr : r.Storable) (h : ofRecord r = .ok row) :
    row.toRecord = .ok r.kept := by
  rcases ofRecord_cases r with ⟨hfinite, -⟩ | ⟨-, why, hw⟩
  · obtain rfl := Except.ok.inj ((ofRecord_eq (encodeVariables_of_finite hfinite)).symm.trans h)
    have hinstant := Instant.readStored_stored hr.instant
    have hbindings := decodeVariables_of_finite hr.names hfinite
    rw [orderVariables_of_ascending hr.ordered] at hbindings
    simp only [toRecord, Cell.toInt, hinstant, hbindings]
    rfl
  · cases hw.symm.trans h

end Row

end Abacus
