import Abacus.Environment
import Abacus.Proofs.Context

/-!
# Environments as maps

An environment is a finite map together with the order in which its names were first set.
-/

namespace Abacus.Environment

theorem lookup_setEntry (name : Text) (value : Float) (n : Text) (es : List (Text × Float)) :
    (setEntry name value es).lookup n = if n = name then some value else es.lookup n := by
  induction es with
  | nil => simp [setEntry, lookup_cons_ite]
  | cons e es ih =>
      obtain ⟨k, v⟩ := e
      unfold setEntry
      split
      · rename_i hk
        subst hk
        by_cases hn : n = k <;> simp [lookup_cons_ite, hn]
      · rename_i hk
        by_cases hn : n = k
        · simp [hn, hk]
        · simp only [lookup_cons_ite, hn, ↓reduceIte, ih]

theorem map_fst_setEntry (name : Text) (value : Float) (es : List (Text × Float)) :
    (setEntry name value es).map Prod.fst =
      if name ∈ es.map Prod.fst then es.map Prod.fst else es.map Prod.fst ++ [name] := by
  induction es with
  | nil => simp [setEntry]
  | cons e es ih =>
      obtain ⟨k, v⟩ := e
      unfold setEntry
      split
      · rename_i hk
        simp [hk]
      · rename_i hk
        rw [List.map_cons, ih]
        by_cases hm : name ∈ es.map Prod.fst
        · simp [hm]
        · simp [hm, Ne.symm hk]

@[simp] theorem get?_empty (n : Text) : empty.get? n = none := rfl

@[simp] theorem names_empty : empty.names = [] := rfl

@[simp] theorem get?_set (e : Environment) (name : Text) (value : Float) (n : Text) :
    (e.set name value).get? n = if n = name then some value else e.get? n :=
  lookup_setEntry name value n e.entries

theorem names_set (e : Environment) (name : Text) (value : Float) :
    (e.set name value).names = if name ∈ e.names then e.names else e.names ++ [name] :=
  map_fst_setEntry name value e.entries

theorem nodup_names_set {e : Environment} (h : e.names.Nodup) (name : Text) (value : Float) :
    (e.set name value).names.Nodup := by
  rw [names_set]
  split
  · exact h
  · rename_i hm
    refine List.nodup_append.mpr ⟨h, by simp, ?_⟩
    intro n hn n' hn' he
    rw [List.mem_singleton] at hn'
    subst he hn'
    exact hm hn

theorem isSome_get?_iff (e : Environment) (n : Text) : (e.get? n).isSome = true ↔ n ∈ e.names := by
  simp [get?, names]

theorem mem_names_set (e : Environment) (name : Text) (value : Float) (n : Text) :
    n ∈ (e.set name value).names ↔ n ∈ e.names ∨ n = name := by
  rw [← isSome_get?_iff, ← isSome_get?_iff, get?_set]
  by_cases hn : n = name <;> simp [hn]

end Abacus.Environment
