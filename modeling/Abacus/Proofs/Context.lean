import Abacus.Fault

/-!
# Looking up details

A context is a finite map: a detail just put in is found under its name, and all other names are found as
before. What is taken out of a list of pairs is no longer found, and the rest is found as before.
-/

namespace Abacus

theorem lookup_cons_ite {α : Type} (k : Text) (v : α) (name : Text) (es : List (Text × α)) :
    ((k, v) :: es).lookup name = if name = k then some v else es.lookup name := by
  by_cases h : name = k
  · simp [h]
  · have hb : (name == k) = false := by simpa using h
    simp [List.lookup_cons, h, hb]

section
variable {α β : Type} [BEq α] [LawfulBEq α] {key place : α}

theorem lookup_filter_ne (h : key ≠ place) (es : List (α × β)) :
    (es.filter (·.1 != place)).lookup key = es.lookup key := by
  induction es with
  | nil => rfl
  | cons e es ih =>
      obtain ⟨r, n⟩ := e
      by_cases hr : r = place
      · subst hr
        rw [List.filter_cons_of_neg (by simp), ih, List.lookup_cons, beq_false_of_ne h]
      · rw [List.filter_cons_of_pos (by simpa using hr), List.lookup_cons, List.lookup_cons, ih]

theorem lookup_filter_self (key : α) (es : List (α × β)) : (es.filter (·.1 != key)).lookup key = none := by
  rw [List.lookup_eq_none_iff]
  intro e he
  have hne := (List.mem_filter.mp he).2
  simp only [bne_iff_ne, ne_eq] at hne
  exact bne_iff_ne.mpr (Ne.symm hne)

/-- Where each key stands once, no value is hidden by another one. -/
theorem lookup_filter_of_nodup {es : List (α × β)} (h : (es.map Prod.fst).Nodup) (p : β → Bool) (key : α) :
    (es.filter fun e => p e.2).lookup key = (es.lookup key).filter p := by
  induction es with
  | nil => rfl
  | cons e es ih =>
      obtain ⟨k, v⟩ := e
      obtain ⟨hk, hes⟩ := List.nodup_cons.mp h
      by_cases he : key = k
      · subst he
        have hnone : es.lookup key = none :=
          List.lookup_eq_none_iff.mpr fun e hmem => bne_iff_ne.mpr fun heq => hk (List.mem_map.mpr ⟨e, hmem, heq.symm⟩)
        by_cases hp : p v = true
        · simp [hp, Option.filter]
        · rw [List.filter_cons_of_neg (by simpa using hp), ih hes, hnone]
          simp [hp, Option.filter]
      · have hlookup : ((k, v) :: es).lookup key = es.lookup key := by rw [List.lookup_cons, beq_false_of_ne he]
        rw [hlookup, ← ih hes, List.filter_cons]
        split
        · rw [List.lookup_cons, beq_false_of_ne he]
        · rfl

end

namespace Context

theorem lookup_insertEntry (key : Text) (value : Detail) (name : Text) (es : List (Text × Detail)) :
    (insertEntry key value es).lookup name = if name = key then some value else es.lookup name := by
  induction es with
  | nil => simp [insertEntry, lookup_cons_ite]
  | cons e es ih =>
      obtain ⟨k, v⟩ := e
      unfold insertEntry
      split
      · simp only [lookup_cons_ite]
      · split
        · rename_i hk
          subst hk
          by_cases hn : name = key <;> simp [lookup_cons_ite, hn]
        · rename_i hk
          by_cases hn : name = k
          · simp [hn, Ne.symm hk]
          · simp only [lookup_cons_ite, hn, ↓reduceIte, ih]

@[simp] theorem find?_insert (c : Context) (key : Text) (value : Detail) (name : Text) :
    (c.insert key value).find? name = if name = key then some value else c.find? name :=
  lookup_insertEntry key value name c.entries

end Context

namespace Fault

@[simp] theorem attach_code (f : Fault) (key : Text) (value : Detail) : (f.attach key value).code = f.code := rfl

@[simp] theorem attach_message (f : Fault) (key : Text) (value : Detail) :
    (f.attach key value).message = f.message := rfl

@[simp] theorem attach_context (f : Fault) (key : Text) (value : Detail) :
    (f.attach key value).context = f.context.insert key value := rfl

end Fault

end Abacus
