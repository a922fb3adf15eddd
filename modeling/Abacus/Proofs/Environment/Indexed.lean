import Abacus.Environment.Indexed
import Abacus.Proofs.Environment
import Mathlib.Data.List.DropRight
import Std.Data.HashMap.Lemmas

/-!
# Environments after any operations

After any settings and resets an environment holds exactly what was set since the last reset: each name once, in
the order of the first settings, with the value of its last one. The map and the order of an indexed environment
stay in step, and together they read as the environment that lists names with values.
-/

namespace Abacus.Environment

inductive Operation
  | set (name : Text) (value : Float)
  | reset

namespace Operation

def isReset : Operation → Bool
  | set _ _ => false
  | reset => true

def setting? : Operation → Option (Text × Float)
  | set name value => some (name, value)
  | reset => none

/-- What was set since the last reset, in order. -/
def sinceReset (ops : List Operation) : List (Text × Float) :=
  (ops.rtakeWhile fun op => !op.isReset).filterMap setting?

theorem sinceReset_set (ops : List Operation) (name : Text) (value : Float) :
    sinceReset (ops ++ [set name value]) = sinceReset ops ++ [(name, value)] := by
  have hset : (!(set name value).isReset) = true := rfl
  rw [sinceReset, List.rtakeWhile_concat_pos (fun op => !op.isReset) ops _ hset, List.filterMap_append]
  rfl

theorem sinceReset_reset (ops : List Operation) : sinceReset (ops ++ [reset]) = [] := by
  have hreset : ¬(!reset.isReset) = true := by decide
  rw [sinceReset, List.rtakeWhile_concat_neg (fun op => !op.isReset) ops _ hreset]
  rfl

example : sinceReset [set "a" 1, reset, set "b" 2, set "b" 3] = ([("b", 2), ("b", 3)] : List (Text × Float)) := rfl

end Operation

def apply (e : Environment) : Operation → Environment
  | .set name value => e.set name value
  | .reset => .empty

/-- A fresh environment after some operations. -/
def after (ops : List Operation) : Environment := ops.foldl apply .empty

/-! ## What an environment records -/

/-- One name was set for the first time before the other one was. -/
def SetBefore (made : List (Text × Float)) (m n : Text) : Prop :=
  (made.map Prod.fst).idxOf m < (made.map Prod.fst).idxOf n

/-- Each name that was set stands in the environment, where it was first set and with the value set last. -/
structure Records (e : Environment) (made : List (Text × Float)) : Prop where
  mem_names : ∀ n, n ∈ e.names ↔ n ∈ made.map Prod.fst
  ordered : e.names.Pairwise (SetBefore made)
  value : ∀ n, e.get? n = made.reverse.lookup n

theorem records_empty : Records .empty [] := ⟨by simp, by simp, fun _ => rfl⟩

section
variable {e : Environment} {made : List (Text × Float)}

theorem setBefore_append {m n : Text} (hm : m ∈ made.map Prod.fst) (hn : n ∈ made.map Prod.fst)
    (h : SetBefore made m n) (more : List (Text × Float)) : SetBefore (made ++ more) m n := by
  rw [SetBefore, List.map_append, List.idxOf_append_of_mem hm, List.idxOf_append_of_mem hn]
  exact h

/-- A name set for the first time comes behind all names set so far. -/
theorem setBefore_new {m name : Text} (hm : m ∈ made.map Prod.fst) (hnew : name ∉ made.map Prod.fst) (value : Float) :
    SetBefore (made ++ [(name, value)]) m name := by
  rw [SetBefore, List.map_append, List.idxOf_append_of_mem hm, List.idxOf_append_of_notMem hnew]
  exact Nat.lt_add_right _ (List.idxOf_lt_length_of_mem hm)

theorem Records.nodup (h : Records e made) : e.names.Nodup := by
  refine h.ordered.imp fun {m n} hlt heq => ?_
  rw [heq] at hlt
  exact Nat.lt_irrefl _ hlt

theorem Records.ordered_set (h : Records e made) (name : Text) (value : Float) :
    (e.set name value).names.Pairwise (SetBefore (made ++ [(name, value)])) := by
  have hold : e.names.Pairwise (SetBefore (made ++ [(name, value)])) :=
    h.ordered.imp_of_mem fun hm hn hlt => setBefore_append ((h.mem_names _).mp hm) ((h.mem_names _).mp hn) hlt _
  rw [names_set]
  split
  · exact hold
  · rename_i hm
    have hnew : name ∉ made.map Prod.fst := fun hn => hm ((h.mem_names name).mpr hn)
    refine List.pairwise_append.mpr ⟨hold, List.pairwise_singleton _ _, fun m hmem n hn => ?_⟩
    rw [List.mem_singleton.mp hn]
    exact setBefore_new ((h.mem_names m).mp hmem) hnew value

theorem Records.set (h : Records e made) (name : Text) (value : Float) :
    Records (e.set name value) (made ++ [(name, value)]) := by
  refine ⟨fun n => ?_, h.ordered_set name value, fun n => ?_⟩
  · simp only [mem_names_set, h.mem_names n, List.map_append, List.mem_append, List.map_singleton, List.mem_singleton]
  · rw [get?_set, List.reverse_append, h.value n]
    exact (lookup_cons_ite name value n made.reverse).symm

theorem Records.apply {ops : List Operation} (h : Records e (Operation.sinceReset ops)) (op : Operation) :
    Records (e.apply op) (Operation.sinceReset (ops ++ [op])) := by
  cases op with
  | set name value =>
      rw [Operation.sinceReset_set]
      exact h.set name value
  | reset =>
      rw [Operation.sinceReset_reset]
      exact records_empty

theorem records_after (ops : List Operation) : Records (after ops) (Operation.sinceReset ops) := by
  induction ops using List.reverseRecOn with
  | nil => exact records_empty
  | append_singleton ops op ih =>
      rw [after, List.foldl_append]
      exact ih.apply op

end

/-- An environment is told by its names and their values. -/
theorem filterMap_names {e : Environment} (h : e.names.Nodup) :
    (e.names.filterMap fun n => (e.get? n).map fun v => (n, v)) = e.entries := by
  obtain ⟨es⟩ := e
  simp only [names, get?] at h ⊢
  induction es with
  | nil => rfl
  | cons p es ih =>
      obtain ⟨k, v⟩ := p
      obtain ⟨hk, hes⟩ := List.nodup_cons.mp h
      have hrest : ∀ n ∈ es.map Prod.fst, ((k, v) :: es).lookup n = es.lookup n := fun n hn => by
        have hne : n ≠ k := fun he => hk (he ▸ hn)
        rw [lookup_cons_ite, if_neg hne]
      rw [List.map_cons, List.filterMap_cons, lookup_cons_ite, if_pos rfl]
      have hcongr := List.filterMap_congr fun n hn => congrArg (Option.map fun v => (n, v)) (hrest n hn)
      simp only [Option.map_some, hcongr, ih hes]

/-! ## The index follows -/

namespace Indexed

def apply (e : Indexed) : Operation → Indexed
  | .set name value => e.set name value
  | .reset => e.reset

/-- A fresh indexed environment after some operations. -/
def after (ops : List Operation) : Indexed := ops.foldl apply .empty

theorem names_set (e : Indexed) (name : Text) (value : Float) :
    (e.set name value).names = if e.values.contains name then e.names else e.names ++ [name] := by
  simp only [names, set]
  split
  · rfl
  · exact Array.toList_push

theorem get?_set (e : Indexed) (name : Text) (value : Float) (n : Text) :
    (e.set name value).get? n = if n = name then some value else e.get? n := by
  have hkey : (name == n) = true ↔ n = name := beq_iff_eq.trans eq_comm
  simp only [get?, set, Std.HashMap.getElem?_insert, hkey]

theorem getElem?_snapshot (e : Indexed) (n : Text) : e.snapshot[n]? = e.get? n := by
  have hcopy : e.snapshot.Equiv (.ofList e.values.toList) := by
    rw [snapshot, Std.HashMap.fold_eq_foldl_toList]
    exact Std.HashMap.ofList_equiv_foldl.symm
  rw [hcopy.getElem?_eq, get?]
  cases h : e.values[n]? with
  | some v =>
      apply Std.HashMap.getElem?_ofList_of_mem (BEq.refl n) e.values.distinct_keys_toList
      exact Std.HashMap.mem_toList_iff_getElem?_eq_some.mpr h
  | none =>
      apply Std.HashMap.getElem?_ofList_of_contains_eq_false
      rw [Std.HashMap.map_fst_toList_eq_keys, Std.HashMap.contains_keys, Std.HashMap.contains_eq_isSome_getElem?, h]
      rfl

theorem size_snapshot (e : Indexed) : e.snapshot.size = e.size :=
  (Std.HashMap.Equiv.of_forall_getElem?_eq e.getElem?_snapshot).size_eq

/-- The index answers as the environment does. -/
structure Shows (e : Indexed) (env : Environment) : Prop where
  names : e.names = env.names
  get? : ∀ n, e.get? n = env.get? n

theorem shows_empty : Shows .empty .empty := ⟨rfl, fun _ => Std.HashMap.getElem?_empty⟩

section
variable {e : Indexed} {env : Environment}

theorem Shows.mem_values (h : Shows e env) (n : Text) : n ∈ e.values ↔ n ∈ env.names := by
  rw [Std.HashMap.mem_iff_isSome_getElem?, ← isSome_get?_iff, ← h.get? n]
  rfl

theorem Shows.set (h : Shows e env) (name : Text) (value : Float) :
    Shows (e.set name value) (env.set name value) := by
  refine ⟨?_, fun n => ?_⟩
  · simp only [Indexed.names_set, Environment.names_set, h.names, Std.HashMap.contains_iff_mem, h.mem_values]
  · rw [Indexed.get?_set, Environment.get?_set, h.get? n]

theorem Shows.apply (h : Shows e env) (op : Operation) : Shows (e.apply op) (env.apply op) := by
  cases op with
  | set name value => exact h.set name value
  | reset => exact shows_empty

theorem shows_after (ops : List Operation) : Shows (after ops) (Environment.after ops) := by
  induction ops using List.reverseRecOn with
  | nil => exact shows_empty
  | append_singleton ops op ih =>
      rw [after, Environment.after, List.foldl_append, List.foldl_append]
      exact ih.apply op

/-- The map has as many values as the order has names, if no name stands in the order twice. -/
theorem Shows.size (h : Shows e env) (hn : env.names.Nodup) : e.size = e.names.length := by
  have hkeys : e.values.keys.Perm e.names := by
    rw [h.names]
    refine (List.perm_ext_iff_of_nodup Std.HashMap.nodup_keys hn).mpr fun n => ?_
    rw [Std.HashMap.mem_keys, h.mem_values n]
  calc e.size = e.values.keys.length := Std.HashMap.length_keys.symm
    _ = e.names.length := hkeys.length_eq

theorem Shows.toEnvironment (h : Shows e env) (hn : env.names.Nodup) : e.toEnvironment = env := by
  simp only [Indexed.toEnvironment, h.names, h.get?]
  rw [filterMap_names hn]

end

/-- After any operations an indexed environment has each name that was set since the last reset once, in the order
of the first settings, and as many values as names. A name is found with the value it was set to last, and no other
name is found; a snapshot is the same map. With its names it reads as the environment after the same operations. -/
theorem after_keeps_settings_since_reset (ops : List Operation) :
    let e := after ops
    let made := Operation.sinceReset ops
    e.names.Nodup ∧ (∀ n, n ∈ e.names ↔ n ∈ made.map Prod.fst) ∧ e.names.Pairwise (SetBefore made) ∧
      e.size = e.names.length ∧ (∀ n, e.get? n = made.reverse.lookup n) ∧
      (∀ n, e.snapshot[n]? = e.get? n) ∧ e.snapshot.size = e.size ∧
      e.Shows (Environment.after ops) ∧ e.toEnvironment = Environment.after ops := by
  intro e made
  have hrecords : Records (Environment.after ops) made := records_after ops
  have hshows : e.Shows (Environment.after ops) := shows_after ops
  have hnodup := hrecords.nodup
  refine ⟨?_, ?_, ?_, hshows.size hnodup, ?_, e.getElem?_snapshot, e.size_snapshot, hshows,
    hshows.toEnvironment hnodup⟩
  · rw [hshows.names]
    exact hnodup
  · rw [hshows.names]
    exact hrecords.mem_names
  · rw [hshows.names]
    exact hrecords.ordered
  · intro n
    rw [hshows.get? n, hrecords.value n]

end Indexed

end Abacus.Environment
