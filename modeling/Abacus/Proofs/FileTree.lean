import Abacus.FileTree
import Abacus.Proofs.Context
import Abacus.Proofs.Path

/-!
# Looking up paths

A lookup that succeeds has gone a way, step by step and link by link. It depends on the directories and links it passes
and on what it ends at, so it is the same in two trees that share these. Names put below the path of a directory lead on
from its place, whatever way led there.
-/

namespace Abacus.FileTree

/-! ## Nodes -/

theorem node?_of_ne_nil (t : FileTree) {q : List Text} (hq : q ≠ []) : t.node? q = t.entries.lookup q := by
  rw [node?, if_neg (by simpa using hq)]

theorem node?_put {t : FileTree} {place : List Text} (hp : place ≠ []) (n : FileNode) (q : List Text) :
    (t.put place n).node? q = if q = place then some n else t.node? q := by
  by_cases hq : q = []
  · subst hq
    rw [if_neg (Ne.symm hp)]
    rfl
  · rw [node?_of_ne_nil _ hq, node?_of_ne_nil _ hq, put, List.lookup_append]
    split
    · rename_i he
      subst he
      rw [lookup_filter_self]
      simp
    · rename_i he
      rw [lookup_filter_ne he, List.lookup_cons, beq_false_of_ne he]
      simp

/-! ## Ways -/

/-- A step that stays where it is. -/
def IsStill (s : Text) : Prop := s = [] ∨ s = ("." : Text)

/-- A step that leads to what has that name. -/
def IsDown (s : Text) : Prop := ¬ IsStill s ∧ s ≠ (".." : Text)

theorem isDown_of_isName {s : Text} (hs : Path.IsName s) : IsDown s :=
  ⟨fun h => h.elim hs.nonempty hs.here, hs.up⟩

theorem IsDown.isName {s : Text} (hs : IsDown s) (hw : 47 ∉ s) : Path.IsName s :=
  ⟨fun h => hs.1 (.inl h), fun h => hs.1 (.inr h), hs.2, hw⟩

theorem IsDown.not_still {s : Text} (hs : IsDown s) : (s.isEmpty || decide (s = ("." : Text))) = false := by
  simpa [IsStill] using hs.1

/-- Where the target of a link at a place starts. -/
def start (place : List Text) (target : Text) : List Text := if target.head? = some 47 then [] else place

/-- A way along steps from one place to another, past no more than so many links. -/
inductive Way (t : FileTree) (through : Bool) : Nat → List Text → List Text → List Text → Prop where
  | here {n : Nat} {place : List Text} : Way t through n place [] place
  | still {n : Nat} {place q ss : List Text} {s : Text} (dir : t.node? place = some .directory) (step : IsStill s)
      (rest : Way t through n place ss q) : Way t through n place (s :: ss) q
  | up {n : Nat} {place q ss : List Text} (dir : t.node? place = some .directory) (below : place ≠ [])
      (rest : Way t through n place.dropLast ss q) : Way t through n place (".." :: ss) q
  | down {n : Nat} {place q ss : List Text} {s : Text} (dir : t.node? place = some .directory) (step : IsDown s)
      (plain : ∀ target, t.node? (place ++ [s]) ≠ some (.link target)) (rest : Way t through n (place ++ [s]) ss q) :
      Way t through n place (s :: ss) q
  | last {n : Nat} {place : List Text} {s target : Text} (dir : t.node? place = some .directory) (step : IsDown s)
      (link : t.node? (place ++ [s]) = some (.link target)) (ends : through = false) :
      Way t through n place [s] (place ++ [s])
  | onward {n : Nat} {place q ss steps : List Text} {s target : Text} (dir : t.node? place = some .directory)
      (step : IsDown s) (link : t.node? (place ++ [s]) = some (.link target)) (goes : through = true ∨ ss ≠ [])
      (inside : t.steps? target = some steps) (rest : Way t through n (start place target) (steps ++ ss) q) :
      Way t through (n + 1) place (s :: ss) q

section
variable {t : FileTree} {through : Bool} {place : List Text}

theorem follow_nil (n : Nat) : t.follow through n place [] = .ok place := by cases n <;> rfl

/-- There is no going on from what is no directory. -/
theorem follow_of_ne_directory (hd : t.node? place ≠ some .directory) (n : Nat) (s : Text) (ss : List Text) :
    t.follow through n place (s :: ss) = .error (if (t.node? place).isNone then .notFound else .notDirectory) := by
  rcases h : t.node? place with _ | content | _ | target
  · cases n <;> simp [follow, walk, h]
  · cases n <;> simp [follow, walk, h]
  · exact absurd h hd
  · cases n <;> simp [follow, walk, h]

variable (hd : t.node? place = some .directory) {s : Text}
include hd

section
variable (n : Nat) (ss : List Text)

theorem follow_still (hs : IsStill s) : t.follow through n place (s :: ss) = t.follow through n place ss := by
  have hstill : (s.isEmpty || decide (s = ("." : Text))) = true := by simpa [IsStill] using hs
  cases n <;> simp only [follow, walk, hd, hstill, ↓reduceIte]

theorem follow_up (hp : place ≠ []) :
    t.follow through n place (".." :: ss) = t.follow through n place.dropLast ss := by
  have hup : ((".." : Text).isEmpty || decide ((".." : Text) = ("." : Text))) = false := by decide
  cases n <;> simp [follow, walk, hd, hup, hp]

variable (hs : IsDown s)
include hs

theorem follow_down (hn : ∀ target, t.node? (place ++ [s]) ≠ some (.link target)) :
    t.follow through n place (s :: ss) = t.follow through n (place ++ [s]) ss := by
  cases n <;> simp only [follow, walk, hd, hs.not_still, hs.2, Bool.false_eq_true, ↓reduceIte]

end

variable {target : Text} (hs : IsDown s) (hn : t.node? (place ++ [s]) = some (.link target))
include hs hn

theorem follow_last (n : Nat) : t.follow false n place [s] = .ok (place ++ [s]) := by
  cases n <;>
    simp only [follow, walk, hd, hs.not_still, hs.2, hn, Bool.false_eq_true, ↓reduceIte, Bool.not_false,
      List.isEmpty_nil, Bool.and_self]

theorem follow_onward (n : Nat) {ss steps : List Text} (hg : through = true ∨ ss ≠ [])
    (ht : t.steps? target = some steps) :
    t.follow through (n + 1) place (s :: ss) = t.follow through n (start place target) (steps ++ ss) := by
  have hgoes : (!through && ss.isEmpty) = false := by
    rcases hg with rfl | hss
    · rfl
    · simp [hss]
  simp only [follow, walk, hd, hs.not_still, hs.2, hn, hgoes, ht, Bool.false_eq_true, ↓reduceIte, start]

end

section
variable {t : FileTree} {place q names : List Text} (hn : ∀ s ∈ names, Path.IsName s)
  (hl : ∀ k target, t.node? (q ++ names.take k) ≠ some (.link target))
include hn hl

/-- Names lead down where there are no links, if they lead anywhere. -/
theorem eq_append_of_follow {through : Bool} {m : Nat} (h : t.follow through m q names = .ok place) :
    place = q ++ names := by
  induction names generalizing q with
  | nil =>
      rw [follow_nil] at h
      rw [List.append_nil]
      exact (Except.ok.inj h).symm
  | cons s names ih =>
      rw [List.forall_mem_cons] at hn
      by_cases hd : t.node? q = some .directory
      · rw [follow_down hd m names (isDown_of_isName hn.1) (by simpa using hl 1)] at h
        rw [ih hn.2 (fun k => by simpa using hl (k + 1)) h, List.append_assoc, List.singleton_append]
      · rw [follow_of_ne_directory hd] at h
        cases h

/-- What is put where the names do not pass is not seen on the way. -/
theorem follow_put (hp : place ≠ []) (n : FileNode) (hq : ∀ k, q ++ names.take k ≠ place) {through : Bool}
    (m m' : Nat) : (t.put place n).follow through m q names = t.follow through m' q names := by
  induction names generalizing q with
  | nil => rw [follow_nil, follow_nil]
  | cons s names ih =>
      rw [List.forall_mem_cons] at hn
      have hnode (k : Nat) :
          (t.put place n).node? (q ++ (s :: names).take k) = t.node? (q ++ (s :: names).take k) := by
        rw [node?_put hp, if_neg (hq k)]
      by_cases hd : t.node? q = some .directory
      · have hd' : (t.put place n).node? q = some .directory := by simpa [hd] using hnode 0
        have hl' (target : Text) : (t.put place n).node? (q ++ [s]) ≠ some (.link target) := hnode 1 ▸ hl 1 target
        rw [follow_down hd m' names (isDown_of_isName hn.1) (by simpa using hl 1),
          follow_down hd' m names (isDown_of_isName hn.1) hl']
        exact ih hn.2 (fun k => by simpa using hl (k + 1)) fun k => by simpa using hq (k + 1)
      · have hsame : (t.put place n).node? q = t.node? q := by simpa using hnode 0
        rw [follow_of_ne_directory hd, follow_of_ne_directory (hsame ▸ hd), hsame]

end

theorem Way.follow_eq {t : FileTree} {through : Bool} {n : Nat} {place ss q : List Text}
    (h : t.Way through n place ss q) : t.follow through n place ss = .ok q := by
  induction h with
  | here => exact follow_nil _
  | still dir step rest ih => rw [follow_still dir _ _ step, ih]
  | up dir below rest ih => rw [follow_up dir _ _ below, ih]
  | down dir step plain rest ih => rw [follow_down dir _ _ step plain, ih]
  | last dir step link ends =>
      subst ends
      exact follow_last dir step link _
  | onward dir step link goes inside rest ih => rw [follow_onward dir step link _ goes inside, ih]

theorem way_of_walk {t : FileTree} {through : Bool} {n : Nat}
    {onward : List Text → List Text → Except FileError (List Text)}
    (ho : ∀ place ss q, onward place ss = .ok q → ∃ m, n = m + 1 ∧ t.Way through m place ss q) {place ss q : List Text}
    (h : t.walk through onward place ss = .ok q) : t.Way through n place ss q := by
  induction ss generalizing place with
  | nil =>
      cases h
      exact .here
  | cons s ss ih =>
      rw [walk] at h
      split at h
      · cases h
      · cases h
      · cases h
      rename_i hd
      split at h
      · rename_i hs
        exact .still hd (by simpa [IsStill] using hs) (ih h)
      rename_i hs
      split at h
      · rename_i hup
        subst hup
        split at h
        · cases h
        · rename_i hp
          exact .up hd (by simpa using hp) (ih h)
      rename_i hup
      have hdown : IsDown s := ⟨by simpa [IsStill] using hs, hup⟩
      split at h
      · rename_i target hn
        split at h
        · rename_i hends
          simp only [Bool.and_eq_true, Bool.not_eq_true', List.isEmpty_iff] at hends
          obtain ⟨hends, rfl⟩ := hends
          cases h
          exact .last hd hdown hn hends
        · rename_i hgoes
          split at h
          · rename_i steps hsteps
            obtain ⟨m, rfl, hw⟩ := ho _ _ _ h
            refine .onward hd hdown hn ?_ hsteps hw
            cases through with
            | true => exact .inl rfl
            | false => exact .inr (by simpa using hgoes)
          · cases h
      · rename_i hn
        exact .down hd hdown hn (ih h)

theorem follow_eq_ok_iff {t : FileTree} {through : Bool} {n : Nat} {place ss q : List Text} :
    t.follow through n place ss = .ok q ↔ t.Way through n place ss q := by
  refine ⟨fun h => ?_, Way.follow_eq⟩
  induction n generalizing place ss q with
  | zero =>
      refine way_of_walk (fun _ _ _ he => ?_) h
      cases he
  | succ n ih => exact way_of_walk (fun _ _ _ hw => ⟨n, rfl, ih hw⟩) h

namespace Way

variable {t : FileTree} {n : Nat} {place ss q : List Text}

/-- Without going through, the way ends where it does otherwise or at a link. -/
theorem short (h : t.Way true n place ss q) :
    ∃ home, t.Way false n place ss home ∧ (home = q ∨ ∃ target, t.node? home = some (.link target)) := by
  induction h with
  | here => exact ⟨_, .here, .inl rfl⟩
  | still dir step rest ih =>
      obtain ⟨home, hw, he⟩ := ih
      exact ⟨home, .still dir step hw, he⟩
  | up dir below rest ih =>
      obtain ⟨home, hw, he⟩ := ih
      exact ⟨home, .up dir below hw, he⟩
  | down dir step plain rest ih =>
      obtain ⟨home, hw, he⟩ := ih
      exact ⟨home, .down dir step plain hw, he⟩
  | last dir step link ends => cases ends
  | @onward n place q ss steps s target dir step link goes inside rest ih =>
      by_cases hss : ss = []
      · subst hss
        exact ⟨_, .last dir step link rfl, .inr ⟨target, link⟩⟩
      · obtain ⟨home, hw, he⟩ := ih
        exact ⟨home, .onward dir step link (.inr hss) inside hw, he⟩

/-- A way that does not end at a link goes through. -/
theorem through (h : t.Way false n place ss q) (hq : ∀ target, t.node? q ≠ some (.link target)) :
    t.Way true n place ss q := by
  induction h with
  | here => exact .here
  | still dir step rest ih => exact .still dir step (ih hq)
  | up dir below rest ih => exact .up dir below (ih hq)
  | down dir step plain rest ih => exact .down dir step plain (ih hq)
  | last dir step link ends => exact absurd link (hq _)
  | onward dir step link goes inside rest ih => exact .onward dir step link (.inl rfl) inside (ih hq)

/-- Steps behind a way to a directory go on from there. A link at the end of the way is not the end any more if there
are such steps. -/
theorem follow_append (h : t.Way true n place ss q) (hq : t.node? q = some .directory) :
    ∃ m, ∀ through names, through = true ∨ names ≠ [] →
      t.follow through n place (ss ++ names) = t.follow through m q names := by
  induction h with
  | @here n place => exact ⟨n, fun _ _ _ => rfl⟩
  | still dir step rest ih =>
      obtain ⟨m, hm⟩ := ih hq
      exact ⟨m, fun b names hb => (follow_still dir _ _ step).trans (hm b names hb)⟩
  | up dir below rest ih =>
      obtain ⟨m, hm⟩ := ih hq
      exact ⟨m, fun b names hb => (follow_up dir _ _ below).trans (hm b names hb)⟩
  | down dir step plain rest ih =>
      obtain ⟨m, hm⟩ := ih hq
      exact ⟨m, fun b names hb => (follow_down dir _ _ step plain).trans (hm b names hb)⟩
  | last dir step link ends => cases ends
  | @onward n place q ss steps s target dir step link goes inside rest ih =>
      obtain ⟨m, hm⟩ := ih hq
      refine ⟨m, fun b names hb => ?_⟩
      have hgoes : b = true ∨ ss ++ names ≠ [] := hb.imp_right fun hn => List.append_ne_nil_of_right_ne_nil ss hn
      rw [List.cons_append, follow_onward dir step link n hgoes inside, ← List.append_assoc]
      exact hm b names hb

/-- Steps that meet no link keep the same names as cleaning does, as long as they stay below. -/
theorem foldl_pushPart (h : t.Way false n place ss q) (hn : n = 0) (rooted : Bool) (acc : List Text)
    (hw : ∀ s ∈ ss, 47 ∉ s) (hp : ∀ s ∈ place, Path.IsName s) :
    ss.foldl (Path.pushPart rooted) (place.reverse ++ acc) = q.reverse ++ acc := by
  -- A step down puts its name on top.
  have hdown {place ss : List Text} {s : Text} (step : IsDown s) (hs : 47 ∉ s) :
      (s :: ss).foldl (Path.pushPart rooted) (place.reverse ++ acc) =
        ss.foldl (Path.pushPart rooted) ((place ++ [s]).reverse ++ acc) := by
    rw [List.foldl_cons, Path.pushPart_name rooted _ (step.isName hs), List.reverse_concat, List.cons_append]
  induction h with
  | here => rfl
  | still dir step rest ih =>
      rw [List.forall_mem_cons] at hw
      rw [List.foldl_cons, Path.pushPart_still rooted _ step]
      exact ih hn hw.2 hp
  | @up n place q ss dir below rest ih =>
      rw [List.forall_mem_cons] at hw
      obtain ⟨place, last, rfl⟩ := (List.eq_nil_or_concat place).resolve_left below
      rw [List.concat_eq_append] at hp ih ⊢
      rw [List.dropLast_concat] at ih
      rw [List.foldl_cons, List.reverse_concat, List.cons_append, Path.pushPart_up_name rooted _ (hp last (by simp))]
      exact ih hn hw.2 fun s hs => hp s (List.mem_append_left _ hs)
  | @down n place q ss s dir step plain rest ih =>
      rw [List.forall_mem_cons] at hw
      rw [hdown step hw.1]
      refine ih hn hw.2 fun s' hs' => ?_
      rcases List.mem_append.mp hs' with hs' | hs'
      · exact hp s' hs'
      · rw [List.mem_singleton.mp hs']
        exact step.isName hw.1
  | last dir step link ends => exact hdown step (hw _ List.mem_cons_self)
  | onward dir step link goes inside rest ih => cases hn

end Way

/-! ## Trees that share what is passed -/

/-- The directories and links of one tree are in another with the same working directory. -/
structure Shares (t t' : FileTree) : Prop where
  cwd : t'.cwd = t.cwd
  inner : ∀ q n, (∀ c, n ≠ .file c) → t.node? q = some n → t'.node? q = some n

namespace Shares

theorem refl (t : FileTree) : Shares t t := ⟨rfl, fun _ _ _ h => h⟩

variable {t t' : FileTree} (h : Shares t t')
include h

theorem trans {t'' : FileTree} (h' : Shares t' t'') : Shares t t'' :=
  ⟨h'.cwd.trans h.cwd, fun q n hn hq => h'.inner q n hn (h.inner q n hn hq)⟩

theorem directory {q : List Text} (hq : t.node? q = some .directory) : t'.node? q = some .directory :=
  h.inner q _ (fun c hc => by cases hc) hq

theorem link {q : List Text} {target : Text} (hq : t.node? q = some (.link target)) :
    t'.node? q = some (.link target) :=
  h.inner q _ (fun c hc => by cases hc) hq

theorem steps? (p : Text) : t'.steps? p = t.steps? p := by rw [FileTree.steps?, h.cwd, FileTree.steps?]

/-- A way is a way in the other tree; one that goes through must end at the same there. -/
theorem way {through : Bool} {n : Nat} {place ss q : List Text} (hw : t.Way through n place ss q)
    (hq : through = true → t'.node? q = t.node? q) : t'.Way through n place ss q := by
  induction hw with
  | here => exact .here
  | still dir step rest ih => exact .still (h.directory dir) step (ih hq)
  | up dir below rest ih => exact .up (h.directory dir) below (ih hq)
  | @down n place q ss s dir step plain rest ih =>
      by_cases hn : ∃ target, t'.node? (place ++ [s]) = some (.link target)
      · obtain ⟨target, hn⟩ := hn
        -- What is a link in the other tree only is not passed, so it is the end.
        cases rest with
        | here => exact .last (h.directory dir) step hn (Bool.eq_false_iff.mpr fun ht => plain target (hq ht ▸ hn))
        | still dir' _ _ | up dir' _ _ | down dir' _ _ _ | last dir' _ _ _ | onward dir' _ _ _ _ _ =>
            cases hn.symm.trans (h.directory dir')
      · exact .down (h.directory dir) step (fun target ht => hn ⟨target, ht⟩) (ih hq)
  | last dir step link ends => exact .last (h.directory dir) step (h.link link) ends
  | onward dir step link goes inside rest ih =>
      exact .onward (h.directory dir) step (h.link link) goes ((h.steps? _).trans inside) (ih hq)

end Shares

/-- What is put where nothing was leaves all else. -/
theorem shares_put {t : FileTree} {place : List Text} (hp : place ≠ []) (free : t.node? place = none) (n : FileNode) :
    t.Shares (t.put place n) where
  cwd := rfl
  inner q m _ hq := by
    rw [node?_put hp, if_neg]
    · exact hq
    · rintro rfl
      cases free.symm.trans hq

/-! ## What a path leads to -/

section
variable {t : FileTree} {p : Text} {q : List Text} {n : FileNode}

theorem locate_eq_ok_iff {through : Bool} :
    t.locate through p = .ok q ↔ p ≠ [] ∧ ∃ ss, t.steps? p = some ss ∧ t.Way through maxLinks [] ss q := by
  rw [locate]
  split
  · rename_i hp
    simp [List.isEmpty_iff.mp hp]
  · rename_i hp
    have hp : p ≠ [] := by simpa using hp
    cases hs : t.steps? p with
    | none => simp
    | some ss => simp [hp, follow_eq_ok_iff]

theorem lookup_eq_ok_iff : t.lookup p = .ok (q, n) ↔ t.locate true p = .ok q ∧ t.node? q = some n := by
  rw [lookup]
  cases h : t.locate true p with
  | error e => simp [bind, Except.bind]
  | ok place =>
      simp only [bind, Except.bind, Except.ok.injEq]
      cases hn : t.node? place with
      | none =>
          constructor
          · intro he
            cases he
          · rintro ⟨rfl, hq⟩
            cases hn.symm.trans hq
      | some m =>
          simp only [pure, Except.pure, Except.ok.injEq, Prod.mk.injEq]
          constructor
          · rintro ⟨rfl, rfl⟩
            exact ⟨rfl, hn⟩
          · rintro ⟨rfl, hq⟩
            exact ⟨rfl, Option.some.inj (hn.symm.trans hq)⟩

theorem node?_of_lookup (h : t.lookup p = .ok (q, n)) : t.node? q = some n := (lookup_eq_ok_iff.mp h).2

theorem lookup_of_locate_error {e : FileError} (h : t.locate true p = .error e) : t.lookup p = .error e := by
  rw [lookup, h]
  rfl

theorem lookup_of_absent (h : t.locate true p = .ok q) (hn : t.node? q = none) : t.lookup p = .error .notFound := by
  rw [lookup, h]
  simp only [bind, Except.bind, hn]

theorem lookup_of_node (h : t.resolve p = .ok q) (hn : t.node? q = some n) (hl : ∀ target, n ≠ .link target) :
    t.lookup p = .ok (q, n) := by
  obtain ⟨hp, ss, hs, hw⟩ := locate_eq_ok_iff.mp h
  have hthrough := hw.through fun target ht => hl target (Option.some.inj (hn.symm.trans ht))
  exact lookup_eq_ok_iff.mpr ⟨locate_eq_ok_iff.mpr ⟨hp, ss, hs, hthrough⟩, hn⟩

/-- Something that a path leads to has that name, or a link to it has. -/
theorem exists_resolve_of_lookup (h : t.lookup p = .ok (q, n)) :
    ∃ home m, t.resolve p = .ok home ∧ t.node? home = some m := by
  obtain ⟨hlocate, hn⟩ := lookup_eq_ok_iff.mp h
  obtain ⟨hp, ss, hs, hw⟩ := locate_eq_ok_iff.mp hlocate
  obtain ⟨home, hshort, rfl | ⟨target, ht⟩⟩ := hw.short
  · exact ⟨home, n, locate_eq_ok_iff.mpr ⟨hp, ss, hs, hshort⟩, hn⟩
  · exact ⟨home, .link target, locate_eq_ok_iff.mpr ⟨hp, ss, hs, hshort⟩, ht⟩

theorem isDirectory_eq_ok {b : Bool} :
    t.isDirectory p = .ok b ↔ ∃ q n, t.lookup p = .ok (q, n) ∧ (n == .directory) = b := by
  rw [isDirectory]
  cases h : t.lookup p with
  | error e => simp [bind, Except.bind]
  | ok r => simp [bind, Except.bind, pure, Except.pure, Prod.ext_iff, eq_comm]

end

namespace Shares

variable {t t' : FileTree} (h : Shares t t') {p : Text} {q : List Text}
include h

theorem locate {through : Bool} (hp : t.locate through p = .ok q)
    (hq : through = true → t'.node? q = t.node? q) : t'.locate through p = .ok q := by
  obtain ⟨hne, ss, hs, hw⟩ := locate_eq_ok_iff.mp hp
  exact locate_eq_ok_iff.mpr ⟨hne, ss, (h.steps? p).trans hs, h.way hw hq⟩

theorem resolve (hr : t.resolve p = .ok q) : t'.resolve p = .ok q := h.locate hr nofun

theorem lookup {n : FileNode} (hl : t.lookup p = .ok (q, n)) (hn : t'.node? q = some n) :
    t'.lookup p = .ok (q, n) := by
  obtain ⟨hp, hq⟩ := lookup_eq_ok_iff.mp hl
  exact lookup_eq_ok_iff.mpr ⟨h.locate hp fun _ => hn.trans hq.symm, hn⟩

end Shares

/-! ## Paths and the names below them -/

/-- The working directory has a shortest rooted name, unless it has none, and it is not the root. -/
def Placed (t : FileTree) : Prop :=
  t.cwd = [] ∨ Path.isRooted t.cwd = true ∧ Path.clean t.cwd = t.cwd ∧ t.cwd ≠ [47]

theorem join_append {a : Text} (ps : List Text) {qs : List Text} (hq : qs ≠ []) :
    Text.join "/" (a :: ps ++ qs) = Text.join "/" (a :: ps) ++ 47 :: Text.join "/" qs := by
  induction ps generalizing a with
  | nil =>
      obtain ⟨b, qs, rfl⟩ := List.exists_cons_of_ne_nil hq
      exact Path.join_cons_cons a b qs
  | cons c ps ih =>
      rw [List.cons_append, List.cons_append, Path.join_cons_cons, ← List.cons_append, ih, Path.join_cons_cons,
        List.append_assoc, List.cons_append]

section
variable {t : FileTree}

theorem steps?_of_relative (ht : t.Placed) {p : Text} (hp : Path.isRooted p = false) :
    t.steps? p = some (Path.parts p) := by
  have hroot : p.head? ≠ some 47 := by simpa [Path.isRooted] using hp
  rw [steps?, if_neg, if_neg hroot]
  intro hin
  simp only [Bool.and_eq_true, Bool.not_eq_true', List.isEmpty_eq_false_iff, Bool.or_eq_true, decide_eq_true_eq,
    List.isPrefixOf_iff_prefix] at hin
  obtain ⟨hne, hin⟩ := hin
  have hcwd : t.cwd.head? = some 47 := by simpa [Path.isRooted] using (ht.resolve_left hne).1
  obtain ⟨c, w, hw⟩ := List.exists_cons_of_ne_nil hne
  rw [hw] at hcwd hin
  rcases hin with rfl | ⟨u, rfl⟩
  · exact hroot hcwd
  · exact hroot hcwd

/-- A rooted path has steps if it leads into the working directory. -/
theorem steps?_of_rooted {p : Text} (hp : Path.isRooted p = true) {ss : List Text} :
    t.steps? p = some ss ↔
      t.cwd ≠ [] ∧ ∃ u, p = t.cwd ++ u ∧ (u = [] ∨ ∃ v, u = 47 :: v) ∧ ss = Path.parts u := by
  have hroot : p.head? = some 47 := by simpa [Path.isRooted] using hp
  have hin : (!t.cwd.isEmpty && (decide (p = t.cwd) || (t.cwd ++ [47]).isPrefixOf p)) = true ↔
      t.cwd ≠ [] ∧ ∃ u, p = t.cwd ++ u ∧ (u = [] ∨ ∃ v, u = 47 :: v) := by
    simp only [Bool.and_eq_true, Bool.not_eq_true', List.isEmpty_eq_false_iff, Bool.or_eq_true, decide_eq_true_eq,
      List.isPrefixOf_iff_prefix]
    refine and_congr_right fun _ => ⟨?_, ?_⟩
    · rintro (h | ⟨v, rfl⟩)
      · exact ⟨[], by simpa using h, .inl rfl⟩
      · exact ⟨47 :: v, by simp, .inr ⟨v, rfl⟩⟩
    · rintro ⟨u, rfl, rfl | ⟨v, rfl⟩⟩
      · exact .inl (List.append_nil _)
      · exact .inr ⟨v, by simp⟩
  rw [steps?]
  split
  · rename_i h
    obtain ⟨hne, u, rfl, hu⟩ := hin.mp h
    rw [List.drop_left, Option.some.injEq]
    constructor
    · rintro rfl
      exact ⟨hne, u, rfl, hu, rfl⟩
    · rintro ⟨_, u', he, _, rfl⟩
      rw [List.append_cancel_left he]
  · rename_i h
    constructor
    · intro he; cases he
    · rintro ⟨hne, u, he, hu, _⟩
      exact absurd (hin.mpr ⟨hne, u, he, hu⟩) h

/-- The steps of a path with names below it are its own and those names. The step that the working directory is
spelled as is left out. -/
theorem steps?_spell_append (ht : t.Placed) {rooted : Bool} {ps names ss : List Text} (hp : Path.IsShortest rooted ps)
    (hs : t.steps? (Path.spell rooted ps) = some ss) (hn : ∀ s ∈ names, Path.IsName s) (hne : names ≠ []) :
    ∃ front, (ss = front ∨ ss = ["."] ∧ front = []) ∧
      t.steps? (Path.spell rooted (ps ++ names)) = some (front ++ names) := by
  have hjoin : Path.parts (Text.join "/" names) = names := by
    obtain ⟨b, qs, rfl⟩ := List.exists_cons_of_ne_nil hne
    rw [Path.parts_join b fun s hs => (hn s (List.mem_cons_of_mem b hs)).whole,
      Path.parts_of_notMem (hn b List.mem_cons_self).whole]
    rfl
  have hrooted := Path.isRooted_spell (hp.append hn)
  cases rooted with
  | true =>
      obtain ⟨hcwd, u, hu, hu', rfl⟩ := (steps?_of_rooted (Path.isRooted_spell hp)).mp hs
      cases ps with
      | nil =>
          -- Only the root itself is spelled so, which is not the working directory.
          obtain ⟨_, _, hroot⟩ := ht.resolve_left hcwd
          obtain ⟨c, w, hw⟩ := List.exists_cons_of_ne_nil hcwd
          rw [hw, List.cons_append] at hu
          obtain ⟨hc, hu⟩ := List.cons.inj hu
          rw [hw, ← hc, (List.append_eq_nil_iff.mp hu.symm).1] at hroot
          exact absurd rfl hroot
      | cons a ps =>
          have hlong : Path.spell true (a :: ps ++ names) = t.cwd ++ (u ++ 47 :: Text.join "/" names) := by
            rw [← List.append_assoc, ← hu, Path.spell, if_pos rfl, join_append ps hne]
            rfl
          have hslash : ∃ v, u ++ 47 :: Text.join "/" names = 47 :: v := by
            rcases hu' with rfl | ⟨v, rfl⟩
            · exact ⟨_, rfl⟩
            · exact ⟨_, List.cons_append⟩
          refine ⟨Path.parts u, .inl rfl, (steps?_of_rooted hrooted).mpr ⟨hcwd, _, hlong, .inr hslash, ?_⟩⟩
          rw [Path.parts_append_cons, hjoin]
  | false =>
      rw [steps?_of_relative ht (Path.isRooted_spell hp), Option.some.injEq] at hs
      have hspell : Path.spell false (ps ++ names) = Text.join "/" (ps ++ names) := by
        rw [Path.spell_false (hp.append hn), if_neg (by simp [hne])]
      rw [steps?_of_relative ht hrooted, hspell]
      cases ps with
      | nil => exact ⟨[], .inr ⟨hs.symm, rfl⟩, congrArg some hjoin⟩
      | cons a ps =>
          rw [Path.spell_false hp, if_neg (by simp)] at hs
          exact ⟨ss, .inl rfl, by rw [join_append ps hne, Path.parts_append_cons, hjoin, hs]⟩

/-- Names put below the path of a directory lead on from its place. -/
theorem locate_spell_append (ht : t.Placed) {rooted : Bool} {ps : List Text} (hp : Path.IsShortest rooted ps)
    {place : List Text} (hr : t.locate true (Path.spell rooted ps) = .ok place)
    (hd : t.node? place = some .directory) :
    ∃ m, ∀ through names, (∀ s ∈ names, Path.IsName s) → through = true ∨ names ≠ [] →
      t.locate through (Path.spell rooted (ps ++ names)) = t.follow through m place names := by
  obtain ⟨-, ss, hs, hw⟩ := locate_eq_ok_iff.mp hr
  obtain ⟨m, hm⟩ := hw.follow_append hd
  refine ⟨m, fun through names hn hgoes => ?_⟩
  have hspelled : (Path.spell rooted (ps ++ names)).isEmpty = false := by simpa using Path.spell_ne_nil (hp.append hn)
  have hlocate {steps : List Text} (hsteps : t.steps? (Path.spell rooted (ps ++ names)) = some steps) :
      t.locate through (Path.spell rooted (ps ++ names)) = t.follow through maxLinks [] steps := by
    rw [locate, hspelled, hsteps]
    rfl
  rw [← hm through names hgoes]
  by_cases hne : names = []
  · subst hne
    rw [List.append_nil] at hlocate ⊢
    rw [hlocate hs, List.append_nil]
  · obtain ⟨front, rfl | ⟨rfl, rfl⟩, hsteps⟩ := steps?_spell_append ht hp hs hn hne
    · exact hlocate hsteps
    · exact (hlocate hsteps).trans (follow_still rfl maxLinks names (.inr rfl)).symm

/-- Every entry has a name of its own in a directory. -/
structure Upright (t : FileTree) : Prop where
  distinct : (t.entries.map Prod.fst).Nodup
  named : ∀ e ∈ t.entries, e.1 ≠ [] ∧ ∀ s ∈ e.1, Path.IsName s
  parent : ∀ e ∈ t.entries, t.node? e.1.dropLast = some .directory

namespace Upright

variable (hu : t.Upright) {q names : List Text} {n : FileNode}
include hu

theorem mem_entries_iff : (q, n) ∈ t.entries ↔ q ≠ [] ∧ t.node? q = some n := by
  constructor
  · intro h
    have hq := (hu.named _ h).1
    refine ⟨hq, ?_⟩
    rw [node?_of_ne_nil t hq]
    obtain ⟨before, after, he⟩ := List.append_of_mem h
    refine List.lookup_eq_some_iff.mpr ⟨before, after, he, fun e hm => ?_⟩
    have hd := hu.distinct
    rw [he, List.map_append, List.map_cons, List.nodup_append] at hd
    exact bne_iff_ne.mpr fun hqe => hd.2.2 e.1 (List.mem_map_of_mem hm) q List.mem_cons_self hqe.symm
  · rintro ⟨hq, h⟩
    rw [node?_of_ne_nil t hq] at h
    obtain ⟨before, after, he, _⟩ := List.lookup_eq_some_iff.mp h
    rw [he]
    exact List.mem_append_right _ List.mem_cons_self

theorem isName (h : t.node? q = some n) : ∀ s ∈ q, Path.IsName s := by
  by_cases hq : q = []
  · subst hq; exact fun s hs => absurd hs List.not_mem_nil
  · exact (hu.named _ (hu.mem_entries_iff.mpr ⟨hq, h⟩)).2

/-- Above an entry there are directories only. -/
theorem above (hn : names ≠ []) (h : t.node? (q ++ names) = some n) : t.node? q = some .directory := by
  induction names using List.reverseRecOn generalizing n with
  | nil => exact absurd rfl hn
  | append_singleton names s ih =>
      have hp := hu.parent _ (hu.mem_entries_iff.mpr ⟨by simp, h⟩)
      simp only [← List.append_assoc, List.dropLast_concat] at hp
      by_cases he : names = []
      · subst he; simpa using hp
      · exact ih he hp

theorem directory_above (h : t.node? (q ++ names) = some .directory) : t.node? q = some .directory := by
  by_cases hn : names = []
  · rwa [hn, List.append_nil] at h
  · exact hu.above hn h

theorem follow (h : t.node? (q ++ names) = some .directory) (through : Bool) (m : Nat) :
    t.follow through m q names = .ok (q ++ names) := by
  induction names generalizing q with
  | nil =>
      rw [List.append_nil]
      exact follow_nil m
  | cons s names ih =>
      have hs := hu.isName h s (by simp)
      have hrest : t.node? (q ++ [s] ++ names) = some .directory := by simpa using h
      have hplain (target : Text) : t.node? (q ++ [s]) ≠ some (.link target) := by simp [hu.directory_above hrest]
      rw [follow_down (hu.above (List.cons_ne_nil s names) h) m names (isDown_of_isName hs) hplain, ih hrest,
        List.append_assoc, List.singleton_append]

end Upright

/-- A path that meets no link and its shortest spelling lead to the same directory. -/
theorem locate_clean (ht : t.Placed) (hu : t.Upright) {p : Text} {ss q : List Text} (hs : t.steps? p = some ss)
    (hw : t.Way false 0 [] ss q) (hq : t.node? q = some .directory) : t.locate true (Path.clean p) = .ok q := by
  -- The shortest spelling is a name of the working directory, with the names of the place behind it.
  have hbase : ∃ base, Path.kept p = base ++ q ∧ Path.IsShortest (Path.isRooted p) base ∧
      t.locate true (Path.spell (Path.isRooted p) base) = .ok [] := by
    cases hp : Path.isRooted p with
    | false =>
        rw [steps?_of_relative ht hp] at hs
        cases hs
        refine ⟨[], ?_, Path.isShortest_names nofun, ?_⟩
        · have hkept := hw.foldl_pushPart rfl false [] (fun s hs => Path.notMem_of_mem_parts hs) nofun
          rw [Path.kept, hp]
          simpa using congrArg List.reverse hkept
        · have hhere : t.Way true maxLinks [] (Path.parts ".") [] := .still rfl (.inr rfl) .here
          exact locate_eq_ok_iff.mpr ⟨by decide, _, steps?_of_relative ht rfl, hhere⟩
    | true =>
        obtain ⟨hcwd, u, rfl, hu', rfl⟩ := (steps?_of_rooted hp).mp hs
        obtain ⟨hroot, hclean, -⟩ := ht.resolve_left hcwd
        have hspell : Path.spell true (Path.kept t.cwd) = t.cwd := by
          have h := Path.clean_eq t.cwd
          rw [hclean, hroot] at h
          exact h.symm
        refine ⟨Path.kept t.cwd, ?_, hroot ▸ Path.isShortest_kept t.cwd, ?_⟩
        · have hkept := hw.foldl_pushPart rfl true (Path.kept t.cwd).reverse
            (fun s hs => Path.notMem_of_mem_parts hs) nofun
          rw [Path.kept_append hroot hu', ← List.nil_append (Path.kept t.cwd).reverse, ← List.reverse_nil, hkept,
            List.reverse_append, List.reverse_reverse, List.reverse_reverse]
        · have hhere : t.Way true maxLinks [] (Path.parts []) [] := .still rfl (.inl rfl) .here
          have hsteps := (steps?_of_rooted (t := t) hroot).mpr ⟨hcwd, [], by rw [List.append_nil], .inl rfl, rfl⟩
          rw [hspell]
          exact locate_eq_ok_iff.mpr ⟨hcwd, _, hsteps, hhere⟩
  obtain ⟨base, hkept, hshort, hhere⟩ := hbase
  obtain ⟨m, hm⟩ := locate_spell_append ht hshort hhere rfl
  rw [Path.clean_eq, hkept, hm true q (hu.isName hq) (.inl rfl)]
  exact hu.follow (q := []) hq true m

/-- A directory can be made there. -/
structure Free (t : FileTree) (parent : List Text) (name : Text) : Prop where
  isName : Path.IsName name
  inside : t.node? parent = some .directory
  absent : t.node? (parent ++ [name]) = none

theorem Upright.put_directory (hu : t.Upright) {parent : List Text} {name : Text} (hf : t.Free parent name) :
    (t.put (parent ++ [name]) .directory).Upright := by
  have hne : parent ++ [name] ≠ [] := by simp
  have hkeep {q : List Text} := (shares_put hne hf.absent .directory).directory (q := q)
  -- An entry of the new tree is an old one or the new one.
  have hmem : ∀ e ∈ (t.put (parent ++ [name]) .directory).entries,
      e ∈ t.entries ∨ e = (parent ++ [name], .directory) := by
    intro e he
    rcases List.mem_append.mp he with he | he
    · exact .inl (List.mem_filter.mp he).1
    · exact .inr (List.mem_singleton.mp he)
  refine ⟨?_, fun e he => ?_, fun e he => ?_⟩
  · rw [put, List.map_append, List.map_singleton, List.nodup_append]
    refine ⟨hu.distinct.sublist (List.filter_sublist.map _), by simp, ?_⟩
    intro q hq q' hq' heq
    obtain ⟨e, he, rfl⟩ := List.mem_map.mp hq
    have hkey := (List.mem_filter.mp he).2
    rw [heq, List.mem_singleton.mp hq', bne_self_eq_false] at hkey
    cases hkey
  · rcases hmem e he with he | rfl
    · exact hu.named e he
    · refine ⟨hne, fun s hs => ?_⟩
      rcases List.mem_append.mp hs with hs | hs
      · exact hu.isName hf.inside s hs
      · rw [List.mem_singleton.mp hs]; exact hf.isName
  · rcases hmem e he with he | rfl
    · exact hkeep (hu.parent e he)
    · rw [List.dropLast_concat]; exact hkeep hf.inside

end

end Abacus.FileTree
