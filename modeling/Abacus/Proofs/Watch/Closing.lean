import Abacus.Proofs.Watch.Debounce

/-!
# Deliveries after closing

Closing stops the timer, so nothing starts a delivery any more, and keeps the changes that wait. A delivery that the
timer had started before still comes. The first one to come passes these changes on; the others find nothing.
-/

namespace Abacus

namespace Debouncer

/-- Closed, with the timer stopped. -/
structure Shut (d : Debouncer) : Prop where
  closed : d.closed = true
  armed : d.armed = false

theorem shut_close (d : Debouncer) : d.close.Shut := ⟨rfl, rfl⟩

section
variable {d : Debouncer} (h : d.Shut)
include h

theorem Shut.schedule_eq (path : Text) : d.schedule path = d := by rw [Debouncer.schedule, h.closed, if_pos rfl]

theorem Shut.fire_eq : d.fire = d := by rw [Debouncer.fire, h.armed, if_neg Bool.false_ne_true]

theorem Shut.close_eq : d.close = d := by
  obtain ⟨hc, ha⟩ := h
  cases d
  cases hc
  cases ha
  rfl

theorem Shut.flush (present : Text → Bool) : (d.flush present).2.Shut := ⟨h.closed, h.armed⟩

end

theorem flush_fst_eq_none_iff (d : Debouncer) (present : Text → Bool) :
    (d.flush present).1 = none ↔ ∀ p ∈ d.pending, present p = false := by
  simp [flush]

end Debouncer

namespace Watching

/-- No delivery comes that no firing of the timer has started. -/
def Possible (w : Watching) : List Happening → Prop
  | [] => True
  | x :: xs => (x = .flushed → 0 < w.debouncer.outstanding) ∧ (w.after x).Possible xs

theorem possible_append {w : Watching} {xs ys : List Happening} :
    w.Possible (xs ++ ys) ↔ w.Possible xs ∧ (w.run xs).Possible ys := by
  induction xs generalizing w with
  | nil => simp only [List.nil_append, Possible, true_and]; rfl
  | cons x xs ih => simp only [List.cons_append, Possible, ih, and_assoc]; rfl

def Happening.isDelivery : Happening → Bool
  | .flushed => true
  | _ => false

section
variable {w : Watching} (h : w.debouncer.Shut)
include h

/-- Once the watcher is closed, nothing but a delivery touches what waits. -/
theorem debouncer_after {x : Happening} (hx : x ≠ .flushed) : (w.after x).debouncer = w.debouncer := by
  cases x with
  | changed files => rfl
  | event e =>
      simp only [after]
      cases (w.watcher.handle w.files e).1 with
      | none => rfl
      | some path => exact h.schedule_eq path
  | fired => exact h.fire_eq
  | flushed => exact absurd rfl hx
  | closed => exact h.close_eq

theorem shut_after (x : Happening) : (w.after x).debouncer.Shut := by
  by_cases hx : x = .flushed
  · subst hx
    exact h.flush w.files.exists?
  · rw [debouncer_after h hx]
    exact h

/-- The first delivery takes all that waits. -/
theorem mem_pending_run_of_shut {xs : List Happening} {p : Text} :
    p ∈ (w.run xs).debouncer.pending ↔ .flushed ∉ xs ∧ p ∈ w.debouncer.pending := by
  induction xs generalizing w with
  | nil => simp [run]
  | cons x xs ih =>
      have hrun : w.run (x :: xs) = (w.after x).run xs := rfl
      rw [hrun, ih (shut_after h x), List.mem_cons, not_or]
      by_cases hx : x = .flushed
      · subst hx
        exact iff_of_false (fun hp => List.not_mem_nil hp.2) fun hp => hp.1.1 rfl
      · rw [debouncer_after h hx, and_iff_right (Ne.symm hx : ¬ Happening.flushed = x)]

/-- Every delivery that still comes was under way. -/
theorem deliveries_le_outstanding {xs : List Happening} (hxs : w.Possible xs) :
    xs.countP Happening.isDelivery ≤ w.debouncer.outstanding := by
  induction xs generalizing w with
  | nil => exact Nat.zero_le _
  | cons x xs ih =>
      obtain ⟨hdue, hrest⟩ := hxs
      have hle := ih (shut_after h x) hrest
      by_cases hx : x = .flushed
      · subst hx
        have htaken : (w.after .flushed).debouncer.outstanding = w.debouncer.outstanding - 1 := rfl
        have hcount : (Happening.flushed :: xs).countP Happening.isDelivery = xs.countP Happening.isDelivery + 1 :=
          List.countP_cons_of_pos rfl
        have := hdue rfl
        omega
      · rw [debouncer_after h hx] at hle
        rwa [List.countP_cons_of_neg (by cases x <;> simp_all [Happening.isDelivery])]

end

/-- In whatever order things come after the watcher was closed, a delivery passes something on exactly if it is the
first one since and a file that was waiting then is still there; it passes on all of these. It was under way when the
watcher was closed: where none was, none comes. -/
theorem delivery_after_closing (files : FileTree) (watcher : Watcher) (before between : List Happening)
    (h : (start files watcher).Possible (before ++ .closed :: between ++ [.flushed])) :
    let closing := (start files watcher).run before
    let moment := (start files watcher).run (before ++ .closed :: between)
    between.countP Happening.isDelivery < closing.debouncer.outstanding ∧
    (∀ p, p ∈ moment.delivery.getD [] ↔
      .flushed ∉ between ∧ p ∈ closing.debouncer.pending ∧ moment.files.exists? p = true) ∧
    (moment.delivery = none ↔
      .flushed ∈ between ∨ ∀ p ∈ closing.debouncer.pending, moment.files.exists? p = false) := by
  intro closing moment
  have hshut : (closing.after .closed).debouncer.Shut := Debouncer.shut_close _
  have hmoment : moment = (closing.after .closed).run between := run_append _ _ _
  have hpending {p : Text} :
      p ∈ moment.debouncer.pending ↔ .flushed ∉ between ∧ p ∈ closing.debouncer.pending := by
    rw [hmoment, mem_pending_run_of_shut hshut]
    rfl
  refine ⟨?_, fun p => ?_, ?_⟩
  · rw [List.append_assoc, possible_append] at h
    have hle : (between ++ [Happening.flushed]).countP Happening.isDelivery ≤ closing.debouncer.outstanding :=
      deliveries_le_outstanding hshut h.2.2
    rw [List.countP_append] at hle
    exact hle
  · rw [mem_delivery, hpending, and_comm, and_assoc]
  · rw [delivery, Debouncer.flush_fst_eq_none_iff]
    simp only [hpending, and_imp, or_iff_not_imp_left]
    exact forall_comm

/-- Both files have changed, and two deliveries are under way. -/
def twoDue : List Happening :=
  [.event ⟨"a.calc", false, true⟩, .fired, .event ⟨"b.calc", false, true⟩, .fired]

/-- Of the two deliveries only the one that comes first passes the changes on. -/
theorem twoDue_delivered_once :
    (start twoFiles twoTargets).Possible (twoDue ++ .closed :: [.flushed] ++ [.flushed]) ∧
    ((start twoFiles twoTargets).run (twoDue ++ [.closed])).delivery = some (["a.calc", "b.calc"] : List Text) ∧
    ((start twoFiles twoTargets).run (twoDue ++ .closed :: [.flushed])).delivery = none := by
  have hpossible : (start twoFiles twoTargets).Possible (twoDue ++ .closed :: [.flushed] ++ [.flushed]) :=
    ⟨nofun, nofun, nofun, nofun, nofun, fun _ => by decide, fun _ => by decide, trivial⟩
  obtain ⟨-, -, hnone⟩ := delivery_after_closing twoFiles twoTargets twoDue [.flushed] hpossible
  exact ⟨hpossible, rfl, hnone.mpr (.inl (List.mem_singleton_self _))⟩

/-- A delivery that is under way when the watcher is closed passes the change on. -/
theorem dueDelivery_passes_on :
    let due : List Happening := [.event ⟨"a.calc", false, true⟩, .fired, .closed]
    (start twoFiles twoTargets).Possible (due ++ [.flushed]) ∧
    ((start twoFiles twoTargets).run due).debouncer.closed = true ∧
    ((start twoFiles twoTargets).run due).delivery = some (["a.calc"] : List Text) :=
  ⟨⟨nofun, nofun, nofun, fun _ => by decide, trivial⟩, rfl, rfl⟩

end Watching

end Abacus
