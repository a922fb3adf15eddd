import Abacus.Proofs.Watch.Coverage

/-!
# Debouncing loses no change

While a watcher is at work, events, changes of the files, firings of its timer and deliveries come in any order: a timer
that has fired is not stopped by the next event, and its delivery may come before or after that event. A change is kept
until the next delivery takes it, and that delivery passes it on if its file is still there.
-/

namespace Abacus

namespace Watcher

theorem ascending_insertPath {p : Text} {ps : List Text} (h : ps.Pairwise (· < ·)) :
    (insertPath p ps).Pairwise (· < ·) := by
  induction ps with
  | nil => exact List.pairwise_singleton _ _
  | cons q ps ih =>
      obtain ⟨hq, hps⟩ := List.pairwise_cons.mp h
      rw [insertPath]
      split
      · exact h
      · rename_i hne
        split
        · rename_i hlt
          refine List.pairwise_cons.mpr ⟨fun r hr => ?_, h⟩
          rcases List.mem_cons.mp hr with rfl | hr
          · exact hlt
          · exact List.lt_trans hlt (hq r hr)
        · rename_i hlt
          refine List.pairwise_cons.mpr ⟨fun r hr => ?_, ih hps⟩
          rcases mem_insertPath.mp hr with rfl | hr
          · exact Std.lt_of_le_of_ne (List.not_lt.mp hlt) (Ne.symm hne)
          · exact hq r hr

end Watcher

namespace Debouncer

/-- The changes are held as a set in ascending order, and while there are any a delivery is under way or will be. -/
structure Awake (d : Debouncer) : Prop where
  ascending : d.pending.Pairwise (· < ·)
  opened : d.closed = false
  due : d.pending ≠ [] → d.armed = true ∨ 0 < d.outstanding

theorem awake_new : new.Awake := ⟨List.Pairwise.nil, rfl, fun h => absurd rfl h⟩

section
variable {d : Debouncer} (h : d.Awake)
include h

theorem Awake.schedule (path : Text) : (d.schedule path).Awake := by
  rw [Debouncer.schedule, h.opened, if_neg Bool.false_ne_true]
  exact ⟨Watcher.ascending_insertPath h.ascending, rfl, fun _ => .inl rfl⟩

theorem Awake.fire : d.fire.Awake := by
  unfold Debouncer.fire
  split
  · exact ⟨h.ascending, h.opened, fun _ => .inr (Nat.succ_pos _)⟩
  · exact h

theorem Awake.flush (present : Text → Bool) : (d.flush present).2.Awake :=
  ⟨List.Pairwise.nil, h.opened, fun hne => absurd rfl hne⟩

theorem mem_pending_schedule {p path : Text} :
    p ∈ (d.schedule path).pending ↔ p ∈ d.pending ∨ p = Path.clean path := by
  rw [Debouncer.schedule, h.opened, if_neg Bool.false_ne_true, Watcher.mem_insertPath, or_comm]

end

theorem pending_fire (d : Debouncer) : d.fire.pending = d.pending := by
  unfold fire
  split <;> rfl

theorem flush_fst (d : Debouncer) (present : Text → Bool) :
    ((d.flush present).1).getD [] = d.pending.filter present ∧ (d.flush present).1 ≠ some [] := by
  unfold flush
  dsimp only
  split
  · rename_i he
    exact ⟨(List.isEmpty_iff.mp he).symm, nofun⟩
  · rename_i he
    exact ⟨rfl, fun h => he (by rw [Option.some.inj h]; rfl)⟩

end Debouncer

/-! ## A watcher at work -/

/-- The files as they are, what is watched, and the changes that wait. -/
structure Watching where
  files : FileTree
  watcher : Watcher
  debouncer : Debouncer

namespace Watching

inductive Happening where
  | changed (files : FileTree)
  | event (e : FileEvent)
  | fired
  | flushed
  | closed

/-- Nothing limits when a timer fires or a delivery comes: what is shown below holds for every order. -/
def after (w : Watching) : Happening → Watching
  | .changed files => { w with files }
  | .event e =>
    let (change, watcher) := w.watcher.handle w.files e
    { w with watcher, debouncer := change.elim w.debouncer w.debouncer.schedule }
  | .fired => { w with debouncer := w.debouncer.fire }
  | .flushed => { w with debouncer := (w.debouncer.flush w.files.exists?).2 }
  | .closed => { w with debouncer := w.debouncer.close }

def run (w : Watching) (xs : List Happening) : Watching := xs.foldl after w

/-- What a delivery would pass on now. -/
def delivery (w : Watching) : Option (List Text) := (w.debouncer.flush w.files.exists?).1

/-- The file of an event that counts. -/
def accepts? (w : Watching) : Happening → Option Text
  | .event e => (w.watcher.handle w.files e).1
  | _ => none

def accepted (w : Watching) : List Happening → List Text
  | [] => []
  | x :: xs => (w.accepts? x).toList ++ (w.after x).accepted xs

theorem run_append (w : Watching) (xs ys : List Happening) : w.run (xs ++ ys) = (w.run xs).run ys :=
  List.foldl_append

theorem mem_delivery {w : Watching} {p : Text} :
    p ∈ w.delivery.getD [] ↔ w.files.exists? p = true ∧ p ∈ w.debouncer.pending := by
  rw [delivery, (Debouncer.flush_fst _ _).1, List.mem_filter, and_comm]

section
variable {w : Watching} (h : w.debouncer.Awake)
include h

theorem awake_after {x : Happening} (hx : x ≠ .closed) : (w.after x).debouncer.Awake := by
  cases x with
  | changed files => exact h
  | event e =>
      simp only [after]
      cases (w.watcher.handle w.files e).1 with
      | none => exact h
      | some path => exact h.schedule path
  | fired => exact h.fire
  | flushed => exact h.flush w.files.exists?
  | closed => exact absurd rfl hx

theorem awake_run {xs : List Happening} (hxs : .closed ∉ xs) : (w.run xs).debouncer.Awake := by
  induction xs generalizing w with
  | nil => exact h
  | cons x xs ih =>
      rw [List.mem_cons, not_or] at hxs
      exact ih (awake_after h (Ne.symm hxs.1)) hxs.2

/-- Only a delivery takes changes away. -/
theorem mem_pending_after {x : Happening} (hf : x ≠ .flushed) {p : Text} :
    p ∈ (w.after x).debouncer.pending ↔
      p ∈ w.debouncer.pending ∨ ∃ name ∈ w.accepts? x, p = Path.clean name := by
  cases x with
  | changed files => simp [after, accepts?]
  | event e =>
      simp only [after, accepts?]
      cases (w.watcher.handle w.files e).1 with
      | none => simp
      | some path => simp [Debouncer.mem_pending_schedule h]
  | fired => simp [after, accepts?, Debouncer.pending_fire]
  | flushed => exact absurd rfl hf
  | closed => simp [after, accepts?, Debouncer.close]

theorem mem_pending_run {xs : List Happening} (hc : .closed ∉ xs) (hf : .flushed ∉ xs) {p : Text} :
    p ∈ (w.run xs).debouncer.pending ↔
      p ∈ w.debouncer.pending ∨ ∃ name ∈ w.accepted xs, p = Path.clean name := by
  induction xs generalizing w with
  | nil => simp [run, accepted]
  | cons x xs ih =>
      rw [List.mem_cons, not_or] at hc hf
      have hrun : w.run (x :: xs) = (w.after x).run xs := rfl
      rw [hrun, ih (awake_after h (Ne.symm hc.1)) hc.2 hf.2, mem_pending_after h (Ne.symm hf.1), accepted, or_assoc]
      simp only [List.mem_append, Option.mem_toList, or_and_right, exists_or, Option.mem_def]

/-- What waits comes from an event, also where deliveries came in between. -/
theorem of_mem_pending_run {xs : List Happening} (hc : .closed ∉ xs) {p : Text}
    (hp : p ∈ (w.run xs).debouncer.pending) :
    p ∈ w.debouncer.pending ∨ ∃ name ∈ w.accepted xs, p = Path.clean name := by
  induction xs generalizing w with
  | nil => exact .inl hp
  | cons x xs ih =>
      rw [List.mem_cons, not_or] at hc
      rcases ih (awake_after h (Ne.symm hc.1)) hc.2 hp with hp | ⟨name, hn, rfl⟩
      · by_cases hf : x = .flushed
        · subst hf
          cases hp
        · rcases (mem_pending_after h hf).mp hp with hp | ⟨name, hn, rfl⟩
          · exact .inl hp
          · exact .inr ⟨name, List.mem_append_left _ (Option.mem_toList.mpr hn), rfl⟩
      · exact .inr ⟨name, List.mem_append_right _ hn, rfl⟩

theorem ascending_delivery : (w.delivery.getD []).Pairwise (· < ·) := by
  rw [delivery, (Debouncer.flush_fst _ _).1]
  exact h.ascending.filter _

end

/-- The happenings `between` are all that came since the last delivery in `before`, or since the start. -/
def SinceDelivery (before between : List Happening) : Prop :=
  .flushed ∉ between ∧ (before = [] ∨ ∃ earlier, before = earlier ++ [.flushed])

def start (files : FileTree) (watcher : Watcher) : Watching := ⟨files, watcher, .new⟩

theorem pending_of_sinceDelivery (files : FileTree) (watcher : Watcher) {before between : List Happening}
    (h : SinceDelivery before between) : ((start files watcher).run before).debouncer.pending = [] := by
  rcases h.2 with rfl | ⟨earlier, rfl⟩
  · rfl
  · rw [run_append]
    rfl

/-- No change is lost or passed on twice, in whatever order events, firings and deliveries come before the watcher is
closed. While changes wait, the timer runs or a delivery is due; a delivery takes exactly the files of the events that
counted since the last one, under their shortest names, and leaves none; it passes on, in one list and only if that is
not empty, those that exist; and a file that two deliveries pass on was changed between them. -/
theorem deliveries_lose_nothing (files : FileTree) (watcher : Watcher) (xs : List Happening) (hc : .closed ∉ xs) :
    let fresh := start files watcher
    let now := fresh.run xs
    (now.debouncer.pending ≠ [] → now.debouncer.armed = true ∨ 0 < now.debouncer.outstanding) ∧
    (∀ before between later, xs = before ++ between ++ .flushed :: later → SinceDelivery before between →
      let changes := (fresh.run before).accepted between
      let moment := fresh.run (before ++ between)
      (∀ p, p ∈ moment.debouncer.pending ↔ ∃ name ∈ changes, p = Path.clean name) ∧
      (moment.after .flushed).debouncer.pending = [] ∧
      (∀ p, p ∈ moment.delivery.getD [] ↔ moment.files.exists? p = true ∧ ∃ name ∈ changes, p = Path.clean name) ∧
      moment.delivery ≠ some [] ∧ (moment.delivery.getD []).Pairwise (· < ·)) ∧
    (∀ before between later p, xs = before ++ .flushed :: between ++ .flushed :: later →
      p ∈ (fresh.run before).delivery.getD [] →
      p ∈ (fresh.run (before ++ .flushed :: between)).delivery.getD [] →
      ∃ name ∈ (fresh.run (before ++ [.flushed])).accepted between, p = Path.clean name) := by
  intro fresh now
  have hawake {ys zs : List Happening} (h : xs = ys ++ zs) : (fresh.run ys).debouncer.Awake :=
    awake_run Debouncer.awake_new fun hy => hc (h ▸ List.mem_append_left zs hy)
  refine ⟨(hawake (List.append_nil xs).symm).due, ?_, ?_⟩
  · intro before between later hxs hsince changes moment
    have hbetween : .closed ∉ between := fun h => hc (by rw [hxs]; simp [h])
    have hpending : ∀ p, p ∈ moment.debouncer.pending ↔ ∃ name ∈ changes, p = Path.clean name := by
      intro p
      have hp := mem_pending_run (hawake (hxs.trans (List.append_assoc _ _ _))) hbetween hsince.1 (p := p)
      rwa [← run_append, pending_of_sinceDelivery files watcher hsince, or_iff_right List.not_mem_nil] at hp
    refine ⟨hpending, rfl, fun p => ?_, (Debouncer.flush_fst _ _).2, ascending_delivery (hawake hxs)⟩
    rw [mem_delivery, hpending]
  · intro before between later p hxs _ hp
    have hbetween : .closed ∉ between := fun h => hc (by rw [hxs]; simp [h])
    have hmoment : before ++ .flushed :: between = (before ++ [.flushed]) ++ between := by simp
    rw [mem_delivery, hmoment, run_append] at hp
    have hfirst : xs = (before ++ [.flushed]) ++ (between ++ .flushed :: later) := by simp [hxs]
    refine (of_mem_pending_run (hawake hfirst) hbetween hp.2).resolve_left ?_
    rw [run_append]
    exact List.not_mem_nil

def twoFiles : FileTree := ⟨[], [(["a.calc"], .file "1"), (["b.calc"], .file "2")]⟩

def twoTargets : Watcher := ⟨[], [], ["a.calc", "b.calc"], []⟩

/-- The second change overtakes the delivery of the first one, which takes both, and has a delivery of its own. -/
def overtaken : List Happening :=
  [.event ⟨"./b.calc", false, true⟩, .fired, .event ⟨"a.calc", false, true⟩, .flushed, .fired, .flushed]

theorem overtaken_delivered :
    .closed ∉ overtaken ∧
    let moment := (start twoFiles twoTargets).run (overtaken.take 3)
    let changes := (start twoFiles twoTargets).accepted (overtaken.take 3)
    moment.debouncer = ⟨["a.calc", "b.calc"], true, 1, false⟩ ∧ changes = ["./b.calc", "a.calc"] ∧
    (∀ p, p ∈ moment.debouncer.pending ↔ ∃ name ∈ changes, p = Path.clean name) ∧
    (∀ p, p ∈ moment.delivery.getD [] ↔ moment.files.exists? p = true ∧ ∃ name ∈ changes, p = Path.clean name) ∧
    ((start twoFiles twoTargets).run overtaken).debouncer = ⟨[], false, 0, false⟩ := by
  have hc : .closed ∉ overtaken := by simp [overtaken]
  have hsince : SinceDelivery [] (overtaken.take 3) := ⟨by simp [overtaken], .inl rfl⟩
  obtain ⟨-, hdelivery, -⟩ := deliveries_lose_nothing twoFiles twoTargets overtaken hc
  obtain ⟨hpending, -, hpassed, -⟩ := hdelivery [] (overtaken.take 3) [.fired, .flushed] rfl hsince
  exact ⟨hc, rfl, rfl, hpending, hpassed, rfl⟩

end Watching

end Abacus
