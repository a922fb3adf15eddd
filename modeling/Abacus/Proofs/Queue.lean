import Abacus.Queue

/-!
# Queues lose nothing

A queue is used by adding, taking and closing. What it has taken in is, in order, what it has given out and then what
is still in it. A call for a batch waits for the queue, for its context and for its time to pass, and any of these that
has come may end the wait; only the queue has items to give.
-/

namespace Abacus.Queue

variable {α : Type}

/-! ## Calls -/

/-- A call for a batch. How long it waits is in `wait`; whether its context is done and its time has passed when its
wait ends is in `cancelled` and `expired`. -/
structure Call where
  most : Int
  wait : Int
  cancelled : Bool
  expired : Bool
deriving DecidableEq, Repr

/-- What has come of the things that a call waits for. A call that does not wait has no timer. -/
inductive Ready (q : Queue α) (c : Call) : Wake → Prop
  | queue (h : q.items ≠ [] ∨ q.closed = true) : Ready q c .ready
  | context (h : c.cancelled = true) : Ready q c .cancelled
  | timer (waits : 0 < c.wait) (h : c.expired = true) : Ready q c .timeout

/-- How a wait can end: by any one of the things that have come or, for a call that does not wait, when none has. -/
inductive Wakes (q : Queue α) (c : Call) : Wake → Prop
  | chosen {w : Wake} (h : Ready q c w) : Wakes q c w
  | nothing (impatient : c.wait ≤ 0) (h : ∀ w, ¬ Ready q c w) : Wakes q c .timeout

/-- Where nothing but time passes, a wait ends as `wake` says. -/
theorem wakes_wake (q : Queue α) {c : Call} (h : c.wait ≤ 0 ∨ c.expired = true) : Wakes q c (q.wake c.cancelled) := by
  unfold wake
  split
  · rename_i hq
    exact .chosen (.queue (by simpa using hq))
  · rename_i hq
    simp only [Bool.or_eq_true, Bool.not_eq_true', List.isEmpty_eq_false_iff, not_or] at hq
    split
    · rename_i hc
      exact .chosen (.context hc)
    · rename_i hc
      by_cases hw : 0 < c.wait
      · exact .chosen (.timer hw (h.resolve_left (by omega)))
      · refine .nothing (by omega) fun w hr => ?_
        cases hr with
        | queue h => exact h.elim hq.1 hq.2
        | context h => exact hc h
        | timer waits _ => exact hw waits

/-! ## One operation -/

/-- An operation together with its answer. -/
inductive Action (α : Type) where
  | enqueue (a : α) (answer : Admission)
  | dequeue (call : Call) (wake : Wake) (answer : Delivery α)
  | close

inductive Step : Queue α → Action α → Queue α → Prop
  | enqueue {q q' : Queue α} {a : α} {answer : Admission} (h : q.enqueue a = (answer, q')) :
      Step q (.enqueue a answer) q'
  | dequeue {q q' : Queue α} {c : Call} {w : Wake} {d : Delivery α} (wakes : Wakes q c w)
      (h : q.dequeue c.most w = (d, q')) : Step q (.dequeue c w d) q'
  | close {q : Queue α} : Step q .close q.close

/-- The item that an operation has added. -/
def Action.accepted : Action α → List α
  | .enqueue a .accepted => [a]
  | _ => []

/-- The items that an operation has taken. -/
def Action.delivered : Action α → List α
  | .dequeue _ _ d => d.items
  | _ => []

def Action.isClose : Action α → Bool
  | .close => true
  | _ => false

/-- Taking one item after another takes the first ones, and finds the queue drained where there was room for more. -/
theorem gather_eq (room : Nat) (q : Queue α) :
    gather room q =
      (⟨q.items.take room, if q.closed && q.items.length < room then some .drained else none⟩,
        { q with items := q.items.drop room }) := by
  induction room generalizing q with
  | zero => simp [gather]
  | succ room ih =>
      obtain ⟨capacity, items, closed⟩ := q
      cases items with
      | nil => cases closed <;> simp [gather, receive]
      | cons a rest => simp [gather, receive, ih]

theorem dequeue_splits (q : Queue α) (most : Int) (w : Wake) :
    ∃ rest, q.items = (q.dequeue most w).1.items ++ rest ∧ (q.dequeue most w).2 = { q with items := rest } := by
  cases w with
  | ready =>
      simp only [dequeue, gather_eq]
      exact ⟨_, (List.take_append_drop _ _).symm, rfl⟩
  | cancelled => exact ⟨_, rfl, rfl⟩
  | timeout => exact ⟨_, rfl, rfl⟩

section
variable {q q' : Queue α} {x : Action α}

/-- All that an operation can do. -/
theorem Step.cases (h : Step q x q') :
    (∃ a, x = .enqueue a .accepted ∧ q.closed = false ∧ q.size < q.capacity ∧
      q' = { q with items := q.items ++ [a] }) ∨
    (∃ a, x = .enqueue a .dropped ∧ ¬ (q.closed = false ∧ q.size < q.capacity) ∧ q' = q) ∨
    (∃ c w d rest, x = .dequeue c w d ∧ q.items = d.items ++ rest ∧ q' = { q with items := rest }) ∨
    (x = .close ∧ q' = { q with closed := true }) := by
  cases h with
  | enqueue h =>
      unfold Queue.enqueue at h
      split at h
      · rename_i ha
        cases h
        simp only [admits, Bool.and_eq_true, Bool.not_eq_true', decide_eq_true_eq] at ha
        exact .inl ⟨_, rfl, ha.1, ha.2, rfl⟩
      · rename_i ha
        cases h
        simp only [admits, Bool.and_eq_true, Bool.not_eq_true', decide_eq_true_eq] at ha
        exact .inr (.inl ⟨_, rfl, ha, rfl⟩)
  | @dequeue _ c w d _ h =>
      obtain ⟨rest, hi, hq⟩ := dequeue_splits q c.most w
      rw [h] at hi hq
      exact .inr (.inr (.inl ⟨c, w, d, rest, rfl, hi, hq⟩))
  | close => exact .inr (.inr (.inr ⟨rfl, rfl⟩))

theorem Step.capacity (h : Step q x q') : q'.capacity = q.capacity := by
  rcases h.cases with ⟨_, _, _, _, rfl⟩ | ⟨_, _, _, rfl⟩ | ⟨_, _, _, _, _, _, rfl⟩ | ⟨_, rfl⟩ <;> rfl

theorem Step.closed (h : Step q x q') : q'.closed = (q.closed || x.isClose) := by
  rcases h.cases with ⟨_, rfl, _, _, rfl⟩ | ⟨_, rfl, _, rfl⟩ | ⟨_, _, _, _, rfl, _, rfl⟩ | ⟨rfl, rfl⟩ <;>
    simp [Action.isClose]

/-- An operation adds at the end and takes from the front. -/
theorem Step.items (h : Step q x q') : q.items ++ x.accepted = x.delivered ++ q'.items := by
  rcases h.cases with ⟨_, rfl, _, _, rfl⟩ | ⟨_, rfl, _, rfl⟩ | ⟨_, _, _, _, rfl, hi, rfl⟩ | ⟨rfl, rfl⟩
  · rfl
  · exact List.append_nil _
  · exact (List.append_nil _).trans hi
  · exact List.append_nil _

theorem Step.size_le (h : Step q x q') (hq : q.size ≤ q.capacity) : q'.size ≤ q'.capacity := by
  unfold size at hq ⊢
  rcases h.cases with ⟨_, _, _, hl, rfl⟩ | ⟨_, _, _, rfl⟩ | ⟨_, _, _, _, _, hi, rfl⟩ | ⟨_, rfl⟩
  · simp only [List.length_append, List.length_singleton]
    exact hl
  · exact hq
  · rw [hi, List.length_append] at hq
    exact Nat.le_trans (Nat.le_add_left _ _) hq
  · exact hq

theorem Step.accepted_iff {a : α} {answer : Admission} (h : Step q (.enqueue a answer) q') :
    answer = .accepted ↔ q.closed = false ∧ q.size < q.capacity := by
  rcases h.cases with ⟨_, hx, ho, hl, _⟩ | ⟨_, hx, hn, _⟩ | ⟨_, _, _, _, hx, _⟩ | ⟨hx, _⟩
  · cases hx
    exact iff_of_true rfl ⟨ho, hl⟩
  · cases hx
    exact iff_of_false (fun h => by cases h) hn
  · cases hx
  · cases hx

/-- A closed queue lets nothing in. -/
theorem Step.accepted_of_closed (h : Step q x q') (hc : q.closed = true) : x.accepted = [] := by
  rcases h.cases with ⟨_, _, ho, _⟩ | ⟨_, rfl, _⟩ | ⟨_, _, _, _, rfl, _⟩ | ⟨rfl, _⟩
  · cases ho.symm.trans hc
  · rfl
  · rfl
  · rfl

end

/-- What the answer to a call for a batch says about the queue before and after it. -/
structure Answered (q : Queue α) (c : Call) (w : Wake) (d : Delivery α) (q' : Queue α) : Prop where
  /-- A limit below one counts as one. -/
  limit : d.items.length ≤ 1 ∨ (d.items.length : Int) ≤ c.most
  taken : w = .ready → d.items ≠ [] ∨ d.ending = some .drained
  inVain : w ≠ .ready → d.items = [] ∧ q' = q
  cancelled : d.ending = some .cancelled ↔ w = .cancelled
  drained : d.ending = some .drained → q.closed = true ∧ q.items = d.items ∧ q'.items = []

theorem Step.answered {q q' : Queue α} {c : Call} {w : Wake} {d : Delivery α} (h : Step q (.dequeue c w d) q') :
    Answered q c w d q' := by
  cases h with
  | dequeue wakes h =>
      cases w with
      | ready =>
          cases h.symm.trans (gather_eq _ q)
          have hl : 0 < batchLimit c.most := by unfold batchLimit; split <;> omega
          refine ⟨?_, fun _ => ?_, fun h => absurd rfl h, ?_, fun h => ?_⟩
          · simp only [List.length_take, batchLimit]
            split <;> omega
          · cases wakes with
            | chosen h =>
                cases h with
                | queue h =>
                    by_cases hi : q.items = []
                    · exact .inr (by simp [hi, h.resolve_left (fun hn => hn hi), hl])
                    · exact .inl fun ht => (List.take_eq_nil_iff.mp ht).elim (by omega) hi
          · dsimp only
            split <;> simp
          · simp only [Option.ite_none_right_eq_some, Bool.and_eq_true, decide_eq_true_eq] at h
            have ht := Nat.le_of_lt h.1.2
            exact ⟨h.1.1, (List.take_of_length_le ht).symm, List.drop_of_length_le ht⟩
      | cancelled =>
          cases h
          exact ⟨.inl (Nat.zero_le 1), nofun, fun _ => ⟨rfl, rfl⟩, by simp, nofun⟩
      | timeout =>
          cases h
          exact ⟨.inl (Nat.zero_le 1), nofun, fun _ => ⟨rfl, rfl⟩, by simp, nofun⟩

/-! ## Histories -/

inductive Steps : Queue α → List (Action α) → Queue α → Prop
  | nil {q : Queue α} : Steps q [] q
  | cons {q q' q'' : Queue α} {x : Action α} {xs : List (Action α)} (first : Step q x q') (rest : Steps q' xs q'') :
      Steps q (x :: xs) q''

def accepted (xs : List (Action α)) : List α := xs.flatMap Action.accepted

def delivered (xs : List (Action α)) : List α := xs.flatMap Action.delivered

section
variable {q q' : Queue α} {xs : List (Action α)}

theorem Steps.items (h : Steps q xs q') : q.items ++ accepted xs = delivered xs ++ q'.items := by
  induction h with
  | nil => simp [accepted, delivered]
  | @cons q _ _ x xs first _ ih =>
      calc q.items ++ accepted (x :: xs)
          = (q.items ++ x.accepted) ++ accepted xs := by simp [accepted]
        _ = x.delivered ++ (delivered xs ++ _) := by rw [first.items, List.append_assoc, ih]
        _ = delivered (x :: xs) ++ _ := by simp [delivered]

theorem Steps.closed_iff (h : Steps q xs q') : q'.closed = true ↔ q.closed = true ∨ ∃ x ∈ xs, x.isClose = true := by
  induction h with
  | nil => simp
  | cons first _ ih => simp [ih, first.closed, or_assoc]

theorem Steps.capacity (h : Steps q xs q') : q'.capacity = q.capacity := by
  induction h with
  | nil => rfl
  | cons first _ ih => exact ih.trans first.capacity

theorem Steps.size_le (h : Steps q xs q') (hq : q.size ≤ q.capacity) : q'.size ≤ q'.capacity := by
  induction h with
  | nil => exact hq
  | cons first _ ih => exact ih (first.size_le hq)

/-- A history is the part before an operation, the operation, and the part after it. -/
theorem Steps.split {x : Action α} {ys : List (Action α)} (h : Steps q (xs ++ x :: ys) q') :
    ∃ q₁ q₂, Steps q xs q₁ ∧ Step q₁ x q₂ ∧ Steps q₂ ys q' := by
  induction xs generalizing q with
  | nil =>
      cases h with
      | cons first rest => exact ⟨q, _, .nil, first, rest⟩
  | cons y xs ih =>
      cases h with
      | cons first rest =>
          obtain ⟨q₁, q₂, hx, hs, hy⟩ := ih rest
          exact ⟨q₁, q₂, .cons first hx, hs, hy⟩

/-- A queue that is closed and empty stays empty. -/
theorem Steps.delivered_of_drained (h : Steps q xs q') (hc : q.closed = true) (hi : q.items = []) :
    delivered xs = [] := by
  induction h with
  | nil => rfl
  | @cons q q₁ _ x xs first _ ih =>
      have hd := first.items
      rw [hi, first.accepted_of_closed hc, List.append_nil, eq_comm, List.append_eq_nil_iff] at hd
      have hq : q₁.closed = true := by rw [first.closed, hc, Bool.true_or]
      simp only [delivered, List.flatMap_cons, hd.1, List.nil_append]
      exact ih hq hd.2

end

theorem mem_close_iff (xs : List (Action α)) : .close ∈ xs ↔ ∃ x ∈ xs, x.isClose = true := by
  constructor
  · exact fun h => ⟨_, h, rfl⟩
  · rintro ⟨x, hx, hc⟩
    cases x with
    | close => exact hx
    | enqueue a answer => cases hc
    | dequeue c w d => cases hc

section
variable {capacity : Int} {xs : List (Action α)} {q : Queue α}

theorem Steps.items_of_new (h : Steps (new capacity) xs q) : accepted xs = delivered xs ++ q.items := h.items

theorem Steps.closed_of_new (h : Steps (new capacity) xs q) : q.closed = true ↔ .close ∈ xs := by
  rw [h.closed_iff, mem_close_iff]
  simp [new]

theorem Steps.size_of_new (h : Steps (new capacity) xs q) :
    q.size + (delivered xs).length = (accepted xs).length := by
  simp [h.items_of_new, size, Nat.add_comm]

end

/-- A queue is a bounded FIFO that loses nothing, through every history of adding, taking and closing and however the
waits of the calls end. An item is let in exactly where the queue is open and holds fewer than it may; a batch keeps to
its limit; a call that is cancelled or waits in vain takes nothing; and one that finds the queue drained comes after
the closing, takes all that is left, and leaves nothing to any later call. -/
theorem lossless_bounded_fifo (capacity : Int) (xs : List (Action α)) (q : Queue α) (h : Steps (new capacity) xs q) :
    let bound := if capacity ≤ 0 then 1 else capacity.toNat
    accepted xs = delivered xs ++ q.items ∧ q.size ≤ bound ∧
    (∀ before a answer after, xs = before ++ .enqueue a answer :: after →
      (answer = .accepted ↔ .close ∉ before ∧ (accepted before).length < (delivered before).length + bound)) ∧
    (∀ before c w d after, xs = before ++ .dequeue c w d :: after →
      (d.items.length ≤ 1 ∨ (d.items.length : Int) ≤ c.most) ∧
      (w ≠ .ready ∨ d.ending = some .cancelled → d.items = [] ∧
        ∀ q₁ q₂, Steps (new capacity) before q₁ → Step q₁ (.dequeue c w d) q₂ → q₂ = q₁) ∧
      (w = .ready → d.items ≠ [] ∨ d.ending = some .drained) ∧
      (d.ending = some .drained →
        .close ∈ before ∧ accepted before = delivered before ++ d.items ∧ delivered after = [])) := by
  intro bound
  refine ⟨h.items_of_new, ?_, ?_, ?_⟩
  · have hs := h.size_le (Nat.zero_le _)
    rwa [h.capacity] at hs
  · rintro before a answer after rfl
    obtain ⟨q₁, q₂, hb, hx, _⟩ := h.split
    have hn := hb.size_of_new
    have hb' : q₁.capacity = bound := hb.capacity
    rw [hx.accepted_iff, ← hb.closed_of_new, Bool.not_eq_true, hb']
    refine and_congr_right fun _ => ?_
    omega
  · rintro before c w d after rfl
    obtain ⟨q₁, q₂, hb, hx, ha⟩ := h.split
    have hd := hx.answered
    refine ⟨hd.limit, fun hv => ?_, hd.taken, fun he => ?_⟩
    · have hw : w ≠ .ready := by
        rintro rfl
        exact hv.elim (fun h => h rfl) fun h => by cases hd.cancelled.mp h
      exact ⟨(hd.inVain hw).1, fun _ _ _ hs => (hs.answered.inVain hw).2⟩
    · obtain ⟨hc, hi, he⟩ := hd.drained he
      have hc' : q₂.closed = true := by rw [hx.closed, hc, Bool.true_or]
      exact ⟨hb.closed_of_new.mp hc, hi ▸ hb.items_of_new, ha.delivered_of_drained hc' he⟩

/-- A queue for one item: the second item is dropped, and the last batch comes with the end. -/
def fullThenDrained : List (Action Nat) :=
  [.enqueue 7 .accepted, .enqueue 8 .dropped, .dequeue ⟨5, 0, false, false⟩ .ready ⟨[7], none⟩, .enqueue 9 .accepted,
    .close, .dequeue ⟨5, 0, true, false⟩ .cancelled ⟨[], some .cancelled⟩,
    .dequeue ⟨5, 0, true, false⟩ .ready ⟨[9], some .drained⟩]

theorem fullThenDrained_steps :
    ∃ q : Queue Nat, Steps (new 0) fullThenDrained q ∧ accepted fullThenDrained = [7, 9] ∧
      accepted fullThenDrained = delivered fullThenDrained ++ q.items ∧ q.size ≤ 1 := by
  have hs : Steps (new 0) fullThenDrained ⟨1, [], true⟩ := by
    refine .cons (.enqueue rfl) <| .cons (.enqueue rfl) <| .cons (.dequeue (wakes_wake _ (.inl ?_)) rfl) <|
      .cons (.enqueue rfl) <| .cons .close <| .cons (.dequeue (.chosen (.context rfl)) rfl) <|
      .cons (.dequeue (wakes_wake _ (.inl ?_)) rfl) .nil
    all_goals decide
  have hf := lossless_bounded_fifo 0 fullThenDrained _ hs
  exact ⟨_, hs, rfl, hf.1, hf.2.1⟩

end Abacus.Queue
