import Abacus.History.Recorder

/-!
# A recorder loses no record

However callers and worker interleave, the records that a recorder let in are those it has handed to its sink, then
those in the worker's batch, then those still queued; and every record offered is counted once as dropped, written or
failed, or is still on its way. What the sink makes of a record decides nothing about the others. A recorder that is
closed and whose worker finished on its own has handed on all it let in.
-/

namespace Abacus

def RecorderEvent.isRecord : RecorderEvent → Bool
  | .record _ => true
  | _ => false

/-- The events that close the queue: a caller closes the recorder, and may give up waiting for it. -/
def RecorderEvent.closes : RecorderEvent → Bool
  | .close => true
  | .abandon => true
  | _ => false

namespace Recorder

variable {σ τ : Type}

/-! ## What an event does -/

/-- All that an event can do to a recorder. An event of the worker for which it is not the time is a `pause`. -/
inductive Change (sink : Sink σ) (r : Recorder σ) : RecorderEvent → Recorder σ → Prop
  | accept {run : RunRecord} (admits : r.queue.admits = true) :
      Change sink r (.record run)
        { r with
          queue := { r.queue with items := r.queue.items ++ [run] }
          accepted := r.accepted ++ [run] }
  | drop {run : RunRecord} {log : List LogRecord} (refuses : r.queue.admits = false) :
      Change sink r (.record run) { r with results := r.results ++ [.dropped], log }
  | close : Change sink r .close { r with queue := r.queue.close }
  | abandon : Change sink r .abandon { r with queue := r.queue.close, abandoned := true }
  | take {e : RecorderEvent} {run : RunRecord} {rest : List RunRecord} (worker : e.isRecord = false ∧ e.closes = false)
      (next : r.queue.items = run :: rest) :
      Change sink r e
        { r with
          queue := { r.queue with items := rest }
          batch := r.batch ++ [run]
          gathering := true
          untidy := true }
  | pause {e : RecorderEvent} (gathering leaving : Bool) (worker : e.isRecord = false ∧ e.closes = false)
      (leaves : leaving = true →
        r.leaving = true ∨ r.abandoned = true ∨ r.queue.closed = true ∧ r.queue.items = []) :
      Change sink r e { r with gathering, leaving }
  | save {run : RunRecord} {rest : List RunRecord} {state : σ} (next : r.batch = run :: rest)
      (saved : sink.save run r.state = .ok state) :
      Change sink r .write
        { r with batch := rest, state, handed := r.handed ++ [run], results := r.results ++ [.ok] }
  | fail {run : RunRecord} {rest : List RunRecord} {why : Text} {log : List LogRecord} (next : r.batch = run :: rest)
      (failed : sink.save run r.state = .error why) :
      Change sink r .write
        { r with batch := rest, handed := r.handed ++ [run], results := r.results ++ [.error], log }
  | tidy {state : σ} {log : List LogRecord} (written : r.batch = [])
      (tidied : sink.tidy r.state = .ok state ∨ ∃ why, sink.tidy r.state = .error why ∧ state = r.state) :
      Change sink r .tidy { r with state, untidy := false, log }

section
variable (sink : Sink σ) (r : Recorder σ)

theorem change_refl {e : RecorderEvent} (worker : e.isRecord = false ∧ e.closes = false) : Change sink r e r :=
  .pause r.gathering r.leaving worker .inl

theorem change_take {e : RecorderEvent} (worker : e.isRecord = false ∧ e.closes = false) : Change sink r e r.take := by
  unfold take Queue.receive
  cases hi : r.queue.items with
  | cons run rest => exact .take worker hi
  | nil =>
      cases hc : r.queue.closed with
      | true => exact .pause false true worker fun _ => .inr (.inr ⟨hc, hi⟩)
      | false => exact .pause false r.leaving worker .inl

theorem change_step (e : RecorderEvent) : Change sink r e (r.step sink e) := by
  cases e with
  | record run =>
      simp only [step, record, Queue.enqueue]
      cases ha : r.queue.admits with
      | true => exact .accept ha
      | false => exact .drop ha
  | close => exact .close
  | abandon => exact .abandon
  | fetch wake =>
      simp only [step, fetch]
      split
      · exact change_refl sink r ⟨rfl, rfl⟩
      · cases wake with
        | ready => exact change_take sink r ⟨rfl, rfl⟩
        | cancelled => exact .pause r.gathering r.abandoned ⟨rfl, rfl⟩ fun h => .inr (.inl h)
        | timeout => exact change_refl sink r ⟨rfl, rfl⟩
  | more =>
      simp only [step, more]
      split
      · exact change_refl sink r ⟨rfl, rfl⟩
      · split
        · exact change_take sink r ⟨rfl, rfl⟩
        · exact .pause false r.leaving ⟨rfl, rfl⟩ .inl
  | write =>
      simp only [step, write]
      split
      · exact change_refl sink r ⟨rfl, rfl⟩
      · cases hb : r.batch with
        | nil => exact change_refl sink r ⟨rfl, rfl⟩
        | cons run rest =>
            simp only
            cases hs : sink.save run r.state with
            | ok state => exact .save hb hs
            | error why => exact .fail hb hs
  | tidy =>
      simp only [step, tidy]
      split
      · rename_i hu
        simp only [Bool.and_eq_true, List.isEmpty_iff] at hu
        cases ht : sink.tidy r.state with
        | ok state => exact .tidy hu.2 (.inl ht)
        | error why => exact .tidy hu.2 (.inr ⟨why, ht, rfl⟩)
      · exact change_refl sink r ⟨rfl, rfl⟩

end

/-- The books of a recorder to which `offered` records were offered. -/
structure Balanced (offered : Nat) (r : Recorder σ) : Prop where
  order : r.accepted = r.handed ++ r.batch ++ r.queue.items
  counted : r.results.count .ok + r.results.count .error = r.handed.length
  offered : r.accepted.length + r.results.count .dropped = offered
  left : r.leaving = true → r.abandoned = true ∨ r.queue.closed = true ∧ r.queue.items = []

/-- What is handed to the sink is counted once, whatever the sink answers. -/
theorem counted_concat {results : List WriteResult} {handed : List RunRecord}
    (h : results.count .ok + results.count .error = handed.length) (run : RunRecord) {x : WriteResult}
    (hx : x = .ok ∨ x = .error) :
    (results ++ [x]).count .ok + (results ++ [x]).count .error = (handed ++ [run]).length := by
  rw [List.count_append, List.count_append, List.length_append, ← h]
  rcases hx with rfl | rfl
  · exact Nat.add_right_comm _ 1 _
  · rfl

section
variable {sink : Sink σ} {r r' : Recorder σ} {e : RecorderEvent}

theorem Balanced.change {n : Nat} (h : Change sink r e r') (hb : Balanced n r) :
    Balanced (n + if e.isRecord then 1 else 0) r' := by
  obtain ⟨order, counted, offered, left⟩ := hb
  cases h with
  | accept admits =>
      refine ⟨by simp [order], counted, ?_, fun hl => ?_⟩
      · simp only [List.length_append, List.length_singleton, RecorderEvent.isRecord, ↓reduceIte]
        omega
      · have ho : r.queue.closed = false := by simpa using (Bool.and_eq_true_iff.mp admits).1
        exact .inl ((left hl).resolve_right fun hc => by simp [ho] at hc)
  | drop _ =>
      refine ⟨order, by simpa using counted, ?_, left⟩
      simp only [List.count_append, List.count_singleton_self, RecorderEvent.isRecord, ↓reduceIte]
      omega
  | close => exact ⟨order, counted, offered, fun hl => (left hl).imp_right fun hc => ⟨rfl, hc.2⟩⟩
  | abandon => exact ⟨order, counted, offered, fun _ => .inl rfl⟩
  | take worker next =>
      simp only [worker.1, Bool.false_eq_true, ↓reduceIte, Nat.add_zero]
      refine ⟨by simp [order, next], counted, offered, fun hl => ?_⟩
      exact .inl ((left hl).resolve_right fun hc => by simp [next] at hc)
  | pause _ leaving worker leaves =>
      simp only [worker.1, Bool.false_eq_true, ↓reduceIte, Nat.add_zero]
      exact ⟨order, counted, offered, fun hl => (leaves hl).elim left id⟩
  | save next _ =>
      refine ⟨by simp [order, next], counted_concat counted _ (.inl rfl), ?_, left⟩
      simpa [RecorderEvent.isRecord] using offered
  | fail next _ =>
      refine ⟨by simp [order, next], counted_concat counted _ (.inr rfl), ?_, left⟩
      simpa [RecorderEvent.isRecord] using offered
  | tidy written _ => exact ⟨order, counted, offered, left⟩

theorem Balanced.handed_isPrefix {n : Nat} (h : Balanced n r) : r.handed <+: r.accepted :=
  ⟨r.batch ++ r.queue.items, by rw [h.order, List.append_assoc]⟩

theorem Change.accepted_isPrefix (h : Change sink r e r') : r.accepted <+: r'.accepted := by
  cases h with
  | accept _ => exact List.prefix_append _ _
  | _ => exact List.prefix_refl _

theorem Change.closed (h : Change sink r e r') : r'.queue.closed = (r.queue.closed || e.closes) := by
  cases h with
  | take worker _ => simp [worker.2]
  | pause _ _ worker _ => simp [worker.2]
  | _ => simp [RecorderEvent.closes, Queue.close]

theorem Change.abandoned (h : Change sink r e r') (ha : r'.abandoned = true) : r.abandoned = true ∨ e = .abandon := by
  cases h with
  | abandon => exact .inr rfl
  | _ => exact .inl ha

end

/-! ## Whatever the sink does -/

/-- Two recorders that differ at most in what their sinks made of the records. -/
structure InStep (r : Recorder σ) (r' : Recorder τ) : Prop where
  queue : r'.queue = r.queue
  batch : r'.batch = r.batch
  gathering : r'.gathering = r.gathering
  untidy : r'.untidy = r.untidy
  leaving : r'.leaving = r.leaving
  abandoned : r'.abandoned = r.abandoned
  accepted : r'.accepted = r.accepted
  handed : r'.handed = r.handed

section
variable {r : Recorder σ} {r' : Recorder τ}

theorem InStep.take (h : InStep r r') : InStep r.take r'.take := by
  obtain ⟨hq, hb, hg, hu, hl, ha, hc, hh⟩ := h
  unfold Recorder.take
  rw [hq]
  rcases r.queue.receive with ⟨run | _ | _, queue⟩ <;> constructor <;> simp [*]

theorem InStep.step (h : InStep r r') (sink : Sink σ) (sink' : Sink τ) (e : RecorderEvent) :
    InStep (r.step sink e) (r'.step sink' e) := by
  have ⟨hq, hb, hg, hu, hl, ha, hc, hh⟩ := h
  cases e with
  | record run =>
      simp only [Recorder.step, record, hq]
      rcases r.queue.enqueue run with ⟨_ | _, queue⟩ <;> constructor <;> simp [*]
  | close => constructor <;> simp [Recorder.step, *]
  | abandon => constructor <;> simp [Recorder.step, *]
  | fetch wake =>
      simp only [Recorder.step, fetch, hb, hu, hl]
      split
      · exact h
      · cases wake with
        | ready => exact h.take
        | cancelled => constructor <;> simp [*]
        | timeout => exact h
  | more =>
      simp only [Recorder.step, more, hb, hg]
      split
      · exact h
      · split
        · exact h.take
        · constructor <;> simp [*]
  | write =>
      simp only [Recorder.step, write, hb, hg]
      split
      · exact h
      · cases r.batch with
        | nil => exact h
        | cons run rest =>
            simp only
            split <;> split <;> constructor <;> simp [*]
  | tidy =>
      simp only [Recorder.step, tidy, hb, hu]
      split
      · split <;> split <;> constructor <;> simp [*]
      · exact h

end

/-! ## Every interleaving -/

section
variable (sink : Sink σ) {r : Recorder σ} (es : List RecorderEvent)

theorem Balanced.steps {n : Nat} (h : Balanced n r) :
    Balanced (n + es.countP RecorderEvent.isRecord) (r.steps sink es) := by
  induction es generalizing n r with
  | nil => exact h
  | cons e es ih =>
      have hs := ih (h.change (change_step sink r e))
      rwa [Nat.add_assoc, Nat.add_comm (ite _ _ _), ← List.countP_cons] at hs

theorem InStep.steps {r' : Recorder τ} (h : InStep r r') (sink' : Sink τ) :
    InStep (r.steps sink es) (r'.steps sink' es) := by
  induction es generalizing r r' with
  | nil => exact h
  | cons e es ih => exact ih (h.step sink sink' e)

theorem abandoned_steps (ha : r.abandoned = false) (hn : .abandon ∉ es) : (r.steps sink es).abandoned = false := by
  induction es generalizing r with
  | nil => exact ha
  | cons e es ih =>
      simp only [List.mem_cons, not_or] at hn
      refine ih (Bool.eq_false_iff.mpr fun h => ?_) hn.2
      rcases (change_step sink r e).abandoned h with h | h
      · cases ha.symm.trans h
      · exact hn.1 h.symm

theorem accepted_prefix_steps (r : Recorder σ) : r.accepted <+: (r.steps sink es).accepted := by
  induction es generalizing r with
  | nil => exact List.prefix_refl _
  | cons e es ih => exact (change_step sink r e).accepted_isPrefix.trans (ih (r.step sink e))

end

theorem balanced_new (capacity : Int) (state : σ) : Balanced 0 (new capacity state) :=
  ⟨rfl, rfl, rfl, fun h => by cases h⟩

theorem inStep_new (capacity : Int) (state : σ) (state' : τ) : InStep (new capacity state) (new capacity state') := by
  constructor <;> rfl

def sampleRun (id source : Text) (timestamp : Instant) : RunRecord := ⟨id, timestamp, source, [], [], 1, [], [], [], 0⟩

/-- A record finds no room, one is refused by the sink, and the last batch comes with the end of the queue. -/
def closing : List RecorderEvent :=
  [.record (sampleRun "a" "api" 1), .fetch .ready, .record (sampleRun "b" "cli" 2), .record (sampleRun "c" "cli" 3),
    .more, .close, .more, .write, .write, .tidy, .record (sampleRun "d" "cli" 4)]

end Recorder

end Abacus
