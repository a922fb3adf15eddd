import Abacus.History.Store
import Abacus.Log
import Abacus.Queue
import Abacus.Run

/-!
# Recording runs

A recorder takes records without waiting and hands them on to a sink in the background, a batch at a time. It is a
machine of small steps, so that every interleaving of callers and worker is a list of events: a record comes in, the
recorder is closed, the worker fetches the first record of a batch, takes one more, writes one, or tidies up. An event
that cannot happen now changes nothing.
-/

namespace Abacus

/-- Where records go. `tidy` follows each batch. -/
structure Sink (σ : Type) where
  save : RunRecord → σ → Except Text σ
  tidy : σ → Except Text σ

structure Recorder (σ : Type) where
  queue : Queue RunRecord
  /-- The records fetched and not yet written. -/
  batch : List RunRecord
  /-- The worker still takes records into its batch. -/
  gathering : Bool
  /-- A batch has been written whose tidying is still due. -/
  untidy : Bool
  /-- The worker fetches no more. -/
  leaving : Bool
  /-- A caller stopped waiting for the recorder to close. -/
  abandoned : Bool
  state : σ
  /-- The records that were let in, in order. -/
  accepted : List RunRecord
  /-- The records handed to the sink, in order. -/
  handed : List RunRecord
  /-- What became of each record, in order. -/
  results : List WriteResult
  log : List LogRecord

/-- One step of a recorder. -/
inductive RecorderEvent where
  | record (r : RunRecord)
  | close
  | abandon
  | fetch (wake : Wake)
  | more
  | write
  | tidy

namespace Recorder

variable {σ : Type}

def defaultCapacity : Nat := 256

def batchSize : Int := 16

/-- A capacity that is not positive stands for the default. -/
def new (capacity : Int) (state : σ) : Recorder σ where
  queue := Queue.new (if capacity ≤ 0 then defaultCapacity else capacity)
  batch := []
  gathering := false
  untidy := false
  leaving := false
  abandoned := false
  state
  accepted := []
  handed := []
  results := []
  log := []

def done (r : Recorder σ) : Bool := r.leaving && r.batch.isEmpty && !r.untidy

def warn (message : Text) (values : List (Text × LogValue)) : LogRecord := ⟨.warn, message, values⟩

/-- Takes a record in, or counts it as dropped. -/
def record (r : Recorder σ) (run : RunRecord) : Recorder σ :=
  match r.queue.enqueue run with
  | (.accepted, queue) => { r with queue, accepted := r.accepted ++ [run] }
  | (.dropped, queue) =>
    { r with
      queue
      results := r.results ++ [.dropped]
      log := r.log ++ [warn "history buffer full, run not recorded" [("run_id", .text run.id)]] }

/-- The worker takes a record into its batch, or finds none. -/
def take (r : Recorder σ) : Recorder σ :=
  match r.queue.receive with
  | (.item run, queue) => { r with queue, batch := r.batch ++ [run], gathering := true, untidy := true }
  | (.drained, queue) => { r with queue, gathering := false, leaving := true }
  | (.nothing, queue) => { r with queue, gathering := false }

/-- The worker waits for the first record of a batch once the batch before is written. Its wait is cancelled only by
a caller that stopped waiting for it. -/
def fetch (r : Recorder σ) (wake : Wake) : Recorder σ :=
  if r.leaving || !r.batch.isEmpty || r.untidy then r
  else
    match wake with
    | .ready => r.take
    | .cancelled => { r with leaving := r.abandoned }
    | .timeout => r

/-- The worker takes a further record while its batch is not full. -/
def more (r : Recorder σ) : Recorder σ :=
  if !r.gathering then r
  else if r.batch.length < batchSize then r.take
  else { r with gathering := false }

/-- The worker hands the next record of its batch to the sink. A failure is counted and the next one follows. -/
def write (sink : Sink σ) (r : Recorder σ) : Recorder σ :=
  if r.gathering then r
  else
    match r.batch with
    | [] => r
    | run :: rest =>
      match sink.save run r.state with
      | .ok state =>
        { r with batch := rest, state, handed := r.handed ++ [run], results := r.results ++ [.ok] }
      | .error e =>
        { r with
          batch := rest
          handed := r.handed ++ [run]
          results := r.results ++ [.error]
          log := r.log ++ [warn "history write failed" [("run_id", .text run.id), ("error", .text e)]] }

/-- The worker tidies the sink after a batch. -/
def tidy (sink : Sink σ) (r : Recorder σ) : Recorder σ :=
  if r.untidy && r.batch.isEmpty then
    match sink.tidy r.state with
    | .ok state => { r with state, untidy := false }
    | .error e => { r with untidy := false, log := r.log ++ [warn "history prune failed" [("error", .text e)]] }
  else r

def step (sink : Sink σ) (r : Recorder σ) : RecorderEvent → Recorder σ
  | .record run => r.record run
  | .close => { r with queue := r.queue.close }
  | .abandon => { r with queue := r.queue.close, abandoned := true }
  | .fetch wake => r.fetch wake
  | .more => r.more
  | .write => r.write sink
  | .tidy => r.tidy sink

def steps (sink : Sink σ) (r : Recorder σ) (es : List RecorderEvent) : Recorder σ := es.foldl (step sink) r

/-- The worker's events for the rest of a batch of at most `n` records: fill it, write it record by record, tidy. -/
def batchEvents (n : Nat) : List RecorderEvent := List.replicate n .more ++ (List.replicate n .write ++ [.tidy])

/-- Lets the worker go on until nothing is left for it, at most `fuel` batches. -/
def drainFor (sink : Sink σ) : Nat → Recorder σ → Recorder σ
  | 0, r => r
  | fuel + 1, r =>
    let r := r.steps sink (batchEvents batchSize.toNat)
    if r.done || (r.queue.items.isEmpty && !r.queue.closed) then r
    else drainFor sink fuel (r.step sink (.fetch .ready))

def drain (sink : Sink σ) (r : Recorder σ) : Recorder σ := drainFor sink (r.queue.size + 2) r

/-- Closes a recorder and waits for its worker. -/
def finish (sink : Sink σ) (r : Recorder σ) : Recorder σ := (r.step sink .close).drain sink

def metrics (r : Recorder σ) : List Metric := r.results.map .historyWrites

end Recorder

/-! ## Records of runs -/

def RunRecord.ofReport (req : Interpreter.Request) (r : Interpreter.Report) (now : Instant) : RunRecord where
  id := r.result.runId
  timestamp := now
  source := req.source
  script := req.script
  status := statusWord r.result.problem.isNone
  statements := r.statements
  errorCode := (r.result.problem.map fun p => p.code.name).getD []
  errorMessage := (r.result.problem.map Problem.userMessage).getD []
  bindings := orderVariables r.result.bindings.entries
  duration := 0

/-- A store as a sink: it keeps the newest runs after each batch, if a number to keep is given. The id and the
instant that a record leaves unset come from `unset`. -/
def Sink.ofStoreWith (unset : RunRecord → Text × Instant) (keep : Int) : Sink Store where
  save r s := ((s.save none (unset r).1 (unset r).2 r).map Prod.snd).mapError HistoryError.message
  tidy s := ((s.prune none keep).map Prod.snd).mapError HistoryError.message

/-- A store as a sink for records of runs, which leave nothing unset. -/
def Sink.ofStore (keep : Int) : Sink Store := .ofStoreWith (fun _ => ([], 0)) keep

/-- A list of records as a sink, which refuses records from some sources. -/
def Sink.ofList (failing : List Text) : Sink (List RunRecord) where
  save r rs := if failing.contains r.source then .error "write failed" else .ok (rs ++ [r])
  tidy rs := .ok rs

end Abacus
