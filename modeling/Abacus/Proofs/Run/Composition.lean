import Abacus.Proofs.Run.Outcomes
import Abacus.Proofs.Statement

/-!
# Running one script after another

A run goes on from its environment and its place in the script, and from nothing else. So the statements of
two scripts run one after the other: where the first script is stopped the second is not reached, and otherwise
it goes on with the variables of the first, its statements counted from there.
-/

namespace Abacus

theorem Journal.append_assoc (a b c : Journal) : a ++ b ++ c = a ++ (b ++ c) := by
  show (a.append b).append c = a.append (b.append c)
  simp only [append, List.append_assoc, Option.or_assoc]

theorem Journal.empty_append (j : Journal) : empty ++ j = j := by
  show empty.append j = j
  simp only [append, empty, List.nil_append, Option.or_none]

theorem Journal.append_empty (j : Journal) : j ++ empty = j := by
  show j.append empty = j
  simp only [append, empty, List.append_nil, Option.none_or]

/-! ## Progress and what follows it -/

/-- Goes on from the environment that was reached, unless something stopped the statements before. -/
def Progress.andThen (p : Progress) (next : Environment → Progress) : Progress :=
  match p.problem with
  | some _ => p
  | none =>
    let q := next p.environment
    { q with outcomes := p.outcomes ++ q.outcomes, journal := p.journal ++ q.journal }

theorem Progress.andThen_of_problem {p : Progress} {problem : Problem} (h : p.problem = some problem)
    (next : Environment → Progress) : p.andThen next = p := by
  simp only [andThen, h]

theorem Progress.andThen_of_none {p : Progress} (h : p.problem = none) (next : Environment → Progress) :
    p.andThen next =
      { next p.environment with
        outcomes := p.outcomes ++ (next p.environment).outcomes
        journal := p.journal ++ (next p.environment).journal } := by
  simp only [andThen, h]

theorem Progress.andThen_cons (o : Outcome) (j : Journal) (p : Progress) (next : Environment → Progress) :
    { p with outcomes := o :: p.outcomes, journal := j ++ p.journal : Progress }.andThen next =
      let q := p.andThen next
      { q with outcomes := o :: q.outcomes, journal := j ++ q.journal } := by
  unfold andThen
  cases h : p.problem with
  | some _ => simp only [h]
  | none => simp only [List.cons_append, Journal.append_assoc]

theorem runStatements_append (limit : Nat) (interrupted : Nat → Option Interruption) (env : Environment) (index : Nat)
    (xs ys : List Text) :
    runStatements limit interrupted env index (xs ++ ys) =
      (runStatements limit interrupted env index xs).andThen fun env =>
        runStatements limit interrupted env (index + xs.length) ys := by
  induction xs generalizing env index with
  | nil => simp only [List.nil_append, runStatements, Progress.andThen, Journal.empty_append, List.length_nil, Nat.add_zero]
  | cons text rest ih =>
      simp only [List.cons_append, runStatements, List.length_cons]
      split
      · rfl
      · rcases runStatement limit env index text with ⟨f | ⟨o, env'⟩, j⟩
        · rfl
        · simp only [ih, Nat.add_assoc, Nat.add_comm 1]
          exact (Progress.andThen_cons o j _ _).symm

/-! ## Counting from another place -/

def Outcome.shift (n : Nat) (o : Outcome) : Outcome := { o with index := n + o.index }

/-- The same statements came to the same, counted from `n` statements further on. -/
structure Progress.Shifted (n : Nat) (p q : Progress) : Prop where
  environment : q.environment = p.environment
  outcomes : q.outcomes = p.outcomes.map (Outcome.shift n)
  problem : (p.problem = none ∧ q.problem = none) ∨
    ∃ f k text, p.problem = some (located f k text) ∧ q.problem = some (located f (n + k) text)

section
variable {limit : Nat} {interrupted : Nat → Option Interruption} {env : Environment} {index : Nat} {text : Text}

theorem runStatements_of_error {f : Fault} (hc : interrupted index = none) (h : valueOf limit env text = .error f)
    (rest : List Text) :
    ∃ j, runStatements limit interrupted env index (text :: rest) = ⟨env, [], some (located f index text), j⟩ := by
  rcases runStatements_cons limit interrupted env index text rest with
    ⟨_, hc', _⟩ | ⟨g, j, _, hv, he⟩ | ⟨o, j, _, hv, _⟩
  · cases hc.symm.trans hc'
  · cases h.symm.trans hv
    exact ⟨j, he⟩
  · cases h.symm.trans hv

theorem runStatements_of_ok {x : Float} (hc : interrupted index = none) (h : valueOf limit env text = .ok x)
    (rest : List Text) :
    ∃ j, runStatements limit interrupted env index (text :: rest) =
      let o : Outcome := ⟨index, text, (Statement.ofText text).target, x⟩
      let p := runStatements limit interrupted (o.assign env) (index + 1) rest
      { p with outcomes := o :: p.outcomes, journal := j ++ p.journal } := by
  rcases runStatements_cons limit interrupted env index text rest with
    ⟨_, hc', _⟩ | ⟨f, j, _, hv, _⟩ | ⟨o, j, _, hv, hi, hs, hn, he⟩
  · cases hc.symm.trans hc'
  · cases h.symm.trans hv
  · obtain ⟨index', text', name, x'⟩ := o
    subst hi hs
    simp only at hn
    subst hn
    cases h.symm.trans hv
    exact ⟨j, he⟩

end

theorem runStatements_shift (limit : Nat) (env : Environment) (n index : Nat) (stmts : List Text) :
    Progress.Shifted n (runStatements limit (always none) env index stmts)
      (runStatements limit (always none) env (n + index) stmts) := by
  have hc (k : Nat) : always none k = none := rfl
  induction stmts generalizing env index with
  | nil => exact ⟨rfl, rfl, .inl ⟨rfl, rfl⟩⟩
  | cons text rest ih =>
      cases hv : valueOf limit env text with
      | error f =>
          obtain ⟨j, hp⟩ := runStatements_of_error (hc index) hv rest
          obtain ⟨j', hq⟩ := runStatements_of_error (hc (n + index)) hv rest
          rw [hp, hq]
          exact ⟨rfl, rfl, .inr ⟨f, index, text, rfl, rfl⟩⟩
      | ok x =>
          obtain ⟨j, hp⟩ := runStatements_of_ok (hc index) hv rest
          obtain ⟨j', hq⟩ := runStatements_of_ok (hc (n + index)) hv rest
          rw [hp, hq]
          have ih := ih (Outcome.assign env ⟨index, text, (Statement.ofText text).target, x⟩) (index + 1)
          exact ⟨ih.environment, congrArg (List.cons _) ih.outcomes, ih.problem⟩

/-! ## Whole scripts -/

section
variable {i : Interpreter} {interrupted : Nat → Option Interruption} {runId source a script : Text} {more : List Text}
  (hs : splitStatements script = splitStatements a ++ more)
include hs

theorem result_execute_of_problem {problem : Problem}
    (h : (i.execute interrupted runId ⟨source, a⟩).1.problem = some problem) (runId' source' : Text) :
    (i.execute interrupted runId' ⟨source', script⟩).1.result =
      { (i.execute interrupted runId ⟨source, a⟩).1.result with runId := runId' } := by
  have hrun := runStatements_append i.limit interrupted .empty 1 (splitStatements a) more
  rw [Progress.andThen_of_problem h] at hrun
  simp only [Interpreter.execute, hs, hrun]

theorem result_execute_of_none (h : (i.execute interrupted runId ⟨source, a⟩).1.problem = none) (runId' source' : Text) :
    (i.execute interrupted runId' ⟨source', script⟩).1.result =
      let r := (i.execute interrupted runId ⟨source, a⟩).1.result
      let p := runStatements i.limit interrupted r.bindings ((splitStatements a).length + 1) more
      ⟨runId', p.environment, r.outcomes ++ p.outcomes, p.problem⟩ := by
  have hrun := runStatements_append i.limit interrupted .empty 1 (splitStatements a) more
  rw [Progress.andThen_of_none h, Nat.add_comm 1] at hrun
  simp only [Interpreter.execute, hs, hrun]

end

section
variable {i : Interpreter} {interrupted : Nat → Option Interruption} {runId source a script s : Text}
  (hs : splitStatements script = splitStatements a ++ [s])
  (h : (i.execute interrupted runId ⟨source, a⟩).1.problem = none)
include hs h

theorem result_execute_of_ok (hc : interrupted ((splitStatements a).length + 1) = none) {x : Float}
    (hv : valueOf i.limit (i.execute interrupted runId ⟨source, a⟩).1.result.bindings s = .ok x)
    (runId' source' : Text) :
    (i.execute interrupted runId' ⟨source', script⟩).1.result =
      let r := (i.execute interrupted runId ⟨source, a⟩).1.result
      let o : Outcome := ⟨(splitStatements a).length + 1, s, (Statement.ofText s).target, x⟩
      ⟨runId', o.assign r.bindings, r.outcomes ++ [o], none⟩ := by
  obtain ⟨j, hj⟩ := runStatements_of_ok hc hv []
  rw [result_execute_of_none hs h]
  simp only [hj]
  rfl

theorem result_execute_of_error (hc : interrupted ((splitStatements a).length + 1) = none) {f : Fault}
    (hv : valueOf i.limit (i.execute interrupted runId ⟨source, a⟩).1.result.bindings s = .error f)
    (runId' source' : Text) :
    (i.execute interrupted runId' ⟨source', script⟩).1.result =
      let r := (i.execute interrupted runId ⟨source, a⟩).1.result
      ⟨runId', r.bindings, r.outcomes, some (located f ((splitStatements a).length + 1) s)⟩ := by
  obtain ⟨j, hj⟩ := runStatements_of_error hc hv []
  rw [result_execute_of_none hs h]
  simp only [hj, List.append_nil]

theorem result_execute_of_interrupted {why : Interruption}
    (hc : interrupted ((splitStatements a).length + 1) = some why) (runId' source' : Text) :
    (i.execute interrupted runId' ⟨source', script⟩).1.result =
      let r := (i.execute interrupted runId ⟨source, a⟩).1.result
      ⟨runId', r.bindings, r.outcomes, some why.problem⟩ := by
  rw [result_execute_of_none hs h]
  simp only [runStatements, hc, List.append_nil]

end

/-- Scripts compose: the statements of two scripts with a separator between them are the statements of the one and
then of the other, and a run of both stops where the first script is stopped, or goes on with the second one. -/
theorem execute_append (i : Interpreter) (runId runId' source source' : Text) (a b : Text) (c : Separator) :
    splitStatements (a ++ c.byte :: b) = splitStatements a ++ splitStatements b ∧
    splitStatements (Text.join [c.byte] (splitStatements a)) = splitStatements a ∧
    let first := (i.execute (always none) runId ⟨source, a⟩).1
    let both := (i.execute (always none) runId' ⟨source', a ++ c.byte :: b⟩).1
    let next := runStatements i.limit (always none) first.result.bindings 1 (splitStatements b)
    let n := (splitStatements a).length
    (first.problem ≠ none →
      both.result.names = first.result.names ∧ both.result.bindings = first.result.bindings ∧
        both.result.outcomes = first.result.outcomes ∧ both.result.problem = first.result.problem ∧
        both.problem = first.problem) ∧
    (first.problem = none →
      both.result.outcomes = first.result.outcomes ++ next.outcomes.map (Outcome.shift n) ∧
        both.result.names = next.environment.names ∧ both.result.bindings = next.environment ∧
        both.problem = both.result.problem ∧
        ((next.problem = none ∧ both.problem = none) ∨
          ∃ f k text, next.problem = some (located f k text) ∧ both.problem = some (located f (n + k) text))) := by
  have hsplit := splitStatements_append a b c
  have hrun := runStatements_append i.limit (always none) .empty 1 (splitStatements a) (splitStatements b)
  rw [← hsplit] at hrun
  refine ⟨hsplit, splitStatements_join c fun s hs => isStatement_of_mem hs, fun hp => ?_, fun hp => ?_⟩
  · obtain ⟨problem, hp⟩ := Option.ne_none_iff_exists'.mp hp
    rw [Progress.andThen_of_problem hp] at hrun
    simp only [Interpreter.execute, Result.names, hrun, and_self]
  · rw [Progress.andThen_of_none hp, Nat.add_comm] at hrun
    have hs := runStatements_shift i.limit (i.execute (always none) runId ⟨source, a⟩).1.result.bindings
      (splitStatements a).length 1 (splitStatements b)
    simp only [Interpreter.execute, Result.names] at hs ⊢
    rw [hrun]
    exact ⟨congrArg _ hs.outcomes, congrArg _ hs.environment, hs.environment, trivial, hs.problem⟩

end Abacus
