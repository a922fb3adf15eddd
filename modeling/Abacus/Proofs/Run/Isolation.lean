import Abacus.Run

/-!
# Runs are isolated

All that an interpreter takes from one step to the next is its variables and its limit. A run drops the variables
before its first statement, and only setting a limit changes the limit. So after any history a run reports what it
would report on a new interpreter with the limit that was set last.
-/

namespace Abacus.Interpreter

/-! ## Histories -/

/-- What can be asked of an interpreter. -/
inductive Step where
  | execute (interrupted : Nat → Option Interruption) (runId : Text) (req : Request)
  | tokens (source : Text)
  | setLimit (limit : Int)

/-- Listing tokens leaves the interpreter as it is. -/
def step (i : Interpreter) : Step → Interpreter
  | .execute interrupted runId req => (i.execute interrupted runId req).2
  | .tokens _ => i
  | .setLimit limit => i.setLimit limit

def after (i : Interpreter) (steps : List Step) : Interpreter := steps.foldl step i

theorem after_cons (i : Interpreter) (s : Step) (steps : List Step) :
    i.after (s :: steps) = (i.step s).after steps := rfl

/-- The limit that a step sets; one that is not positive sets none. -/
def Step.limit? : Step → Option Int
  | .setLimit limit => if 0 < limit then some limit else none
  | .execute _ _ _ => none
  | .tokens _ => none

/-- The last positive limit that was set, or the initial one. -/
def lastLimit (initial : Int) (steps : List Step) : Int := (steps.filterMap Step.limit?).getLast?.getD initial

/-! ## What a step keeps -/

theorem limit_setLimit (i : Interpreter) (limit : Int) :
    (i.setLimit limit).limit = if 0 < limit then limit.toNat else i.limit := by
  unfold setLimit
  split <;> rfl

theorem limit_new (limit : Int) : (new limit).limit = if 0 < limit then limit.toNat else Parser.defaultLimit := rfl

theorem limit_step (i : Interpreter) (s : Step) : (i.step s).limit = (s.limit?.map Int.toNat).getD i.limit := by
  cases s with
  | execute interrupted runId req => rfl
  | tokens source => rfl
  | setLimit limit =>
      simp only [step, limit_setLimit, Step.limit?]
      split <;> rfl

theorem pos_of_limit? {s : Step} {n : Int} (h : s.limit? = some n) : 0 < n := by
  cases s with
  | execute interrupted runId req => cases h
  | tokens source => cases h
  | setLimit limit =>
      simp only [Step.limit?, Option.ite_none_right_eq_some, Option.some.injEq] at h
      exact h.2 ▸ h.1

/-- After any history the limit is that of a new interpreter with the last limit. -/
theorem limit_after (i : Interpreter) (initial : Int) (h : i.limit = (new initial).limit) (steps : List Step) :
    (i.after steps).limit = (new (lastLimit initial steps)).limit := by
  induction steps generalizing i initial with
  | nil => exact h
  | cons s steps ih =>
      have hs := limit_step i s
      cases hl : s.limit? with
      | none =>
          rw [hl] at hs
          have ih := ih (i.step s) initial (hs.trans h)
          simpa only [after_cons, lastLimit, List.filterMap_cons, hl] using ih
      | some n =>
          rw [hl] at hs
          have hn : (new n).limit = n.toNat := by rw [limit_new, if_pos (pos_of_limit? hl)]
          have ih := ih (i.step s) n (hs.trans hn.symm)
          simpa only [after_cons, lastLimit, List.filterMap_cons, hl, List.getLast?_cons, Option.getD_some] using ih

/-! ## What a run depends on -/

theorem execute_eq_of_limit {i j : Interpreter} (h : i.limit = j.limit) (interrupted : Nat → Option Interruption)
    (runId : Text) (req : Request) : (i.execute interrupted runId req).1 = (j.execute interrupted runId req).1 := by
  simp only [execute, h]

/-- No run leaves anything for another one. Whatever an interpreter has run before, to its end, into a fault or
interrupted, a run and a listing of tokens come out as on a new interpreter with the last positive limit; nothing but
its own name tells the result of the one from the result of the other. -/
theorem execute_after_history (initial : Int) (before : List Step) (interrupted : Nat → Option Interruption)
    (runId runId' : Text) (req : Request) (source : Text) :
    let used := (new initial).after before
    let fresh := new (lastLimit initial before)
    let report := (used.execute interrupted runId req).1
    let report' := (fresh.execute interrupted runId' req).1
    report.result = { report'.result with runId := runId } ∧ report.problem = report'.problem ∧
      report.statements = report'.statements ∧ (runId = runId' → report = report') ∧
      used.tokens source = fresh.tokens source ∧ used.tokens source = (new initial).tokens source := by
  intro used fresh report report'
  have hl : used.limit = fresh.limit := limit_after (new initial) initial rfl before
  have hr : report = (fresh.execute interrupted runId req).1 := execute_eq_of_limit hl interrupted runId req
  refine ⟨by rw [hr]; rfl, by rw [hr]; rfl, by rw [hr]; rfl, ?_, rfl, rfl⟩
  rintro rfl
  exact hr

end Abacus.Interpreter
