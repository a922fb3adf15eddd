import Abacus.Proofs.Environment
import Abacus.Run

/-!
# What a run reports

The outcomes of a run account for all of it: there is one for each statement that was completed, in order; the
environment at any moment is the one that the outcomes so far build; and the run stops at the first statement
that is found interrupted or faults, which leaves no trace in the variables.
-/

namespace Abacus

/-- The value of a statement's expression in an environment. -/
def valueOf (limit : Nat) (env : Environment) (text : Text) : Except Fault Float := do
  let e ← parse (tokenize (Statement.ofText text).expression) limit
  e.eval env

namespace Outcome

def assign (env : Environment) (o : Outcome) : Environment :=
  match o.name with
  | some n => env.set n o.value
  | none => env

def lastValue? (os : List Outcome) (n : Text) : Option Float :=
  (os.findRev? fun o => o.name = some n).map Outcome.value

end Outcome

def Environment.ofOutcomes (os : List Outcome) : Environment := os.foldl Outcome.assign .empty

/-! ## The environment of some outcomes -/

theorem nodup_names_assign {env : Environment} (h : env.names.Nodup) (o : Outcome) :
    (o.assign env).names.Nodup := by
  unfold Outcome.assign
  split
  · exact Environment.nodup_names_set h _ _
  · exact h

theorem eraseDups_eq_self {ns : List Text} (h : ns.Nodup) : ns.eraseDups = ns := by
  induction ns with
  | nil => rfl
  | cons n ns ih =>
      obtain ⟨hn, hns⟩ := List.nodup_cons.mp h
      have hf : ns.filter (fun m => !m == n) = ns := by
        refine List.filter_eq_self.mpr fun m hm => ?_
        simp only [Bool.not_eq_eq_eq_not, Bool.not_true, beq_eq_false_iff_ne]
        exact fun he => hn (he ▸ hm)
      rw [List.eraseDups_cons, hf, ih hns]

theorem eraseDups_append_cons_of_mem {n : Text} {ns ms : List Text} (h : n ∈ ns) :
    (ns ++ n :: ms).eraseDups = (ns ++ ms).eraseDups := by
  have hr : (n :: ms).removeAll ns = ms.removeAll ns := by
    simp [List.removeAll, h]
  rw [List.eraseDups_append, List.eraseDups_append, hr]

theorem names_foldl_assign {env : Environment} (h : env.names.Nodup) (os : List Outcome) :
    (os.foldl Outcome.assign env).names = (env.names ++ os.filterMap Outcome.name).eraseDups := by
  induction os generalizing env with
  | nil => rw [List.foldl_nil, List.filterMap_nil, List.append_nil, eraseDups_eq_self h]
  | cons o os ih =>
      rw [List.foldl_cons, ih (nodup_names_assign h o)]
      unfold Outcome.assign
      cases ho : o.name with
      | none => simp [ho]
      | some n =>
          simp only [Environment.names_set, List.filterMap_cons, ho]
          split
          · rename_i hm
            rw [eraseDups_append_cons_of_mem hm]
          · rw [List.append_assoc, List.singleton_append]

theorem nodup_names_foldl_assign {env : Environment} (h : env.names.Nodup) (os : List Outcome) :
    (os.foldl Outcome.assign env).names.Nodup := by
  induction os generalizing env with
  | nil => exact h
  | cons o os ih => exact ih (nodup_names_assign h o)

theorem lastValue?_cons (o : Outcome) (os : List Outcome) (n : Text) :
    Outcome.lastValue? (o :: os) n =
      (Outcome.lastValue? os n).or (if o.name = some n then some o.value else none) := by
  simp only [Outcome.lastValue?, List.findRev?]
  cases os.findRev? fun o => o.name = some n with
  | some o' => rfl
  | none => by_cases hn : o.name = some n <;> simp [hn]

theorem get?_foldl_assign (env : Environment) (os : List Outcome) (n : Text) :
    (os.foldl Outcome.assign env).get? n = (Outcome.lastValue? os n).or (env.get? n) := by
  induction os generalizing env with
  | nil => rfl
  | cons o os ih =>
      rw [List.foldl_cons, ih, lastValue?_cons, Option.or_assoc]
      congr 1
      unfold Outcome.assign
      cases ho : o.name with
      | none => simp
      | some m =>
          by_cases hm : n = m
          · simp [hm]
          · simp [hm, Ne.symm hm]

/-! ## One statement -/

theorem valueOf_eq_ok {limit : Nat} {env : Environment} {s : Text} {x : Float} (h : valueOf limit env s = .ok x) :
    ∃ e, parse (tokenize (Statement.ofText s).expression) limit = .ok e := by
  unfold valueOf at h
  cases hp : parse (tokenize (Statement.ofText s).expression) limit with
  | error f =>
      rw [hp] at h
      cases h
  | ok e => exact ⟨e, rfl⟩

theorem runStatement_eq (limit : Nat) (env : Environment) (index : Nat) (text : Text) :
    (runStatement limit env index text).1 =
      (valueOf limit env text).map fun x =>
        let o : Outcome := ⟨index, text, (Statement.ofText text).target, x⟩
        (o, o.assign env) := by
  cases hp : parse (tokenize (Statement.ofText text).expression) limit with
  | error f => simp [runStatement, valueOf, hp, bind, Except.bind, Except.map]
  | ok e =>
      cases hv : e.eval env with
      | error f => simp [runStatement, valueOf, hp, hv, bind, Except.bind, Except.map]
      | ok x =>
          cases ht : (Statement.ofText text).target <;>
            simp [runStatement, valueOf, hp, hv, ht, bind, Except.bind, Except.map, Outcome.assign]

/-! ## All statements -/

section
variable (limit : Nat) (interrupted : Nat → Option Interruption)

/-- One step of a run: interrupted, stopped by a fault, or a completed statement and the rest. -/
theorem runStatements_cons (env : Environment) (index : Nat) (text : Text) (rest : List Text) :
    (∃ why, interrupted index = some why ∧
      runStatements limit interrupted env index (text :: rest) = ⟨env, [], some why.problem, .empty⟩) ∨
    (∃ f j, interrupted index = none ∧ valueOf limit env text = .error f ∧
      runStatements limit interrupted env index (text :: rest) = ⟨env, [], some (located f index text), j⟩) ∨
    (∃ (o : Outcome) (j : Journal), interrupted index = none ∧ valueOf limit env text = .ok o.value ∧
      o.index = index ∧ o.statement = text ∧ o.name = (Statement.ofText text).target ∧
      runStatements limit interrupted env index (text :: rest) =
        let p := runStatements limit interrupted (o.assign env) (index + 1) rest
        { p with outcomes := o :: p.outcomes, journal := j ++ p.journal }) := by
  cases hc : interrupted index with
  | some why => exact .inl ⟨why, rfl, by simp [runStatements, hc]⟩
  | none =>
      have hs := runStatement_eq limit env index text
      rcases hr : runStatement limit env index text with ⟨r, j⟩
      rw [hr] at hs
      cases hv : valueOf limit env text with
      | error f =>
          rw [hv] at hs
          cases hs
          exact .inr (.inl ⟨f, j, rfl, rfl, by simp [runStatements, hc, hr]⟩)
      | ok x =>
          rw [hv] at hs
          cases hs
          exact .inr (.inr ⟨⟨index, text, _, x⟩, j, rfl, rfl, rfl, rfl, rfl, by simp [runStatements, hc, hr]⟩)

theorem environment_runStatements (env : Environment) (index : Nat) (stmts : List Text) :
    (runStatements limit interrupted env index stmts).environment =
      (runStatements limit interrupted env index stmts).outcomes.foldl Outcome.assign env := by
  induction stmts generalizing env index with
  | nil => rfl
  | cons text rest ih =>
      rcases runStatements_cons limit interrupted env index text rest with
        ⟨_, _, he⟩ | ⟨f, j, _, _, he⟩ | ⟨o, j, _, _, _, _, _, he⟩
      · rw [he]; rfl
      · rw [he]; rfl
      · rw [he]; exact ih (o.assign env) (index + 1)

theorem outcome_runStatements (env : Environment) (index : Nat) (stmts : List Text) {n : Nat} {o : Outcome}
    (h : (runStatements limit interrupted env index stmts).outcomes[n]? = some o) :
    interrupted (index + n) = none ∧ o.index = index + n ∧ stmts[n]? = some o.statement ∧
      o.name = (Statement.ofText o.statement).target ∧
      valueOf limit (((runStatements limit interrupted env index stmts).outcomes.take n).foldl Outcome.assign env)
        o.statement = .ok o.value := by
  induction stmts generalizing env index n with
  | nil => cases h
  | cons text rest ih =>
      rcases runStatements_cons limit interrupted env index text rest with
        ⟨_, _, he⟩ | ⟨f, j, _, _, he⟩ | ⟨o', j, hc, hv, hi, rfl, hn, he⟩
      · rw [he] at h; cases h
      · rw [he] at h; cases h
      · rw [he] at h ⊢
        cases n with
        | zero =>
            cases h
            exact ⟨hc, hi, rfl, hn, hv⟩
        | succ n =>
            obtain ⟨hc, hi, hs, hn, hv⟩ := ih (o'.assign env) (index + 1) h
            rw [Nat.add_right_comm] at hc hi
            exact ⟨hc, hi, hs, hn, hv⟩

/-- A run ends after its last statement, at one before which it is found interrupted, or at one that faults. -/
theorem problem_runStatements (env : Environment) (index : Nat) (stmts : List Text) :
    let p := runStatements limit interrupted env index stmts
    (p.problem = none ∧ p.outcomes.length = stmts.length) ∨
    (∃ text why, stmts[p.outcomes.length]? = some text ∧ interrupted (index + p.outcomes.length) = some why ∧
      p.problem = some why.problem) ∨
    (∃ text f, stmts[p.outcomes.length]? = some text ∧ valueOf limit p.environment text = .error f ∧
      p.problem = some (located f (index + p.outcomes.length) text)) := by
  induction stmts generalizing env index with
  | nil => exact .inl ⟨rfl, rfl⟩
  | cons text rest ih =>
      rcases runStatements_cons limit interrupted env index text rest with
        ⟨why, hc, he⟩ | ⟨f, j, _, hv, he⟩ | ⟨o, j, _, _, _, _, _, he⟩
      · rw [he]
        exact .inr (.inl ⟨text, why, rfl, hc, rfl⟩)
      · rw [he]
        exact .inr (.inr ⟨text, f, rfl, hv, rfl⟩)
      · rw [he]
        have ih := ih (o.assign env) (index + 1)
        simp only [List.length_cons, List.getElem?_cons_succ, Nat.add_right_cancel_iff] at ih ⊢
        rwa [Nat.add_right_comm, Nat.add_assoc] at ih

end

theorem located_context (f : Fault) (index : Nat) (text : Text) :
    ∃ g, located f index text = .fault g ∧ g.code = f.code ∧ g.message = f.message ∧
      g.context.find? Fault.statementKey = some (.int index) ∧ g.context.find? Fault.textKey = some (.text text) := by
  have hne : Fault.statementKey ≠ Fault.textKey := by decide
  exact ⟨_, rfl, rfl, rfl, by simp [hne], by simp⟩

theorem located_find? (f : Fault) (index : Nat) (text : Text) {key : Text} (hs : key ≠ Fault.statementKey)
    (ht : key ≠ Fault.textKey) :
    ((f.attach Fault.statementKey (.int index)).attach Fault.textKey (.text text)).context.find? key =
      f.context.find? key := by
  simp [hs, ht]

/-- The result of a run, taken apart: its outcomes are those of the first statements of the script, each with the
value it has after the outcomes before it; the variables are what the outcomes assign; and the run is incomplete
exactly where an interruption or a fault is reported; the one says why, the other tells the statement it was met at. -/
theorem execute_accounts_for_outcomes (i : Interpreter) (interrupted : Nat → Option Interruption) (runId : Text)
    (req : Interpreter.Request) :
    let stmts := splitStatements req.script
    let report := (i.execute interrupted runId req).1
    let res := report.result
    let k := res.outcomes.length
    report.problem = res.problem ∧
    k ≤ stmts.length ∧
    (∀ n o, res.outcomes[n]? = some o →
      o.index = n + 1 ∧ stmts[n]? = some o.statement ∧ o.name = (Statement.ofText o.statement).target ∧
        valueOf i.limit (.ofOutcomes (res.outcomes.take n)) o.statement = .ok o.value) ∧
    res.names = (res.outcomes.filterMap Outcome.name).eraseDups ∧ res.names.Nodup ∧
    (∀ name, (res.bindings.get? name).isSome = true ↔ name ∈ res.names) ∧
    (∀ name, res.bindings.get? name = Outcome.lastValue? res.outcomes name) ∧
    (∀ n, n < k → interrupted (n + 1) = none) ∧
    (res.problem = none ↔ k = stmts.length) ∧
    (res.problem = none ∨ (∃ why, res.problem = some why.problem ∧ interrupted (k + 1) = some why) ∨
      ∃ f g text, res.problem = some (.fault f) ∧ stmts[k]? = some text ∧
        valueOf i.limit res.bindings text = .error g ∧ f.code = g.code ∧ f.message = g.message ∧
        f.context.find? Fault.statementKey = some (.int (k + 1)) ∧
        f.context.find? Fault.textKey = some (.text text)) := by
  intro stmts report res k
  have henv : res.bindings = res.outcomes.foldl Outcome.assign .empty :=
    environment_runStatements i.limit interrupted .empty 1 stmts
  have hout (n : Nat) (o : Outcome) (ho : res.outcomes[n]? = some o) :=
    outcome_runStatements i.limit interrupted .empty 1 stmts ho
  have hend := problem_runStatements i.limit interrupted .empty 1 stmts
  have hk : (res.problem = none ∧ k = stmts.length) ∨ (res.problem ≠ none ∧ k < stmts.length) := by
    rcases hend with ⟨hp, hl⟩ | ⟨text, why, ht, _, hp⟩ | ⟨text, f, ht, _, hp⟩
    · exact .inl ⟨hp, hl⟩
    · exact .inr ⟨by simp [res, report, Interpreter.execute, stmts, hp], (List.getElem?_eq_some_iff.mp ht).1⟩
    · exact .inr ⟨by simp [res, report, Interpreter.execute, stmts, hp], (List.getElem?_eq_some_iff.mp ht).1⟩
  have hnames : res.names = (res.outcomes.filterMap Outcome.name).eraseDups := by
    simpa [Result.names, henv] using names_foldl_assign (by simp : Environment.empty.names.Nodup) res.outcomes
  refine ⟨rfl, ?_, ?_, hnames, ?_, fun n => Environment.isSome_get?_iff _ n, ?_, ?_, ?_, ?_⟩
  · omega
  · intro n o ho
    obtain ⟨_, hi, hs, hn, hv⟩ := hout n o ho
    exact ⟨by omega, hs, hn, hv⟩
  · rw [Result.names, henv]
    exact nodup_names_foldl_assign (by simp) _
  · intro n
    rw [henv, get?_foldl_assign]
    simp
  · intro n hn
    obtain ⟨hc, _⟩ := hout n _ (List.getElem?_eq_getElem hn)
    rwa [Nat.add_comm] at hc
  · rcases hk with ⟨hp, hl⟩ | ⟨hp, hl⟩
    · exact iff_of_true hp hl
    · exact iff_of_false hp (by omega)
  · rcases hend with ⟨hp, _⟩ | ⟨text, why, _, hc, hp⟩ | ⟨text, f, ht, hv, hp⟩
    · exact .inl hp
    · rw [Nat.add_comm] at hc
      exact .inr (.inl ⟨why, hp, hc⟩)
    · obtain ⟨g, hg, hcode, hmessage, hs, htext⟩ := located_context f (1 + k) text
      refine .inr (.inr ⟨g, f, text, hp.trans (congrArg some hg), ht, hv, hcode, hmessage, ?_, htext⟩)
      rw [hs, Nat.add_comm]
      rfl

end Abacus
