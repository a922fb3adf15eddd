import Abacus.Proofs.Parser.Returns
import Abacus.Proofs.Run.Outcomes

/-!
# What can stop a run

The trees of the parser are arithmetic, so evaluating them meets an undefined variable or a division by zero and
nothing else. A run that is not interrupted is therefore stopped by one of four kinds of fault, and by the context of
the fault one can tell the statement, the line and the variable.
-/

namespace Abacus

/-! ## One statement -/

/-- What a statement can fault with in an environment. -/
inductive StatementFault (env : Environment) : Fault → Prop
  | parse {f : Fault} (reported : Parser.Reported f) : StatementFault env f
  | undefined {n : Text} (unbound : env.get? n = none) : StatementFault env (.undefinedVariable n)
  | division : StatementFault env .divisionByZero

/-- A statement faults where its expression is read or where it is evaluated. -/
theorem valueOf_error_cases {limit : Nat} {env : Environment} {text : Text} {f : Fault}
    (h : valueOf limit env text = .error f) :
    parse (tokenize (Statement.ofText text).expression) limit = .error f ∨ f = .divisionByZero ∨
      ∃ n, env.get? n = none ∧ f = .undefinedVariable n := by
  have hr : Parser.Returns .expression limit (parse (tokenize (Statement.ofText text).expression) limit) :=
    Parser.parse_returns (Parser.start (tokenize (Statement.ofText text).expression) limit)
  unfold valueOf at h
  cases hp : parse (tokenize (Statement.ofText text).expression) limit with
  | error g =>
      rw [hp] at h
      cases h
      exact .inl rfl
  | ok e =>
      rw [hp] at h hr
      cases hr with
      | tree arithmetic _ => exact .inr (arithmetic.eval_error h)

theorem valueOf_error {limit : Nat} {env : Environment} {text : Text} {f : Fault}
    (h : valueOf limit env text = .error f) : StatementFault env f := by
  rcases valueOf_error_cases h with hp | rfl | ⟨n, hn, rfl⟩
  · have hr : Parser.Returns .expression limit (parse (tokenize (Statement.ofText text).expression) limit) :=
      Parser.parse_returns (Parser.start (tokenize (Statement.ofText text).expression) limit)
    rw [hp] at hr
    cases hr with
    | fault reported => exact .parse reported
  · exact .division
  · exact .undefined hn

theorem StatementFault.code {env : Environment} {f : Fault} (h : StatementFault env f) :
    f.code = .lexical ∨ f.code = .syntactic ∨ f.code = .undefinedVariable ∨ f.code = .divisionByZero := by
  cases h with
  | parse reported =>
      rcases reported.code with hc | hc
      · exact .inl hc
      · exact .inr (.inl hc)
  | undefined _ => exact .inr (.inr (.inl rfl))
  | division => exact .inr (.inr (.inr rfl))

theorem StatementFault.line {env : Environment} {f : Fault} (h : StatementFault env f)
    (hc : f.code = .lexical ∨ f.code = .syntactic) :
    ∃ line : Int, f.context.find? Fault.lineKey = some (.int line) := by
  cases h with
  | parse reported => exact reported.line
  | undefined _ => rcases hc with hc | hc <;> cases hc
  | division => rcases hc with hc | hc <;> cases hc

theorem StatementFault.unbound {env : Environment} {f : Fault} (h : StatementFault env f)
    (hc : f.code = .undefinedVariable) :
    ∃ n, f.context.find? Fault.variableKey = some (.text n) ∧ n ∉ env.names := by
  cases h with
  | parse reported => rcases reported.code with hr | hr <;> cases hr.symm.trans hc
  | @undefined n unbound =>
      refine ⟨n, by simp [Fault.undefinedVariable], fun hm => ?_⟩
      have hs := (Environment.isSome_get?_iff env n).mpr hm
      rw [unbound] at hs
      cases hs
  | division => cases hc

/-! ## Runs -/

/-- The faults are closed. Evaluating what the parser returns never meets a missing operand or an unknown operator, and
a run that is not interrupted succeeds or is stopped by a fault of four codes. The fault names the statement and its
text; where reading failed, the line; and where a variable was not defined, a name that the result does not have. -/
theorem execute_stopped_by_known_fault (i : Interpreter) (runId : Text) (req : Interpreter.Request) :
    (∀ (p : Parser) (e : Expr), p.parse.1 = .ok e →
      e.Arithmetic ∧ ∀ env f, e.eval env = .error f → f.code ≠ .internal ∧ f.code ≠ .unknownOperator) ∧
    let report := (i.execute (always none) runId req).1
    let k := report.result.outcomes.length
    report.problem = report.result.problem ∧
    (report.problem = none ∨
      ∃ f, report.problem = some (.fault f) ∧
        (f.code = .lexical ∨ f.code = .syntactic ∨ f.code = .undefinedVariable ∨ f.code = .divisionByZero) ∧
        (∃ text, (splitStatements req.script)[k]? = some text ∧
          f.context.find? Fault.statementKey = some (.int (k + 1)) ∧
          f.context.find? Fault.textKey = some (.text text)) ∧
        (f.code = .lexical ∨ f.code = .syntactic → ∃ line : Int, f.context.find? Fault.lineKey = some (.int line)) ∧
        (f.code = .undefinedVariable →
          ∃ n, f.context.find? Fault.variableKey = some (.text n) ∧ n ∉ report.result.names)) := by
  refine ⟨?_, rfl, ?_⟩
  · intro p e he
    obtain ⟨ha, _⟩ := Parser.arithmetic_of_parse he
    refine ⟨ha, fun env f hf => ?_⟩
    rcases ha.eval_error hf with rfl | ⟨n, _, rfl⟩
    · exact ⟨nofun, nofun⟩
    · exact ⟨nofun, nofun⟩
  · rcases problem_runStatements i.limit (always none) .empty 1 (splitStatements req.script) with
      ⟨hp, _⟩ | ⟨_, _, _, hc, _⟩ | ⟨text, f, ht, hv, hp⟩
    · exact .inl hp
    · cases hc
    · have hf := valueOf_error hv
      refine .inr ⟨_, hp, hf.code, ⟨text, ht, ?_, by simp⟩, fun hc => ?_, fun hc => ?_⟩
      · have hne : Fault.statementKey ≠ Fault.textKey := by decide
        simp only [Fault.attach_context, Context.find?_insert, hne, ↓reduceIte, Option.some.injEq, Detail.int.injEq]
        simp only [Interpreter.execute]
        omega
      · rw [located_find? f _ text (by decide) (by decide)]
        exact hf.line hc
      · rw [located_find? f _ text (by decide) (by decide)]
        exact hf.unbound hc

end Abacus
