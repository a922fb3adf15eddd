import Abacus.Expr.Eval

/-!
# Arithmetic trees

A tree in which no operand is missing and every operator is one of the four can go wrong in two ways only when it is
evaluated. Both evaluating and showing it need no more open calls than the tree is high.
-/

namespace Abacus

def arithmeticOperators : List Operator := [.add, .sub, .mul, .div]

namespace Expr

/-- No operand is missing, and every operator is an arithmetic one. -/
inductive Arithmetic : Expr → Prop
  | number (x : Float) : Arithmetic (.number x)
  | named (name : Text) : Arithmetic (.variable name)
  | binary {op : Operator} {l r : Expr} (known : op ∈ arithmeticOperators) (left : Arithmetic l)
      (right : Arithmetic r) : Arithmetic (.binary op l r)

/-! ## Faults of evaluation -/

theorem apply_error {op : Operator} (h : op ∈ arithmeticOperators) {x y : Float} {f : Fault}
    (he : op.apply x y = .error f) : f = .divisionByZero := by
  simp only [arithmeticOperators, List.mem_cons, List.not_mem_nil, or_false] at h
  unfold Operator.apply at he
  rcases h with rfl | rfl | rfl | rfl
  · cases he
  · cases he
  · cases he
  · change (if y == 0.0 then _ else _) = _ at he
    split at he
    · cases he; rfl
    · cases he

theorem Arithmetic.eval_error {e : Expr} (h : e.Arithmetic) {env : Environment} {f : Fault}
    (he : e.eval env = .error f) : f = .divisionByZero ∨ ∃ n, env.get? n = none ∧ f = .undefinedVariable n := by
  induction h with
  | number x => cases he
  | named name =>
      simp only [eval] at he
      split at he
      · cases he
      · rename_i hn
        cases he
        exact .inr ⟨name, hn, rfl⟩
  | @binary op l r known _ _ ihl ihr =>
      cases hl : l.eval env with
      | error g =>
          simp only [eval, hl, bind, Except.bind, Except.error.injEq] at he
          exact ihl (he ▸ hl)
      | ok x =>
          cases hr : r.eval env with
          | error g =>
              simp only [eval, hl, hr, bind, Except.bind, Except.error.injEq] at he
              exact ihr (he ▸ hr)
          | ok y =>
              simp only [eval, hl, hr, bind, Except.bind] at he
              exact .inl (apply_error known he)

/-! ## Open calls -/

/-- The value of a tree, if it can be had with at most `calls` calls open at a time. -/
def evalWithin (env : Environment) : Nat → Expr → Option (Except Fault Float)
  | 0, _ => none
  | _ + 1, .number x => some (.ok x)
  | _ + 1, .variable name =>
    match env.get? name with
    | some x => some (.ok x)
    | none => some (.error (.undefinedVariable name))
  | calls + 1, .binary op l r => do
    match ← evalWithin env calls l with
    | .error f => return .error f
    | .ok x =>
      match ← evalWithin env calls r with
      | .error f => return .error f
      | .ok y => return op.apply x y
  | _ + 1, .hole => some (.error .emptyExpression)

/-- The text of a tree, if it can be had with at most `calls` calls open at a time. -/
def renderWithin : Nat → Expr → Option Text
  | 0, _ => none
  | _ + 1, .number x => some (showValue x)
  | _ + 1, .variable name => some name
  | calls + 1, .binary op l r => do
    let left ← renderWithin calls l
    let right ← renderWithin calls r
    return (40 :: left) ++ (32 :: op.text) ++ (32 :: right) ++ [41]
  | _ + 1, .hole => some "<nil>"

theorem depth_binary_le {op : Operator} {l r : Expr} {calls : Nat} (h : (binary op l r).depth ≤ calls) :
    ∃ n, calls = n + 1 ∧ l.depth ≤ n ∧ r.depth ≤ n := by
  simp only [depth] at h
  exact ⟨calls - 1, by omega, by omega, by omega⟩

theorem Arithmetic.evalWithin_eq {e : Expr} (h : e.Arithmetic) (env : Environment) {calls : Nat}
    (hd : e.depth ≤ calls) : evalWithin env calls e = some (e.eval env) := by
  induction h generalizing calls with
  | number x =>
      obtain ⟨n, rfl⟩ := Nat.exists_eq_add_of_le' hd
      rfl
  | named name =>
      obtain ⟨n, rfl⟩ := Nat.exists_eq_add_of_le' hd
      simp only [depth, evalWithin, eval]
      cases env.get? name <;> rfl
  | @binary op l r _ _ _ ihl ihr =>
      obtain ⟨n, rfl, hl, hr⟩ := depth_binary_le hd
      simp only [evalWithin, ihl hl, ihr hr, eval]
      cases l.eval env <;> cases r.eval env <;> rfl

theorem Arithmetic.renderWithin_eq {e : Expr} (h : e.Arithmetic) {calls : Nat} (hd : e.depth ≤ calls) :
    renderWithin calls e = some e.render := by
  induction h generalizing calls with
  | number x =>
      obtain ⟨n, rfl⟩ := Nat.exists_eq_add_of_le' hd
      rfl
  | named name =>
      obtain ⟨n, rfl⟩ := Nat.exists_eq_add_of_le' hd
      rfl
  | @binary op l r _ _ _ ihl ihr =>
      obtain ⟨n, rfl, hl, hr⟩ := depth_binary_le hd
      simp only [renderWithin, ihl hl, ihr hr, render]
      rfl

end Expr

end Abacus
