import Abacus.Proofs.Expr.Arithmetic
import Abacus.Proofs.Run.Outcomes

/-!
# The order of evaluation

Evaluating a tree visits all of its nodes, operands before the operation and the left one first, until one of them is at
fault. So the fault is that of the first node at fault in this order, and where there is none the tree has a value. This
holds whatever the four operations compute.
-/

namespace Abacus

/-! ## Zeros -/

section
open Float.Model

theorem eq_of_toBits {x y : Float} (h : x.toBits.toNat = y.toBits.toNat) : x = y := by
  obtain ⟨bits, valid⟩ := x
  obtain ⟨bits', valid'⟩ := y
  cases UInt64.toNat_inj.mp h
  rfl

theorem toNat_of_fields {b : BitVec 64} (he : @UnpackedFloat.unpackExponent .binary64 b = 0#11)
    (hm : @UnpackedFloat.unpackMantissa .binary64 b = 0#52) : b.toNat = 0 ∨ b.toNat = 0x8000000000000000 := by
  have hlt : b.toNat < 2 ^ 64 := b.isLt
  have he := congrArg BitVec.toNat he
  have hm := congrArg BitVec.toNat hm
  simp [UnpackedFloat.unpackExponent, UnpackedFloat.unpackMantissa, Nat.shiftRight_eq_div_pow] at he hm
  omega

theorem toNat_of_unpack_zero {b : BitVec 64} {s : UnpackedFloat.Sign}
    (h : UnpackedFloat.unpack .binary64 b = .zero s) : b.toNat = 0 ∨ b.toNat = 0x8000000000000000 := by
  unfold UnpackedFloat.unpack at h
  dsimp only at h
  by_cases hi : @UnpackedFloat.unpackExponent .binary64 b = -1#11
  · rw [if_pos hi] at h
    by_cases hm : @UnpackedFloat.unpackMantissa .binary64 b = 0#52
    · rw [if_pos hm] at h
      cases h
    · rw [if_neg hm] at h
      cases h
  · rw [if_neg hi] at h
    by_cases he : @UnpackedFloat.unpackExponent .binary64 b = 0#11
    · rw [if_pos he] at h
      by_cases hm : @UnpackedFloat.unpackMantissa .binary64 b = 0#52
      · exact toNat_of_fields he hm
      · rw [dif_neg hm] at h
        cases h
    · rw [if_neg he] at h
      cases h

theorem unpack_of_beq_zero {x : Float} (h : (x == 0.0) = true) : ∃ s, x.toModel.unpack = .zero s := by
  have hz : (0.0 : Float).toModel.unpack = .zero .positive := rfl
  have hc : (x.toModel.unpack.compare (0.0 : Float).toModel.unpack == some .eq) = true := h
  rw [hz, beq_iff_eq] at hc
  cases hu : x.toModel.unpack with
  | zero s => exact ⟨s, rfl⟩
  | infinity s =>
      rw [hu] at hc
      cases s <;> cases hc
  | notANumber =>
      rw [hu] at hc
      cases hc
  | finite s m e _ =>
      rw [hu] at hc
      cases s <;> cases hc

/-- There are two zeros, and only they compare equal to zero. -/
theorem beq_zero_iff {x : Float} : (x == 0.0) = true ↔ x = 0.0 ∨ x = -0.0 := by
  constructor
  · intro h
    obtain ⟨s, hs⟩ := unpack_of_beq_zero h
    rcases toNat_of_unpack_zero hs with hn | hn
    · exact .inl (eq_of_toBits hn)
    · exact .inr (eq_of_toBits hn)
  · rintro (rfl | rfl) <;> rfl

end

/-! ## Interpretations -/

/-- What the four operations compute. -/
structure Operations where
  add : Float → Float → Float
  sub : Float → Float → Float
  mul : Float → Float → Float
  div : Float → Float → Float

namespace Operations

/-- The arithmetic of doubles. -/
def doubles : Operations := ⟨(· + ·), (· - ·), (· * ·), (· / ·)⟩

def apply (ops : Operations) (op : Operator) (x y : Float) : Except Fault Float :=
  if op = .add then .ok (ops.add x y)
  else if op = .sub then .ok (ops.sub x y)
  else if op = .mul then .ok (ops.mul x y)
  else if op = .div then if y == 0.0 then .error .divisionByZero else .ok (ops.div x y)
  else .error (.unknownOperator op)

theorem apply_div (ops : Operations) (x y : Float) :
    ops.apply .div x y = if y == 0.0 then .error .divisionByZero else .ok (ops.div x y) := rfl

theorem apply_unknown (ops : Operations) {op : Operator} (h : op ∉ arithmeticOperators) (x y : Float) :
    ops.apply op x y = .error (.unknownOperator op) := by
  simp only [arithmeticOperators, List.mem_cons, List.not_mem_nil, or_false, not_or] at h
  simp only [apply, h, ↓reduceIte]

/-- All that applying an operation can come to. -/
inductive Application (ops : Operations) (x y : Float) : Operator → Except Fault Float → Prop
  | sum : Application ops x y .add (.ok (ops.add x y))
  | difference : Application ops x y .sub (.ok (ops.sub x y))
  | product : Application ops x y .mul (.ok (ops.mul x y))
  | quotient (nonzero : ¬ (y == 0.0) = true) : Application ops x y .div (.ok (ops.div x y))
  | divisor (zero : (y == 0.0) = true) : Application ops x y .div (.error .divisionByZero)
  | unknown {op : Operator} (unknown : op ∉ arithmeticOperators) : Application ops x y op (.error (.unknownOperator op))

theorem apply_application (ops : Operations) (op : Operator) (x y : Float) :
    Application ops x y op (ops.apply op x y) := by
  by_cases hop : op ∈ arithmeticOperators
  · simp only [arithmeticOperators, List.mem_cons, List.not_mem_nil, or_false] at hop
    rcases hop with rfl | rfl | rfl | rfl
    · exact .sum
    · exact .difference
    · exact .product
    · rw [apply_div]
      split
      · rename_i hz
        exact .divisor hz
      · rename_i hz
        exact .quotient hz
  · rw [apply_unknown ops hop]
    exact .unknown hop

end Operations

namespace Expr

/-- Evaluation with any interpretation of the operations. -/
def evalWith (ops : Operations) (env : Environment) : Expr → Except Fault Float
  | .number x => .ok x
  | .variable name =>
    match env.get? name with
    | some x => .ok x
    | none => .error (.undefinedVariable name)
  | .binary op l r => do
    let x ← l.evalWith ops env
    let y ← r.evalWith ops env
    ops.apply op x y
  | .hole => .error .emptyExpression

theorem evalWith_doubles (env : Environment) (e : Expr) : e.evalWith .doubles env = e.eval env := by
  induction e with
  | number x => rfl
  | «variable» name => rfl
  | binary op l r ihl ihr =>
      rw [evalWith, eval, ihl, ihr]
      rfl
  | hole => rfl

/-! ## Values and faults of nodes -/

section
variable (ops : Operations) (env : Environment)

/-- The value of a tree in which nothing is at fault. -/
inductive Yields : Expr → Float → Prop
  | number (x : Float) : Yields (.number x) x
  | bound {name : Text} {x : Float} (value : env.get? name = some x) : Yields (.variable name) x
  | sum {l r : Expr} {x y : Float} (left : Yields l x) (right : Yields r y) : Yields (.binary .add l r) (ops.add x y)
  | difference {l r : Expr} {x y : Float} (left : Yields l x) (right : Yields r y) :
      Yields (.binary .sub l r) (ops.sub x y)
  | product {l r : Expr} {x y : Float} (left : Yields l x) (right : Yields r y) :
      Yields (.binary .mul l r) (ops.mul x y)
  | quotient {l r : Expr} {x y : Float} (left : Yields l x) (right : Yields r y) (nonzero : ¬(y = 0.0 ∨ y = -0.0)) :
      Yields (.binary .div l r) (ops.div x y)

/-- The node itself is at fault, whatever its operands are at fault for. -/
inductive Faults : Expr → Fault → Prop
  | unbound {name : Text} (missing : env.get? name = none) : Faults (.variable name) (.undefinedVariable name)
  | divisor {l r : Expr} {y : Float} (value : Yields ops env r y) (zero : y = 0.0 ∨ y = -0.0) :
      Faults (.binary .div l r) .divisionByZero
  | operator {op : Operator} {l r : Expr} (unknown : op ∉ arithmeticOperators) :
      Faults (.binary op l r) (.unknownOperator op)
  | hole : Faults .hole .emptyExpression

def Faultless (ns : List Expr) : Prop := ∀ n ∈ ns, ∀ f, ¬ Faults ops env n f

/-- The fault of the first of the nodes that is at fault. -/
inductive FirstFault : List Expr → Fault → Prop
  | here {n : Expr} {ns : List Expr} {f : Fault} (fault : Faults ops env n f) : FirstFault (n :: ns) f
  | later {n : Expr} {ns : List Expr} {f : Fault} (sound : ∀ g, ¬ Faults ops env n g) (rest : FirstFault ns f) :
      FirstFault (n :: ns) f

end

/-- All nodes of a tree, operands before the operation and the left one first. -/
def postorder : Expr → List Expr
  | .number x => [.number x]
  | .variable name => [.variable name]
  | .binary op l r => l.postorder ++ r.postorder ++ [.binary op l r]
  | .hole => [.hole]

/-- The names of the variables in a tree. -/
def mentions : Expr → List Text
  | .number _ => []
  | .variable name => [name]
  | .binary _ l r => l.mentions ++ r.mentions
  | .hole => []

section
variable {ops : Operations} {env : Environment}

theorem Faults.unique {n : Expr} {f g : Fault} (h : Faults ops env n f) (h' : Faults ops env n g) : f = g := by
  cases h with
  | unbound _ => cases h'; rfl
  | divisor _ _ =>
      cases h' with
      | divisor _ _ => rfl
      | operator unknown => exact absurd (by decide) unknown
  | operator unknown =>
      cases h' with
      | divisor _ _ => exact absurd (by decide) unknown
      | operator _ => rfl
  | hole => cases h'; rfl

theorem FirstFault.unique {ns : List Expr} {f g : Fault} (h : FirstFault ops env ns f)
    (h' : FirstFault ops env ns g) : f = g := by
  induction h with
  | here fault =>
      cases h' with
      | here fault' => exact fault.unique fault'
      | later sound _ => exact absurd fault (sound _)
  | later sound _ ih =>
      cases h' with
      | here fault' => exact absurd fault' (sound _)
      | later _ rest => exact ih rest

theorem FirstFault.not_faultless {ns : List Expr} {f : Fault} (h : FirstFault ops env ns f) :
    ¬ Faultless ops env ns := by
  intro hs
  induction h with
  | here fault => exact hs _ List.mem_cons_self _ fault
  | later _ _ ih => exact ih fun n hn => hs n (List.mem_cons_of_mem _ hn)

theorem FirstFault.append {ns : List Expr} {f : Fault} (h : FirstFault ops env ns f) (ms : List Expr) :
    FirstFault ops env (ns ++ ms) f := by
  induction h with
  | here fault => exact .here fault
  | later sound _ ih => exact .later sound ih

theorem FirstFault.after {ns ms : List Expr} {f : Fault} (hs : Faultless ops env ns) (h : FirstFault ops env ms f) :
    FirstFault ops env (ns ++ ms) f := by
  induction ns with
  | nil => exact h
  | cons n ns ih =>
      obtain ⟨hn, hns⟩ := List.forall_mem_cons.mp hs
      exact .later hn (ih hns)

/-! ## Evaluation node by node -/

theorem evalWith_binary {l r : Expr} {x y : Float} (hl : l.evalWith ops env = .ok x) (hr : r.evalWith ops env = .ok y)
    (op : Operator) : (binary op l r).evalWith ops env = ops.apply op x y := by
  rw [evalWith, hl, hr]
  rfl

/-- An operation is evaluated in one of three ways. -/
theorem evalWith_binary_cases (ops : Operations) (env : Environment) (op : Operator) (l r : Expr) :
    (∃ f, l.evalWith ops env = .error f ∧ (binary op l r).evalWith ops env = .error f) ∨
      (∃ x f, l.evalWith ops env = .ok x ∧ r.evalWith ops env = .error f ∧
        (binary op l r).evalWith ops env = .error f) ∨
      ∃ x y, l.evalWith ops env = .ok x ∧ r.evalWith ops env = .ok y ∧
        (binary op l r).evalWith ops env = ops.apply op x y := by
  cases hl : l.evalWith ops env with
  | error f => exact .inl ⟨f, rfl, by rw [evalWith, hl]; rfl⟩
  | ok x =>
      cases hr : r.evalWith ops env with
      | error f => exact .inr (.inl ⟨x, f, rfl, rfl, by rw [evalWith, hl, hr]; rfl⟩)
      | ok y => exact .inr (.inr ⟨x, y, rfl, rfl, evalWith_binary hl hr op⟩)

theorem evalWith_binary_eq_ok {op : Operator} {l r : Expr} {z : Float} (h : (binary op l r).evalWith ops env = .ok z) :
    ∃ x y, l.evalWith ops env = .ok x ∧ r.evalWith ops env = .ok y ∧ ops.apply op x y = .ok z := by
  rcases evalWith_binary_cases ops env op l r with ⟨f, _, he⟩ | ⟨_, f, _, _, he⟩ | ⟨x, y, hl, hr, he⟩
  · cases he.symm.trans h
  · cases he.symm.trans h
  · exact ⟨x, y, hl, hr, he.symm.trans h⟩

theorem yields_of_apply {op : Operator} {l r : Expr} {x y z : Float} (hx : Yields ops env l x) (hy : Yields ops env r y)
    (h : ops.apply op x y = .ok z) : Yields ops env (.binary op l r) z := by
  have ha := Operations.apply_application ops op x y
  rw [h] at ha
  cases ha with
  | sum => exact .sum hx hy
  | difference => exact .difference hx hy
  | product => exact .product hx hy
  | quotient nonzero => exact .quotient hx hy fun hzero => nonzero (beq_zero_iff.mpr hzero)

/-- Evaluation finds the value of a tree, and a tree has only that one. -/
theorem evalWith_eq_ok {e : Expr} {x : Float} : e.evalWith ops env = .ok x ↔ Yields ops env e x := by
  constructor
  · intro h
    induction e generalizing x with
    | number x =>
        cases h
        exact .number x
    | «variable» name =>
        simp only [evalWith] at h
        split at h
        · rename_i hv
          cases h
          exact .bound hv
        · cases h
    | binary op l r ihl ihr =>
        obtain ⟨x, y, hl, hr, ha⟩ := evalWith_binary_eq_ok h
        exact yields_of_apply (ihl hl) (ihr hr) ha
    | hole => cases h
  · intro h
    induction h with
    | number x => rfl
    | bound value => simp only [evalWith, value]
    | sum _ _ hl hr => exact evalWith_binary hl hr .add
    | difference _ _ hl hr => exact evalWith_binary hl hr .sub
    | product _ _ hl hr => exact evalWith_binary hl hr .mul
    | quotient _ _ nonzero hl hr =>
        rw [evalWith_binary hl hr .div, Operations.apply_div, if_neg fun hz => nonzero (beq_zero_iff.mp hz)]

/-- A node whose operands have values is at fault exactly where applying it goes wrong. -/
theorem faults_binary {op : Operator} {l r : Expr} {x y : Float} (hr : r.evalWith ops env = .ok y) {f : Fault} :
    Faults ops env (.binary op l r) f ↔ ops.apply op x y = .error f := by
  constructor
  · intro h
    cases h with
    | divisor value zero =>
        cases (evalWith_eq_ok.mpr value).symm.trans hr
        rw [Operations.apply_div, if_pos (beq_zero_iff.mpr zero)]
    | operator unknown => exact Operations.apply_unknown ops unknown x y
  · intro h
    have ha := Operations.apply_application ops op x y
    rw [h] at ha
    cases ha with
    | divisor zero => exact .divisor (evalWith_eq_ok.mp hr) (beq_zero_iff.mp zero)
    | unknown unknown => exact .operator unknown

/-- Which nodes can be at fault, and with which code. -/
theorem Faults.code {n : Expr} {f : Fault} (h : Faults ops env n f) :
    (∃ name, n = .variable name ∧ env.get? name = none ∧ f.code = .undefinedVariable) ∨
      (∃ l r y, n = .binary .div l r ∧ r.evalWith ops env = .ok y ∧ (y == 0.0) = true ∧ f.code = .divisionByZero) ∨
      (∃ op l r, n = .binary op l r ∧ op ∉ arithmeticOperators ∧ f.code = .unknownOperator) ∨
      (n = .hole ∧ f.code = .internal) := by
  cases h with
  | unbound missing => exact .inl ⟨_, rfl, missing, rfl⟩
  | divisor value zero => exact .inr (.inl ⟨_, _, _, rfl, evalWith_eq_ok.mpr value, beq_zero_iff.mpr zero, rfl⟩)
  | operator unknown => exact .inr (.inr (.inl ⟨_, _, _, rfl, unknown, rfl⟩))
  | hole => exact .inr (.inr (.inr ⟨rfl, rfl⟩))

theorem faultless_of_ok {e : Expr} {x : Float} (h : e.evalWith ops env = .ok x) : Faultless ops env e.postorder := by
  induction e generalizing x with
  | number x => exact List.forall_mem_singleton.mpr nofun
  | «variable» name =>
      refine List.forall_mem_singleton.mpr fun f hf => ?_
      cases hf with
      | unbound missing =>
          simp only [evalWith, missing] at h
          cases h
  | binary op l r ihl ihr =>
      obtain ⟨x, y, hl, hr, ha⟩ := evalWith_binary_eq_ok h
      refine List.forall_mem_append.mpr ⟨List.forall_mem_append.mpr ⟨ihl hl, ihr hr⟩, ?_⟩
      refine List.forall_mem_singleton.mpr fun f hf => ?_
      cases ha.symm.trans ((faults_binary hr).mp hf)
  | hole => cases h

theorem firstFault_of_error {e : Expr} {f : Fault} (h : e.evalWith ops env = .error f) :
    FirstFault ops env e.postorder f := by
  induction e generalizing f with
  | number x => cases h
  | «variable» name =>
      simp only [evalWith] at h
      split at h
      · cases h
      · rename_i hv
        cases h
        exact .here (.unbound hv)
  | binary op l r ihl ihr =>
      rcases evalWith_binary_cases ops env op l r with ⟨g, hl, he⟩ | ⟨_, g, hl, hr, he⟩ | ⟨x, y, hl, hr, he⟩
      · cases he.symm.trans h
        exact ((ihl hl).append _).append _
      · cases he.symm.trans h
        exact (FirstFault.after (faultless_of_ok hl) (ihr hr)).append _
      · have operands : Faultless ops env (l.postorder ++ r.postorder) :=
          List.forall_mem_append.mpr ⟨faultless_of_ok hl, faultless_of_ok hr⟩
        exact .after operands (.here ((faults_binary hr).mpr (he.symm.trans h)))
  | hole =>
      cases h
      exact .here .hole

theorem evalWith_congr {env' : Environment} {e : Expr} (h : ∀ name ∈ e.mentions, env'.get? name = env.get? name) :
    e.evalWith ops env' = e.evalWith ops env := by
  induction e with
  | number x => rfl
  | «variable» name => simp only [evalWith, h name (List.mem_singleton_self name)]
  | binary op l r ihl ihr =>
      obtain ⟨hl, hr⟩ := List.forall_mem_append.mp h
      rw [evalWith, evalWith, ihl hl, ihr hr]
  | hole => rfl

end

end Expr

/-! ## The environment of a statement -/

theorem environment_runStatement {limit index : Nat} {env env' : Environment} {text : Text} {o : Outcome}
    (h : (runStatement limit env index text).1 = .ok (o, env')) : env' = o.assign env := by
  rw [runStatement_eq] at h
  cases hv : valueOf limit env text with
  | error f =>
      rw [hv] at h
      cases h
  | ok x =>
      rw [hv] at h
      cases h
      rfl

/-- Evaluation succeeds exactly if no node of the tree is at fault, and otherwise gives the fault of the first node at
fault, operands before the operation and the left one first: a variable without a value, a divisor that is a zero of
either sign, an operator that is none of the four, or a missing operand. The result depends on the variables of the tree
only, and a statement changes the environment by nothing but its assignment. The operations may compute anything; the
evaluator takes those of doubles. -/
theorem Expr.evalWith_first_fault (ops : Operations) (env : Environment) (e : Expr) :
    ((∃ x, e.evalWith ops env = .ok x) ↔ ∀ n ∈ e.postorder, ∀ f, ¬ Faults ops env n f) ∧
      (∀ f, e.evalWith ops env = .error f ↔ FirstFault ops env e.postorder f) ∧
      (∀ n f, Faults ops env n f →
        (∃ name, n = .variable name ∧ env.get? name = none ∧ f.code = .undefinedVariable) ∨
          (∃ l r y, n = .binary .div l r ∧ r.evalWith ops env = .ok y ∧ (y == 0.0) = true ∧
            f.code = .divisionByZero) ∨
          (∃ op l r, n = .binary op l r ∧ op ∉ arithmeticOperators ∧ f.code = .unknownOperator) ∨
          (n = .hole ∧ f.code = .internal)) ∧
      (∀ x, e.evalWith ops env = .ok x ↔ Yields ops env e x) ∧
      (∀ env', (∀ name ∈ e.mentions, env'.get? name = env.get? name) → e.evalWith ops env' = e.evalWith ops env) ∧
      e.eval env = e.evalWith .doubles env ∧
      (∀ limit index text o env', (runStatement limit env index text).1 = .ok (o, env') → env' = o.assign env) := by
  refine ⟨⟨?_, ?_⟩, fun f => ⟨firstFault_of_error, ?_⟩, fun n f => Faults.code, fun x => evalWith_eq_ok,
    fun env' => evalWith_congr, (evalWith_doubles env e).symm,
    fun limit index text o env' => environment_runStatement⟩
  · rintro ⟨x, hx⟩
    exact faultless_of_ok hx
  · intro hs
    cases he : e.evalWith ops env with
    | ok x => exact ⟨x, rfl⟩
    | error f => exact absurd hs (firstFault_of_error he).not_faultless
  · intro hf
    cases he : e.evalWith ops env with
    | ok x => exact absurd (faultless_of_ok he) hf.not_faultless
    | error g => rw [(firstFault_of_error he).unique hf]

example : (Expr.binary .add (.binary .div (.variable "x") (.number (-0.0))) .hole).eval (Environment.empty.set "x" 1) =
    .error .divisionByZero := rfl

end Abacus
