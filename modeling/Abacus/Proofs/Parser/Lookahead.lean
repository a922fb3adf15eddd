import Abacus.Expr.Parser
import Abacus.Proofs.Grammar

/-!
# What the parser sees

Between two rules the parser faces a list of tokens: the first of them is its current token, and where none
is left it sees the end of the input. The lookahead tests agree with the signs of the grammar, and `Follows`
collects what may stand after each kind of phrase.
-/

namespace Abacus.Parser
open Grammar

/-! ## The tokens ahead -/

/-- The parser with `ts` still to be read. -/
def facing (p : Parser) (ts : List Token) : Parser := { p with rest := ts }.advance

def flagged (p : Parser) : Parser := { p with failed := true }

@[simp] theorem facing_cons_current (p : Parser) (t : Token) (ts : List Token) : (p.facing (t :: ts)).current = t := rfl

@[simp] theorem facing_cons_advance (p : Parser) (t : Token) (ts : List Token) :
    (p.facing (t :: ts)).advance = p.facing ts := by
  cases ts <;> rfl

@[simp] theorem facing_enter (p : Parser) (ts : List Token) : (p.facing ts).enter = p.enter.facing ts := by
  cases ts <;> rfl

@[simp] theorem facing_leave (p : Parser) (ts : List Token) : (p.facing ts).leave = p.leave.facing ts := by
  cases ts <;> rfl

@[simp] theorem facing_flagged (p : Parser) (ts : List Token) : (p.facing ts).flagged = p.flagged.facing ts := by
  cases ts <;> rfl

@[simp] theorem enter_leave (p : Parser) : p.enter.leave = p := rfl

@[simp] theorem enter_flagged_leave (p : Parser) : p.enter.flagged.leave = p.flagged := rfl

theorem enter_facing_current (p : Parser) (ts : List Token) : (p.enter.facing ts).current = (p.facing ts).current := by
  cases ts <;> rfl

theorem fail_eq (p : Parser) (f : Fault) : p.fail f = (.error f, p.flagged) := rfl

theorem facing_current (p : Parser) (ts : List Token) :
    (p.facing ts).current = ts.head?.getD (Token.eof p.endLine) := by
  cases ts <;> rfl

/-! ## Signs -/

theorem ofText?_eq_some {t : Text} {op : Operator} (h : Operator.ofText? t = some op) : t = [op.byte] := by
  unfold Operator.ofText? at h
  split at h
  · split at h
    · cases h; rfl
    · cases h
  · cases h

theorem operatorIn?_eq_some {t : Token} {ops : List Operator} {op : Operator} :
    operatorIn? t ops = some op ↔ t.kind = .operator ∧ Operator.ofText? t.text = some op ∧ op ∈ ops := by
  unfold operatorIn?
  split
  · rename_i hk
    cases ho : Operator.ofText? t.text with
    | none => simp
    | some op' =>
        simp only [hk, true_and, Option.some.injEq, Option.ite_none_right_eq_some, List.contains_iff_mem]
        constructor
        · rintro ⟨hm, rfl⟩; exact ⟨rfl, hm⟩
        · rintro ⟨rfl, hm⟩; exact ⟨hm, rfl⟩
  · rename_i hk
    simp [hk]

theorem sum?_eq_some {t : Token} {op : Operator} : sum? t = some op ↔ SumSign t op := by
  constructor
  · intro h
    obtain ⟨hk, ho, hm⟩ := operatorIn?_eq_some.mp h
    obtain ⟨kind, text, line⟩ := t
    simp only at hk ho
    have ht := ofText?_eq_some ho
    subst hk ht
    simp only [List.mem_cons, List.not_mem_nil, or_false] at hm
    rcases hm with rfl | rfl
    · exact .plus
    · exact .minus
  · intro h
    cases h <;> rfl

theorem product?_eq_some {t : Token} {op : Operator} : product? t = some op ↔ ProductSign t op := by
  constructor
  · intro h
    obtain ⟨hk, ho, hm⟩ := operatorIn?_eq_some.mp h
    obtain ⟨kind, text, line⟩ := t
    simp only at hk ho
    have ht := ofText?_eq_some ho
    subst hk ht
    simp only [List.mem_cons, List.not_mem_nil, or_false] at hm
    rcases hm with rfl | rfl
    · exact .times
    · exact .over
  · intro h
    cases h <;> rfl

def sign? : Precedence → Token → Option Operator
  | .sums => sum?
  | .products => product?

theorem sign?_eq_some {l : Precedence} {t : Token} {op : Operator} : sign? l t = some op ↔ l.Sign t op := by
  cases l with
  | sums => exact sum?_eq_some
  | products => exact product?_eq_some

theorem sign?_facing {l : Precedence} {p : Parser} {ts : List Token} {op : Operator}
    (h : sign? l (p.facing ts).current = some op) : ∃ t us, ts = t :: us ∧ l.Sign t op := by
  cases ts with
  | nil => cases l <;> cases h
  | cons t us => exact ⟨t, us, rfl, sign?_eq_some.mp h⟩

/-! ## What may follow a phrase -/

/-- The test by which a phrase without a further sign ends. -/
def ends : Precedence → Token → Bool
  | .sums, t => closes t
  | .products, t => (sum? t).isSome || closes t

/-- What may stand after a phrase. After a factor the parser does not look. -/
def Follows : Phrase → List Token → Prop
  | .expression, vs => ∀ t, vs.head? = some t → ends .sums t = true
  | .term, vs => ∀ t, vs.head? = some t → ends .products t = true
  | .factor, _ => True

theorem closes_eq_true {t : Token} :
    closes t = true ↔ (∃ line, t = ⟨.symbol, ")", line⟩) ∨ t.kind = .endOfInput := by
  obtain ⟨kind, text, line⟩ := t
  simp [closes, Token.is]

theorem sum?_eq_none_of_closes {t : Token} (h : closes t = true) : sum? t = none := by
  rcases closes_eq_true.mp h with ⟨line, rfl⟩ | hk
  · rfl
  · simp [sum?, operatorIn?, hk]

theorem product?_eq_none_of_closes {t : Token} (h : closes t = true) : product? t = none := by
  rcases closes_eq_true.mp h with ⟨line, rfl⟩ | hk
  · rfl
  · simp [product?, operatorIn?, hk]

theorem sign?_eq_none_of_ends {l : Precedence} {t : Token} (h : ends l t = true) : sign? l t = none := by
  cases l with
  | sums => exact sum?_eq_none_of_closes h
  | products =>
      rcases Bool.or_eq_true_iff.mp h with hs | hc
      · obtain ⟨op, ho⟩ := Option.isSome_iff_exists.mp hs
        cases sum?_eq_some.mp ho <;> rfl
      · exact product?_eq_none_of_closes hc

theorem Follows.of_head?_eq {c : Phrase} {vs ws : List Token} (h : Follows c vs) (he : ws.head? = vs.head?) :
    Follows c ws := by
  cases c with
  | expression => intro t ht; exact h t (he ▸ ht)
  | term => intro t ht; exact h t (he ▸ ht)
  | factor => trivial

theorem follows_nil (c : Phrase) : Follows c [] := by
  cases c <;> simp [Follows]

theorem follows_close (line : Int) (vs : List Token) : Follows .expression (⟨.symbol, ")", line⟩ :: vs) := by
  intro t ht
  cases ht
  rfl

theorem Follows.part (l : Precedence) {vs : List Token} (h : Follows l.whole vs) : Follows l.part vs := by
  cases l with
  | sums => intro t ht; exact Bool.or_eq_true_iff.mpr (.inr (h t ht))
  | products => trivial

theorem follows_sign {l : Precedence} {t : Token} {op : Operator} (h : l.Sign t op) (vs : List Token) :
    Follows l.part (t :: vs) := by
  cases l with
  | sums =>
      intro t' ht
      cases ht
      have hs : sum? t = some op := sum?_eq_some.mpr h
      simp [ends, hs]
  | products => trivial

theorem ends_facing {l : Precedence} {p : Parser} {vs : List Token} :
    ends l (p.facing vs).current = true ↔ Follows l.whole vs := by
  cases vs with
  | nil => exact ⟨fun _ => follows_nil _, fun _ => by cases l <;> rfl⟩
  | cons t vs => cases l <;> simp [Follows, Precedence.whole]

/-- A test that takes all ends of input alike depends on the first token ahead only. -/
theorem lookahead_congr {β : Type} (f : Token → β) (hf : ∀ m n, f (Token.eof m) = f (Token.eof n)) {p q : Parser}
    {vs ws : List Token} (h : ws.head? = vs.head?) : f (q.facing ws).current = f (p.facing vs).current := by
  rw [facing_current, facing_current, h]
  cases vs.head? with
  | none => exact hf _ _
  | some t => rfl

end Abacus.Parser
