import Abacus.Proofs.Parser.Outcome

/-!
# The nesting limit

The limit only ever cuts a parse short: what a rule does without meeting it, it does with any more room. Two
levels for each opening parenthesis and one for each sign, on top of the two of the outermost expression, are
always enough.
-/

namespace Abacus.Parser
open Grammar

/-- The nesting limit stopped the rule. -/
def TooDeep (r : Except Fault Expr × Parser) : Prop := ∃ f q, r = (.error f, q) ∧ f.IsNesting

theorem tooDeep_error {f : Fault} {q : Parser} : TooDeep (.error f, q) ↔ f.IsNesting := by
  constructor
  · rintro ⟨_, _, he, h⟩; cases he; exact h
  · intro h; exact ⟨f, q, rfl, h⟩

theorem not_tooDeep_ok (e : Expr) (q : Parser) : ¬ TooDeep (.ok e, q) := by
  rintro ⟨_, _, he, _⟩
  cases he

/-! ## Other faults -/

theorem faultAt_not_isNesting {p : Parser} {code : Code} {b : UInt8} {m : Text} (i : Nat)
    (hm : m[i]? = some b) (hb : ("expression too deeply nested" : Text)[i]? ≠ some b) :
    ¬ (p.faultAt code m).IsNesting := by
  intro h
  have he : m = ("expression too deeply nested" : Text) := h
  exact hb (he ▸ hm)

theorem unexpectedFault_not_isNesting (p : Parser) : ¬ p.unexpectedFault.IsNesting := by
  unfold unexpectedFault
  split
  · exact faultAt_not_isNesting 0 rfl (by decide)
  · exact faultAt_not_isNesting 0 rfl (by decide)

theorem unclosedFault_not_isNesting (p : Parser) : ¬ p.unclosedFault.IsNesting :=
  faultAt_not_isNesting 3 rfl (by decide)

theorem numberFault_not_isNesting (p : Parser) : ¬ p.numberFault.IsNesting :=
  faultAt_not_isNesting 0 rfl (by decide)

theorem trailingFault_not_isNesting (p : Parser) : ¬ p.trailingFault.IsNesting := by
  unfold trailingFault
  rw [List.append_assoc]
  exact faultAt_not_isNesting 0 rfl (by decide)

/-! ## More room -/

theorem factor_mono {inner inner' : Parser → Except Fault Expr × Parser}
    (hi : ∀ q, ¬ TooDeep (inner q) → inner' q = inner q) {p : Parser} (h : ¬ TooDeep (factor inner p)) :
    factor inner' p = factor inner p := by
  unfold factor at h ⊢
  split
  · rename_i hk
    split
    · rename_i ht
      simp only [hk, ht, ↓reduceIte] at h
      rw [hi]
      intro hd
      obtain ⟨f, q, he, hf⟩ := hd
      rw [he] at h
      exact h (tooDeep_error.mpr hf)
    · rfl
  · rfl
  · rfl
  · rfl

theorem rule_mono (l : Precedence) {room : Nat}
    (part : ∀ p, ¬ TooDeep (reader l.part room p) → reader l.part (room + 1) p = reader l.part room p)
    (whole : ∀ p, ¬ TooDeep (reader l.whole room p) → reader l.whole (room + 1) p = reader l.whole room p)
    {p : Parser} (h : ¬ TooDeep (reader l.whole (room + 1) p)) :
    reader l.whole (room + 1 + 1) p = reader l.whole (room + 1) p := by
  rw [reader_succ l (room + 1), reader_succ l room]
  rw [reader_succ l room] at h
  have hp : ¬ TooDeep (reader l.part room p.enter) := by
    rintro ⟨f, q, he, hf⟩
    rw [he] at h
    exact h (tooDeep_error.mpr hf)
  rw [part _ hp]
  split
  · rfl
  · rename_i left q he
    rw [he] at h
    simp only at h
    split
    · rename_i op hs
      simp only [hs] at h
      have hw : ¬ TooDeep (reader l.whole room q.advance) := by
        rintro ⟨f, q', he', hf⟩
        rw [he'] at h
        exact h (tooDeep_error.mpr hf)
      rw [whole _ hw]
    · rfl

theorem reader_mono_succ (room : Nat) (c : Phrase) (p : Parser) (h : ¬ TooDeep (reader c room p)) :
    reader c (room + 1) p = reader c room p := by
  induction room generalizing c p with
  | zero =>
      have hz (l : Precedence) (q : Parser) : TooDeep (reader l.whole 0 q) := by
        rw [reader_zero, fail_eq]
        exact tooDeep_error.mpr (nestingFault_isNesting q)
      cases c with
      | expression => exact absurd (hz .sums p) h
      | term => exact absurd (hz .products p) h
      | factor =>
          have he (q : Parser) (hq : ¬ TooDeep (expression 0 q)) : expression 1 q = expression 0 q :=
            absurd (hz .sums q) hq
          exact factor_mono he h
  | succ room ih =>
      cases c with
      | expression => exact rule_mono .sums (ih .term) (ih .expression) h
      | term => exact rule_mono .products (ih .factor) (ih .term) h
      | factor => exact factor_mono (fun q hq => rule_mono .sums (ih .term) (ih .expression) hq) h

/-- A rule that the limit does not stop does the same with more room. -/
theorem reader_mono {room room' : Nat} (hle : room ≤ room') {c : Phrase} {p : Parser}
    (h : ¬ TooDeep (reader c room p)) : reader c room' p = reader c room p := by
  induction hle with
  | refl => rfl
  | step _ ih => rw [reader_mono_succ _ c p (ih ▸ h), ih]

/-! ## Enough room -/

def opens (t : Token) : Bool := t.is .symbol "("

def signs (t : Token) : Bool := (sum? t).isSome || (product? t).isSome

/-- The levels that tokens can open beyond those of the phrase they stand in. -/
def weight (ts : List Token) : Nat := 2 * ts.countP opens + ts.countP signs

def ownLevels : Phrase → Nat
  | .expression => 2
  | .term => 1
  | .factor => 0

theorem weight_append (ts us : List Token) : weight (ts ++ us) = weight ts + weight us := by
  simp only [weight, List.countP_append]
  omega

theorem weight_sign {l : Precedence} {t : Token} {op : Operator} (h : l.Sign t op) (ts : List Token) :
    weight (t :: ts) = weight ts + 1 := by
  have hw : weight [t] = 1 := by
    cases l <;> cases h <;> rfl
  rw [← List.singleton_append, weight_append, hw, Nat.add_comm]

theorem factor_not_tooDeep {inner : Parser → Except Fault Expr × Parser} {p : Parser} {ts : List Token}
    (hi : ∀ line us, ts = ⟨.symbol, "(", line⟩ :: us → ¬ TooDeep (inner (p.facing us))) :
    ¬ TooDeep (factor inner (p.facing ts)) := by
  unfold factor
  split
  · rename_i hk
    split
    · rename_i ht
      obtain ⟨line, us, rfl⟩ : ∃ line us, ts = ⟨.symbol, "(", line⟩ :: us := by
        cases ts with
        | nil => cases hk
        | cons t us => exact ⟨t.line, us, by rw [← hk, ← ht]; rfl⟩
      have hi := hi line us rfl
      rw [facing_cons_advance]
      split
      · rename_i f q he
        rw [he, tooDeep_error] at hi
        exact fun h => hi (tooDeep_error.mp h)
      · split
        · exact not_tooDeep_ok _ _
        · exact fun h => unclosedFault_not_isNesting _ (tooDeep_error.mp h)
    · exact fun h => unexpectedFault_not_isNesting _ (tooDeep_error.mp h)
  · split
    · exact not_tooDeep_ok _ _
    · exact fun h => numberFault_not_isNesting _ (tooDeep_error.mp h)
  · exact not_tooDeep_ok _ _
  · exact fun h => unexpectedFault_not_isNesting _ (tooDeep_error.mp h)

theorem rule_not_tooDeep (l : Precedence) {room : Nat}
    (part : ∀ (p : Parser) ts, ownLevels l.part + weight ts ≤ room → ¬ TooDeep (reader l.part room (p.facing ts)))
    (whole : ∀ (p : Parser) ts, ownLevels l.whole + weight ts ≤ room → ¬ TooDeep (reader l.whole room (p.facing ts)))
    (p : Parser) (ts : List Token) (h : ownLevels l.whole + weight ts ≤ room + 1) :
    ¬ TooDeep (reader l.whole (room + 1) (p.facing ts)) := by
  have hl : ownLevels l.whole = ownLevels l.part + 1 := by cases l <;> rfl
  have hp := part p.enter ts (by omega)
  have ho := reader_outcome room l.part p.enter ts
  rw [reader_succ, facing_enter]
  generalize reader l.part room (p.enter.facing ts) = r at hp ho ⊢
  cases ho with
  | @done us vs x split _ _ =>
      subst split
      rw [weight_append] at h
      simp only
      split
      · rename_i op hs
        obtain ⟨t, vs, rfl, sign⟩ := sign?_facing hs
        rw [weight_sign sign] at h
        rw [facing_cons_advance]
        have hw := whole p.enter vs (by omega)
        split
        · rename_i f q he
          rw [he, tooDeep_error] at hw
          exact fun h => hw (tooDeep_error.mp h)
        · exact not_tooDeep_ok _ _
      · split
        · exact not_tooDeep_ok _ _
        · exact fun h => unexpectedFault_not_isNesting _ (tooDeep_error.mp h)
  | tooDeep _ nesting => exact absurd (tooDeep_error.mpr nesting) hp
  | stuck _ _ _ _ => exact fun h => hp (tooDeep_error.mpr (tooDeep_error.mp h))

/-- With a level for everything that can open one, the limit is never met. -/
theorem reader_not_tooDeep (room : Nat) (c : Phrase) (p : Parser) (ts : List Token)
    (h : ownLevels c + weight ts ≤ room) : ¬ TooDeep (reader c room (p.facing ts)) := by
  induction room generalizing c p ts with
  | zero =>
      cases c with
      | expression => simp [ownLevels] at h
      | term => simp [ownLevels] at h
      | factor =>
          rw [reader]
          refine factor_not_tooDeep fun line us he => ?_
          subst he
          simp [ownLevels, weight, opens, Token.is] at h
  | succ room ih =>
      cases c with
      | expression => exact rule_not_tooDeep .sums (ih .term) (ih .expression) p ts h
      | term => exact rule_not_tooDeep .products (ih .factor) (ih .term) p ts h
      | factor =>
          rw [reader]
          refine factor_not_tooDeep fun line us he => ?_
          subst he
          refine rule_not_tooDeep .sums (ih .term) (ih .expression) p us ?_
          have hw : weight [(⟨.symbol, "(", line⟩ : Token)] = 2 := rfl
          rw [← List.singleton_append, weight_append, hw] at h
          simpa [ownLevels, Precedence.whole] using h

end Abacus.Parser
