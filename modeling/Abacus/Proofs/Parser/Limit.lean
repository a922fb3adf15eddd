import Abacus.Proofs.Parser.Language
import Abacus.Proofs.Parser.Returns

/-!
# Parsing under a limit

The limit does one thing: it stops a parse that opens too many levels. A parse that it does not stop comes to the
same under every higher limit, and its tree is no higher than the limit. How much is enough can be read off the
tokens.
-/

namespace Abacus.Parser
open Grammar

/-! ## Parsers that see the same -/

/-- The same tokens ahead. The levels that are open, the limit and the flag may differ. -/
structure Alike (p q : Parser) : Prop where
  rest : p.rest = q.rest
  endLine : p.endLine = q.endLine
  current : p.current = q.current

/-- The same tree or fault, with the same tokens ahead. -/
inductive SameEnd : Except Fault Expr × Parser → Except Fault Expr × Parser → Prop
  | intro {x : Except Fault Expr} {p q : Parser} (alike : Alike p q) : SameEnd (x, p) (x, q)

section
variable {p q : Parser}

theorem Alike.advance (h : Alike p q) : Alike p.advance q.advance := by
  unfold Parser.advance
  rw [h.rest, h.endLine]
  cases q.rest with
  | nil => exact ⟨rfl, rfl, rfl⟩
  | cons t ts => exact ⟨rfl, rfl, rfl⟩

theorem Alike.enter (h : Alike p q) : Alike p.enter q.enter := ⟨h.rest, h.endLine, h.current⟩

theorem Alike.leave (h : Alike p q) : Alike p.leave q.leave := ⟨h.rest, h.endLine, h.current⟩

theorem Alike.faultAt (h : Alike p q) (code : Code) (m : Text) : p.faultAt code m = q.faultAt code m := by
  simp only [Parser.faultAt, h.current]

theorem Alike.unexpectedFault (h : Alike p q) : p.unexpectedFault = q.unexpectedFault := by
  simp only [Parser.unexpectedFault, h.faultAt, h.current]

theorem Alike.unclosedFault (h : Alike p q) : p.unclosedFault = q.unclosedFault := by
  simp only [Parser.unclosedFault, h.faultAt, h.current]

theorem Alike.numberFault (h : Alike p q) : p.numberFault = q.numberFault := by
  simp only [Parser.numberFault, h.faultAt, h.current]

theorem Alike.trailingFault (h : Alike p q) : p.trailingFault = q.trailingFault := by
  simp only [Parser.trailingFault, h.faultAt, h.current]

theorem Alike.nestingFault (h : Alike p q) : p.nestingFault = q.nestingFault := by
  simp only [Parser.nestingFault, h.current]

theorem Alike.fail (h : Alike p q) {f g : Fault} (hf : f = g) : SameEnd (p.fail f) (q.fail g) := by
  subst hf
  exact .intro ⟨h.rest, h.endLine, h.current⟩

theorem factor_alike {inner : Parser → Except Fault Expr × Parser}
    (ih : ∀ p q, Alike p q → SameEnd (inner p) (inner q)) (h : Alike p q) :
    SameEnd (factor inner p) (factor inner q) := by
  unfold factor
  rw [h.current]
  split
  · split
    · have hi := ih p.advance q.advance h.advance
      generalize inner p.advance = r at hi ⊢
      generalize inner q.advance = s at hi ⊢
      cases hi with
      | @intro x p' q' ha =>
          cases x with
          | error f => exact .intro ha
          | ok e =>
              simp only [ha.current]
              split
              · exact .intro ha.advance
              · exact ha.fail ha.unclosedFault
    · exact h.fail h.unexpectedFault
  · split
    · exact .intro h.advance
    · exact h.fail h.numberFault
  · exact .intro h.advance
  · exact h.fail h.unexpectedFault

theorem rule_alike (l : Precedence) {room : Nat}
    (part : ∀ p q, Alike p q → SameEnd (reader l.part room p) (reader l.part room q))
    (whole : ∀ p q, Alike p q → SameEnd (reader l.whole room p) (reader l.whole room q)) (h : Alike p q) :
    SameEnd (reader l.whole (room + 1) p) (reader l.whole (room + 1) q) := by
  have hp := part p.enter q.enter h.enter
  rw [reader_succ, reader_succ]
  generalize reader l.part room p.enter = r at hp ⊢
  generalize reader l.part room q.enter = s at hp ⊢
  cases hp with
  | @intro x p' q' ha =>
      cases x with
      | error f => exact .intro ha.leave
      | ok left =>
          simp only [ha.current]
          split
          · have hw := whole p'.advance q'.advance ha.advance
            generalize reader l.whole room p'.advance = r at hw ⊢
            generalize reader l.whole room q'.advance = s at hw ⊢
            cases hw with
            | @intro x p'' q'' ha' => cases x <;> exact .intro ha'.leave
          · split
            · exact .intro ha.leave
            · exact ha.leave.fail ha.unexpectedFault

/-- A rule with the same room does the same whatever it does not see. -/
theorem reader_alike (c : Phrase) (room : Nat) (p q : Parser) (h : Alike p q) :
    SameEnd (reader c room p) (reader c room q) := by
  induction c, room using room_induction generalizing p q with
  | zero l =>
      rw [reader_zero, reader_zero]
      exact h.enter.fail h.nestingFault
  | factor room ih => exact factor_alike ih h
  | succ l room part whole => exact rule_alike l part whole h

end

/-! ## Other limits -/

theorem alike_start (ts : List Token) (m m' : Nat) : Alike ((start ts m).facing ts) ((start ts m').facing ts) := by
  cases ts <;> exact ⟨rfl, rfl, rfl⟩

/-- Where the expressions end alike, so do the parses. -/
theorem parse_congr {p q : Parser} (h : SameEnd (reader .expression (p.limit - p.depth) (p.facing p.rest))
    (reader .expression (q.limit - q.depth) (q.facing q.rest))) : p.parse.1 = q.parse.1 := by
  rw [parse_eq, parse_eq]
  generalize reader .expression (p.limit - p.depth) (p.facing p.rest) = r at h ⊢
  generalize reader .expression (q.limit - q.depth) (q.facing q.rest) = s at h ⊢
  cases h with
  | @intro x p q ha =>
      cases x with
      | error f => rfl
      | ok e =>
          simp only [ha.current, ha.unexpectedFault, ha.trailingFault]
          split <;> rfl

theorem parse_mono {ts : List Token} {m m' : Nat} (hm : m ≤ m')
    (h : ¬ TooDeep (reader .expression m ((start ts m).facing ts))) :
    (start ts m').parse.1 = (start ts m).parse.1 := by
  have hs := reader_alike .expression m' _ _ (alike_start ts m' m)
  rw [reader_mono hm h] at hs
  exact parse_congr hs

theorem signs_eq (t : Token) : signs t = (["+", "-", "*", "/"] : List Text).any (t.is .operator) := by
  obtain ⟨kind, text, line⟩ := t
  rw [Bool.eq_iff_iff]
  constructor
  · intro h
    rcases Bool.or_eq_true_iff.mp h with h | h
    · obtain ⟨op, h⟩ := Option.isSome_iff_exists.mp h
      cases sum?_eq_some.mp h <;> rfl
    · obtain ⟨op, h⟩ := Option.isSome_iff_exists.mp h
      cases product?_eq_some.mp h <;> rfl
  · intro h
    simp only [List.any_cons, List.any_nil, Token.is, Bool.or_false, Bool.or_eq_true, Bool.and_eq_true,
      beq_iff_eq] at h
    rcases h with ⟨rfl, rfl⟩ | ⟨rfl, rfl⟩ | ⟨rfl, rfl⟩ | ⟨rfl, rfl⟩ <;> rfl

theorem weight_eq (ts : List Token) :
    weight ts = 2 * ts.countP (·.is .symbol "(") +
      ts.countP (fun t => (["+", "-", "*", "/"] : List Text).any (t.is .operator)) := by
  have hs : signs = fun t => (["+", "-", "*", "/"] : List Text).any (t.is .operator) := funext signs_eq
  rw [weight, hs]
  rfl

/-- What a limit does. Either it stops the parse, or every higher limit gives the same tree and the same fault. It never
stops a parse for which it has two levels, two more for each opening parenthesis and one for each operator. And a tree
is no higher than the limit, so that evaluating and showing it never has more calls open than that. -/
theorem parse_under_limit (ts : List Token) (m : Nat) :
    ((∃ r, (start ts m).parse.1 = .error r ∧ r.fault.IsNesting) ∨
      ∀ m', m ≤ m' → (start ts m').parse.1 = (start ts m).parse.1) ∧
    (2 + 2 * ts.countP (·.is .symbol "(") +
        ts.countP (fun t => (["+", "-", "*", "/"] : List Text).any (t.is .operator)) ≤ m →
      ∀ r, (start ts m).parse.1 = .error r → ¬ r.fault.IsNesting) ∧
    (∀ e, (start ts m).parse.1 = .ok e →
      e.depth ≤ m ∧ (∀ env, e.evalWithin env m = some (e.eval env)) ∧ e.renderWithin m = some e.render) := by
  refine ⟨?_, ?_, ?_⟩
  · by_cases h : TooDeep (reader .expression m ((start ts m).facing ts))
    · exact .inl (parse_isNesting_iff.mpr h)
    · exact .inr fun m' hm => parse_mono hm h
  · intro hm r hr hn
    rw [Nat.add_assoc, ← weight_eq] at hm
    exact reader_not_tooDeep m .expression (start ts m) ts hm (parse_isNesting_iff.mp ⟨r, hr, hn⟩)
  · intro e he
    obtain ⟨ha, hd⟩ := arithmetic_of_parse he
    exact ⟨hd, fun env => ha.evalWithin_eq env hd, ha.renderWithin_eq hd⟩

-- Two parentheses cannot do with less than the six levels that are always enough for them.
example :
    ∃ r, (start [⟨.symbol, "(", 1⟩, ⟨.symbol, "(", 1⟩, ⟨.identifier, "x", 1⟩, ⟨.symbol, ")", 1⟩,
      ⟨.symbol, ")", 1⟩] 5).parse.1 = .error r ∧ r.fault.IsNesting :=
  ⟨_, rfl, rfl⟩

end Abacus.Parser
