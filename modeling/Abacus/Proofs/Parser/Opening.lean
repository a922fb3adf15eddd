import Abacus.Proofs.Parser.Language

/-!
# The first tokens of an input

An expression opens two levels before it reads anything. Under a lower limit every input is refused for its depth;
otherwise an input is refused at its first token, or at the one after a name, if that cannot stand there.
-/

namespace Abacus.Parser
open Grammar

theorem parse_of_error {ts : List Token} {limit : Nat} {f : Fault} {q : Parser}
    (h : reader .expression limit ((start ts limit).facing ts) = (.error f, q)) :
    Abacus.parse ts limit = .error f := by
  rw [Abacus.parse, parse_start, h]
  rfl

/-- What the first part of a phrase is refused for, the phrase is refused for. -/
theorem reader_of_part_error (l : Precedence) {room : Nat} {p : Parser} {f : Fault} {q : Parser}
    (h : reader l.part room p.enter = (.error f, q)) : reader l.whole (room + 1) p = (.error f, q.leave) := by
  rw [reader_succ, h]

/-- Where the first part of a phrase ends, either a sign or the end of the phrase has to come. -/
theorem reader_of_part_ok (l : Precedence) {room : Nat} {p : Parser} {x : Expr} {q : Parser}
    (h : reader l.part room p.enter = (.ok x, q)) (hs : sign? l q.current = none) (he : ends l q.current = false) :
    reader l.whole (room + 1) p = (.error q.unexpectedFault, q.leave.flagged) := by
  simp [reader_succ, h, hs, he, fail_eq]

/-! ## Limits too low for any input -/

theorem parse_of_lt_two (ts : List Token) {limit : Nat} (h : limit < 2) :
    ∃ f, Abacus.parse ts limit = .error f ∧ f.code = .syntactic := by
  have hzero (p : Parser) : reader .expression 0 p = p.enter.fail p.nestingFault := reader_zero .sums p
  have hone (p : Parser) : reader .expression 1 p = (.error p.enter.nestingFault, (p.enter.enter.flagged).leave) :=
    reader_of_part_error .sums (reader_zero .products p.enter)
  match limit, h with
  | 0, _ => exact ⟨_, parse_of_error (hzero _), rfl⟩
  | 1, _ => exact ⟨_, parse_of_error (hone _), rfl⟩

theorem two_le_of_parse {ts : List Token} {limit : Nat} {e : Expr} (h : Abacus.parse ts limit = .ok e) :
    2 ≤ limit := by
  refine Nat.le_of_not_lt fun hl => ?_
  obtain ⟨f, hf, _⟩ := parse_of_lt_two ts hl
  cases hf.symm.trans h

/-! ## Tokens that cannot stand first, or after a name -/

theorem parse_reservedWord (text : Text) (line : Int) (ts : List Token) {limit : Nat} (h : 2 ≤ limit) :
    ∃ f, Abacus.parse (⟨.reservedWord, text, line⟩ :: ts) limit = .error f ∧
      f.Blames ⟨.reservedWord, text, line⟩ := by
  obtain ⟨room, rfl⟩ : ∃ r, limit = r + 2 := ⟨limit - 2, by omega⟩
  refine ⟨_, parse_of_error (reader_of_part_error .sums (reader_of_part_error .products rfl)), ?_⟩
  exact unexpectedFault_blames _

/-- After a name comes a sign, or the expression ends. -/
theorem parse_identifier_cons (text : Text) (line : Int) {t : Token} (hs : sign? .products t = none)
    (he : ends .products t = false) (ts : List Token) {limit : Nat} (h : 2 ≤ limit) :
    ∃ f, Abacus.parse (⟨.identifier, text, line⟩ :: t :: ts) limit = .error f ∧ f.Blames t := by
  obtain ⟨room, rfl⟩ : ∃ r, limit = r + 2 := ⟨limit - 2, by omega⟩
  have hname (p : Parser) : reader .factor room (p.facing (⟨.identifier, text, line⟩ :: t :: ts)).enter =
      (.ok (.variable text), p.enter.facing (t :: ts)) := by
    rw [facing_enter]
    exact readsWithin_identifier text line room (Nat.zero_le room) p.enter (t :: ts) trivial
  have hterm (p : Parser) := reader_of_part_ok .products (hname p.enter) hs he
  simp only [← facing_enter] at hterm
  exact ⟨_, parse_of_error (reader_of_part_error .sums (hterm _)), unexpectedFault_blames _⟩

end Abacus.Parser
