import Abacus.Proofs.Parser.Exit
import Abacus.Proofs.Parser.Limit

/-!
# One parser called again

A call of a parser goes on where the one before it stopped. Every level that a call opens is closed by its end, but for
one that the nesting limit refused: each call that the limit stopped leaves one level open, and the next call has one
level less. Apart from the levels a parser called again does as a fresh one on the tokens that are left.
-/

namespace Abacus.Parser

/-! ## Answers -/

/-- The nesting limit stopped the call. -/
def stopped : Except Rejection Expr → Bool
  | .ok _ => false
  | .error r => r.fault.message == ("expression too deeply nested" : Text)

theorem stopped_eq_true_iff {x : Except Rejection Expr} :
    stopped x = true ↔ ∃ r, x = .error r ∧ r.fault.IsNesting := by
  constructor
  · intro h
    cases x with
    | ok e => cases h
    | error r => exact ⟨r, rfl, eq_of_beq h⟩
  · rintro ⟨r, rfl, hn⟩
    exact beq_iff_eq.mpr hn

theorem stopped_eq_false {r : Rejection} (h : ¬ r.fault.IsNesting) : stopped (.error r) = false :=
  beq_eq_false_iff_ne.mpr h

/-- The node and the error code that a call hands back. -/
def verdict : Except Rejection Expr → Option Expr × Option Code
  | .ok e => (some e, none)
  | .error r => (r.tree, some r.fault.code)

theorem Raised.eq_nestingFault {q : Parser} {f : Fault} (h : Raised q f) (hn : f.IsNesting) : f = q.nestingFault := by
  cases h with
  | nesting => rfl
  | unexpected => exact absurd hn (unexpectedFault_not_isNesting q)
  | number => exact absurd hn (numberFault_not_isNesting q)
  | unclosed _ => exact absurd hn (unclosedFault_not_isNesting q)

theorem not_isNesting_of_blames {q : Parser} {f : Fault} {t : Token} (h : Raised q f) (hb : f.Blames t) :
    ¬ f.IsNesting := by
  intro hn
  -- a refused level is told without the token
  have hnone : q.nestingFault.context.find? Fault.tokenKey = none := rfl
  rw [← h.eq_nestingFault hn, hb.token] at hnone
  cases hnone

/-! ## One call -/

/-- What a call hands back, and the parser after it: every level is closed, or one of them was refused and is open. -/
inductive Call (p : Parser) : Except Rejection Expr × Parser → Prop
  | balanced {us vs : List Token} {x : Except Rejection Expr} (failed : Bool) (split : p.rest = us ++ vs)
      (free : stopped x = false) : Call p (x, { p.facing vs with failed })
  | refused {us vs : List Token} {f : Fault} (split : p.rest = us ++ vs) (nesting : f.IsNesting)
      (code : f.code = .syntactic) : Call p (.error ⟨f, none⟩, p.enter.flagged.facing vs)

theorem call_parse (p : Parser) : Call p p.parse := by
  have ho := reader_outcome (p.limit - p.depth) .expression p p.rest
  have hr := reader_raises .expression (p.limit - p.depth) (p.facing p.rest)
  rw [parse_eq]
  generalize reader .expression (p.limit - p.depth) (p.facing p.rest) = x at ho hr ⊢
  cases ho with
  | @done us vs e split _ _ =>
      have hfree : p.facing vs = { p.facing vs with failed := p.failed } := by cases vs <;> rfl
      simp only
      split
      · rw [hfree]
        exact .balanced p.failed split rfl
      · exact .balanced true split (stopped_eq_false (unexpectedFault_not_isNesting _))
      · exact .balanced true split (stopped_eq_false (trailingFault_not_isNesting _))
  | tooDeep split nesting => exact .refused split nesting ((hr _ _ rfl).eq_nestingFault nesting ▸ rfl)
  | @stuck us vs f split blames _ _ =>
      have hstuck : p.flagged.facing vs = { p.facing vs with failed := true } := by cases vs <;> rfl
      have hn := not_isNesting_of_blames (hr f _ rfl) blames
      simp only
      rw [hstuck]
      exact .balanced true split (stopped_eq_false hn)

theorem verdict_of_stopped {p : Parser} (h : stopped p.parse.1 = true) :
    verdict p.parse.1 = (none, some .syntactic) := by
  have hc := call_parse p
  generalize p.parse = x at h hc ⊢
  cases hc with
  | balanced _ _ free => exact absurd h (Bool.eq_false_iff.mp free)
  | refused _ _ code => exact Prod.ext rfl (congrArg some code)

theorem depth_parse (p : Parser) : p.parse.2.depth = p.depth + if stopped p.parse.1 then 1 else 0 := by
  have hc := call_parse p
  generalize p.parse = x at hc ⊢
  cases hc with
  | @balanced us vs y failed _ free =>
      rw [free]
      cases vs <;> rfl
  | @refused us vs f _ nesting _ =>
      rw [stopped_eq_true_iff.mpr ⟨_, rfl, nesting⟩]
      cases vs <;> rfl

/-! ## Many calls -/

/-- The answers of `n` calls, one after another, and the parser after them. -/
def calls : Nat → Parser → List (Except Rejection Expr) × Parser
  | 0, p => ([], p)
  | n + 1, p => (p.parse.1 :: (calls n p.parse.2).1, (calls n p.parse.2).2)

theorem depth_calls (n : Nat) (p : Parser) : (calls n p).2.depth = p.depth + (calls n p).1.countP stopped := by
  induction n generalizing p with
  | zero => rfl
  | succ n ih =>
      rw [calls, ih, depth_parse, List.countP_cons]
      omega

/-- The parser was started on `ts` with the limit `m`, and has gone on from there. -/
structure Along (ts : List Token) (m : Nat) (p : Parser) : Prop where
  rest : p.rest <:+ ts
  endLine : p.endLine = (start ts m).endLine
  limit : p.limit = m

theorem along_start (ts : List Token) (m : Nat) : Along ts m (start ts m) := ⟨List.suffix_refl ts, rfl, rfl⟩

section
variable {ts : List Token} {m : Nat} {p : Parser} (h : Along ts m p)
include h

theorem Along.facing {us vs : List Token} (split : p.rest = us ++ vs) : Along ts m (p.facing vs) := by
  have hvs : vs <:+ p.rest := ⟨us, split.symm⟩
  cases vs with
  | nil => exact ⟨List.nil_suffix, h.endLine, h.limit⟩
  | cons t vs => exact ⟨(List.suffix_cons t vs).trans (hvs.trans h.rest), h.endLine, h.limit⟩

theorem Along.parse : Along ts m p.parse.2 := by
  have hc := call_parse p
  generalize p.parse = x at hc ⊢
  cases hc with
  | balanced _ split _ =>
      obtain ⟨hrest, hends, hlimit⟩ := h.facing split
      exact ⟨hrest, hends, hlimit⟩
  | refused split _ _ =>
      have hopen : Along ts m p.enter.flagged := ⟨h.rest, h.endLine, h.limit⟩
      exact hopen.facing split

theorem Along.calls (n : Nat) : Along ts m (calls n p).2 := by
  induction n generalizing p with
  | zero => exact h
  | succ n ih => exact ih h.parse

/-- The end of the input is where it was for the parser at its start. -/
theorem Along.alike (hne : p.rest ≠ []) (k : Nat) : Alike (p.facing p.rest) ((start p.rest k).facing p.rest) := by
  have hends : p.endLine = (start p.rest k).endLine := by
    obtain ⟨us, hus⟩ := h.rest
    rw [h.endLine, start, start, ← hus, List.getLast?_append, List.getLast?_eq_some_getLast hne, Option.some_or]
  generalize start p.rest k = q at hends ⊢
  cases p.rest with
  | nil => exact ⟨rfl, hends, congrArg Token.eof hends⟩
  | cons t rest => exact ⟨rfl, hends, rfl⟩

theorem Along.parse_eq_start (hne : p.rest ≠ []) : p.parse.1 = (start p.rest (m - p.depth)).parse.1 := by
  refine parse_congr ?_
  rw [h.limit]
  exact reader_alike .expression _ _ _ (h.alike hne _)

end

theorem verdict_of_nil {p : Parser} (h : p.rest = []) : verdict p.parse.1 = (none, some .syntactic) := by
  rw [parse_eq, h]
  rcases p.limit - p.depth with _ | _ | room <;> rfl

/-- Where nothing is left, a call has the same verdict under every limit and wherever the input ends. -/
theorem verdict_eq_start {p : Parser} {k : Nat} (h : p.rest ≠ [] → p.parse.1 = (start p.rest k).parse.1) :
    verdict p.parse.1 = verdict (start p.rest k).parse.1 := by
  by_cases hne : p.rest = []
  · have hfresh : (start p.rest k).rest = [] := hne
    rw [verdict_of_nil hne, verdict_of_nil hfresh]
  · rw [h hne]

/-- A parse that a limit does not stop comes to the same under a higher one. -/
theorem parse_of_not_stopped {ts : List Token} {m m' : Nat} (hm : m ≤ m') (h : stopped (start ts m).parse.1 = false) :
    (start ts m').parse.1 = (start ts m).parse.1 := by
  refine parse_mono hm fun hd => ?_
  rw [stopped_eq_true_iff.mpr (parse_isNesting_iff.mpr hd)] at h
  cases h

theorem Along.verdict_of_not_stopped {ts : List Token} {m : Nat} {p : Parser} (h : Along ts m p)
    (hfree : stopped p.parse.1 = false) : verdict p.parse.1 = verdict (start p.rest m).parse.1 := by
  refine verdict_eq_start fun hne => ?_
  rw [h.parse_eq_start hne] at hfree ⊢
  exact (parse_of_not_stopped (Nat.sub_le m p.depth) hfree).symm

theorem stopped_of_limit_le {p : Parser} (h : p.limit ≤ p.depth) : stopped p.parse.1 = true := by
  rw [parse_eq, Nat.sub_eq_zero_of_le h]
  rfl

/-- Calls of one parser, one after another. As many levels are open after them as calls were stopped by the limit. The
next call hands back the node and the error code of a fresh parser on the tokens that are left, whose limit is lower by
the open levels. So it differs from a fresh parser with the same limit exactly where the limit stops it while the fresh
one comes to something else than a syntax error without a node. Once as many calls were stopped as the limit has levels,
every call is stopped. -/
theorem calls_leave_refused_levels (ts : List Token) (m n : Nat) :
    let answers := (calls n (start ts m)).1
    let p := (calls n (start ts m)).2
    let fresh := start p.rest m
    p.rest <:+ ts ∧ p.depth = answers.countP stopped ∧
      verdict p.parse.1 = verdict (start p.rest (m - p.depth)).parse.1 ∧
      (verdict p.parse.1 = verdict fresh.parse.1 ↔
        (stopped p.parse.1 = true → verdict fresh.parse.1 = (none, some .syntactic))) ∧
      ((∀ x ∈ answers, stopped x = false) → p.depth = 0 ∧ verdict p.parse.1 = verdict fresh.parse.1) ∧
      (m ≤ p.depth → stopped p.parse.1 = true) := by
  dsimp only
  have hdepth := depth_calls n (start ts m)
  have h := (along_start ts m).calls n
  generalize calls n (start ts m) = c at hdepth h ⊢
  obtain ⟨answers, p⟩ := c
  have hopen : p.depth = answers.countP stopped := hdepth.trans (Nat.zero_add _)
  have hverdict := verdict_eq_start h.parse_eq_start
  refine ⟨h.rest, hopen, hverdict, ?_, fun hall => ?_, fun hm => stopped_of_limit_le (h.limit ▸ hm)⟩
  · cases hs : stopped p.parse.1 with
    | true =>
        rw [verdict_of_stopped hs]
        exact ⟨fun he _ => he.symm, fun he => (he rfl).symm⟩
    | false => exact ⟨fun _ hc => absurd hc Bool.false_ne_true, fun _ => h.verdict_of_not_stopped hs⟩
  · have hzero : p.depth = 0 := hopen.trans (List.countP_eq_zero.mpr fun x hx => by simp [hall x hx])
    rw [hzero, Nat.sub_zero] at hverdict
    exact ⟨hzero, hverdict⟩

/-- A level refused by a limit of two stays open, so that a name that a fresh parser reads is refused as well. -/
theorem refusedLevel_refuses_name :
    let p := (start [⟨.symbol, "(", 1⟩, ⟨.identifier, "x", 1⟩, ⟨.identifier, "x", 1⟩] 2).parse.2
    p.depth = 1 ∧ p.rest = [⟨.identifier, "x", 1⟩] ∧ verdict p.parse.1 = (none, some .syntactic) ∧
      verdict (start p.rest 2).parse.1 = (some (.variable "x"), none) :=
  ⟨rfl, rfl, rfl, rfl⟩

end Abacus.Parser
