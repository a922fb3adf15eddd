import Abacus.Proofs.Parser.Language
import Abacus.Proofs.Parser.Returns

/-!
# Where an expression ends

Whatever the tokens and the state it is read from, an expression ends before a closing parenthesis or at the end of
the input. So a parse complains of what comes after an expression at a closing parenthesis only, and misses a closing
parenthesis at the end of the input only.
-/

namespace Abacus.Parser
open Grammar

/-! ## The token after an expression -/

theorem facing_current_cons (p : Parser) : p.facing (p.current :: p.rest) = p := rfl

theorem closes_of_expression {room : Nat} {p q : Parser} {e : Expr} (h : expression room p = (.ok e, q)) :
    closes q.current = true := by
  have ho := reader_outcome room .expression p (p.current :: p.rest)
  rw [facing_current_cons, reader, h] at ho
  cases ho with
  | @done _ vs _ _ _ follows => exact (ends_facing.mpr follows : ends .sums (p.facing vs).current = true)

/-! ## Faults within an expression -/

/-- The faults that a rule raises where the parser stands. -/
inductive Raised (q : Parser) : Fault → Prop
  | nesting : Raised q q.nestingFault
  | unexpected : Raised q q.unexpectedFault
  | number : Raised q q.numberFault
  | unclosed (ended : q.current.kind = .endOfInput) : Raised q q.unclosedFault

/-- Neither leaving a level nor raising the flag moves the parser. -/
theorem Raised.unmoved {q : Parser} {f : Fault} {depth : Nat} {failed : Bool} (h : Raised q f) :
    Raised { q with depth, failed } f := by
  cases h with
  | nesting => exact .nesting
  | unexpected => exact .unexpected
  | number => exact .number
  | unclosed ended => exact .unclosed ended

theorem factor_raises {room : Nat} (ih : ∀ p f q, expression room p = (.error f, q) → Raised q f) {p q : Parser}
    {f : Fault} (h : factor (expression room) p = (.error f, q)) : Raised q f := by
  unfold factor at h
  simp only [fail_eq] at h
  split at h
  · split at h
    · split at h
      · rename_i f' q' hi
        cases h
        exact ih _ _ _ hi
      · rename_i e q' hi
        split at h
        · cases h
        · rename_i hc
          cases h
          -- of the two ways in which the inner expression can end, the parenthesis is not this one
          rcases closes_eq_true.mp (closes_of_expression hi) with ⟨line, ht⟩ | ended
          · rw [ht] at hc
            exact absurd rfl hc
          · exact (Raised.unclosed ended).unmoved
    · cases h
      exact Raised.unexpected.unmoved
  · split at h
    · cases h
    · cases h
      exact Raised.number.unmoved
  · cases h
  · cases h
    exact Raised.unexpected.unmoved

theorem rule_raises (l : Precedence) {room : Nat}
    (part : ∀ p f q, reader l.part room p = (.error f, q) → Raised q f)
    (whole : ∀ p f q, reader l.whole room p = (.error f, q) → Raised q f) {p q : Parser} {f : Fault}
    (h : reader l.whole (room + 1) p = (.error f, q)) : Raised q f := by
  rw [reader_succ] at h
  simp only [fail_eq] at h
  split at h
  · rename_i f' q' hp
    cases h
    exact (part _ _ _ hp).unmoved
  · split at h
    · split at h
      · rename_i f' q' hw
        cases h
        exact (whole _ _ _ hw).unmoved
      · cases h
    · split at h
      · cases h
      · cases h
        exact Raised.unexpected.unmoved

theorem reader_raises (c : Phrase) (room : Nat) (p : Parser) (f : Fault) (q : Parser)
    (h : reader c room p = (.error f, q)) : Raised q f := by
  induction c, room using room_induction generalizing p f q with
  | zero l =>
      rw [reader_zero, fail_eq] at h
      cases h
      exact Raised.nesting.unmoved
  | factor room ih => exact factor_raises ih h
  | succ l room part whole => exact rule_raises l part whole h

/-! ## Messages -/

def trailingText : Text := " after expression"

def unclosedText : Text := "expected \")\" but found"

theorem getLast?_append_of_eq {m t : Text} {b : UInt8} (h : t.getLast? = some b) : (m ++ t).getLast? = some b := by
  rw [List.getLast?_append, h, Option.some_or]

theorem quoted_getLast? (t : Text) : t.quoted.getLast? = some 34 :=
  getLast?_append_of_eq (m := 34 :: (Text.runes t).flatMap (Quoted.escapeRune isPrintable)) rfl

theorem describe_getLast? (t : Token) : ∃ b, (describe t).getLast? = some b ∧ b ≠ 110 := by
  unfold describe
  split
  · exact ⟨116, rfl, by decide⟩
  · refine ⟨34, getLast?_append_of_eq ?_, by decide⟩
    exact getLast?_append_of_eq (m := [32]) (quoted_getLast? t.text)

/-- What is wrong within an expression is told in words that end otherwise than those for what comes after one. -/
theorem Raised.not_trailing {q : Parser} {f : Fault} (h : Raised q f) : ¬ trailingText <:+ f.message := by
  -- none of them ends with the last letter of the trailing text; most end with a quotation mark
  have hlast : ∃ b, f.message.getLast? = some b ∧ b ≠ 110 := by
    cases h with
    | nesting => exact ⟨100, rfl, by decide⟩
    | number => exact ⟨34, getLast?_append_of_eq (quoted_getLast? _), by decide⟩
    | unclosed _ =>
        obtain ⟨b, hb, hne⟩ := describe_getLast? q.current
        exact ⟨b, getLast?_append_of_eq hb, hne⟩
    | unexpected =>
        unfold unexpectedFault
        split
        · exact ⟨34, getLast?_append_of_eq (quoted_getLast? _), by decide⟩
        · obtain ⟨b, hb, hne⟩ := describe_getLast? q.current
          exact ⟨b, getLast?_append_of_eq hb, hne⟩
  obtain ⟨b, hb, hne⟩ := hlast
  rintro ⟨t, ht⟩
  have hn : f.message.getLast? = some 110 := ht ▸ getLast?_append_of_eq rfl
  exact hne (Option.some.inj (hb.symm.trans hn))

theorem getElem?_of_isPrefix {s m : Text} {b : UInt8} {i : Nat} (h : s <+: m) (hs : s[i]? = some b) :
    m[i]? = some b := by
  obtain ⟨t, rfl⟩ := h
  rw [List.getElem?_append_left (List.getElem?_eq_some_iff.mp hs).1, hs]

/-- A closing parenthesis is missed at the end of the input only. -/
theorem Raised.unclosed_of_isPrefix {q : Parser} {f : Fault} (h : Raised q f) (hp : unclosedText <+: f.message) :
    q.current.kind = .endOfInput ∧ f = q.unclosedFault := by
  have h0 : f.message[0]? = some 101 := getElem?_of_isPrefix hp rfl
  have h3 : f.message[3]? = some 101 := getElem?_of_isPrefix hp rfl
  cases h with
  | nesting => exact absurd (Option.some.inj h3) (by decide)
  | number => exact absurd (Option.some.inj h0) (by decide)
  | unclosed ended => exact ⟨ended, rfl⟩
  | unexpected =>
      unfold unexpectedFault at h0
      split at h0 <;> exact absurd (Option.some.inj h0) (by decide)

theorem unclosedFault_message {q : Parser} (ended : q.current.kind = .endOfInput) :
    q.unclosedFault.message = ("expected \")\" but found end of input" : Text) := by
  have hd : describe q.current = ("end of input" : Text) := if_pos ended
  rw [unclosedFault, hd]
  rfl

/-! ## Failing parses -/

/-- How a parse fails: within the expression, or at a closing parenthesis after a whole one. -/
inductive Fails (p : Parser) : Rejection → Parser → Prop
  | within {f : Fault} {q : Parser} (raised : Raised q f) : Fails p ⟨f, none⟩ q
  | after {us vs : List Token} {line : Int} {e : Expr} {q : Parser} (split : p.rest = us ++ ⟨.symbol, ")", line⟩ :: vs)
      (derives : Derives .expression us e) (here : q.current = ⟨.symbol, ")", line⟩) :
      Fails p ⟨q.trailingFault, some e⟩ q

theorem fails_of_parse {p q : Parser} {r : Rejection} (h : p.parse = (.error r, q)) : Fails p r q := by
  have ho := reader_outcome (p.limit - p.depth) .expression p p.rest
  have hr := reader_raises .expression (p.limit - p.depth) (p.facing p.rest)
  rw [parse_eq] at h
  generalize reader .expression (p.limit - p.depth) (p.facing p.rest) = x at ho hr h
  rcases x with ⟨f | e, q'⟩
  · cases h
    exact .within (hr f q rfl)
  · cases ho with
    | @done us vs _ split derives follows =>
        cases vs with
        | nil => cases h
        | cons t vs =>
            rcases closes_eq_true.mp (follows t rfl) with ⟨line, rfl⟩ | hk
            · have here : (p.facing (⟨.symbol, ")", line⟩ :: vs)).flagged.current = ⟨.symbol, ")", line⟩ := rfl
              cases h
              exact .after split derives here
            · simp only [facing_cons_current, hk] at h
              cases h

theorem trailingFault_message {q : Parser} {line : Int} (h : q.current = ⟨.symbol, ")", line⟩) :
    q.trailingFault.message = ("unexpected \")\" after expression" : Text) := by
  rw [trailingFault, h]
  rfl

theorem facing_failed (p : Parser) (ts : List Token) : (p.facing ts).failed = p.failed := by
  cases ts <;> rfl

/-- A parse raises the flag exactly where it fails. -/
theorem parse_failed (p : Parser) :
    p.parse.2.failed = true ↔ p.failed = true ∨ ∃ r, p.parse.1 = .error r := by
  have ho := reader_outcome (p.limit - p.depth) .expression p p.rest
  rw [parse_eq]
  generalize reader .expression (p.limit - p.depth) (p.facing p.rest) = x at ho
  cases ho with
  | @done us vs e _ _ _ =>
      simp only
      split
      · simp [facing_failed]
      · simp [flagged]
      · simp [flagged]
  | tooDeep _ _ => simp [facing_failed, flagged]
  | stuck _ _ _ _ => simp [facing_failed, flagged]

/-! ## The node beside a fault -/

/-- A result with the node that is handed back beside a fault. -/
abbrev Kept := Except Rejection Expr × Parser

def noNode (r : Except Fault Expr × Parser) : Kept := (r.1.mapError (⟨·, none⟩), r.2)

theorem noNode_ok (e : Expr) (q : Parser) : noNode (.ok e, q) = (.ok e, q) := rfl

/-- The node of a rejection is let go of. -/
def letGo (r : Rejection) : Rejection := ⟨r.fault, none⟩

/-- `factor`, where `inner` may hand back a node beside its fault. -/
def factorKeeping (inner : Parser → Kept) (p : Parser) : Kept :=
  match p.current.kind with
  | .symbol =>
    if p.current.text = ("(" : Text) then
      match inner p.advance with
      | (.error r, q) => (.error (letGo r), q)
      | (.ok e, q) => if q.current.is .symbol ")" then (.ok e, q.advance) else noNode (q.fail q.unclosedFault)
    else noNode (p.fail p.unexpectedFault)
  | .number =>
    match Numeral.float p.current.text with
    | .ok x => (.ok (.number x), p.advance)
    | .error _ => noNode (p.fail p.numberFault)
  | .identifier => (.ok (.variable p.current.text), p.advance)
  | _ => noNode (p.fail p.unexpectedFault)

/-- A phrase of either level. What its first part hands back beside a fault is handed on. -/
def levelKeeping (l : Precedence) (part whole : Parser → Kept) (p : Parser) : Kept :=
  match part p.enter with
  | (.error r, q) => (.error r, q.leave)
  | (.ok left, q) =>
    match sign? l q.current with
    | some op =>
      match whole q.advance with
      | (.error r, q) => (.error (letGo r), q.leave)
      | (.ok right, q) => (.ok (.binary op left right), q.leave)
    | none => if ends l q.current then (.ok left, q.leave) else noNode (q.leave.fail q.unexpectedFault)

mutual

def expressionKeeping : Nat → Parser → Kept
  | 0 => fun p => noNode (p.enter.fail p.nestingFault)
  | room + 1 => levelKeeping .sums (termKeeping room) (expressionKeeping room)

def termKeeping : Nat → Parser → Kept
  | 0 => fun p => noNode (p.enter.fail p.nestingFault)
  | room + 1 => levelKeeping .products (factorKeeping (expressionKeeping room)) (termKeeping room)

end

def readerKeeping : Phrase → Nat → Parser → Kept
  | .expression, room => expressionKeeping room
  | .term, room => termKeeping room
  | .factor, room => factorKeeping (expressionKeeping room)

/-- `parse`, with the node of a failing expression handed on. -/
def parseKeeping (p : Parser) : Kept :=
  match expressionKeeping (p.advance.limit - p.advance.depth) p.advance with
  | (.error r, q) => (.error r, q)
  | (.ok e, q) =>
    match q.current.kind with
    | .endOfInput => (.ok e, q)
    | .unknown => (.error ⟨q.unexpectedFault, some e⟩, q.flagged)
    | _ => (.error ⟨q.trailingFault, some e⟩, q.flagged)

theorem factorKeeping_eq {room : Nat} (ih : ∀ p, expressionKeeping room p = noNode (expression room p)) (p : Parser) :
    factorKeeping (expressionKeeping room) p = noNode (factor (expression room) p) := by
  unfold factorKeeping factor
  cases p.current.kind with
  | symbol =>
      by_cases ht : p.current.text = ("(" : Text)
      · simp only [ht, ↓reduceIte, ih]
        rcases expression room p.advance with ⟨f | e, q⟩
        · rfl
        · simp only [noNode_ok]
          split <;> rfl
      · simp only [ht, ↓reduceIte]
  | number => cases Numeral.float p.current.text <;> rfl
  | identifier => rfl
  | endOfInput | reservedWord | operator | unknown | other _ => rfl

theorem levelKeeping_eq (l : Precedence) {room : Nat}
    (part : ∀ p, readerKeeping l.part room p = noNode (reader l.part room p))
    (whole : ∀ p, readerKeeping l.whole room p = noNode (reader l.whole room p)) (p : Parser) :
    levelKeeping l (readerKeeping l.part room) (readerKeeping l.whole room) p =
      noNode (reader l.whole (room + 1) p) := by
  rw [reader_succ, levelKeeping, part]
  rcases reader l.part room p.enter with ⟨f | x, q⟩
  · rfl
  · simp only [noNode_ok]
    cases sign? l q.current with
    | some op =>
        simp only [whole]
        rcases reader l.whole room q.advance with ⟨f | y, q'⟩ <;> rfl
    | none =>
        simp only
        split <;> rfl

theorem readerKeeping_eq (c : Phrase) (room : Nat) (p : Parser) :
    readerKeeping c room p = noNode (reader c room p) := by
  induction c, room using room_induction generalizing p with
  | zero l => cases l <;> rfl
  | factor room ih => exact factorKeeping_eq ih p
  | succ l room part whole =>
      have hl : readerKeeping l.whole (room + 1) =
          levelKeeping l (readerKeeping l.part room) (readerKeeping l.whole room) := by
        cases l <;> rfl
      rw [hl]
      exact levelKeeping_eq l part whole p

theorem parseKeeping_eq (p : Parser) : p.parseKeeping = p.parse := by
  have he (room : Nat) (q : Parser) : expressionKeeping room q = noNode (expression room q) :=
    readerKeeping_eq .expression room q
  rw [parseKeeping, parse, he]
  rcases expression (p.advance.limit - p.advance.depth) p.advance with ⟨f | e, q⟩ <;> rfl

/-! ## The ways out -/

/-- An expression that is read leaves a closing parenthesis or the end of the input ahead, so a parse never finds a
token of unknown kind after it. Where a parse complains of what comes after an expression, that is a closing
parenthesis, and the node beside the fault is the tree of all the tokens before. Beside every other fault there is none,
also by the rules that hand on the node they hold. A closing parenthesis is missed at the end of the input only. A fresh
parser is flagged exactly where its parse fails. -/
theorem expression_exits (p : Parser) :
    (∀ room e q, expression room p = (.ok e, q) →
      (∃ line, q.current = ⟨.symbol, ")", line⟩) ∨ q.current.kind = .endOfInput) ∧
    (∀ e q, expression (p.advance.limit - p.advance.depth) p.advance = (.ok e, q) → q.current.kind ≠ .unknown) ∧
    (∀ r q, p.parse = (.error r, q) → trailingText <:+ r.fault.message →
      (∃ line, q.current = ⟨.symbol, ")", line⟩) ∧ r.fault.message = "unexpected \")\" after expression" ∧
      ∃ us line vs e, p.rest = us ++ ⟨.symbol, ")", line⟩ :: vs ∧ r.tree = some e ∧ Derives .expression us e) ∧
    (∀ r q, p.parse = (.error r, q) → ¬ trailingText <:+ r.fault.message → r.tree = none) ∧
    p.parseKeeping = p.parse ∧
    (∀ r q, p.parse = (.error r, q) → unclosedText <+: r.fault.message →
      q.current.kind = .endOfInput ∧ r.fault.message = "expected \")\" but found end of input") ∧
    (∀ ts limit, (start ts limit).parse.2.failed = true ↔ ∃ r, (start ts limit).parse.1 = .error r) := by
  refine ⟨fun room e q h => closes_eq_true.mp (closes_of_expression h), ?_, ?_, ?_, parseKeeping_eq p, ?_, ?_⟩
  · intro e q h hk
    rcases closes_eq_true.mp (closes_of_expression h) with ⟨line, ht⟩ | ended
    · rw [ht] at hk
      cases hk
    · cases hk.symm.trans ended
  · intro r q h htrailing
    cases fails_of_parse h with
    | within raised => exact absurd htrailing raised.not_trailing
    | @after us vs line e _ split derives here =>
        exact ⟨⟨line, here⟩, trailingFault_message here, us, line, vs, e, split, rfl, derives⟩
  · intro r q h hother
    cases fails_of_parse h with
    | within _ => rfl
    | after _ _ here =>
        refine absurd ?_ hother
        rw [trailingFault_message here]
        decide
  · intro r q h hunclosed
    cases fails_of_parse h with
    | within raised =>
        obtain ⟨ended, hf⟩ := raised.unclosed_of_isPrefix hunclosed
        exact ⟨ended, hf ▸ unclosedFault_message ended⟩
    | after _ _ here =>
        rw [trailingFault_message here] at hunclosed
        exact absurd hunclosed (by decide)
  · intro ts limit
    rw [parse_failed]
    exact ⟨fun h => h.resolve_left Bool.false_ne_true, .inr⟩

example : ∃ f, (start [⟨.identifier, "x", 1⟩, ⟨.symbol, ")", 2⟩, ⟨.number, "1", 2⟩] 6).parse.1 =
    .error ⟨f, some (.variable "x")⟩ :=
  ⟨_, rfl⟩

end Abacus.Parser
