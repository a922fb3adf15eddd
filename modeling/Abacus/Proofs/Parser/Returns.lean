import Abacus.Proofs.Expr.Arithmetic
import Abacus.Proofs.Parser.Outcome

/-!
# What the parser can return

Whatever the tokens and the state it starts from, a rule returns an arithmetic tree that is no higher than the
levels it had left to open, or one of the faults that the parser reports, each of them with a line.
-/

namespace Abacus.Parser
open Grammar

/-! ## Faults -/

/-- The faults of the parser. -/
inductive Reported : Fault → Prop
  | nesting (p : Parser) : Reported p.nestingFault
  | unexpected (p : Parser) : Reported p.unexpectedFault
  | unclosed (p : Parser) : Reported p.unclosedFault
  | number (p : Parser) : Reported p.numberFault
  | trailing (p : Parser) : Reported p.trailingFault

theorem faultAt_line (p : Parser) (code : Code) (m : Text) :
    (p.faultAt code m).context.find? Fault.lineKey = some (.int p.current.line) := by
  simp [faultAt]

theorem Reported.line {f : Fault} (h : Reported f) :
    ∃ line : Int, f.context.find? Fault.lineKey = some (.int line) := by
  cases h with
  | nesting p => exact ⟨p.current.line, by simp [nestingFault]⟩
  | unexpected p => exact ⟨_, (unexpectedFault_blames p).line⟩
  | unclosed p => exact ⟨_, faultAt_line p _ _⟩
  | number p => exact ⟨_, faultAt_line p _ _⟩
  | trailing p => exact ⟨_, faultAt_line p _ _⟩

theorem Reported.code {f : Fault} (h : Reported f) : f.code = .lexical ∨ f.code = .syntactic := by
  cases h with
  | nesting p => exact .inr rfl
  | unexpected p =>
      rw [(unexpectedFault_blames p).code]
      split
      · exact .inl rfl
      · exact .inr rfl
  | unclosed p => exact .inr rfl
  | number p => exact .inr rfl
  | trailing p => exact .inr rfl

/-! ## Rules -/

/-- Induction along the calls of the rules: a phrase of either level is read with less room for its parts, and a
factor with the same room for what stands in its parentheses. -/
theorem room_induction {motive : Phrase → Nat → Prop} (zero : ∀ l : Precedence, motive l.whole 0)
    (factor : ∀ room, motive .expression room → motive .factor room)
    (succ : ∀ (l : Precedence) room, motive l.part room → motive l.whole room → motive l.whole (room + 1))
    (c : Phrase) (room : Nat) : motive c room := by
  induction room generalizing c with
  | zero =>
      cases c with
      | expression => exact zero .sums
      | term => exact zero .products
      | factor => exact factor 0 (zero .sums)
  | succ room ih =>
      cases c with
      | expression => exact succ .sums room (ih .term) (ih .expression)
      | term => exact succ .products room (ih .factor) (ih .term)
      | factor => exact factor (room + 1) (succ .sums room (ih .term) (ih .expression))

/-- How high a tree can be that a rule reads with `room` levels left to open. -/
def highest : Phrase → Nat → Nat
  | .expression, room => room
  | .term, room => room
  | .factor, room => max 1 room

/-- What a rule with `room` levels left can return. -/
inductive Returns (c : Phrase) (room : Nat) : Except Fault Expr → Prop
  | tree {e : Expr} (arithmetic : e.Arithmetic) (depth : e.depth ≤ highest c room) : Returns c room (.ok e)
  | fault {f : Fault} (reported : Reported f) : Returns c room (.error f)

theorem mem_arithmeticOperators {l : Precedence} {t : Token} {op : Operator} (h : l.Sign t op) :
    op ∈ arithmeticOperators := by
  cases l <;> cases h <;> decide

theorem factor_returns {room : Nat} {inner : Parser → Except Fault Expr × Parser}
    (ih : ∀ p, Returns .expression room (inner p).1) (p : Parser) : Returns .factor room (factor inner p).1 := by
  unfold factor
  split
  · split
    · have h := ih p.advance
      generalize inner p.advance = r at h ⊢
      rcases r with ⟨f | e, q⟩
      · cases h with
        | fault hf => exact .fault hf
      · cases h with
        | tree ha hd =>
            simp only
            split
            · exact .tree ha (Nat.le_trans hd (Nat.le_max_right 1 room))
            · exact .fault (.unclosed q)
    · exact .fault (.unexpected p)
  · split
    · exact .tree (.number _) (Nat.le_max_left 1 room)
    · exact .fault (.number p)
  · exact .tree (.named _) (Nat.le_max_left 1 room)
  · exact .fault (.unexpected p)

theorem rule_returns (l : Precedence) {room : Nat} (part : ∀ p, Returns l.part room (reader l.part room p).1)
    (whole : ∀ p, Returns l.whole room (reader l.whole room p).1) (p : Parser) :
    Returns l.whole (room + 1) (reader l.whole (room + 1) p).1 := by
  have hh : highest l.whole (room + 1) = room + 1 := by cases l <;> rfl
  have hp : highest l.part room ≤ max 1 room := by cases l <;> simp only [highest, Precedence.part] <;> omega
  have hl := part p.enter
  rw [reader_succ]
  generalize reader l.part room p.enter = r at hl ⊢
  rcases r with ⟨f | x, q⟩
  · cases hl with
    | fault hf => exact .fault hf
  · cases hl with
    | tree hx hxd =>
        simp only
        split
        · rename_i op hs
          have hr := whole q.advance
          cases room with
          | zero =>
              rw [reader_zero]
              exact .fault (.nesting _)
          | succ room =>
              have hw : highest l.whole (room + 1) = room + 1 := by cases l <;> rfl
              generalize reader l.whole (room + 1) q.advance = r at hr ⊢
              rcases r with ⟨f | y, q'⟩
              · cases hr with
                | fault hf => exact .fault hf
              · cases hr with
                | tree hy hyd =>
                    refine .tree (.binary (mem_arithmeticOperators (sign?_eq_some.mp hs)) hx hy) ?_
                    simp only [Expr.depth]
                    omega
        · split
          · exact .tree hx (by omega)
          · exact .fault (.unexpected q)

theorem reader_returns (c : Phrase) (room : Nat) (p : Parser) : Returns c room (reader c room p).1 := by
  induction c, room using room_induction generalizing p with
  | zero l =>
      rw [reader_zero]
      exact .fault (.nesting p)
  | factor room ih => exact factor_returns ih p
  | succ l room part whole => exact rule_returns l part whole p

/-! ## Whole inputs -/

theorem advance_room (p : Parser) : p.advance.limit - p.advance.depth = p.limit - p.depth := by
  unfold advance
  split <;> rfl

theorem parse_eq (p : Parser) :
    p.parse =
      match reader .expression (p.limit - p.depth) (p.facing p.rest) with
      | (.error f, q) => (.error ⟨f, none⟩, q)
      | (.ok e, q) =>
        match q.current.kind with
        | .endOfInput => (.ok e, q)
        | .unknown => (.error ⟨q.unexpectedFault, some e⟩, q.flagged)
        | _ => (.error ⟨q.trailingFault, some e⟩, q.flagged) := by
  rw [parse, advance_room]
  rfl

/-- A parse returns an arithmetic tree within the limit, or a fault of the parser. -/
theorem parse_returns (p : Parser) :
    Returns .expression (p.limit - p.depth) (p.parse.1.mapError Rejection.fault) := by
  have hr : Returns .expression (p.limit - p.depth) (expression (p.limit - p.depth) p.advance).1 :=
    reader_returns .expression _ p.advance
  simp only [parse, advance_room]
  generalize expression (p.limit - p.depth) p.advance = r at hr ⊢
  rcases r with ⟨f | e, q⟩
  · exact hr
  · simp only
    split
    · exact hr
    · exact .fault (.unexpected q)
    · exact .fault (.trailing q)

theorem arithmetic_of_parse {p : Parser} {e : Expr} (h : p.parse.1 = .ok e) :
    e.Arithmetic ∧ e.depth ≤ p.limit - p.depth := by
  have hr := parse_returns p
  rw [h] at hr
  cases hr with
  | tree ha hd => exact ⟨ha, hd⟩

end Abacus.Parser
