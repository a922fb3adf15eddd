import Abacus.Proofs.Parser.Language
import Abacus.Proofs.Parser.Returns

/-!
# Tokens of one line

A parser whose tokens are all on one line stands on that line for ever, so whatever it refuses its input for, the fault
is on that line.
-/

namespace Abacus.Parser
open Grammar

/-- Everything ahead is on one line. -/
structure OnLine (line : Int) (p : Parser) : Prop where
  rest : ∀ t ∈ p.rest, t.line = line
  endLine : p.endLine = line
  current : p.current.line = line

/-- How a rule ends that stays on one line. -/
inductive EndsOn (line : Int) : Except Fault Expr × Parser → Prop
  | tree {e : Expr} {p : Parser} (onLine : OnLine line p) : EndsOn line (.ok e, p)
  | fault {f : Fault} {p : Parser} (place : f.context.find? Fault.lineKey = some (.int line)) :
      EndsOn line (.error f, p)

section
variable {line : Int} {p : Parser}

theorem OnLine.advance (h : OnLine line p) : OnLine line p.advance := by
  unfold Parser.advance
  split
  · rename_i t rest hr
    have hrest := h.rest
    rw [hr] at hrest
    obtain ⟨ht, hrest⟩ := List.forall_mem_cons.mp hrest
    exact ⟨hrest, h.endLine, ht⟩
  · exact ⟨h.rest, h.endLine, h.endLine⟩

theorem OnLine.enter (h : OnLine line p) : OnLine line p.enter := ⟨h.rest, h.endLine, h.current⟩

theorem OnLine.leave (h : OnLine line p) : OnLine line p.leave := ⟨h.rest, h.endLine, h.current⟩

theorem OnLine.faultAt (h : OnLine line p) (code : Code) (m : Text) :
    (p.faultAt code m).context.find? Fault.lineKey = some (.int line) := by
  rw [faultAt_line, h.current]

theorem OnLine.unexpectedFault (h : OnLine line p) :
    p.unexpectedFault.context.find? Fault.lineKey = some (.int line) := by
  rw [(unexpectedFault_blames p).line, h.current]

theorem OnLine.nestingFault (h : OnLine line p) : p.nestingFault.context.find? Fault.lineKey = some (.int line) := by
  simp [Parser.nestingFault, h.current]

/-! ## Rules -/

theorem factor_endsOn {inner : Parser → Except Fault Expr × Parser}
    (ih : ∀ p, OnLine line p → EndsOn line (inner p)) (h : OnLine line p) : EndsOn line (factor inner p) := by
  unfold factor
  split
  · split
    · have hi := ih p.advance h.advance
      generalize inner p.advance = r at hi ⊢
      cases hi with
      | fault place => exact .fault place
      | tree onLine =>
          simp only
          split
          · exact .tree onLine.advance
          · exact .fault (onLine.faultAt _ _)
    · exact .fault h.unexpectedFault
  · split
    · exact .tree h.advance
    · exact .fault (h.faultAt _ _)
  · exact .tree h.advance
  · exact .fault h.unexpectedFault

theorem rule_endsOn (l : Precedence) {room : Nat}
    (part : ∀ p, OnLine line p → EndsOn line (reader l.part room p))
    (whole : ∀ p, OnLine line p → EndsOn line (reader l.whole room p)) (h : OnLine line p) :
    EndsOn line (reader l.whole (room + 1) p) := by
  have hl := part p.enter h.enter
  rw [reader_succ]
  generalize reader l.part room p.enter = r at hl ⊢
  cases hl with
  | fault place => exact .fault place
  | @tree x q onLine =>
      simp only
      split
      · have hr := whole q.advance onLine.advance
        generalize reader l.whole room q.advance = r at hr ⊢
        cases hr with
        | fault place => exact .fault place
        | tree onLine => exact .tree onLine.leave
      · split
        · exact .tree onLine.leave
        · exact .fault onLine.unexpectedFault

theorem reader_endsOn (c : Phrase) (room : Nat) (h : OnLine line p) : EndsOn line (reader c room p) := by
  induction c, room using room_induction generalizing p with
  | zero l =>
      rw [reader_zero]
      exact .fault h.nestingFault
  | factor room ih => exact factor_endsOn (fun _ => ih) h
  | succ l room part whole => exact rule_endsOn l (fun _ => part) (fun _ => whole) h

end

/-! ## Whole inputs -/

theorem onLine_start {ts : List Token} (h : ∀ t ∈ ts, t.line = 1) (limit : Nat) :
    OnLine 1 ((start ts limit).facing ts) := by
  have he : ((ts.getLast?.map Token.line).getD 1) = 1 := by
    cases hl : ts.getLast? with
    | none => rfl
    | some t => exact h t (List.mem_of_getLast? hl)
  cases ts with
  | nil => exact ⟨h, he, he⟩
  | cons t ts => exact ⟨(List.forall_mem_cons.mp h).2, he, (List.forall_mem_cons.mp h).1⟩

theorem line_of_parse_error {ts : List Token} (h : ∀ t ∈ ts, t.line = 1) {limit : Nat} {f : Fault}
    (hf : Abacus.parse ts limit = .error f) : f.context.find? Fault.lineKey = some (.int 1) := by
  have hr := reader_endsOn .expression limit (onLine_start h limit)
  rw [Abacus.parse, parse_start] at hf
  generalize reader .expression limit ((start ts limit).facing ts) = r at hr hf
  cases hr with
  | fault place =>
      cases hf
      exact place
  | tree onLine =>
      simp only at hf
      split at hf
      · cases hf
      · cases hf
        exact onLine.unexpectedFault
      · cases hf
        exact onLine.faultAt _ _

end Abacus.Parser
