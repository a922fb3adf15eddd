import Abacus.Proofs.Assignment
import Abacus.Proofs.Parser.Opening
import Abacus.Proofs.Run.Composition

/-!
# Reading back what a run has bound

Names are recognised twice: in front of an equals sign by their bytes alone, and in an expression by the scanner, which
knows the reserved words first. A statement that is nothing but the name of a variable therefore gives the value of the
variable unless the name is a reserved word, which can be assigned and never be read.
-/

namespace Abacus

/-! ## Names as statements -/

section
variable {n : Text} (h : Automaton.identifier.accepts n = true)
include h

theorem isStatement_of_identifier : IsStatement n := by
  obtain ⟨hbytes, b, rest, hn, _⟩ := Automaton.accepts_identifier_iff.mp h
  refine ⟨by simp [hn], Text.trim_eq_self fun c hc => ?_, fun b hb => ?_, fun b hb he => ?_⟩
  · exact not_isSpace_of_isLexemeChar (isLexemeChar_of_mem_chars (isLexemeChar_of_identifier h) c hc)
  · refine Bool.eq_false_iff.mpr fun hs => ?_
    simp only [separates, Bool.or_eq_true, beq_iff_eq] at hs
    rcases hs with rfl | rfl <;> exact absurd (hbytes _ hb) (by decide)
  · subst he
    exact absurd (hbytes _ hb) (by decide)

theorem tokenize_of_identifier : tokenize n = [Scanner.tokenOn 1 n] := by
  rw [tokenize_of_notMem (isStatement_of_identifier h).newline_notMem, words_of_identifier h]
  rfl

theorem valueOf_identifier (limit : Nat) (env : Environment) :
    valueOf limit env n = (parse [Scanner.tokenOn 1 n] limit).bind (·.eval env) := by
  rw [valueOf, ofText_of_identifier h, tokenize_of_identifier h]
  rfl

end

section
variable {n : Text} {limit : Nat} (hl : 2 ≤ limit) (env : Environment)
include hl

theorem valueOf_reservedWord (h : n ∈ reservedWords) :
    ∃ f, valueOf limit env n = .error f ∧ f.Blames ⟨.reservedWord, n, 1⟩ := by
  obtain ⟨f, hf, hb⟩ := Parser.parse_reservedWord n 1 [] hl
  refine ⟨f, ?_, hb⟩
  rw [valueOf_identifier (accepts_identifier_of_mem_reservedWords h), tokenOn_of_mem_reservedWords h]
  exact congrArg (Except.bind · _) hf

theorem valueOf_name (h : Automaton.identifier.accepts n = true) (hr : n ∉ reservedWords) {x : Float}
    (hx : env.get? n = some x) : valueOf limit env n = .ok x := by
  have hread : Parser.ReadsWithin 2 .expression [⟨.identifier, n, 1⟩] (.variable n) :=
    ((Parser.readsWithin_identifier n 1).part .products).part .sums
  have hp : parse [⟨.identifier, n, 1⟩] limit = .ok (.variable n) := by
    rw [parse, hread.parse hl]
    rfl
  rw [valueOf_identifier h, tokenOn_of_identifier h hr]
  simp [hp, Except.bind, Expr.eval, hx]

end

/-! ## Names that a run binds -/

/-- A name is bound by an assignment that was carried out. -/
theorem of_mem_names_runStatements {limit : Nat} {interrupted : Nat → Option Interruption} {index : Nat}
    {stmts : List Text} {n : Text} (h : n ∈ (runStatements limit interrupted .empty index stmts).environment.names) :
    Automaton.identifier.accepts n = true ∧ 2 ≤ limit := by
  rw [environment_runStatements, names_foldl_assign (by simp), List.mem_eraseDups] at h
  obtain ⟨o, ho, hn⟩ := List.mem_filterMap.mp (by simpa using h)
  obtain ⟨k, hk⟩ := List.mem_iff_getElem?.mp ho
  obtain ⟨_, _, _, hname, hv⟩ := outcome_runStatements limit interrupted .empty index stmts hk
  obtain ⟨e, he⟩ := valueOf_eq_ok hv
  exact ⟨(isAssignment_of_assignment? (assignment?_of_target (hname ▸ hn))).accepts_identifier,
    Parser.two_le_of_parse he⟩

/-- What a run has bound can be read back, the reserved words apart. After a script that ran to its end, one more
statement that is the name of a variable is a bare expression with the value of that variable, and changes none; but a
variable whose name is a reserved word stops the run there with a syntax fault at that word. -/
theorem execute_reads_back (i : Interpreter) (interrupted : Nat → Option Interruption)
    (runId runId' source source' script n : Text) (c : Separator) :
    let first := (i.execute interrupted runId ⟨source, script⟩).1
    let again := (i.execute interrupted runId' ⟨source', script ++ c.byte :: n⟩).1
    let k := (splitStatements script).length
    first.problem = none → n ∈ first.result.names → interrupted (k + 1) = none →
      again.result.bindings = first.result.bindings ∧
      (again.problem = none ↔ n ∉ reservedWords) ∧
      (n ∉ reservedWords → ∃ x, first.result.bindings.get? n = some x ∧
        again.result.outcomes = first.result.outcomes ++ [⟨k + 1, n, none, x⟩]) ∧
      (n ∈ reservedWords → again.result.outcomes = first.result.outcomes ∧
        ∃ f, again.problem = some (.fault f) ∧ f.code = .syntactic ∧
          f.context.find? Fault.tokenKey = some (.text n) ∧
          f.context.find? Fault.statementKey = some (.int (k + 1))) := by
  intro first again k hp hn hc
  obtain ⟨hid, hl⟩ : Automaton.identifier.accepts n = true ∧ 2 ≤ i.limit := of_mem_names_runStatements hn
  obtain ⟨x, hx⟩ := Option.isSome_iff_exists.mp ((Environment.isSome_get?_iff _ n).mpr hn)
  have hs : splitStatements (script ++ c.byte :: n) = splitStatements script ++ [n] := by
    rw [splitStatements_append, (isStatement_of_identifier hid).splitStatements_eq]
  have hproblem : again.problem = again.result.problem := rfl
  by_cases hr : n ∈ reservedWords
  · obtain ⟨f, hf, blames⟩ := valueOf_reservedWord hl first.result.bindings hr
    have hagain : again.result = _ := result_execute_of_error hs hp hc hf runId' source'
    obtain ⟨g, hg, hcode, _, hstatement, _⟩ := located_context f (k + 1) n
    have htoken : g.context.find? Fault.tokenKey = some (.text n) := by
      cases hg
      exact (located_find? f (k + 1) n (by decide) (by decide)).trans blames.token
    rw [hproblem, hagain]
    refine ⟨rfl, iff_of_false nofun (not_not_intro hr), fun h => absurd hr h, fun _ => ⟨rfl, g, ?_, ?_, htoken, ?_⟩⟩
    · exact congrArg some hg
    · exact hcode.trans blames.code
    · exact hstatement
  · have hv := valueOf_name hl first.result.bindings hid hr hx
    have hagain : again.result = _ := result_execute_of_ok hs hp hc hv runId' source'
    rw [ofText_of_identifier hid] at hagain
    rw [hproblem, hagain]
    exact ⟨rfl, iff_of_true rfl hr, fun _ => ⟨x, hx, rfl⟩, fun h => absurd h hr⟩

def sumOfTwo : Text := "a = 2; b = a + 3"

theorem sumOfTwo_reads_back :
    let first := ((Interpreter.new 0).execute (always none) "1" ⟨"cli", sumOfTwo⟩).1
    let again := ((Interpreter.new 0).execute (always none) "2" ⟨"cli", sumOfTwo ++ Separator.lineFeed.byte :: "b"⟩).1
    first.problem = none ∧ first.result.names = ["a", "b"] ∧ again.problem = none ∧
      ∃ x, first.result.bindings.get? "b" = some x ∧
        again.result.outcomes = first.result.outcomes ++ [⟨3, "b", none, x⟩] := by
  intro first again
  have hp : first.problem = none := rfl
  have hnames : first.result.names = ["a", "b"] := rfl
  obtain ⟨_, hproblem, hread, _⟩ :=
    execute_reads_back (.new 0) (always none) "1" "2" "cli" "cli" sumOfTwo "b" .lineFeed hp
      (by simp [first, hnames]) rfl
  exact ⟨hp, hnames, hproblem.mpr (by decide), hread (by decide)⟩

/-- A reserved word can be assigned, and the statement that asks for its value is refused. -/
theorem reservedName_not_read_back :
    let first := ((Interpreter.new 0).execute (always none) "1" ⟨"cli", "si = 5"⟩).1
    let again := ((Interpreter.new 0).execute (always none) "2" ⟨"cli", "si = 5\nsi"⟩).1
    first.problem = none ∧ first.result.names = ["si"] ∧ again.result.names = ["si"] ∧
      again.problem.map Problem.code = some .syntactic ∧ again.result.outcomes.length = 1 :=
  ⟨rfl, rfl, rfl, rfl, rfl⟩

end Abacus
