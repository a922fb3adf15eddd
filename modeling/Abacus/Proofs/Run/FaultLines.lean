import Abacus.Api
import Abacus.Proofs.Assignment
import Abacus.Proofs.Parser.OneLine
import Abacus.Proofs.Run.Faults

/-!
# The lines that faults name

A script is cut into statements, and each statement is scanned as a text of its own. The lines of a script are therefore
lost before anything is read: a fault of the scanner or the parser always names the first line, wherever in the script
its statement stands.
-/

namespace Abacus

/-! ## Statements and lines -/

/-- The statements of a script with their lines, the first line being `n`. -/
def statementsFrom (n : Nat) (script : Text) : List (Nat × Text) :=
  ((Text.pieces (· == 10) script).zipIdx n).flatMap fun (line, m) => (splitStatements line).map fun s => (m, s)

/-- The statements of a script with the lines they stand on. -/
def statementsByLine (script : Text) : List (Nat × Text) := statementsFrom 1 script

/-- A text is one line, or a line and the text after it. -/
theorem line_induction {motive : Text → Prop} (last : ∀ line, 10 ∉ line → motive line)
    (cons : ∀ line rest, 10 ∉ line → motive rest → motive (line ++ 10 :: rest)) (t : Text) : motive t := by
  have hgo (t : Text) : ∀ a, 10 ∉ a → motive (a ++ t) := by
    induction t with
    | nil =>
        intro a ha
        rw [List.append_nil]
        exact last a ha
    | cons b t ih =>
        intro a ha
        by_cases hb : b = 10
        · subst hb
          exact cons a t ha (ih [] List.not_mem_nil)
        · have hab : 10 ∉ a ++ [b] := by simp [ha, Ne.symm hb]
          have hc := ih (a ++ [b]) hab
          rwa [List.append_assoc, List.singleton_append] at hc
  exact hgo t [] List.not_mem_nil

theorem statementsFrom_of_notMem (n : Nat) {line : Text} (h : 10 ∉ line) :
    statementsFrom n line = (splitStatements line).map fun s => (n, s) := by
  have hl : ∀ b ∈ line, (b == 10) = false := fun b hb => beq_false_of_ne fun he => h (he ▸ hb)
  rw [statementsFrom, Text.pieces_eq_splitOnP, List.splitOnP_eq_singleton hl]
  simp

theorem statementsFrom_append (n : Nat) {line : Text} (h : 10 ∉ line) (rest : Text) :
    statementsFrom n (line ++ 10 :: rest) =
      ((splitStatements line).map fun s => (n, s)) ++ statementsFrom (n + 1) rest := by
  have hl : ∀ b ∈ line, (b == 10) = false := fun b hb => beq_false_of_ne fun he => h (he ▸ hb)
  rw [statementsFrom, Text.pieces_eq_splitOnP, List.splitOnP_append_cons _ _ rfl, List.splitOnP_eq_singleton hl,
    statementsFrom, Text.pieces_eq_splitOnP]
  simp

theorem splitStatements_line_append (line rest : Text) :
    splitStatements (line ++ 10 :: rest) = splitStatements line ++ splitStatements rest :=
  splitStatements_append line rest .lineFeed

theorem map_snd_statementsFrom (n : Nat) (script : Text) :
    (statementsFrom n script).map Prod.snd = splitStatements script := by
  have hsnd (n : Nat) (ss : List Text) : (ss.map fun s => (n, s)).map Prod.snd = ss := by
    rw [List.map_map]
    exact List.map_id ss
  induction script using line_induction generalizing n with
  | last line h => rw [statementsFrom_of_notMem n h, hsnd]
  | cons line rest h ih => rw [statementsFrom_append n h, List.map_append, ih, hsnd, splitStatements_line_append]

/-- Statement number `k` of a script, counted from zero, is `s`, with so many newlines in front of it: it is among the
statements of a line that comes after a part of the script with these newlines. -/
def StandsBehind (script : Text) (k : Nat) (s : Text) (newlines : Nat) : Prop :=
  ∃ before line after, script = before ++ (line ++ after) ∧ before.count 10 = newlines ∧ 10 ∉ line ∧
    splitStatements script = splitStatements before ++ (splitStatements line ++ splitStatements after) ∧
    ∃ j, (splitStatements line)[j]? = some s ∧ k = (splitStatements before).length + j

theorem standsBehind_of_line {line : Text} (hl : 10 ∉ line) {k : Nat} {s : Text}
    (hs : (splitStatements line)[k]? = some s) (after : Text)
    (hsplit : splitStatements (line ++ after) = splitStatements line ++ splitStatements after) :
    StandsBehind (line ++ after) k s 0 :=
  ⟨[], line, after, rfl, rfl, hl, hsplit, k, hs, (Nat.zero_add k).symm⟩

theorem StandsBehind.after_line {rest : Text} {k : Nat} {s : Text} {n : Nat} (h : StandsBehind rest k s n) {line : Text}
    (hl : 10 ∉ line) : StandsBehind (line ++ 10 :: rest) ((splitStatements line).length + k) s (n + 1) := by
  obtain ⟨before, line', after, rfl, rfl, hl', hstmts, j, hs, rfl⟩ := h
  have hcount : (line ++ 10 :: before).count 10 = before.count 10 + 1 := by
    simp [List.count_eq_zero_of_not_mem hl]
  have hbefore := splitStatements_line_append line before
  refine ⟨line ++ 10 :: before, line', after, by simp, hcount, hl', ?_, j, hs, ?_⟩
  · rw [splitStatements_line_append, hstmts, hbefore, List.append_assoc]
  · rw [hbefore, List.length_append, Nat.add_assoc]

/-- The line of a statement is told by the newlines in front of it. -/
theorem standsBehind_of_statementsFrom {m : Nat} {script : Text} {k n : Nat} {s : Text}
    (h : (statementsFrom m script)[k]? = some (n, s)) :
    ∃ newlines, StandsBehind script k s newlines ∧ n = m + newlines := by
  have here {m k : Nat} {ss : List Text} (h : (ss.map fun s => (m, s))[k]? = some (n, s)) :
      ss[k]? = some s ∧ n = m := by
    rw [List.getElem?_map] at h
    obtain ⟨s', hs, he⟩ := Option.map_eq_some_iff.mp h
    cases he
    exact ⟨hs, rfl⟩
  induction script using line_induction generalizing m k with
  | last line hl =>
      rw [statementsFrom_of_notMem m hl] at h
      obtain ⟨hs, rfl⟩ := here h
      have hb := standsBehind_of_line hl hs [] (by simp [show splitStatements [] = [] from rfl])
      rw [List.append_nil] at hb
      exact ⟨0, hb, rfl⟩
  | cons line rest hl ih =>
      rw [statementsFrom_append m hl] at h
      by_cases hk : k < (splitStatements line).length
      · rw [List.getElem?_append_left (by simpa using hk)] at h
        obtain ⟨hs, rfl⟩ := here h
        refine ⟨0, standsBehind_of_line hl hs (10 :: rest) ?_, rfl⟩
        rw [splitStatements_line_append]
        exact congrArg _ (splitStatements_line_append [] rest).symm
      · rw [List.getElem?_append_right (by simpa using hk), List.length_map] at h
        obtain ⟨newlines, hb, rfl⟩ := ih h
        have hk' : (splitStatements line).length + (k - (splitStatements line).length) = k := by omega
        exact ⟨newlines + 1, hk' ▸ hb.after_line hl, by omega⟩

theorem standsBehind_of_getElem? {script : Text} {k : Nat} {s : Text} (h : (splitStatements script)[k]? = some s) :
    ∃ newlines, StandsBehind script k s newlines ∧ (statementsByLine script)[k]? = some (1 + newlines, s) := by
  rw [← map_snd_statementsFrom 1 script, List.getElem?_map] at h
  obtain ⟨⟨n, s⟩, hline, rfl⟩ := Option.map_eq_some_iff.mp h
  obtain ⟨newlines, hb, rfl⟩ := standsBehind_of_statementsFrom hline
  exact ⟨newlines, hb, hline⟩

/-! ## The line of a fault -/

/-- A statement has one line, so what is wrong with it is on line one. -/
theorem line_of_valueOf_error {limit : Nat} {env : Environment} {s : Text} {f : Fault} (hs : 10 ∉ s)
    (h : valueOf limit env s = .error f) (hc : f.code = .lexical ∨ f.code = .syntactic) :
    f.context.find? Fault.lineKey = some (.int 1) := by
  rcases valueOf_error_cases h with hp | rfl | ⟨n, _, rfl⟩
  · have he : 10 ∉ (Statement.ofText s).expression := fun hm => hs (mem_of_mem_ofText hm)
    exact Parser.line_of_parse_error (fun _ ht => line_of_mem_tokenize he ht) hp
  · rcases hc with hc | hc <;> cases hc
  · rcases hc with hc | hc <;> cases hc

theorem userMessage_of_places {f : Fault} {statement line : Int}
    (hs : f.context.find? Fault.statementKey = some (.int statement))
    (hl : f.context.find? Fault.lineKey = some (.int line)) :
    f.userMessage = f.code.family.name ++ (": " : Text) ++ f.message ++ (" (statement " : Text) ++
      Text.ofInt statement ++ (", line " : Text) ++ Text.ofInt line ++ (")" : Text) := by
  have hopen : (" (statement " : Text) = (" (" : Text) ++ (("statement" : Text) ++ [32]) := by decide
  have hline : (", line " : Text) = (", " : Text) ++ (("line" : Text) ++ [32]) := by decide
  simp only [Fault.userMessage, hs, hl, Detail.render, hopen, hline]
  simp [Text.join]

/-- A fault of the scanner or the parser names line one, in its context, in the message for users and in the answer to
a request. That is the line of its statement only where no newline stands in front of the statement. -/
theorem execute_fault_on_first_line (i : Interpreter) (interrupted : Nat → Option Interruption) (runId : Text)
    (req : Interpreter.Request) :
    let report := (i.execute interrupted runId req).1
    let k := report.result.outcomes.length
    ∀ f, report.problem = some (.fault f) → f.code = .lexical ∨ f.code = .syntactic →
      ∃ newlines s, StandsBehind req.script k s newlines ∧
        (statementsByLine req.script)[k]? = some (1 + newlines, s) ∧
        f.context.find? Fault.textKey = some (.text s) ∧
        f.context.find? Fault.lineKey = some (.int 1) ∧
        f.userMessage = f.code.family.name ++ (": " : Text) ++ f.message ++ (" (statement " : Text) ++
          Text.ofInt (k + 1) ++ (", line " : Text) ++ Text.ofInt 1 ++ (")" : Text) ∧
        Api.detail? f Fault.lineKey = some 1 ∧
        (f.context.find? Fault.lineKey = some (.int (1 + newlines)) ↔ newlines = 0) := by
  intro report k f hf hc
  rcases problem_runStatements i.limit interrupted .empty 1 (splitStatements req.script) with
    ⟨hp, _⟩ | ⟨_, _, _, _, hp⟩ | ⟨s, g, hs, hv, hp⟩
  · cases hp.symm.trans hf
  · cases hp.symm.trans hf
  obtain ⟨newlines, hbehind, hline⟩ := standsBehind_of_getElem? hs
  obtain ⟨f', hlocated, hcode, _, hstatement, htext⟩ := located_context g (1 + k) s
  obtain rfl : f' = f := Problem.fault.inj (hlocated.symm.trans (Option.some.inj (hp.symm.trans hf)))
  have hl : f'.context.find? Fault.lineKey = some (.int 1) := by
    have hn := (isStatement_of_mem (List.mem_of_getElem? hs)).newline_notMem
    cases hlocated
    rw [located_find? g _ s (by decide) (by decide)]
    exact line_of_valueOf_error hn hv hc
  have hk : ((1 + k : Nat) : Int) = k + 1 := by omega
  rw [hk] at hstatement
  refine ⟨newlines, s, hbehind, hline, htext, hl, userMessage_of_places hstatement hl, ?_, ?_⟩
  · simp [Api.detail?, hl]
  · rw [hl, Option.some.injEq, Detail.int.injEq]
    omega

/-- A word that the scanner does not know, on the third line. -/
def strayDollar : Text := "a = 1; b = 2\r\n\r\nc = a + $"

theorem strayDollar_fault_on_first_line :
    (statementsByLine strayDollar)[2]? = some (3, ("c = a + $" : Text)) ∧
      ∃ f, ((Interpreter.new 0).execute (always none) "1" ⟨"cli", strayDollar⟩).1.problem = some (.fault f) ∧
        f.code = .lexical ∧ f.context.find? Fault.lineKey = some (.int 1) ∧
        f.userMessage = "LexicalError: unrecognized token \"$\" (statement 3, line 1)" := by
  have hlines : (statementsByLine strayDollar)[2]? = some (3, ("c = a + $" : Text)) := by decide
  obtain ⟨f, hf, hc, hu⟩ : ∃ f,
      ((Interpreter.new 0).execute (always none) "1" ⟨"cli", strayDollar⟩).1.problem = some (.fault f) ∧
        f.code = .lexical ∧ f.userMessage = "LexicalError: unrecognized token \"$\" (statement 3, line 1)" :=
    ⟨_, rfl, rfl, by decide⟩
  obtain ⟨_, _, _, _, _, hline, _⟩ :=
    execute_fault_on_first_line (.new 0) (always none) "1" ⟨"cli", strayDollar⟩ f hf (.inl hc)
  exact ⟨hlines, f, hf, hc, hline, hu⟩

/-- A syntax fault in the second of two lines is reported on line one. -/
theorem secondLine_misreported :
    (statementsByLine "a = 1\nb = 1 +")[1]? = some (2, ("b = 1 +" : Text)) ∧
      ∃ f, ((Interpreter.new 0).execute (always none) "1" ⟨"cli", "a = 1\nb = 1 +"⟩).1.problem = some (.fault f) ∧
        f.code = .syntactic ∧ f.context.find? Fault.statementKey = some (.int 2) ∧
        f.context.find? Fault.lineKey = some (.int 1) ∧ f.context.find? Fault.lineKey ≠ some (.int 2) :=
  ⟨by decide, _, rfl, rfl, rfl, rfl, by decide⟩

end Abacus
