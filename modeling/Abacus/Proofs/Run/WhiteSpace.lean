import Abacus.Proofs.Assignment
import Abacus.Proofs.Parser.Opening
import Abacus.Proofs.Run.Composition
import Abacus.Proofs.Scanner.Blanks

/-!
# White space in statements

White space is told apart twice. The scanner and the trimmer know all the white space there is, and the test for an
assignment knows five blanks. Statements that are scanned alike therefore come to the same, unless other white space
stands between the name and the equals sign of one of them: it is then no assignment, and no expression either.
-/

namespace Abacus

/-! ## Concealed assignments -/

/-- A name and an equals sign with something after it, and between them white space that is no blank. -/
def Conceals (s : Text) : Prop :=
  ∃ name gap after : Text, s.trim = name ++ (gap ++ 61 :: after) ∧ Automaton.identifier.accepts name = true ∧
    gap.isBlank = true ∧ after.isBlank = false ∧ ∃ b ∈ gap, isInnerBlank b = false

/-- What a text has to be scanned as to be an assignment. -/
def ReadsAsAssignment (s name : Text) : Prop :=
  Automaton.identifier.accepts name = true ∧ ∃ ws, words s = name :: [61] :: ws ∧ ws ≠ []

theorem Conceals.assignment?_eq_none {s : Text} (h : Conceals s) : Statement.assignment? s.trim = none := by
  obtain ⟨name, gap, after, hs, hn, hg, ha, b, hb, hi⟩ := h
  rw [hs, ← Option.not_isSome_iff_eq_none, isSome_assignment?_iff hn hg ha]
  intro hall
  cases hi.symm.trans (hall b hb)

theorem Conceals.readsAsAssignment {s : Text} (h : Conceals s) : ∃ name, ReadsAsAssignment s name := by
  obtain ⟨name, gap, after, hs, hn, hg, ha, _⟩ := h
  refine ⟨name, hn, words after, ?_, fun hw => ?_⟩
  · rw [← words_trim, hs, words_name_append hn hg]
  · cases ha.symm.trans (words_eq_nil_iff.mp hw)

theorem Conceals.not_isBlank {s : Text} (h : Conceals s) : ¬ s.isBlank = true := by
  obtain ⟨name, _, ws, hw, _⟩ := h.readsAsAssignment
  rw [← words_eq_nil_iff, hw]
  exact List.cons_ne_nil _ _

theorem readsAsAssignment_of_assignment? {s name expression : Text}
    (h : Statement.assignment? s.trim = some (name, expression)) : ReadsAsAssignment s name := by
  have ha := isAssignment_of_assignment? h
  refine ⟨ha.accepts_identifier, words expression, by rw [← words_trim, ha.words], fun hw => ?_⟩
  obtain ⟨u, v, w, hs, _, _, hblanks⟩ := ha.parts
  have ht := Text.trim_trim s
  rw [hs] at ht
  have hb := Text.not_isBlank_of_trimmed (by decide) ht (by simp [ha.expression_nonempty])
  rw [words_eq_nil_iff.mp ((words_blanks_append hblanks expression).trans hw)] at hb
  cases hb

/-- What is scanned as an assignment is one, unless it is concealed. -/
theorem conceals_iff {s name : Text} (h : ReadsAsAssignment s name) :
    Conceals s ↔ Statement.assignment? s.trim = none := by
  obtain ⟨hn, ws, hw, hws⟩ := h
  refine ⟨Conceals.assignment?_eq_none, fun hnone => ?_⟩
  rw [← words_trim] at hw
  obtain ⟨gap, after, hs, hg, hafter⟩ := eq_name_append_of_trimmed (Text.trim_trim s) hn hw
  have ha : after.isBlank = false := by
    refine Bool.eq_false_iff.mpr fun hb => hws ?_
    rw [← hafter, words_eq_nil_iff.mpr hb]
  refine ⟨name, gap, after, hs, hn, hg, ha, ?_⟩
  by_contra hall
  rw [hs, ← Option.not_isSome_iff_eq_none, isSome_assignment?_iff hn hg ha] at hnone
  exact hnone fun b hb => by simpa using fun hi => hall ⟨b, hb, hi⟩

/-! ## Statements that are scanned alike -/

theorem isSome_assignment?_of_words {s₁ s₂ : Text} (hw : words s₁ = words s₂) (hc : Conceals s₂ → Conceals s₁)
    (h : (Statement.assignment? s₁.trim).isSome = true) : (Statement.assignment? s₂.trim).isSome = true := by
  obtain ⟨⟨name, expression⟩, ha⟩ := Option.isSome_iff_exists.mp h
  have hr₁ := readsAsAssignment_of_assignment? ha
  have hr₂ : ReadsAsAssignment s₂ name := by rwa [ReadsAsAssignment, ← hw]
  have hn : ¬ Conceals s₁ := fun hcon => by
    rw [hcon.assignment?_eq_none] at ha
    cases ha
  rw [← Option.ne_none_iff_isSome, Ne, ← conceals_iff hr₂]
  exact fun hcon => hn (hc hcon)

/-- Statements with the same words that are both assignments, or both not, assign to the same name, and their
expressions are scanned alike. -/
theorem statement_alike {t₁ t₂ : Text} (h₁ : IsStatement t₁) (h₂ : IsStatement t₂) (hw : words t₁ = words t₂)
    (ha : (Statement.assignment? t₁).isSome = (Statement.assignment? t₂).isSome) :
    (Statement.ofText t₁).target = (Statement.ofText t₂).target ∧
      tokenize (Statement.ofText t₁).expression = tokenize (Statement.ofText t₂).expression := by
  have hline {t : Text} (h : IsStatement t) : 10 ∉ (Statement.ofText t).expression :=
    fun hm => h.newline_notMem (mem_of_mem_ofText hm)
  have ht₁ := tokenize_of_notMem (hline h₁)
  have ht₂ := tokenize_of_notMem (hline h₂)
  rw [ht₁, ht₂]
  unfold Statement.ofText
  cases hs₁ : Statement.assignment? t₁ with
  | none =>
      rw [hs₁] at ha
      have hs₂ : Statement.assignment? t₂ = none := by simpa using ha.symm
      rw [hs₂]
      exact ⟨rfl, by rw [hw]⟩
  | some p =>
      rw [hs₁] at ha
      obtain ⟨q, hs₂⟩ := Option.isSome_iff_exists.mp ha.symm
      have hwords := (isAssignment_of_assignment? hs₁).words.symm.trans
        (hw.trans (isAssignment_of_assignment? hs₂).words)
      rw [List.cons.injEq, List.cons.injEq] at hwords
      rw [hs₂]
      exact ⟨congrArg some hwords.1, congrArg _ hwords.2.2⟩

theorem valueOf_alike {t₁ t₂ : Text} {limit : Nat}
    (h : tokenize (Statement.ofText t₁).expression = tokenize (Statement.ofText t₂).expression) (env : Environment) :
    valueOf limit env t₁ = valueOf limit env t₂ := by
  rw [valueOf, valueOf, h]

/-- No expression starts with a name and an equals sign. -/
theorem parse_name_equals {name : Text} (hn : Automaton.identifier.accepts name = true) (ts : List Token)
    (limit : Nat) :
    ∃ f, parse (Scanner.tokenOn 1 name :: ⟨.operator, "=", 1⟩ :: ts) limit = .error f ∧ f.code = .syntactic := by
  by_cases hl : limit < 2
  · exact Parser.parse_of_lt_two _ hl
  · by_cases hr : name ∈ reservedWords
    · obtain ⟨f, hf, blames⟩ := Parser.parse_reservedWord name 1 (⟨.operator, "=", 1⟩ :: ts) (Nat.le_of_not_lt hl)
      rw [tokenOn_of_mem_reservedWords hr]
      exact ⟨f, hf, blames.code⟩
    · obtain ⟨f, hf, blames⟩ := Parser.parse_identifier_cons name 1
        (rfl : Parser.sign? .products ⟨.operator, "=", 1⟩ = none) rfl ts (Nat.le_of_not_lt hl)
      rw [tokenOn_of_identifier hn hr]
      exact ⟨f, hf, blames.code⟩

/-- A concealed assignment is taken for an expression, and it is none. -/
theorem Conceals.valueOf {s : Text} (h : Conceals s) (hs : IsStatement s.trim) (limit : Nat) (env : Environment) :
    ∃ f, Abacus.valueOf limit env s.trim = .error f ∧ f.code = .syntactic := by
  obtain ⟨name, hn, ws, hw, _⟩ := h.readsAsAssignment
  have ho : Statement.ofText s.trim = ⟨none, s.trim⟩ := by
    rw [Statement.ofText, h.assignment?_eq_none]
  have ht : tokenize s.trim = Scanner.tokenOn 1 name :: ⟨.operator, "=", 1⟩ :: ws.map (Scanner.tokenOn 1) := by
    rw [tokenize_of_notMem hs.newline_notMem, words_trim, hw]
    rfl
  obtain ⟨f, hf, hc⟩ := parse_name_equals hn (ws.map (Scanner.tokenOn 1)) limit
  refine ⟨f, ?_, hc⟩
  rw [Abacus.valueOf, ho, ht, hf]
  rfl

/-! ## Runs -/

/-- What a run came to, whatever its statements look like. -/
structure Effect where
  bindings : Environment
  outcomes : List (Nat × Option Text × Float)
  code : Option Code

def Result.effect (r : Result) : Effect :=
  ⟨r.bindings, r.outcomes.map fun o => (o.index, o.name, o.value), r.problem.map Problem.code⟩

/-- The effect after one more statement, by what it assigns to and its value. -/
def Result.effectThen (r : Result) (index : Nat) (target : Option Text) : Except Fault Float → Effect
  | .ok x =>
    let o : Outcome := ⟨index, [], target, x⟩
    ⟨o.assign r.bindings, r.effect.outcomes ++ [(index, target, x)], none⟩
  | .error f => ⟨r.bindings, r.effect.outcomes, some f.code⟩

theorem effectThen_of_code {r : Result} {index : Nat} {target : Option Text} {value : Except Fault Float} {c : Code}
    (h : (r.effectThen index target value).code = some c) :
    r.effectThen index target value = ⟨r.bindings, r.effect.outcomes, some c⟩ := by
  cases value with
  | ok x => cases h
  | error f =>
      cases h
      rfl

section
variable {i : Interpreter} {interrupted : Nat → Option Interruption} {runId source pre script s : Text}
  (hs : splitStatements script = splitStatements pre ++ [s])
  (h : (i.execute interrupted runId ⟨source, pre⟩).1.problem = none)
  (hc : interrupted ((splitStatements pre).length + 1) = none)
include hs h hc

theorem effect_execute (runId' source' : Text) :
    (i.execute interrupted runId' ⟨source', script⟩).1.result.effect =
      let r := (i.execute interrupted runId ⟨source, pre⟩).1.result
      r.effectThen ((splitStatements pre).length + 1) (Statement.ofText s).target (valueOf i.limit r.bindings s) := by
  cases hv : valueOf i.limit (i.execute interrupted runId ⟨source, pre⟩).1.result.bindings s with
  | ok x =>
      rw [result_execute_of_ok hs h hc hv]
      simp only [Result.effect, Result.effectThen, List.map_append, hv]
      rfl
  | error f =>
      rw [result_execute_of_error hs h hc hv]
      simp only [Result.effect, Result.effectThen, hv]
      rfl

/-- A concealed assignment stops the run and leaves the rest as it was. -/
theorem effect_execute_of_conceals {t : Text} (ht : s = t.trim) (hcon : Conceals t) (hw : IsStatement s)
    (runId' source' : Text) :
    (i.execute interrupted runId' ⟨source', script⟩).1.result.effect =
      { (i.execute interrupted runId ⟨source, pre⟩).1.result.effect with code := some .syntactic } := by
  subst ht
  obtain ⟨f, hf, hcode⟩ := hcon.valueOf hw i.limit (i.execute interrupted runId ⟨source, pre⟩).1.result.bindings
  rw [effect_execute hs h hc]
  simp only [hf, Result.effectThen, hcode]
  rfl

end

theorem effect_execute_congr (i : Interpreter) (interrupted : Nat → Option Interruption) {script₁ script₂ : Text}
    (h : splitStatements script₁ = splitStatements script₂) (runId₁ runId₂ source₁ source₂ : Text) :
    (i.execute interrupted runId₁ ⟨source₁, script₁⟩).1.result.effect =
      (i.execute interrupted runId₂ ⟨source₂, script₂⟩).1.result.effect := by
  simp only [Interpreter.execute, h]
  rfl

/-- A statement that is not reached does not matter. -/
theorem effect_execute_of_unreached {i : Interpreter} {interrupted : Nat → Option Interruption}
    {runId source pre script₁ script₂ t₁ t₂ : Text} (hs₁ : splitStatements script₁ = splitStatements pre ++ [t₁])
    (hs₂ : splitStatements script₂ = splitStatements pre ++ [t₂])
    (h : ¬ ((i.execute interrupted runId ⟨source, pre⟩).1.problem = none ∧
      interrupted ((splitStatements pre).length + 1) = none)) (runId₁ runId₂ source₁ source₂ : Text) :
    (i.execute interrupted runId₁ ⟨source₁, script₁⟩).1.result.effect =
      (i.execute interrupted runId₂ ⟨source₂, script₂⟩).1.result.effect := by
  cases hp : (i.execute interrupted runId ⟨source, pre⟩).1.problem with
  | some problem =>
      rw [result_execute_of_problem hs₁ hp, result_execute_of_problem hs₂ hp]
      rfl
  | none =>
      obtain ⟨why, hc⟩ := Option.ne_none_iff_exists'.mp fun hc => h ⟨hp, hc⟩
      rw [result_execute_of_interrupted hs₁ hp hc, result_execute_of_interrupted hs₂ hp hc]
      rfl

/-! ## Statements after a script -/

theorem words_eq_of_lexemes {s₁ s₂ : Text} (h₁ : Whole s₁) (h₂ : Whole s₂)
    (h : (tokenize s₁).map Token.lexeme = (tokenize s₂).map Token.lexeme) : words s₁ = words s₂ := by
  have hsnd (ws : List Text) : (ws.map classified).map Prod.snd = ws := by
    rw [List.map_map]
    exact List.map_id ws
  rw [lexemes_tokenize_of_notMem h₁.newline_notMem, lexemes_tokenize_of_notMem h₂.newline_notMem] at h
  rw [← hsnd (words s₁), h, hsnd]

theorem Whole.splitStatements_of_isBlank {s : Text} (h : Whole s) (hb : s.isBlank = true) : splitStatements s = [] := by
  rw [h.splitStatements_eq, List.isEmpty_iff.mp hb]
  rfl

theorem Whole.split_append {pre s : Text} (h : Whole s) (hpre : Separated pre) (hb : ¬ s.isBlank = true) :
    splitStatements (pre ++ s) = splitStatements pre ++ [s.trim] ∧ IsStatement s.trim := by
  have hs : splitStatements s = [s.trim] := by
    rw [h.splitStatements_eq]
    exact List.filter_cons_of_pos (by simpa [Text.isBlank] using hb)
  have hm : s.trim ∈ splitStatements s := by
    rw [hs]
    exact List.mem_singleton_self _
  exact ⟨by rw [hpre.splitStatements_append, hs], isStatement_of_mem hm⟩

/-- White space is insignificant, with one exception. Two statements that are scanned alike, each run after the same
statements, leave the same variables, the same outcomes and the same code of a fault, unless they are reached, exactly
one of them is a concealed assignment, and the other one is not refused for its form as well. -/
theorem execute_white_space_insignificant (i : Interpreter) (interrupted : Nat → Option Interruption)
    (runId runId₁ runId₂ source source₁ source₂ : Text) {pre s₁ s₂ : Text} (hpre : Separated pre)
    (h₁ : Whole s₁) (h₂ : Whole s₂) (h : (tokenize s₁).map Token.lexeme = (tokenize s₂).map Token.lexeme) :
    let first := (i.execute interrupted runId ⟨source, pre⟩).1
    let r₁ := (i.execute interrupted runId₁ ⟨source₁, pre ++ s₁⟩).1.result
    let r₂ := (i.execute interrupted runId₂ ⟨source₂, pre ++ s₂⟩).1.result
    let reached := first.problem = none ∧ interrupted ((splitStatements pre).length + 1) = none
    (r₁.effect = r₂.effect ↔
      (reached → (Conceals s₁ ↔ Conceals s₂) ∨
        (r₁.effect.code = some .syntactic ∧ r₂.effect.code = some .syntactic))) ∧
    (reached → Conceals s₂ → r₂.effect = { first.result.effect with code := some .syntactic }) := by
  intro first r₁ r₂ reached
  have hw := words_eq_of_lexemes h₁ h₂ h
  -- Blank statements are left out, so both scripts have the same statements.
  by_cases hb₁ : s₁.isBlank = true
  · have hb₂ : s₂.isBlank = true := by rwa [← words_eq_nil_iff, ← hw, words_eq_nil_iff]
    have hs : splitStatements (pre ++ s₁) = splitStatements (pre ++ s₂) := by
      rw [hpre.splitStatements_append, hpre.splitStatements_append, h₁.splitStatements_of_isBlank hb₁,
        h₂.splitStatements_of_isBlank hb₂]
    have hn₁ : ¬ Conceals s₁ := fun hcon => hcon.not_isBlank hb₁
    have hn₂ : ¬ Conceals s₂ := fun hcon => hcon.not_isBlank hb₂
    exact ⟨iff_of_true (effect_execute_congr i interrupted hs _ _ _ _) fun _ => .inl (iff_of_false hn₁ hn₂),
      fun _ hcon => absurd hcon hn₂⟩
  have hb₂ : ¬ s₂.isBlank = true := by rwa [← words_eq_nil_iff, ← hw, words_eq_nil_iff]
  obtain ⟨hs₁, ht₁⟩ := h₁.split_append hpre hb₁
  obtain ⟨hs₂, ht₂⟩ := h₂.split_append hpre hb₂
  by_cases hr : reached
  · obtain ⟨hp, hc⟩ := hr
    have hcon₁ (hcon : Conceals s₁) := effect_execute_of_conceals hs₁ hp hc rfl hcon ht₁ runId₁ source₁
    have hcon₂ (hcon : Conceals s₂) := effect_execute_of_conceals hs₂ hp hc rfl hcon ht₂ runId₂ source₂
    have he₁ : r₁.effect = _ := effect_execute hs₁ hp hc runId₁ source₁
    have he₂ : r₂.effect = _ := effect_execute hs₂ hp hc runId₂ source₂
    refine ⟨⟨fun he _ => ?_, fun hor => ?_⟩, fun _ => hcon₂⟩
    · by_cases hc₁ : Conceals s₁
      · exact .inr ⟨congrArg Effect.code (hcon₁ hc₁), congrArg Effect.code (he.symm.trans (hcon₁ hc₁))⟩
      · by_cases hc₂ : Conceals s₂
        · exact .inr ⟨congrArg Effect.code (he.trans (hcon₂ hc₂)), congrArg Effect.code (hcon₂ hc₂)⟩
        · exact .inl (iff_of_false hc₁ hc₂)
    · rcases hor ⟨hp, hc⟩ with hiff | ⟨hc₁, hc₂⟩
      · have hsome : (Statement.assignment? s₁.trim).isSome = (Statement.assignment? s₂.trim).isSome :=
          Bool.eq_iff_iff.mpr
            ⟨isSome_assignment?_of_words hw hiff.mpr, isSome_assignment?_of_words hw.symm hiff.mp⟩
        obtain ⟨htarget, htokens⟩ := statement_alike ht₁ ht₂ (by rw [words_trim, words_trim, hw]) hsome
        rw [he₁, he₂]
        simp only [htarget, valueOf_alike htokens]
      · rw [he₁] at hc₁ ⊢
        rw [he₂] at hc₂ ⊢
        rw [effectThen_of_code hc₁, effectThen_of_code hc₂]
  · exact ⟨iff_of_true (effect_execute_of_unreached hs₁ hs₂ hr _ _ _ _) fun h => absurd h hr, fun h => absurd h hr⟩

def oneAssigned : Text := "a = 1;"

def spacedSum : Text := "x = a + 1"

/-- With a tab in front of the equals sign and a no-break space behind it. -/
def tabbedSum : Text := "x\t=\u00a0a+1 "

theorem tabbedSum_same_effect :
    (tokenize spacedSum).map Token.lexeme = (tokenize tabbedSum).map Token.lexeme ∧
      ((Interpreter.new 0).execute (always none) "1" ⟨"cli", oneAssigned ++ spacedSum⟩).1.result.effect =
        ((Interpreter.new 0).execute (always none) "2" ⟨"cli", oneAssigned ++ tabbedSum⟩).1.result.effect := by
  have hpre : Separated oneAssigned := .inr ⟨"a = 1", .semicolon, by decide⟩
  have hlexemes : (tokenize spacedSum).map Token.lexeme = (tokenize tabbedSum).map Token.lexeme := by decide
  have hplain {s name expression : Text} (h : Statement.assignment? s.trim = some (name, expression)) : ¬ Conceals s :=
    fun hcon => by cases hcon.assignment?_eq_none.symm.trans h
  have hspaced : ¬ Conceals spacedSum := hplain (by decide : _ = some (("x" : Text), ("a + 1" : Text)))
  have htabbed : ¬ Conceals tabbedSum := hplain (by decide : _ = some (("x" : Text), ("\u00a0a+1" : Text)))
  obtain ⟨heffect, _⟩ := execute_white_space_insignificant (.new 0) (always none) "0" "1" "2" "cli" "cli" "cli" hpre
    (by decide) (by decide) hlexemes
  exact ⟨hlexemes, heffect.mpr fun _ => .inl (iff_of_false hspaced htabbed)⟩

/-- A no-break space in front of the equals sign is scanned like any other and makes the assignment a syntax fault. -/
theorem noBreakSpace_refused :
    (tokenize "x = 3").map Token.lexeme = (tokenize "x\u00a0= 3").map Token.lexeme ∧
      let plain := ((Interpreter.new 0).execute (always none) "1" ⟨"cli", "x = 3"⟩).1
      let other := ((Interpreter.new 0).execute (always none) "2" ⟨"cli", "x\u00a0= 3"⟩).1
      plain.problem = none ∧ plain.result.names = ["x"] ∧
        other.problem.map Problem.code = some .syntactic ∧ other.result.names = [] :=
  ⟨by decide, rfl, rfl, rfl, rfl⟩

end Abacus
