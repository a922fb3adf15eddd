import Mathlib.Data.List.SplitBy
import Abacus.Proofs.Scanner.Stream

/-!
# Tokens as maximal runs

A source falls into maximal runs of lexeme characters, maximal runs of white space, and single characters that
are neither. The tokens are the runs that are no white space, together with a line break for each white space
that has a newline in it and something before it.
-/

namespace Abacus

/-! ## Runs -/

/-- Neighbours that stay in one run: two lexeme characters, or two of white space. -/
def runsOn (a b : Char) : Bool := (isLexemeChar a && isLexemeChar b) || (isSpace a && isSpace b)

def runs (cs : List Char) : List (List Char) := cs.splitBy runsOn

/-- The line of the character that follows `before`. -/
def lineAfter (before : List Char) : Nat := 1 + before.count '\n'

/-- The token of one run, if it has one. White space with a newline in it is a line break on the line of the
first newline, except at the start. -/
def runTokens (before run : List Char) : List Token :=
  if run.all isSpace then
    if !before.isEmpty && run.contains '\n' then [⟨.symbol, Token.lineBreak, lineAfter before⟩] else []
  else [⟨classify (Text.ofChars run), Text.ofChars run, lineAfter before⟩]

/-- The tokens of runs that follow the characters `before`. -/
def tokensOfRuns (before : List Char) : List (List Char) → List Token
  | [] => []
  | run :: rs => runTokens before run ++ tokensOfRuns (before ++ run) rs

theorem not_isSpace_of_isLexemeChar {c : Char} (h : isLexemeChar c = true) : isSpace c = false := by
  simp only [isLexemeChar, Bool.or_eq_true, decide_eq_true_eq] at h
  rcases h with (h | rfl) | rfl
  · have hr : (65 ≤ c.toNat ∧ c.toNat ≤ 90 ∨ 97 ≤ c.toNat ∧ c.toNat ≤ 122) ∨ 48 ≤ c.toNat ∧ c.toNat ≤ 57 := by
      delta Char.isAlphanum Char.isAlpha Char.isUpper Char.isLower Char.isDigit at h
      simpa [UInt32.le_iff_toNat_le, ← Char.toNat_val] using h
    simp only [isSpace, Bool.or_eq_false_iff, Bool.and_eq_false_iff, decide_eq_false_iff_not, beq_eq_false_iff_ne]
    omega
  · decide
  · decide

theorem runsOn_lexeme {a b : Char} (h : isLexemeChar a = true) : runsOn a b = isLexemeChar b := by
  simp [runsOn, h, not_isSpace_of_isLexemeChar h]

theorem runsOn_space {a b : Char} (h : isSpace a = true) : runsOn a b = isSpace b := by
  have hl : isLexemeChar a = false := by
    refine Bool.eq_false_iff.mpr fun hl => ?_
    simp [not_isSpace_of_isLexemeChar hl] at h
  simp [runsOn, h, hl]

/-- Each run is joined inside, and none can be made longer. -/
structure Maximal (rs : List (List Char)) : Prop where
  nonempty : [] ∉ rs
  together : ∀ run ∈ rs, run.IsChain fun a b => runsOn a b
  apart : rs.IsChain fun r₁ r₂ => ∃ h₁ h₂, runsOn (r₁.getLast h₁) (r₂.head h₂) = false

theorem maximal_runs (cs : List Char) : Maximal (runs cs) := by
  obtain ⟨_, hn, ht, ha⟩ := List.splitBy_eq_iff.mp (rfl : cs.splitBy runsOn = runs cs)
  exact ⟨hn, ht, ha⟩

namespace Maximal
variable {run : List Char} {rs : List (List Char)}

theorem tail (h : Maximal (run :: rs)) : Maximal rs :=
  ⟨fun hm => h.nonempty (List.mem_cons_of_mem run hm), fun r hr => h.together r (List.mem_cons_of_mem run hr),
    h.apart.tail⟩

theorem head_ne_nil (h : Maximal (run :: rs)) : run ≠ [] :=
  fun he => h.nonempty (he ▸ List.mem_cons_self)

theorem next (h : Maximal (run :: rs)) :
    ∀ c ∈ rs.flatten.head?, runsOn (run.getLast h.head_ne_nil) c = false := by
  intro c hc
  cases rs with
  | nil => cases hc
  | cons r rs =>
      obtain ⟨_, hr, hlast⟩ := h.apart.rel
      have hcr : c = r.head hr := by
        rw [List.flatten_cons, List.head?_append_of_ne_nil _ hr, List.head?_eq_some_head hr] at hc
        exact (Option.mem_some.mp hc).symm
      rw [hcr]
      exact hlast

/-- A run is made of lexeme characters, of white space, or of one other character. -/
theorem head_cases (h : Maximal (run :: rs)) :
    (∀ c ∈ run, isLexemeChar c = true) ∨ (∀ c ∈ run, isSpace c = true) ∨
      ∃ c, run = [c] ∧ isLexemeChar c = false ∧ isSpace c = false := by
  have hj := h.together run List.mem_cons_self
  cases run with
  | nil => exact absurd rfl h.head_ne_nil
  | cons c run =>
      cases hl : isLexemeChar c with
      | true => exact .inl (hj.induction _ _ (fun _ _ hr ha => runsOn_lexeme ha ▸ hr) fun _ => hl)
      | false =>
          cases hs : isSpace c with
          | true => exact .inr (.inl (hj.induction _ _ (fun _ _ hr ha => runsOn_space ha ▸ hr) fun _ => hs))
          | false =>
              cases run with
              | nil => exact .inr (.inr ⟨c, rfl, hl, hs⟩)
              | cons d run =>
                  have hcd := hj.rel
                  simp [runsOn, hl, hs] at hcd

theorem all_not_space (h : Maximal (run :: rs)) (hs : run.all isSpace = false) : ∀ c ∈ run, isSpace c = false := by
  rcases h.head_cases with hl | hg | ⟨c, rfl, _, hc⟩
  · exact fun c hc => not_isSpace_of_isLexemeChar (hl c hc)
  · rw [List.all_eq_true.mpr hg] at hs
    cases hs
  · intro d hd
    cases List.mem_singleton.mp hd
    exact hc

theorem not_space_of_space (h : Maximal (run :: rs)) (hs : run.all isSpace = true) :
    ∀ r ∈ rs.head?, r.all isSpace = false := by
  intro r hr
  cases rs with
  | nil => cases hr
  | cons r' rs =>
      cases hr
      obtain ⟨c, r, rfl⟩ := List.exists_cons_of_ne_nil h.tail.head_ne_nil
      have hc := h.next c rfl
      rw [runsOn_space (List.all_eq_true.mp hs _ (List.getLast_mem _))] at hc
      simp [hc]

end Maximal

/-! ## Reading a run -/

namespace Scanner

theorem readout_lexeme {w : List Char} (h : ∀ c ∈ w, isLexemeChar c = true) (line : Nat) (pending cs : List Char) :
    readout line pending (w ++ cs) = readout line (w.reverse ++ pending) cs := by
  induction w generalizing pending with
  | nil => rfl
  | cons c w ih =>
      have hl := h c List.mem_cons_self
      have hs := not_isSpace_of_isLexemeChar hl
      have hn : c ≠ '\n' := by
        rintro rfl
        exact absurd hl (by decide)
      rw [List.cons_append, readout, if_neg hn, if_neg (by simp [hs]), if_pos hl,
        ih (fun d hd => h d (List.mem_cons_of_mem c hd))]
      simp

theorem readout_pending {cs : List Char} (h : ∀ c ∈ cs.head?, isLexemeChar c = false) (line : Nat)
    (pending : List Char) : readout line pending cs = pendingToken line pending ++ readout line [] cs := by
  cases cs with
  | nil => simp [readout, pendingToken]
  | cons c cs =>
      have hl := h c rfl
      by_cases hn : c = '\n'
      · simp [readout, hn, pendingToken]
      · by_cases hs : isSpace c = true
        · simp [readout, hn, hs, pendingToken]
        · simp [readout, hn, hs, hl, pendingToken]

theorem collapse_true_gap {g : List Char} (h : ∀ c ∈ g, isSpace c = true) (line : Nat) (cs : List Char) :
    collapse true (readout line [] (g ++ cs)) = collapse true (readout (line + g.count '\n') [] cs) := by
  induction g generalizing line with
  | nil => rfl
  | cons c g ih =>
      have hs := h c List.mem_cons_self
      have ih := ih fun d hd => h d (List.mem_cons_of_mem c hd)
      by_cases hn : c = '\n'
      · subst hn
        have hb : (tokenOn line Token.lineBreak).isLineBreak = true := rfl
        rw [List.cons_append, readout, if_pos rfl, pendingToken_nil, List.nil_append, collapse, hb, ih,
          List.count_cons_self, Nat.add_right_comm, Nat.add_assoc]
        rfl
      · rw [List.cons_append, readout, if_neg hn, if_pos hs, pendingToken_nil, List.nil_append, ih,
          List.count_cons_of_ne hn]

theorem collapse_false_gap {g : List Char} (h : ∀ c ∈ g, isSpace c = true) (line : Nat) (cs : List Char) :
    collapse false (readout line [] (g ++ cs)) =
      if g.contains '\n' then tokenOn line Token.lineBreak :: collapse true (readout (line + g.count '\n') [] cs)
      else collapse false (readout (line + g.count '\n') [] cs) := by
  induction g with
  | nil => rfl
  | cons c g ih =>
      have hs := h c List.mem_cons_self
      have hg : ∀ d ∈ g, isSpace d = true := fun d hd => h d (List.mem_cons_of_mem c hd)
      by_cases hn : c = '\n'
      · subst hn
        have hb : (tokenOn line Token.lineBreak).isLineBreak = true := rfl
        rw [List.cons_append, readout, if_pos rfl, pendingToken_nil, List.nil_append, collapse, hb,
          collapse_true_gap hg, List.count_cons_self, Nat.add_right_comm, Nat.add_assoc]
        simp
      · rw [List.cons_append, readout, if_neg hn, if_pos hs, pendingToken_nil, List.nil_append, ih hg,
          List.count_cons_of_ne hn]
        simp [Ne.symm hn]

theorem not_isLineBreak_run {run : List Char} (h : run.all isSpace = false) (line : Nat) :
    (tokenOn line (Text.ofChars run)).isLineBreak = false := by
  refine not_isLineBreak_of_ne line ?_
  rintro rfl
  exact absurd h (by decide)

/-- What a token can be spelled with. -/
inductive Spelling : List Char → Prop
  | lexeme {w : List Char} (nonempty : w ≠ []) (chars : ∀ c ∈ w, isLexemeChar c = true) : Spelling w
  | lineBreak : Spelling ['\n']
  | own {c : Char} (outside : isLexemeChar c = false) (shown : isSpace c = false) : Spelling [c]

/-- A spelling is read as one token where no lexeme goes on. -/
theorem readout_spelling {w cs : List Char} (h : Spelling w)
    (hn : (∀ c ∈ w, isLexemeChar c = true) → ∀ c ∈ cs.head?, isLexemeChar c = false) (line : Nat) :
    readout line [] (w ++ cs) = tokenOn line (Text.ofChars w) :: readout (line + w.count '\n') [] cs := by
  cases h with
  | lexeme nonempty chars =>
      have hcount : w.count '\n' = 0 := List.count_eq_zero.mpr fun hm => absurd (chars _ hm) (by decide)
      have hp : pendingToken line w.reverse = [tokenOn line (Text.ofChars w)] := by
        simp [pendingToken, nonempty]
      rw [readout_lexeme chars, List.append_nil, readout_pending (hn chars), hp, hcount]
      rfl
  | lineBreak =>
      have ht : Text.ofChars ['\n'] = Token.lineBreak := rfl
      rw [List.singleton_append, readout, if_pos rfl, pendingToken_nil, List.nil_append, ht]
      rfl
  | @own c outside shown =>
      have hc : c ≠ '\n' := by
        rintro rfl
        exact absurd shown (by decide)
      have ht : Text.ofChars [c] = Text.ofChar c := by simp [Text.ofChars]
      rw [List.singleton_append, readout, if_neg hc, if_neg (by simp [shown]), if_neg (by simp [outside]),
        pendingToken_nil, List.nil_append, ht, List.count_eq_zero.mpr (by simpa using Ne.symm hc)]
      rfl

theorem readout_run {run : List Char} {rs : List (List Char)} (h : Maximal (run :: rs))
    (hs : run.all isSpace = false) (line : Nat) :
    readout line [] (run ++ rs.flatten) =
      tokenOn line (Text.ofChars run) :: readout (line + run.count '\n') [] rs.flatten := by
  rcases h.head_cases with hl | hg | ⟨c, rfl, hc, hcs⟩
  · refine readout_spelling (.lexeme h.head_ne_nil hl) (fun _ c hc => ?_) line
    rw [← runsOn_lexeme (hl _ (List.getLast_mem h.head_ne_nil))]
    exact h.next c hc
  · rw [List.all_eq_true.mpr hg] at hs
    cases hs
  · refine readout_spelling (.own hc hcs) (fun hl => ?_) line
    simp [hc] at hl

end Scanner

/-! ## Reading all runs -/

theorem lineAfter_append (before run : List Char) : lineAfter (before ++ run) = lineAfter before + run.count '\n' := by
  simp only [lineAfter, List.count_append, Nat.add_assoc]

/-- The tokens that a scanner hands out from the boundary between two runs on. White space comes first only
after a token, or at the start. -/
theorem collapse_readout_eq_tokensOfRuns {rs : List (List Char)} (h : Maximal rs) (before : List Char)
    (suppress : Bool) (hs : ∀ run ∈ rs.head?, run.all isSpace = true → suppress = before.isEmpty) :
    collapse suppress (Scanner.readout (lineAfter before) [] rs.flatten) = tokensOfRuns before rs := by
  induction rs generalizing before suppress with
  | nil => rfl
  | cons run rs ih =>
      have hne := h.head_ne_nil
      rw [List.flatten_cons, tokensOfRuns, runTokens]
      cases hsp : run.all isSpace with
      | false =>
          have hrest := ih h.tail (before ++ run) false (fun _ _ _ => by simp [hne])
          rw [lineAfter_append] at hrest
          rw [Scanner.readout_run h hsp, collapse, Scanner.not_isLineBreak_run hsp, Bool.and_false, hrest]
          rfl
      | true =>
          have hg := List.all_eq_true.mp hsp
          -- No white space follows, so the rest comes out alike whether or not breaks are left out there.
          have hrest (b : Bool) := ih h.tail (before ++ run) b fun r hr hrs => by
            simp [h.not_space_of_space hsp r hr] at hrs
          simp only [lineAfter_append] at hrest
          rw [hs run rfl hsp]
          cases before.isEmpty with
          | true => rw [Scanner.collapse_true_gap hg, hrest]; rfl
          | false =>
              rw [Scanner.collapse_false_gap hg, hrest, hrest]
              cases run.contains '\n' <;> rfl

/-! ## What the tokens of runs look like -/

theorem texts_runTokens {run : List Char} {rs : List (List Char)} (h : Maximal (run :: rs)) (before : List Char) :
    ((runTokens before run).filter fun t => !t.isLineBreak).flatMap Token.text =
      Text.ofChars (run.filter fun c => !isSpace c) := by
  unfold runTokens
  cases hs : run.all isSpace with
  | true =>
      have hf : (run.filter fun c => !isSpace c) = [] := by
        refine List.filter_eq_nil_iff.mpr fun c hc => ?_
        simp [List.all_eq_true.mp hs c hc]
      have hb : (Token.mk .symbol Token.lineBreak (lineAfter before)).isLineBreak = true := rfl
      rw [hf]
      cases before.isEmpty <;> cases run.contains '\n' <;> simp [hb, Text.ofChars]
  | false =>
      have hf : (run.filter fun c => !isSpace c) = run := by
        refine List.filter_eq_self.mpr fun c hc => ?_
        simp [h.all_not_space hs c hc]
      have hb := Scanner.not_isLineBreak_run hs (lineAfter before)
      rw [Scanner.tokenOn] at hb
      simp [hb, hf]

theorem texts_tokensOfRuns {rs : List (List Char)} (h : Maximal rs) (before : List Char) :
    ((tokensOfRuns before rs).filter fun t => !t.isLineBreak).flatMap Token.text =
      Text.ofChars (rs.flatten.filter fun c => !isSpace c) := by
  induction rs generalizing before with
  | nil => rfl
  | cons run rs ih =>
      rw [tokensOfRuns, List.filter_append, List.flatMap_append, texts_runTokens h, ih h.tail, List.flatten_cons,
        List.filter_append, Text.ofChars, Text.ofChars, Text.ofChars, List.flatMap_append]

theorem head_collapse_true (ts : List Token) : ∀ t ∈ (collapse true ts).head?, t.isLineBreak = false := by
  induction ts with
  | nil => exact fun t ht => nomatch ht
  | cons u ts ih =>
      cases hu : u.isLineBreak with
      | true =>
          rw [collapse, hu]
          exact ih
      | false =>
          rw [collapse, hu]
          intro t ht
          cases ht
          exact hu

theorem isChain_collapse (suppress : Bool) (ts : List Token) :
    (collapse suppress ts).IsChain fun t u => t.isLineBreak = true → u.isLineBreak = false := by
  induction ts generalizing suppress with
  | nil => exact .nil
  | cons t ts ih =>
      unfold collapse
      split
      · exact ih true
      · refine List.isChain_cons.mpr ⟨fun u hu ht => ?_, ih t.isLineBreak⟩
        rw [ht] at hu
        exact head_collapse_true ts u hu

/-- A source falls into its maximal runs, and its tokens are those of the runs. So their texts make up the
source without its white space, no line break comes first, and no two line breaks are neighbours. -/
theorem tokenize_eq_tokensOfRuns (source : Text) :
    (runs source.chars).flatten = source.chars ∧ Maximal (runs source.chars) ∧
      tokenize source = tokensOfRuns [] (runs source.chars) ∧
      ((tokenize source).filter fun t => !t.isLineBreak).flatMap Token.text =
        Text.ofChars (source.chars.filter fun c => !isSpace c) ∧
      (∀ t ∈ (tokenize source).head?, t.isLineBreak = false) ∧
      (tokenize source).IsChain fun t u => t.isLineBreak = true → u.isLineBreak = false := by
  have hm := maximal_runs source.chars
  have hf : (runs source.chars).flatten = source.chars := List.flatten_splitBy _ _
  have ht : tokenize source = tokensOfRuns [] (runs source.chars) := by
    have hr := collapse_readout_eq_tokensOfRuns hm [] true (fun _ _ _ => rfl)
    rw [hf] at hr
    exact (tokenize_eq_collapse source).trans hr
  refine ⟨hf, hm, ht, ?_, ?_, ?_⟩
  · rw [ht, texts_tokensOfRuns hm, hf]
  · rw [tokenize_eq_collapse]
    exact head_collapse_true _
  · rw [tokenize_eq_collapse]
    exact isChain_collapse _ _

-- The first newline leaves no token, and the two later ones leave one, on the line of the first of them.
example : tokensOfRuns [] (runs ['\n', 'a', '.', '+', ' ', '\n', '\n', '1']) =
    [⟨.unknown, "a.", 2⟩, ⟨.operator, "+", 2⟩, ⟨.symbol, "\n", 2⟩, ⟨.number, "1", 4⟩] := rfl

end Abacus
