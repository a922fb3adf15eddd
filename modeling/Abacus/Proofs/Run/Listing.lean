import Abacus.Proofs.Assignment
import Abacus.Proofs.Parser.Language
import Abacus.Proofs.Run.Outcomes

/-!
# The listing shows what a run scans

A listing scans a whole script, and a run scans each statement on its own, and of an assignment only the expression.
No word is cut in two or put together by this: every cut is made at a separator, at white space or at an equals sign.
So a script without semicolons that runs to its end has nothing unknown in its listing.
-/

namespace Abacus

/-! ## Statements -/

/-- A separator is no word but perhaps a semicolon, and keeps the words around it apart. -/
theorem filter_words_append_cons {b : UInt8} (hb : separates b = true) (a c : Text) :
    (words (a ++ b :: c)).filter (· != [59]) = (words a).filter (· != [59]) ++ (words c).filter (· != [59]) := by
  have hown : b < 0x80 ∧ isLexemeChar (Char.ofNat b.toNat) = false ∧
      (ownWord (Char.ofNat b.toNat)).filter (· != [59]) = [] := by
    simp only [separates, Bool.or_eq_true, beq_iff_eq] at hb
    rcases hb with rfl | rfl <;> exact ⟨by decide, by decide, rfl⟩
  rw [words_append_cons hown.1 hown.2.1, List.filter_append, List.filter_append, hown.2.2, List.append_nil]

theorem filter_words_of_whole {a : Text} (ha : ∀ b ∈ a, separates b = false) :
    (words a).filter (· != [59]) = words a := by
  refine List.filter_eq_self.mpr fun w hw => bne_iff_ne.mpr ?_
  rintro rfl
  exact absurd (ha 59 (mem_of_mem_words (by decide) (by decide) hw)) (by decide)

/-- Semicolons apart, the words of a text are those of the pieces between its separators. -/
theorem words_splitOnP {a : Text} (ha : ∀ b ∈ a, separates b = false) (t : Text) :
    (words (a ++ t)).filter (· != [59]) = ((a ++ t).splitOnP separates).flatMap words := by
  -- `a` is the piece read so far: a byte that separates ends it, and any other makes it longer.
  induction t generalizing a with
  | nil => rw [List.append_nil, List.splitOnP_eq_singleton ha, List.flatMap_singleton, filter_words_of_whole ha]
  | cons b t ih =>
      cases hb : separates b with
      | true =>
          have ht := ih (List.forall_mem_nil _)
          rw [List.nil_append] at ht
          rw [filter_words_append_cons hb, List.splitOnP_append_cons _ _ hb, List.flatMap_append,
            List.splitOnP_eq_singleton ha, List.flatMap_singleton, ht, filter_words_of_whole ha]
      | false =>
          have hab : ∀ d ∈ a ++ [b], separates d = false :=
            List.forall_mem_append.mpr ⟨ha, List.forall_mem_singleton.mpr hb⟩
          have he : a ++ b :: t = a ++ [b] ++ t := (List.append_assoc a [b] t).symm
          rw [he]
          exact ih hab

theorem flatMap_words_trimmed (qs : List Text) :
    ((qs.map Text.trim).filter (!·.isEmpty)).flatMap words = qs.flatMap words := by
  induction qs with
  | nil => rfl
  | cons q qs ih =>
      rw [List.map_cons, List.flatMap_cons, ← words_trim q]
      cases hq : q.trim with
      | nil => exact ih
      | cons b t => rw [List.filter_cons_of_pos rfl, List.flatMap_cons, ih]

theorem words_dropReturns (script : Text) :
    (words (dropReturns script)).filter (· != [59]) = (splitStatements script).flatMap words := by
  have h := words_splitOnP (List.forall_mem_nil _) (dropReturns script)
  rw [List.nil_append] at h
  rw [h, splitStatements_eq, flatMap_words_trimmed]

theorem filter_classified (ws : List Text) :
    (ws.map classified).filter (· != classified [59]) = (ws.filter (· != [59])).map classified := by
  rw [List.filter_map]
  refine congrArg _ (List.filter_congr fun w _ => ?_)
  by_cases hw : w = [59]
  · subst hw
    rfl
  · have hn : classified w ≠ classified [59] := fun he => hw (congrArg Prod.snd he)
    rw [Function.comp_apply, bne_iff_ne.mpr hn, bne_iff_ne.mpr hw]

/-- A listing, line breaks and semicolons left out, is what the statements are scanned as. -/
theorem lexemes_listing (i : Interpreter) (script : Text) :
    ((i.tokens script).filter fun t => !t.isLineBreak && !t.is .unknown ";").map Token.lexeme =
      (splitStatements script).flatMap fun s => (tokenize s).map Token.lexeme := by
  have hs : ∀ s ∈ splitStatements script, (words s).map classified = (tokenize s).map Token.lexeme :=
    fun s h => (isStatement_of_mem h).lexemes.symm
  calc ((i.tokens script).filter fun t => !t.isLineBreak && !t.is .unknown ";").map Token.lexeme
      = (((tokenize (dropReturns script)).filter fun t => !t.isLineBreak).map Token.lexeme).filter
          (· != classified [59]) := by
        rw [List.filter_map, List.filter_filter]
        exact congrArg _ (List.filter_congr fun t _ => Bool.and_comm _ _)
    _ = ((words (dropReturns script)).filter (· != [59])).map classified := by
        rw [lexemes_tokenize, filter_classified]
    _ = (splitStatements script).flatMap fun s => (words s).map classified := by
        rw [words_dropReturns, List.map_flatMap]
    _ = (splitStatements script).flatMap fun s => (tokenize s).map Token.lexeme := List.flatMap_congr hs

/-! ## Known words -/

theorem IsAssignment.classify_ne_unknown {s name expression : Text} (h : IsAssignment s name expression) :
    classify name ≠ .unknown := by
  rw [classify, if_pos h.accepts_identifier]
  split <;> decide

open Grammar in
theorem Grammar.Derives.kind_ne_unknown {c : Phrase} {ts : List Token} {e : Expr} (h : Derives c ts e) :
    ∀ t ∈ ts, t.kind ≠ .unknown := by
  induction h with
  | term _ ih => exact ih
  | sum _ sign _ ihl ihr =>
      refine List.forall_mem_append.mpr ⟨ihl, List.forall_mem_cons.mpr ⟨?_, ihr⟩⟩
      cases sign <;> simp
  | factor _ ih => exact ih
  | product _ sign _ ihl ihr =>
      refine List.forall_mem_append.mpr ⟨ihl, List.forall_mem_cons.mpr ⟨?_, ihr⟩⟩
      cases sign <;> simp
  | paren _ ih => exact List.forall_mem_cons.mpr ⟨by simp, List.forall_mem_append.mpr ⟨ih, by simp⟩⟩
  | number _ => simp
  | identifier => simp

theorem kind_ne_unknown_of_parse {t : Text} {limit : Nat} {e : Expr} (h : parse (tokenize t) limit = .ok e) :
    ∀ tok ∈ tokenize t, tok.kind ≠ .unknown := by
  have hk : ∀ tok ∈ tokenize t, tok.kind ≠ .endOfInput := by
    intro tok hm
    rw [kind_of_mem_tokenize hm]
    exact classify_ne_endOfInput _
  unfold parse at h
  cases hp : (Parser.start (tokenize t) limit).parse.1 with
  | error r =>
      rw [hp] at h
      cases h
  | ok e' => exact (Parser.parse_sound hk hp).1.kind_ne_unknown

/-- A statement whose expression parses is scanned without an unknown token. -/
theorem kind_ne_unknown_of_statement {s : Text} (hs : IsStatement s) {limit : Nat} {e : Expr}
    (h : parse (tokenize (Statement.ofText s).expression) limit = .ok e) :
    ∀ lexeme ∈ (tokenize s).map Token.lexeme, lexeme.1 ≠ .unknown := by
  have hkinds {t : Text} (ht : parse (tokenize t) limit = .ok e) :
      ∀ lexeme ∈ (tokenize t).map Token.lexeme, lexeme.1 ≠ .unknown := by
    intro lexeme hm
    obtain ⟨tok, htok, rfl⟩ := List.mem_map.mp hm
    exact kind_ne_unknown_of_parse ht tok htok
  unfold Statement.ofText at h
  cases ha : Statement.assignment? s with
  | none =>
      rw [ha] at h
      exact hkinds h
  | some p =>
      rw [ha] at h
      rw [lexemes_assignment hs ha]
      have hn := (isAssignment_of_assignment? ha).classify_ne_unknown
      exact List.forall_mem_cons.mpr ⟨hn, List.forall_mem_cons.mpr ⟨by simp, hkinds h⟩⟩

/-- A run that reports no problem has parsed every statement. -/
theorem parse_of_problem_eq_none {limit : Nat} {interrupted : Nat → Option Interruption} {env : Environment}
    {index : Nat} {stmts : List Text} (h : (runStatements limit interrupted env index stmts).problem = none) :
    ∀ s ∈ stmts, ∃ e, parse (tokenize (Statement.ofText s).expression) limit = .ok e := by
  induction stmts generalizing env index with
  | nil => exact List.forall_mem_nil _
  | cons text rest ih =>
      rcases runStatements_cons limit interrupted env index text rest with
        ⟨_, _, he⟩ | ⟨f, j, _, _, he⟩ | ⟨o, j, _, hv, _, _, _, he⟩
      · rw [he] at h
        cases h
      · rw [he] at h
        cases h
      · rw [he] at h
        exact List.forall_mem_cons.mpr ⟨valueOf_eq_ok hv, ih h⟩

/-! ## Listing and run -/

/-- The listing of a script, line breaks and unknown semicolons left out, shows token for token what the statements of
the script are scanned as; an assignment is scanned as its name, an equals sign and what its expression is scanned as.
So a script without a semicolon that runs without a problem has no unknown token in its listing. -/
theorem listing_shows_scanned_statements (i : Interpreter) (script : Text) :
    ((i.tokens script).filter fun t => !t.isLineBreak && !t.is .unknown ";").map Token.lexeme =
      (splitStatements script).flatMap (fun s => (tokenize s).map Token.lexeme) ∧
    (∀ s ∈ splitStatements script, ∀ name expression, Statement.assignment? s = some (name, expression) →
      (tokenize s).map Token.lexeme =
        (classify name, name) :: (.operator, "=") :: (tokenize expression).map Token.lexeme) ∧
    (∀ interrupted runId source, 59 ∉ script →
      (i.execute interrupted runId ⟨source, script⟩).1.problem = none → ∀ t ∈ i.tokens script, t.kind ≠ .unknown) := by
  have hlist := lexemes_listing i script
  refine ⟨hlist, fun s hs name expression h => lexemes_assignment (isStatement_of_mem hs) h, ?_⟩
  intro interrupted runId source hsemi hrun t ht hk
  have hb : t.isLineBreak = false := by simp [Token.isLineBreak, Token.is, hk]
  have hne : t.text ≠ [59] := by
    intro he
    have hw : t.text ∈ words (dropReturns script) := by
      rw [← texts_tokenize]
      exact List.mem_map_of_mem (List.mem_filter.mpr ⟨ht, by simp [hb]⟩)
    rw [he] at hw
    exact hsemi (List.mem_of_mem_filter (mem_of_mem_words (by decide) (by decide) hw))
  have hm : t.lexeme ∈ (splitStatements script).flatMap fun s => (tokenize s).map Token.lexeme := by
    rw [← hlist]
    refine List.mem_map_of_mem (List.mem_filter.mpr ⟨ht, ?_⟩)
    have hs : t.is .unknown ";" = false :=
      Bool.eq_false_iff.mpr fun h => hne (beq_iff_eq.mp (Bool.and_eq_true_iff.mp h).2)
    simp [hb, hs]
  obtain ⟨s, hs, hm⟩ := List.mem_flatMap.mp hm
  obtain ⟨e, he⟩ := parse_of_problem_eq_none hrun s hs
  exact kind_ne_unknown_of_statement (isStatement_of_mem hs) he _ hm hk

/-- A carriage return inside a name, which is dropped before anything is scanned. -/
def brokenName : Text := "a\rb = 1\r\n ab + 2"

theorem brokenName_listing :
    splitStatements brokenName = ["ab = 1", "ab + 2"] ∧
      (((Interpreter.new 0).tokens brokenName).filter fun t => !t.isLineBreak && !t.is .unknown ";").map Token.lexeme =
        (["ab", "=", "1", "ab", "+", "2"] : List Text).map classified ∧
      ((Interpreter.new 0).execute (always none) "run" ⟨"cli", brokenName⟩).1.problem = none ∧
      ∀ t ∈ (Interpreter.new 0).tokens brokenName, t.kind ≠ .unknown := by
  obtain ⟨hlist, _, hknown⟩ := listing_shows_scanned_statements (.new 0) brokenName
  have hrun : ((Interpreter.new 0).execute (always none) "run" ⟨"cli", brokenName⟩).1.problem = none := rfl
  exact ⟨by decide, hlist.trans (by decide), hrun, hknown _ _ _ (by decide) hrun⟩

end Abacus
