import Abacus.Proofs.Scanner.Words

/-!
# White space between words

A text has no words exactly if it is blank. A text whose first words are known is made of them and of white space: here
for a name and an equals sign, which is what an assignment starts with.
-/

namespace Abacus

/-! ## Texts without words -/

theorem wordsAfter_ne_nil {pending : List Char} (h : pending ≠ []) (cs : List Char) : wordsAfter pending cs ≠ [] := by
  induction cs generalizing pending with
  | nil => simp [wordsAfter, pendingWord, h]
  | cons c cs ih =>
      unfold wordsAfter
      split
      · exact ih (List.cons_ne_nil c pending)
      · simp [pendingWord, h]

theorem isSpace_of_wordsAfter_eq_nil {cs : List Char} (h : wordsAfter [] cs = []) : ∀ c ∈ cs, isSpace c = true := by
  induction cs with
  | nil => exact List.forall_mem_nil _
  | cons c cs ih =>
      unfold wordsAfter at h
      split at h
      · exact absurd h (wordsAfter_ne_nil (List.cons_ne_nil c []) cs)
      · obtain ⟨hc, hcs⟩ := List.append_eq_nil_iff.mp h
        refine List.forall_mem_cons.mpr ⟨?_, ih hcs⟩
        have ho := (List.append_eq_nil_iff.mp hc).2
        unfold ownWord at ho
        split at ho
        · assumption
        · cases ho

theorem words_eq_nil_iff {t : Text} : words t = [] ↔ t.isBlank = true := by
  constructor
  · intro h
    exact Text.isBlank_iff.mpr (isSpace_of_wordsAfter_eq_nil h)
  · intro h
    rw [← words_trim, List.isEmpty_iff.mp h]
    rfl

/-! ## The first word -/

/-- Where no lexeme goes on, the pending one is a word. -/
theorem wordsAfter_of_head {cs : List Char} (h : ∀ c, cs.head? = some c → isLexemeChar c = false)
    (pending : List Char) :
    wordsAfter pending cs = pendingWord pending ++ wordsAfter [] cs := by
  cases cs with
  | nil => simp [wordsAfter, pendingWord]
  | cons c cs => simp [wordsAfter, pendingWord, h c rfl]

theorem ofRunes_of_lexeme {rs : List Rune} (h : ∀ r ∈ rs, isLexemeChar r.toChar = true) :
    Text.ofRunes rs = Text.ofChars (rs.map Rune.toChar) := by
  induction rs with
  | nil => rfl
  | cons r rs ih =>
      obtain ⟨hr, hrs⟩ := List.forall_mem_cons.mp h
      have hb : r.bytes = Text.ofChar r.toChar := by
        cases r with
        | char c => rfl
        | stray b => cases hr
      rw [Text.ofRunes_cons, ih hrs, hb]
      rfl

/-- The words of a text are the lexeme it starts with, if it does, and the words of the rest. -/
theorem exists_lexeme_append (t : Text) :
    ∃ w rest, t = Text.ofChars w ++ rest ∧ (∀ c ∈ w, isLexemeChar c = true) ∧
      words t = pendingWord w.reverse ++ words rest ∧
      (w = [] → ∀ r, t.runes.head? = some r → isLexemeChar r.toChar = false) := by
  let p : Rune → Bool := fun r => isLexemeChar r.toChar
  have hr : t.runes = t.runes.takeWhile p ++ t.runes.dropWhile p := List.takeWhile_append_dropWhile.symm
  have hp : ∀ r ∈ t.runes.takeWhile p, p r = true := fun _ => List.mem_takeWhile_imp
  have hd : ∀ r, (t.runes.dropWhile p).head? = some r → isLexemeChar r.toChar = false := by
    intro r hm
    have hn := List.head?_dropWhile_not p t.runes
    rw [hm] at hn
    exact hn
  have hw : ∀ c ∈ (t.runes.takeWhile p).map Rune.toChar, isLexemeChar c = true := List.forall_mem_map.mpr hp
  refine ⟨_, Text.ofRunes (t.runes.dropWhile p), ?_, hw, ?_, ?_⟩
  · rw [← ofRunes_of_lexeme hp]
    exact Text.runes_eq_append hr
  · have hc : t.chars = (t.runes.takeWhile p).map Rune.toChar ++ (t.runes.dropWhile p).map Rune.toChar := by
      rw [← List.map_append, ← hr]
      rfl
    rw [words, hc, wordsAfter_lexeme_append hw, List.append_nil, wordsAfter_of_head, words, Text.chars,
      Text.runes_ofRunes_right hr]
    intro c hm
    rw [List.head?_map] at hm
    obtain ⟨r, hr, rfl⟩ := Option.map_eq_some_iff.mp hm
    exact hd r hr
  · intro hnil r hm
    rw [hr, List.map_eq_nil_iff.mp hnil] at hm
    exact hd r hm

/-- A text that has one word, a name, and starts with it is the name and white space. -/
theorem eq_name_append_of_words {t name : Text} (hn : Automaton.identifier.accepts name = true)
    (hw : words t = [name]) (hh : ∀ r, t.runes.head? = some r → r.isSpace = false) :
    ∃ gap, t = name ++ gap ∧ gap.isBlank = true := by
  obtain ⟨w, gap, ht, hl, hwords, hnil⟩ := exists_lexeme_append t
  rw [hw] at hwords
  cases w with
  | nil =>
      -- The first character would be a word of its own, and no such character is in a name.
      cases hr : t.runes with
      | nil =>
          have ht : t = [] := by rw [← Text.ofRunes_runes t, hr]; rfl
          rw [ht] at hw
          cases hw
      | cons r rs =>
          rw [hr] at hh hnil
          have hl := hnil rfl r rfl
          have hs := (Text.isSpace_toChar r).trans (hh r rfl)
          have hm : Text.ofChar r.toChar ∈ words name := by
            rw [words_of_identifier hn, ← hw]
            simp [words, Text.chars, hr, wordsAfter, hl, ownWord, hs]
          have hc := isLexemeChar_of_mem_chars (isLexemeChar_of_identifier hn) _
            (mem_of_ofChar_mem hl (List.forall_mem_nil _) hm)
          cases hl.symm.trans hc
  | cons c w =>
      have hpending : pendingWord (c :: w).reverse = [Text.ofChars (c :: w)] := by
        simp [pendingWord]
      rw [hpending, List.singleton_append, List.cons.injEq] at hwords
      exact ⟨gap, hwords.1 ▸ ht, words_eq_nil_iff.mp hwords.2.symm⟩

/-- A trimmed text that reads as a name, an equals sign and more is these with white space between the first two. -/
theorem eq_name_append_of_trimmed {t name : Text} {ws : List Text} (ht : t.trim = t)
    (hn : Automaton.identifier.accepts name = true) (hw : words t = name :: [61] :: ws) :
    ∃ gap after : Text, t = name ++ (gap ++ 61 :: after) ∧ gap.isBlank = true ∧ words after = ws := by
  have hmem : 61 ∈ t := mem_of_mem_words (by decide) (by decide) (hw ▸ by simp)
  obtain ⟨before, after, rfl, hfirst⟩ := List.eq_append_cons_of_mem hmem
  have ho : ownWord (Char.ofNat (61 : UInt8).toNat) = [[61]] := rfl
  rw [words_append_cons (by decide) (by decide), ho, List.append_assoc, List.singleton_append] at hw
  have hb : [61] ∉ words before := fun h => hfirst (mem_of_mem_words (by decide) (by decide) h)
  have hcut : words before = [name] ∧ words after = ws := by
    rcases hbefore : words before with _ | ⟨x, _ | ⟨y, ys⟩⟩
    · rw [hbefore, List.nil_append, List.cons.injEq] at hw
      exact absurd hn (hw.1 ▸ by decide)
    · rw [hbefore, List.singleton_append, List.cons.injEq, List.cons.injEq] at hw
      exact ⟨by rw [hw.1], hw.2.2⟩
    · rw [hbefore, List.cons_append, List.cons_append, List.cons.injEq, List.cons.injEq] at hw
      rw [hbefore, hw.2.1] at hb
      simp at hb
  obtain ⟨gap, rfl, hgap⟩ := eq_name_append_of_words hn hcut.1 fun r hr => Text.isSpace_head_of_trimmed ht (by
    rw [Text.runes_append_ascii_cons (by decide)]
    simp [hr])
  exact ⟨gap, after, List.append_assoc _ _ _, hgap, hcut.2⟩

end Abacus
