import Abacus.Proofs.Automaton
import Abacus.Proofs.Scanner.Runs
import Abacus.Proofs.Text.Ascii

/-!
# The words of a text

The words of a text are the texts of its tokens, line breaks left out. A text may be cut at any character that is in no
lexeme: the words are those of the two parts, with the word of the character itself between them. Hence white space
around a text does not matter.
-/

namespace Abacus

/-- What a token is without the line it stands on. -/
def Token.lexeme (t : Token) : Kind × Text := (t.kind, t.text)

def classified (w : Text) : Kind × Text := (classify w, w)

/-- The word of an unfinished lexeme, given last character first. -/
def pendingWord (pending : List Char) : List Text :=
  if pending.isEmpty then [] else [Text.ofChars pending.reverse]

/-- The word of a character that is in no lexeme. -/
def ownWord (c : Char) : List Text := if isSpace c then [] else [Text.ofChar c]

/-- The words that reading characters finishes after an unfinished lexeme. -/
def wordsAfter (pending : List Char) : List Char → List Text
  | [] => pendingWord pending
  | c :: cs =>
    if isLexemeChar c then wordsAfter (c :: pending) cs else pendingWord pending ++ ownWord c ++ wordsAfter [] cs

def words (t : Text) : List Text := wordsAfter [] t.chars

/-! ## Words of characters -/

theorem isLexemeChar_eq_false_of_isSpace {c : Char} (h : isSpace c = true) : isLexemeChar c = false := by
  refine Bool.eq_false_iff.mpr fun hl => ?_
  simp [not_isSpace_of_isLexemeChar hl] at h

/-- Words fall apart at a character that is in no lexeme. -/
theorem wordsAfter_append_cons {c : Char} (hc : isLexemeChar c = false) (pending a b : List Char) :
    wordsAfter pending (a ++ c :: b) = wordsAfter pending a ++ ownWord c ++ wordsAfter [] b := by
  induction a generalizing pending with
  | nil => simp [wordsAfter, hc]
  | cons d a ih =>
      cases hd : isLexemeChar d with
      | true => simp [wordsAfter, hd, ih]
      | false => simp [wordsAfter, hd, ih]

theorem wordsAfter_space_append {g : List Char} (h : ∀ c ∈ g, isSpace c = true) (cs : List Char) :
    wordsAfter [] (g ++ cs) = wordsAfter [] cs := by
  induction g with
  | nil => rfl
  | cons c g ih =>
      have hc := h c List.mem_cons_self
      have ho : ownWord c = [] := if_pos hc
      have hw := wordsAfter_append_cons (isLexemeChar_eq_false_of_isSpace hc) [] [] (g ++ cs)
      rw [List.nil_append] at hw
      rw [List.cons_append, hw, ho, ih fun d hd => h d (List.mem_cons_of_mem c hd)]
      rfl

theorem wordsAfter_append_space {g : List Char} (h : ∀ c ∈ g, isSpace c = true) (cs : List Char) :
    wordsAfter [] (cs ++ g) = wordsAfter [] cs := by
  cases g with
  | nil => rw [List.append_nil]
  | cons c g =>
      have hc := h c List.mem_cons_self
      have ho : ownWord c = [] := if_pos hc
      have hg := wordsAfter_space_append (fun d hd => h d (List.mem_cons_of_mem c hd)) []
      rw [List.append_nil] at hg
      rw [wordsAfter_append_cons (isLexemeChar_eq_false_of_isSpace hc), ho, hg]
      simp [wordsAfter, pendingWord]

theorem wordsAfter_lexeme_append {w : List Char} (h : ∀ c ∈ w, isLexemeChar c = true) (pending cs : List Char) :
    wordsAfter pending (w ++ cs) = wordsAfter (w.reverse ++ pending) cs := by
  induction w generalizing pending with
  | nil => rfl
  | cons c w ih =>
      rw [List.cons_append, wordsAfter, if_pos (h c List.mem_cons_self), ih fun d hd => h d (List.mem_cons_of_mem c hd)]
      simp

theorem wordsAfter_lexeme {w : List Char} (h : ∀ c ∈ w, isLexemeChar c = true) (pending : List Char) :
    wordsAfter pending w = pendingWord (w.reverse ++ pending) := by
  have hw := wordsAfter_lexeme_append h pending []
  rwa [List.append_nil] at hw

theorem ofChars_singleton (c : Char) : Text.ofChars [c] = Text.ofChar c := by
  simp [Text.ofChars]

section
variable {c : Char} (hc : isLexemeChar c = false) {pending : List Char} (hp : ∀ d ∈ pending, isLexemeChar d = true)
include hc hp

theorem ofChar_notMem_pendingWord : Text.ofChar c ∉ pendingWord pending := by
  unfold pendingWord
  split
  · exact List.not_mem_nil
  · intro hm
    rw [← ofChars_singleton] at hm
    have hr : [c] = pending.reverse := Text.ofChars_injective (List.mem_singleton.mp hm)
    have hl := hp c (List.mem_reverse.mp (hr ▸ List.mem_singleton_self c))
    cases hc.symm.trans hl

/-- A character that is in no lexeme is a word only where it stands. -/
theorem mem_of_ofChar_mem {cs : List Char} (h : Text.ofChar c ∈ wordsAfter pending cs) : c ∈ cs := by
  induction cs generalizing pending with
  | nil => exact absurd h (ofChar_notMem_pendingWord hc hp)
  | cons d cs ih =>
      unfold wordsAfter at h
      split at h
      · rename_i hd
        exact List.mem_cons_of_mem d (ih (List.forall_mem_cons.mpr ⟨hd, hp⟩) h)
      · rcases List.mem_append.mp h with h | h
        · rcases List.mem_append.mp h with h | h
          · exact absurd h (ofChar_notMem_pendingWord hc hp)
          · unfold ownWord at h
            split at h
            · cases h
            · rw [List.mem_singleton, ← ofChars_singleton, ← ofChars_singleton] at h
              exact List.mem_cons.mpr (.inl (List.singleton_inj.mp (Text.ofChars_injective h)))
        · exact List.mem_cons_of_mem d (ih (List.forall_mem_nil _) h)

end

/-! ## Words of tokens -/

theorem filter_collapse (suppress : Bool) (ts : List Token) :
    (collapse suppress ts).filter (fun t => !t.isLineBreak) = ts.filter fun t => !t.isLineBreak := by
  induction ts generalizing suppress with
  | nil => rfl
  | cons t ts ih =>
      cases ht : t.isLineBreak with
      | true => cases suppress <;> simp [collapse, ht, ih]
      | false => simp [collapse, ht, ih]

namespace Scanner

theorem texts_pendingToken (line : Nat) (pending : List Char) :
    (pendingToken line pending).map Token.text = pendingWord pending := by
  unfold pendingToken pendingWord
  split <;> rfl

theorem filter_pendingToken (line : Nat) {pending : List Char} (hp : ∀ c ∈ pending, isLexemeChar c = true) :
    (pendingToken line pending).filter (fun t => !t.isLineBreak) = pendingToken line pending :=
  List.filter_eq_self.mpr fun t ht => by simp [not_isLineBreak_pendingToken line hp t ht]

theorem texts_readout (line : Nat) {pending : List Char} (hp : ∀ c ∈ pending, isLexemeChar c = true)
    (cs : List Char) :
    ((readout line pending cs).filter fun t => !t.isLineBreak).map Token.text = wordsAfter pending cs := by
  induction cs generalizing line pending with
  | nil => rw [readout, filter_pendingToken line hp, texts_pendingToken, wordsAfter]
  | cons c cs ih =>
      have hnil (line : Nat) := ih line (List.forall_mem_nil _)
      -- The characters that `readout` tells apart; a newline is white space to `wordsAfter`.
      by_cases hn : c = '\n'
      · subst hn
        have hb : (tokenOn line Token.lineBreak).isLineBreak = true := rfl
        have hl : isLexemeChar '\n' = false := rfl
        have ho : ownWord '\n' = [] := rfl
        simp [readout, wordsAfter, filter_pendingToken line hp, texts_pendingToken, hnil, hb, hl, ho]
      · cases hs : isSpace c with
        | true =>
            have hl := isLexemeChar_eq_false_of_isSpace hs
            simp [readout, wordsAfter, ownWord, filter_pendingToken line hp, texts_pendingToken, hnil, hn, hl, hs]
        | false =>
            cases hl : isLexemeChar c with
            | true => simp [readout, wordsAfter, hn, hl, hs, ih line (List.forall_mem_cons.mpr ⟨hl, hp⟩)]
            | false =>
                have hb : (tokenOn line (Text.ofChar c)).isLineBreak = false := by
                  rw [← ofChars_singleton]
                  exact not_isLineBreak_of_ne line (by simpa using hn)
                have ht : (tokenOn line (Text.ofChar c)).text = Text.ofChar c := rfl
                simp [readout, wordsAfter, ownWord, filter_pendingToken line hp, texts_pendingToken, hnil, hn, hl, hs,
                  hb, ht]

/-- A line break comes from a newline. -/
theorem newline_of_mem_readout {line : Nat} {pending cs : List Char} (hp : ∀ c ∈ pending, isLexemeChar c = true)
    {t : Token} (ht : t ∈ readout line pending cs) (hb : t.isLineBreak = true) : '\n' ∈ cs := by
  have hpending {line : Nat} {pending : List Char} (hp : ∀ c ∈ pending, isLexemeChar c = true) :
      t ∉ pendingToken line pending := fun hm => by
    simp [not_isLineBreak_pendingToken line hp t hm] at hb
  induction cs generalizing line pending with
  | nil => exact absurd ht (hpending hp)
  | cons c cs ih =>
      unfold readout at ht
      repeat' split at ht
      · rename_i hn
        exact hn ▸ List.mem_cons_self
      · have ht := (List.mem_append.mp ht).resolve_left (hpending hp)
        exact List.mem_cons_of_mem c (ih (List.forall_mem_nil _) ht)
      · rename_i hl
        exact List.mem_cons_of_mem c (ih (List.forall_mem_cons.mpr ⟨hl, hp⟩) ht)
      · rename_i hn _ _
        rcases List.mem_cons.mp ((List.mem_append.mp ht).resolve_left (hpending hp)) with rfl | ht
        · rw [← ofChars_singleton, not_isLineBreak_of_ne line (by simpa using hn)] at hb
          cases hb
        · exact List.mem_cons_of_mem c (ih (List.forall_mem_nil _) ht)

/-- Without a newline all tokens are on one line. -/
theorem line_of_mem_readout {line : Nat} {pending cs : List Char} (hn : '\n' ∉ cs) :
    ∀ t ∈ readout line pending cs, t.line = line := by
  have hpending {pending : List Char} : ∀ t ∈ pendingToken line pending, t.line = line := by
    intro t ht
    unfold pendingToken at ht
    split at ht
    · cases ht
    · cases List.mem_singleton.mp ht
      rfl
  induction cs generalizing pending with
  | nil => exact hpending
  | cons c cs ih =>
      have hc : c ≠ '\n' := fun he => hn (he ▸ List.mem_cons_self)
      have ih (pending : List Char) := @ih pending fun hm => hn (List.mem_cons_of_mem c hm)
      unfold readout
      rw [if_neg hc]
      repeat' split
      · exact List.forall_mem_append.mpr ⟨hpending, ih []⟩
      · exact ih (c :: pending)
      · exact List.forall_mem_append.mpr ⟨hpending, List.forall_mem_cons.mpr ⟨rfl, ih []⟩⟩

end Scanner

theorem tokenize_sublist_readout (t : Text) : (tokenize t).Sublist (Scanner.readout 1 [] t.chars) := by
  rw [tokenize_eq_collapse]
  exact Scanner.collapse_sublist _ _

theorem kind_of_mem_tokenize {t : Text} {tok : Token} (h : tok ∈ tokenize t) : tok.kind = classify tok.text :=
  Scanner.kind_of_mem_readout tok ((tokenize_sublist_readout t).mem h)

theorem texts_tokenize (t : Text) : ((tokenize t).filter fun tok => !tok.isLineBreak).map Token.text = words t := by
  rw [tokenize_eq_collapse, filter_collapse]
  exact Scanner.texts_readout 1 (List.forall_mem_nil _) _

/-- The tokens of a text, line breaks left out, are its words. -/
theorem lexemes_tokenize (t : Text) :
    ((tokenize t).filter fun tok => !tok.isLineBreak).map Token.lexeme = (words t).map classified := by
  rw [← texts_tokenize, List.map_map]
  refine List.map_congr_left fun tok h => ?_
  rw [Token.lexeme, kind_of_mem_tokenize (List.mem_of_mem_filter h)]
  rfl

theorem not_isLineBreak_of_mem_tokenize {t : Text} (h : 10 ∉ t) {tok : Token} (ht : tok ∈ tokenize t) :
    tok.isLineBreak = false := by
  refine Bool.eq_false_iff.mpr fun hb => h ?_
  have hn := Scanner.newline_of_mem_readout (List.forall_mem_nil _) ((tokenize_sublist_readout t).mem ht) hb
  exact Text.mem_of_mem_chars (by decide) hn

theorem line_of_mem_tokenize {t : Text} (h : 10 ∉ t) {tok : Token} (ht : tok ∈ tokenize t) : tok.line = 1 := by
  have hn : '\n' ∉ t.chars := fun hm => h (Text.mem_of_mem_chars (by decide) hm)
  exact Scanner.line_of_mem_readout hn tok ((tokenize_sublist_readout t).mem ht)

/-- The tokens of a text on one line are its words. -/
theorem tokenize_of_notMem {t : Text} (h : 10 ∉ t) : tokenize t = (words t).map (Scanner.tokenOn 1) := by
  have hb : (tokenize t).filter (fun tok => !tok.isLineBreak) = tokenize t :=
    List.filter_eq_self.mpr fun tok ht => by simp [not_isLineBreak_of_mem_tokenize h ht]
  rw [← texts_tokenize, hb, List.map_map]
  refine (List.map_id _).symm.trans (List.map_congr_left fun tok ht => ?_)
  obtain ⟨kind, text, line⟩ := tok
  have hk : kind = classify text := kind_of_mem_tokenize ht
  have hl : line = 1 := line_of_mem_tokenize h ht
  subst hk hl
  rfl

theorem lexemes_tokenize_of_notMem {t : Text} (h : 10 ∉ t) :
    (tokenize t).map Token.lexeme = (words t).map classified := by
  rw [tokenize_of_notMem h, List.map_map]
  rfl

/-! ## Words of texts -/

section
variable {b : UInt8} (hb : b < 0x80) (hl : isLexemeChar (Char.ofNat b.toNat) = false)
include hb hl

theorem words_append_cons (a c : Text) :
    words (a ++ b :: c) = words a ++ ownWord (Char.ofNat b.toNat) ++ words c := by
  rw [words, Text.chars_append_ascii_cons hb, wordsAfter_append_cons hl]
  rfl

theorem words_cons (c : Text) : words (b :: c) = ownWord (Char.ofNat b.toNat) ++ words c :=
  words_append_cons hb hl [] c

theorem mem_of_mem_words {t : Text} (h : [b] ∈ words t) : b ∈ t := by
  have he : Text.ofChar (Char.ofNat b.toNat) = [b] := Text.bytes_ascii hb
  rw [← he] at h
  exact Text.mem_of_mem_chars hb (mem_of_ofChar_mem hl (List.forall_mem_nil _) h)

end

theorem isSpace_of_isInnerBlank {b : UInt8} (h : isInnerBlank b = true) :
    b < 0x80 ∧ isSpace (Char.ofNat b.toNat) = true := by
  simp only [isInnerBlank, Bool.or_eq_true, beq_iff_eq] at h
  rcases h with (((rfl | rfl) | rfl) | rfl) | rfl <;> decide

section
variable {u : Text} (h : ∀ b ∈ u, isInnerBlank b = true)
include h

theorem isSpace_of_mem_blanks : ∀ c ∈ u.map fun b => Char.ofNat b.toNat, isSpace c = true := by
  intro c hc
  obtain ⟨b, hm, rfl⟩ := List.mem_map.mp hc
  exact (isSpace_of_isInnerBlank (h b hm)).2

theorem words_blanks_append (t : Text) : words (u ++ t) = words t := by
  rw [words, Text.chars_ascii_append fun b hb => (isSpace_of_isInnerBlank (h b hb)).1]
  exact wordsAfter_space_append (isSpace_of_mem_blanks h) _

theorem words_append_blanks (t : Text) : words (t ++ u) = words t := by
  rw [words, Text.chars_append_ascii fun b hb => (isSpace_of_isInnerBlank (h b hb)).1]
  exact wordsAfter_append_space (isSpace_of_mem_blanks h) _

end

theorem words_trim (t : Text) : words t.trim = words t := by
  rw [words, words, Text.chars, Text.chars, Text.runes_eq_around_trim t, List.map_append, List.map_append,
    wordsAfter_space_append, wordsAfter_append_space]
  · intro c hc
    obtain ⟨r, hm, rfl⟩ := List.mem_map.mp hc
    exact (Text.isSpace_toChar r).trans (List.mem_rtakeWhile_imp hm)
  · intro c hc
    obtain ⟨r, hm, rfl⟩ := List.mem_map.mp hc
    exact (Text.isSpace_toChar r).trans (List.mem_takeWhile_imp hm)

theorem isLexemeChar_of_isNameByte {b : UInt8} (h : isNameByte b = true) :
    b < 0x80 ∧ isLexemeChar (Char.ofNat b.toNat) = true := by
  have hall : ∀ n < 256, isNameByte (UInt8.ofNat n) = true →
      UInt8.ofNat n < 0x80 ∧ isLexemeChar (Char.ofNat n) = true := by decide +kernel
  simpa using hall b.toNat b.toNat_lt (by simpa using h)

section
variable {w : Text} (h : ∀ b ∈ w, b < 0x80 ∧ isLexemeChar (Char.ofNat b.toNat) = true)
include h

theorem isLexemeChar_of_mem_chars : ∀ c ∈ w.chars, isLexemeChar c = true := by
  intro c hc
  rw [Text.chars_of_ascii fun b hm => (h b hm).1] at hc
  obtain ⟨b, hm, rfl⟩ := List.mem_map.mp hc
  exact (h b hm).2

theorem words_of_lexeme (hne : w ≠ []) : words w = [w] := by
  have hb : ∀ b ∈ w, b < 0x80 := fun b hm => (h b hm).1
  have hn : w.chars ≠ [] := by simpa [Text.chars_of_ascii hb] using hne
  rw [words, wordsAfter_lexeme (isLexemeChar_of_mem_chars h), List.append_nil]
  simp [pendingWord, hn, Text.ofChars_chars_of_ascii hb]

end

theorem isLexemeChar_of_identifier {t : Text} (h : Automaton.identifier.accepts t = true) :
    ∀ b ∈ t, b < 0x80 ∧ isLexemeChar (Char.ofNat b.toNat) = true := fun b hb =>
  isLexemeChar_of_isNameByte ((Automaton.accepts_identifier_iff.mp h).1 b hb)

theorem words_of_identifier {t : Text} (h : Automaton.identifier.accepts t = true) : words t = [t] := by
  obtain ⟨_, b, rest, hn, _⟩ := Automaton.accepts_identifier_iff.mp h
  exact words_of_lexeme (isLexemeChar_of_identifier h) (by simp [hn])

theorem tokenOn_of_identifier {t : Text} (h : Automaton.identifier.accepts t = true) (hr : t ∉ reservedWords)
    (line : Nat) : Scanner.tokenOn line t = ⟨.identifier, t, line⟩ := by
  rw [Scanner.tokenOn, classify_of_identifier h hr]

theorem tokenOn_of_mem_reservedWords {t : Text} (h : t ∈ reservedWords) (line : Nat) :
    Scanner.tokenOn line t = ⟨.reservedWord, t, line⟩ := by
  rw [Scanner.tokenOn, classify_of_mem_reservedWords h]

theorem words_of_number {t : Text} (h : Automaton.number.accepts t = true) : words t = [t] := by
  obtain ⟨hbytes, b, rest, rfl, _⟩ := Automaton.of_accepts_number h
  refine words_of_lexeme (fun b hb => ?_) (by simp)
  rcases hbytes b hb with hd | rfl
  · exact isLexemeChar_of_isNameByte (by simp [isNameByte, hd])
  · decide

end Abacus
