import Abacus.Proofs.Automaton
import Abacus.Proofs.Scanner.Blanks
import Abacus.Proofs.Statement

/-!
# Assignments and their words

An assignment is a name, an equals sign and an expression. Its words are the name, the sign and the words of the
expression. The words alone do not make an assignment: between the name and the sign only blanks may stand, and not all
white space is a blank.
-/

namespace Abacus

theorem IsStatement.lexemes {s : Text} (h : IsStatement s) : (tokenize s).map Token.lexeme = (words s).map classified :=
  lexemes_tokenize_of_notMem h.newline_notMem

/-- A name, an equals sign and an expression, with blanks around the first two. -/
structure IsAssignment (s name expression : Text) : Prop where
  parts : ∃ u v w, s = (u ++ (name ++ v)) ++ 61 :: (w ++ expression) ∧ (∀ b ∈ u, isInnerBlank b = true) ∧
    (∀ b ∈ v, isInnerBlank b = true) ∧ ∀ b ∈ w, isInnerBlank b = true
  name_bytes : ∀ b ∈ name, isNameByte b = true
  name_starts : ∃ b rest, name = b :: rest ∧ Text.isDigit b = false
  expression_nonempty : expression ≠ []

theorem isAssignment_of_assignment? {s name expression : Text} (h : Statement.assignment? s = some (name, expression)) :
    IsAssignment s name expression := by
  unfold Statement.assignment? at h
  simp only at h
  split at h
  · cases h
  rename_i b rest hname
  split at h
  · cases h
  rename_i hd
  split at h
  case h_2 => cases h
  rename_i after hafter
  split at h
  · cases h
  rename_i he
  simp only [Option.some.injEq, Prod.mk.injEq] at h
  obtain ⟨rfl, rfl⟩ := h
  refine ⟨⟨s.takeWhile isInnerBlank, ((s.dropWhile isInnerBlank).dropWhile isNameByte).takeWhile isInnerBlank,
    after.takeWhile isInnerBlank, ?_, fun _ => List.mem_takeWhile_imp, fun _ => List.mem_takeWhile_imp,
    fun _ => List.mem_takeWhile_imp⟩, fun _ => List.mem_takeWhile_imp, ⟨b, rest, hname, by simpa using hd⟩,
    by simpa using he⟩
  rw [List.takeWhile_append_dropWhile, ← hafter, List.append_assoc, List.append_assoc,
    List.takeWhile_append_dropWhile, List.takeWhile_append_dropWhile, List.takeWhile_append_dropWhile]

theorem IsAssignment.accepts_identifier {s name expression : Text} (h : IsAssignment s name expression) :
    Automaton.identifier.accepts name = true :=
  Automaton.accepts_identifier_iff.mpr ⟨h.name_bytes, h.name_starts⟩

theorem IsAssignment.words {s name expression : Text} (h : IsAssignment s name expression) :
    words s = name :: [61] :: words expression := by
  have hname := words_of_identifier h.accepts_identifier
  obtain ⟨u, v, w, rfl, hu, hv, hw⟩ := h.parts
  have ho : ownWord (Char.ofNat (61 : UInt8).toNat) = [[61]] := rfl
  rw [words_append_cons (by decide) (by decide), ho, words_blanks_append hu, words_append_blanks hv,
    words_blanks_append hw, hname]
  rfl

theorem IsAssignment.mem_of_mem_expression {s name expression : Text} (h : IsAssignment s name expression) {b : UInt8}
    (hb : b ∈ expression) : b ∈ s := by
  obtain ⟨u, v, w, rfl, _⟩ := h.parts
  simp [hb]

theorem mem_of_mem_ofText {s : Text} {b : UInt8} (h : b ∈ (Statement.ofText s).expression) : b ∈ s := by
  unfold Statement.ofText at h
  split at h
  · rename_i ha
    exact (isAssignment_of_assignment? ha).mem_of_mem_expression h
  · exact h

theorem assignment?_of_target {s name : Text} (h : (Statement.ofText s).target = some name) :
    Statement.assignment? s = some (name, (Statement.ofText s).expression) := by
  unfold Statement.ofText at h ⊢
  split at h
  · rename_i ha
    cases h
    rw [ha]
  · cases h

/-- A name alone is no assignment. -/
theorem ofText_of_identifier {n : Text} (h : Automaton.identifier.accepts n = true) :
    Statement.ofText n = ⟨none, n⟩ := by
  unfold Statement.ofText
  split
  · rename_i ha
    have hw := (isAssignment_of_assignment? ha).words
    rw [words_of_identifier h] at hw
    cases hw
  · rfl

/-- Scanned without its lines, an assignment is the name, an equals sign and the expression. -/
theorem lexemes_assignment {s name expression : Text} (hs : IsStatement s)
    (h : Statement.assignment? s = some (name, expression)) :
    (tokenize s).map Token.lexeme =
      (classify name, name) :: (.operator, "=") :: (tokenize expression).map Token.lexeme := by
  have ha := isAssignment_of_assignment? h
  have he : 10 ∉ expression := fun hm => hs.newline_notMem (ha.mem_of_mem_expression hm)
  rw [hs.lexemes, lexemes_tokenize_of_notMem he, ha.words]
  rfl

/-! ## Assignments and blanks -/

theorem notMem_of_isBlank {gap : Text} (h : gap.isBlank = true) {b : UInt8} (hb : b < 0x80)
    (hs : isSpace (Char.ofNat b.toNat) = false) : b ∉ gap := by
  intro hm
  obtain ⟨x, y, rfl⟩ := List.append_of_mem hm
  have hc := Text.isBlank_iff.mp h (Char.ofNat b.toNat) (by simp [Text.chars_append_ascii_cons hb])
  cases hs.symm.trans hc

theorem isBlank_of_isInnerBlank {gap : Text} (h : ∀ b ∈ gap, isInnerBlank b = true) : gap.isBlank = true := by
  refine words_eq_nil_iff.mp ?_
  have hw := words_blanks_append h []
  rwa [List.append_nil] at hw

theorem not_isNameByte_of_isInnerBlank {b : UInt8} (h : isInnerBlank b = true) : isNameByte b = false := by
  simp only [isInnerBlank, Bool.or_eq_true, beq_iff_eq] at h
  rcases h with (((rfl | rfl) | rfl) | rfl) | rfl <;> rfl

section
variable {name : Text} (hn : Automaton.identifier.accepts name = true)
include hn

/-- After a name, only what follows it decides. -/
theorem assignment?_name_append {rest : Text} (hr : ∀ b, rest.head? = some b → isNameByte b = false) :
    Statement.assignment? (name ++ rest) =
      match rest.dropWhile isInnerBlank with
      | 61 :: after =>
        let expression := after.dropWhile isInnerBlank
        if expression.isEmpty then none else some (name, expression)
      | _ => none := by
  obtain ⟨hbytes, b, more, rfl, hd⟩ := Automaton.accepts_identifier_iff.mp hn
  have hb : ¬ isInnerBlank b = true := fun hi => by
    cases (not_isNameByte_of_isInnerBlank hi).symm.trans (hbytes b List.mem_cons_self)
  have hbody : ((b :: more) ++ rest).dropWhile isInnerBlank = (b :: more) ++ rest := List.dropWhile_cons_of_neg hb
  have hname : ((b :: more) ++ rest).takeWhile isNameByte = b :: more := by
    rw [List.takeWhile_append_of_pos hbytes]
    cases rest with
    | nil => exact List.append_nil _
    | cons d rest => rw [List.takeWhile_cons_of_neg (by simp [hr d rfl]), List.append_nil]
  have hrest : ((b :: more) ++ rest).dropWhile isNameByte = rest := by
    rw [List.dropWhile_append_of_pos hbytes]
    cases rest with
    | nil => rfl
    | cons d rest => exact List.dropWhile_cons_of_neg (by simp [hr d rfl])
  unfold Statement.assignment?
  simp only [hbody, hname, hrest, hd]
  rfl

section
variable {gap after : Text} (hg : gap.isBlank = true)
include hg

theorem words_name_append : words (name ++ (gap ++ 61 :: after)) = name :: [61] :: words after := by
  have hascii : ∀ b ∈ name, b < 0x80 := fun b hb => (isLexemeChar_of_identifier hn b hb).1
  have hname : words (name ++ gap) = [name] := by
    rw [words, Text.chars_ascii_append hascii, wordsAfter_append_space (Text.isBlank_iff.mp hg),
      ← Text.chars_of_ascii hascii]
    exact words_of_identifier hn
  have ho : ownWord (Char.ofNat (61 : UInt8).toNat) = [[61]] := rfl
  rw [← List.append_assoc, words_append_cons (by decide) (by decide), ho, hname]
  rfl

/-- A name and an equals sign with something after it are an assignment if blanks and nothing else stand between. -/
theorem isSome_assignment?_iff (ha : after.isBlank = false) :
    (Statement.assignment? (name ++ (gap ++ 61 :: after))).isSome = true ↔ ∀ b ∈ gap, isInnerBlank b = true := by
  have hhead : ∀ b, (gap ++ 61 :: after).head? = some b → isNameByte b = false := by
    intro b hb
    cases gap with
    | nil =>
        cases hb
        rfl
    | cons d gap =>
        cases hb
        refine Bool.eq_false_iff.mpr fun hname => ?_
        obtain ⟨hascii, hl⟩ := isLexemeChar_of_isNameByte hname
        exact notMem_of_isBlank hg hascii (not_isSpace_of_isLexemeChar hl) List.mem_cons_self
  rw [assignment?_name_append hn hhead]
  constructor
  · intro h
    cases hd : gap.dropWhile isInnerBlank with
    | nil => exact List.dropWhile_eq_nil_iff.mp hd
    | cons d rest =>
        have hm : d ∈ gap := (List.dropWhile_suffix isInnerBlank).mem (hd ▸ List.mem_cons_self)
        rw [List.dropWhile_append, hd] at h
        simp only [List.isEmpty_cons, Bool.false_eq_true, ↓reduceIte, List.cons_append] at h
        split at h
        · rename_i he
          obtain ⟨rfl, _⟩ := List.cons.inj he
          exact absurd hm (notMem_of_isBlank hg (by decide) (by decide))
        · cases h
  · intro h
    have he : after.dropWhile isInnerBlank ≠ [] := fun he => by
      cases ha.symm.trans (isBlank_of_isInnerBlank (List.dropWhile_eq_nil_iff.mp he))
    rw [List.dropWhile_append_of_pos h, List.dropWhile_cons_of_neg (by decide)]
    simp [he]

end

end

end Abacus
