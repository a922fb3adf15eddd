import Abacus.Proofs.Expr.Arithmetic
import Abacus.Proofs.Parser.Language
import Abacus.Proofs.Scanner.Words

/-!
# Reading back what was shown

A tree is shown with every operation in parentheses. Scanning the text gives back the words it was put together from,
and parsing these gives back the tree. How many levels the parser opens for it depends on the height of the tree only:
two for the whole, and at most three more for each step down.
-/

namespace Abacus

namespace Expr

/-- A tree that can be read back: its names are identifiers that are free to use, and its numbers are shown as figures
that read as the same number. -/
inductive Legible : Expr → Prop
  | number {x : Float} (figure : Automaton.number.accepts (showValue x) = true)
      (value : Numeral.float (showValue x) = .ok x) : Legible (.number x)
  | named {name : Text} (identifier : Automaton.identifier.accepts name = true) (free : name ∉ reservedWords) :
      Legible (.variable name)
  | binary {op : Operator} {l r : Expr} (known : op ∈ arithmeticOperators) (left : Legible l) (right : Legible r) :
      Legible (.binary op l r)

theorem Legible.depth_pos {e : Expr} (h : e.Legible) : 1 ≤ e.depth := by
  cases h with
  | number _ _ => exact Nat.le_refl 1
  | named _ _ => exact Nat.le_refl 1
  | binary _ _ _ => exact Nat.le_add_right 1 _

/-! ## Words of a shown tree -/

/-- An arithmetic operator is shown as a character that is a word by itself. -/
theorem text_of_known : ∀ op ∈ arithmeticOperators,
    op.text = [op.byte] ∧ op.byte < 0x80 ∧ isLexemeChar (Char.ofNat op.byte.toNat) = false ∧
      ownWord (Char.ofNat op.byte.toNat) = [op.text] := by decide

theorem words_render_binary {op : Operator} (h : op ∈ arithmeticOperators) (l r : Expr) :
    words (binary op l r).render = [40] :: (words l.render ++ op.text :: (words r.render ++ [[41]])) := by
  obtain ⟨ht, hlt, hl, ho⟩ := text_of_known op h
  have hr : (binary op l r).render = 40 :: (l.render ++ 32 :: op.byte :: 32 :: (r.render ++ [41])) := by
    simp [render, ht]
  have hopen : ownWord (Char.ofNat (40 : UInt8).toNat) = [[40]] := rfl
  have hclose : ownWord (Char.ofNat (41 : UInt8).toNat) = [[41]] := rfl
  have hblank : ownWord (Char.ofNat (32 : UInt8).toNat) = [] := rfl
  have hnil : words [] = [] := rfl
  rw [hr, words_cons (by decide) (by decide), hopen, words_append_cons (by decide) (by decide), hblank,
    words_cons hlt hl, ho, words_cons (by decide) (by decide), hblank, words_append_cons (by decide) (by decide), hclose,
    hnil]
  simp

theorem Legible.newline_notMem {e : Expr} (h : e.Legible) : 10 ∉ e.render := by
  induction h with
  | number figure _ =>
      intro hm
      rcases (Automaton.of_accepts_number figure).1 10 hm with hd | hd
      · exact absurd hd (by decide)
      · exact absurd hd (by decide)
  | named identifier _ =>
      intro hm
      exact absurd ((Automaton.accepts_identifier_iff.mp identifier).1 10 hm) (by decide)
  | @binary op l r known _ _ ihl ihr =>
      have hall : ∀ op ∈ arithmeticOperators, 10 ∉ op.text := by decide
      have ho := hall op known
      simp [render, ihl, ihr, ho]

/-! ## Reading the words -/

/-- What the scanner makes of a shown tree. -/
def spelled (e : Expr) : List Token := (words e.render).map (Scanner.tokenOn 1)

theorem spelled_binary {op : Operator} (h : op ∈ arithmeticOperators) (l r : Expr) :
    (binary op l r).spelled =
      ⟨.symbol, "(", 1⟩ :: ((l.spelled ++ ⟨.operator, op.text, 1⟩ :: r.spelled) ++ [⟨.symbol, ")", 1⟩]) := by
  have hall : ∀ op ∈ arithmeticOperators, Scanner.tokenOn 1 op.text = ⟨.operator, op.text, 1⟩ := by decide
  have hsign := hall op h
  have hopen : Scanner.tokenOn 1 [40] = ⟨.symbol, "(", 1⟩ := rfl
  have hclose : Scanner.tokenOn 1 [41] = ⟨.symbol, ")", 1⟩ := rfl
  simp [spelled, words_render_binary h, hopen, hclose, hsign]

theorem sign_of_known {op : Operator} (h : op ∈ arithmeticOperators) :
    Grammar.SumSign ⟨.operator, op.text, 1⟩ op ∨ Grammar.ProductSign ⟨.operator, op.text, 1⟩ op := by
  simp only [arithmeticOperators, List.mem_cons, List.not_mem_nil, or_false] at h
  rcases h with rfl | rfl | rfl | rfl
  · exact .inl .plus
  · exact .inl .minus
  · exact .inr .times
  · exact .inr .over

/-- A tree that can be read back is a factor, and reading it opens at most three levels for each step down. -/
theorem Legible.readsWithin {e : Expr} (h : e.Legible) : Parser.ReadsWithin (3 * e.depth - 3) .factor e.spelled e := by
  induction h with
  | @number x figure value =>
      have hs : (Expr.number x).spelled = [⟨.number, showValue x, 1⟩] := by
        simp [spelled, render, words_of_number figure, Scanner.tokenOn, classify_of_number figure]
      rw [hs]
      exact Parser.readsWithin_number value 1
  | @named name identifier free =>
      have hs : (Expr.variable name).spelled = [⟨.identifier, name, 1⟩] := by
        simp [spelled, render, words_of_identifier identifier, tokenOn_of_identifier identifier free]
      rw [hs]
      exact Parser.readsWithin_identifier name 1
  | @binary op l r known left right ihl ihr =>
      have hdl := left.depth_pos
      have hdr := right.depth_pos
      have hd : (Expr.binary op l r).depth = 1 + max l.depth r.depth := rfl
      rw [spelled_binary known]
      -- The right operand is one level further in than the left one; what holds the two is a sum or a term.
      rcases sign_of_known known with sign | sign
      · have hi := (ihl.part .products).join .sums sign ((ihr.part .products).part .sums)
        exact (hi.paren 1 1).mono (by omega)
      · have hi := (ihl.join .products sign (ihr.part .products)).part .sums
        exact (hi.paren 1 1).mono (by omega)

/-- Showing and reading back is the identity: the tokens of the text that a tree is shown as are parsed into that tree,
under every limit from three times its depth less one on. -/
theorem parse_tokenize_render {e : Expr} (h : e.Legible) {limit : Nat} (hlimit : 3 * e.depth - 1 ≤ limit) :
    (Parser.start (tokenize e.render) limit).parse.1 = .ok e := by
  have hd := h.depth_pos
  have ht : tokenize e.render = e.spelled := tokenize_of_notMem h.newline_notMem
  have he : Parser.ReadsWithin (3 * e.depth - 3 + 1 + 1) .expression e.spelled e :=
    (h.readsWithin.part .products).part .sums
  rw [ht]
  exact he.parse (by omega)

def quotientByDifference : Expr :=
  .binary .div (.variable "rate_2") (.binary .sub (.number 2.5) (.variable "x"))

theorem quotientByDifference_reads_back :
    quotientByDifference.Legible ∧ 3 * quotientByDifference.depth - 1 = 8 ∧
      quotientByDifference.render = "(rate_2 / (2.5 - x))" ∧
      (Parser.start (tokenize quotientByDifference.render) 8).parse.1 = .ok quotientByDifference := by
  have hx : (Expr.number 2.5).Legible := .number (by decide +kernel) rfl
  have h : quotientByDifference.Legible :=
    .binary (by decide) (.named (by decide) (by decide)) (.binary (by decide) hx (.named (by decide) (by decide)))
  exact ⟨h, rfl, by decide +kernel, parse_tokenize_render h (by decide)⟩

-- With one level less the parser does not get as far as the innermost name.
example :
    ∃ r, (Parser.start (tokenize "(rate_2 / (2.5 - x))") 7).parse.1 = .error r ∧ r.fault.IsNesting :=
  ⟨_, rfl, rfl⟩

end Expr

end Abacus
