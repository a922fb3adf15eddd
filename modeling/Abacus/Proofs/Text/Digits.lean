import Mathlib.Tactic.Common
import Abacus.Text.Bytes

/-!
# Digits

A number as digits, with zeros in front up to a width. At one width the texts are ordered as the numbers are, and no two
numbers have the same digits.
-/

namespace Abacus.Text

/-- The byte of a digit. -/
def digit (d : Nat) : UInt8 := (48 + d).toUInt8

theorem toNat_digit {d : Nat} (h : d < 10) : (digit d).toNat = 48 + d := by
  rw [digit, Nat.toUInt8_eq, UInt8.toNat_ofNat', Nat.mod_eq_of_lt (by omega)]

theorem isDigit_iff {b : UInt8} : isDigit b = true ↔ 48 ≤ b.toNat ∧ b.toNat ≤ 57 := by
  simp [isDigit, UInt8.le_iff_toNat_le]

theorem isDigit_digit {d : Nat} (h : d < 10) : isDigit (digit d) = true := by
  rw [isDigit_iff, toNat_digit h]
  omega

theorem lowerByte_of_isDigit {b : UInt8} (h : isDigit b = true) : lowerByte b = b := by
  rw [isDigit_iff] at h
  refine if_neg fun hu => ?_
  simp only [isUpper, Bool.and_eq_true, decide_eq_true_eq, UInt8.le_iff_toNat_le] at hu
  have hl : 65 ≤ b.toNat := hu.1
  omega

theorem digit_digitChar {d : Nat} (h : d < 10) : (Nat.digitChar d).toNat.toUInt8 = digit d := by
  rw [Nat.toNat_digitChar_of_lt_ten h, digit]

theorem ofNat_of_lt {n : Nat} (h : n < 10) : ofNat n = [digit n] := by
  rw [ofNat, Nat.toDigits_of_lt_base h, List.map_singleton, digit_digitChar h]

theorem ofNat_of_le {n : Nat} (h : 10 ≤ n) : ofNat n = ofNat (n / 10) ++ [digit (n % 10)] := by
  rw [ofNat, Nat.toDigits_of_base_le (by decide) h, List.map_append, List.map_singleton,
    digit_digitChar (Nat.mod_lt n (by decide)), ofNat]

theorem length_ofNat_le_iff {n k : Nat} (hk : 0 < k) : (ofNat n).length ≤ k ↔ n < Nat.pow 10 k := by
  rw [ofNat, List.length_map]
  exact Nat.length_toDigits_le_iff (by decide) hk

theorem isDigit_of_mem_ofNat {n : Nat} : ∀ b ∈ ofNat n, isDigit b = true := by
  induction n using Nat.strongRecOn with
  | ind n ih =>
      by_cases h : n < 10
      · rw [ofNat_of_lt h]
        exact fun b hb => List.mem_singleton.mp hb ▸ isDigit_digit h
      · rw [ofNat_of_le (by omega)]
        intro b hb
        rcases List.mem_append.mp hb with hb | hb
        · exact ih (n / 10) (by omega) b hb
        · exact List.mem_singleton.mp hb ▸ isDigit_digit (Nat.mod_lt n (by decide))

/-! ## A fixed width -/

theorem padded_one {n : Nat} (h : n < 10) : padded 1 n = [digit n] := by
  rw [padded, ofNat_of_lt h]
  rfl

/-- The last digit of a number stands last. -/
theorem padded_succ {w : Nat} (hw : 0 < w) (n : Nat) : padded (w + 1) n = padded w (n / 10) ++ [digit (n % 10)] := by
  by_cases h : n < 10
  · obtain ⟨w, rfl⟩ := Nat.exists_eq_succ_of_ne_zero (Nat.ne_of_gt hw)
    rw [padded, padded, ofNat_of_lt h, Nat.div_eq_of_lt h, Nat.mod_eq_of_lt h, ofNat_of_lt (n := 0) (by decide)]
    simp only [List.length_singleton, Nat.add_sub_cancel, Nat.succ_eq_add_one, List.replicate_succ', List.append_assoc]
    rfl
  · rw [padded, padded, ofNat_of_le (n := n) (by omega), List.length_append, List.length_singleton,
      Nat.add_sub_add_right, List.append_assoc]

theorem length_padded {w n : Nat} (hw : 0 < w) (h : n < Nat.pow 10 w) : (padded w n).length = w := by
  have hl := (length_ofNat_le_iff hw).mpr h
  rw [padded, List.length_append, List.length_replicate]
  omega

theorem isDigit_of_mem_padded {w n : Nat} : ∀ b ∈ padded w n, isDigit b = true := by
  intro b hb
  rcases List.mem_append.mp hb with hb | hb
  · rw [List.eq_of_mem_replicate hb]
    rfl
  · exact isDigit_of_mem_ofNat b hb

/-! ## Order -/

/-- Of two texts with beginnings of one length the beginnings decide, unless they are equal. -/
theorem append_lt_append {a b t u : Text} (hl : a.length = b.length) (h : a < b ∨ a = b ∧ t < u) : a ++ t < b ++ u := by
  rcases h with h | ⟨rfl, h⟩
  · induction a generalizing b with
    | nil =>
        rw [List.eq_nil_of_length_eq_zero hl.symm] at h
        exact absurd h (List.lt_irrefl [])
    | cons x a ih =>
        cases b with
        | nil => cases hl
        | cons y b =>
            rw [List.cons_append, List.cons_append, List.cons_lt_cons_iff]
            rcases List.cons_lt_cons_iff.mp h with h | ⟨he, h⟩
            · exact .inl h
            · exact .inr ⟨he, ih (Nat.succ.inj hl) h⟩
  · exact List.append_left_lt h

theorem padded_lt_padded {w m n : Nat} (hw : 0 < w) (hn : n < Nat.pow 10 w) (h : m < n) : padded w m < padded w n := by
  induction w generalizing m n with
  | zero => cases hw
  | succ w ih =>
      have hdigit {a b : Nat} (hb : b < 10) (hab : a < b) : [digit a] < [digit b] := by
        rw [List.cons_lt_cons_iff, UInt8.lt_iff_toNat_lt, toNat_digit (Nat.lt_trans hab hb), toNat_digit hb]
        exact .inl (Nat.add_lt_add_left hab 48)
      by_cases hw : w = 0
      · subst hw
        have hn : n < 10 := hn
        rw [padded_one hn, padded_one (Nat.lt_trans h hn)]
        exact hdigit hn h
      · have hn : n < Nat.pow 10 w * 10 := hn
        have hn' : n / 10 < Nat.pow 10 w := by omega
        have hm' : m / 10 < Nat.pow 10 w := by omega
        rw [padded_succ (by omega), padded_succ (by omega)]
        refine append_lt_append ?_ ?_
        · rw [length_padded (by omega) hn', length_padded (by omega) hm']
        · by_cases hd : m / 10 = n / 10
          · rw [hd]
            exact .inr ⟨rfl, hdigit (Nat.mod_lt n (by decide)) (by omega)⟩
          · exact .inl (ih (by omega) hn' (by omega))

theorem padded_append_lt {w m n : Nat} (hw : 0 < w) (hm : m < Nat.pow 10 w) (hn : n < Nat.pow 10 w) (b : UInt8)
    {t u : Text} (h : m < n ∨ m = n ∧ t < u) : padded w m ++ b :: t < padded w n ++ b :: u := by
  refine append_lt_append ?_ ?_
  · rw [length_padded hw hm, length_padded hw hn]
  · rcases h with h | ⟨rfl, h⟩
    · exact .inl (padded_lt_padded hw hn h)
    · exact .inr ⟨rfl, List.cons_lt_cons_iff.mpr (.inr ⟨rfl, h⟩)⟩

/-! ## Different numbers -/

theorem padded_length_ofNat (n : Nat) : padded (ofNat n).length n = ofNat n := by
  rw [padded, Nat.sub_self, List.replicate_zero, List.nil_append]

theorem ofNat_ne_of_lt {m n : Nat} (h : m < n) : ofNat m ≠ ofNat n := by
  intro he
  have hpos : 0 < (ofNat n).length := by
    rw [Nat.pos_iff_ne_zero]
    intro hz
    have hn := (length_ofNat_le_iff (n := n) (k := 1) (by decide)).mp (by omega)
    rw [ofNat_of_lt hn] at hz
    cases hz
  have hlt := padded_lt_padded hpos ((length_ofNat_le_iff hpos).mp (Nat.le_refl _)) h
  rw [padded_length_ofNat, ← he, padded_length_ofNat] at hlt
  exact List.lt_irrefl _ hlt

theorem ofNat_inj {m n : Nat} : ofNat m = ofNat n ↔ m = n := by
  refine ⟨fun he => ?_, fun he => he ▸ rfl⟩
  rcases Nat.lt_trichotomy m n with h | h | h
  · exact absurd he (ofNat_ne_of_lt h)
  · exact h
  · exact absurd he.symm (ofNat_ne_of_lt h)

/-- No digit is a minus sign. -/
theorem ofNat_ne_minus (m n : Nat) : ofNat m ≠ 45 :: ofNat n := by
  intro he
  have hm := isDigit_of_mem_ofNat (n := m) 45 (he ▸ List.mem_cons_self)
  cases hm

theorem ofInt_inj {i j : Int} : ofInt i = ofInt j ↔ i = j := by
  refine ⟨fun he => ?_, fun he => he ▸ rfl⟩
  cases i with
  | ofNat m =>
      cases j with
      | ofNat n => exact congrArg Int.ofNat (ofNat_inj.mp he)
      | negSucc n => exact absurd he (ofNat_ne_minus m (n + 1))
  | negSucc m =>
      cases j with
      | ofNat n => exact absurd he.symm (ofNat_ne_minus n (m + 1))
      | negSucc n => exact congrArg Int.negSucc (Nat.succ.inj (ofNat_inj.mp (List.cons.inj he).2))

theorem mem_ofInt {i : Int} {b : UInt8} (h : b ∈ ofInt i) : b = 45 ∨ isDigit b = true := by
  cases i with
  | ofNat n => exact .inr (isDigit_of_mem_ofNat b h)
  | negSucc n => exact (List.mem_cons.mp h).imp_right (isDigit_of_mem_ofNat b)

/-! ## Hexadecimal digits -/

theorem hexValue_hexDigit : ∀ {d : Nat}, d < 16 → hexValue (hexDigit d) = some d := by decide

/-- The number that hexadecimal digits spell. -/
def ofHex (t : Text) : Nat := t.foldl (fun n b => n * 16 + (hexValue b).getD 0) 0

theorem length_hex (width n : Nat) : (hex width n).length = width := by
  induction width generalizing n with
  | zero => rfl
  | succ width ih => rw [hex, List.length_append, ih, List.length_singleton]

theorem ofHex_hex {width n : Nat} (h : n < Nat.pow 16 width) : ofHex (hex width n) = n := by
  induction width generalizing n with
  | zero =>
      have hn : n < 1 := h
      rw [Nat.lt_one_iff.mp hn]
      rfl
  | succ width ih =>
      have h : n < Nat.pow 16 width * 16 := h
      have hdiv : ofHex (hex width (n / 16)) = n / 16 := ih (by omega)
      rw [ofHex] at hdiv
      rw [hex, ofHex, List.foldl_append, hdiv, List.foldl_cons, List.foldl_nil,
        hexValue_hexDigit (Nat.mod_lt n (by decide)), Option.getD_some]
      omega

theorem hexDigit_ne_newline : ∀ {d : Nat}, d < 16 → hexDigit d ≠ 10 := by decide

theorem newline_notMem_hex (width n : Nat) : 10 ∉ hex width n := by
  induction width generalizing n with
  | zero => exact List.not_mem_nil
  | succ width ih =>
      intro hm
      rcases List.mem_append.mp hm with hm | hm
      · exact ih (n / 16) hm
      · exact hexDigit_ne_newline (Nat.mod_lt n (by decide)) (List.mem_singleton.mp hm).symm

end Abacus.Text
