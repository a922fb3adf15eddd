import Abacus.Decimal.Layout
import Abacus.Decimal.Read
import Abacus.Proofs.Decimal.Shortest
import Abacus.Proofs.Text.Digits

/-!
# Numbers read back

A finite number is written as a figure: digits before and after a point, and an exponent if the number is very large or
small. The figure stands for a number that rounds to the one written, so reading it gives that number back.
-/

namespace Abacus

/-! ## Digits in a row -/

namespace Digits

theorem spelled_append (ds es : List Nat) : spelled (ds ++ es) = spelled ds * 10 ^ es.length + spelled es := by
  rw [spelled, List.reverse_append, Nat.ofDigits_append, List.length_reverse, spelled, spelled]
  ring

theorem spelled_cons (d : Nat) (ds : List Nat) : spelled (d :: ds) = d * 10 ^ ds.length + spelled ds := by
  rw [show d :: ds = [d] ++ ds from rfl, spelled_append, spelled, List.reverse_singleton, Nat.ofDigits_singleton]

@[simp] theorem spelled_nil : spelled [] = 0 := rfl

@[simp] theorem spelled_replicate_zero (k : Nat) : spelled (List.replicate k 0) = 0 := by
  rw [spelled, List.reverse_replicate, Nat.ofDigits_replicate_zero]

@[simp] theorem text_append (ds es : List Nat) : text (ds ++ es) = text ds ++ text es := List.map_append

@[simp] theorem text_cons (d : Nat) (ds : List Nat) : text (d :: ds) = Text.digit d :: text ds := rfl

@[simp] theorem text_replicate_zero (k : Nat) : text (List.replicate k 0) = List.replicate k 48 := List.map_replicate

theorem isDigit_of_mem_text {ds : List Nat} (h : ∀ a ∈ ds, a < 10) : ∀ b ∈ text ds, Text.isDigit b = true := by
  intro b hb
  obtain ⟨a, ha, rfl⟩ := List.mem_map.mp hb
  exact Text.isDigit_digit (h a ha)

theorem ofNat_eq_text (n : Nat) : ∃ ds, ds ≠ [] ∧ (∀ a ∈ ds, a < 10) ∧ Text.ofNat n = text ds ∧ spelled ds = n := by
  induction n using Nat.strongRecOn with
  | ind n ih =>
      by_cases h : n < 10
      · exact ⟨[n], by simp, by simpa using h, by rw [Text.ofNat_of_lt h]; rfl, by simp [spelled_cons]⟩
      · obtain ⟨ds, -, hlt, ht, hs⟩ := ih (n / 10) (by omega)
        refine ⟨ds ++ [n % 10], by simp, ?_, ?_, ?_⟩
        · intro a ha
          rcases List.mem_append.mp ha with ha | ha
          · exact hlt a ha
          · rw [List.mem_singleton.mp ha]
            omega
        · rw [Text.ofNat_of_le (by omega), ht, text_append]
          rfl
        · rw [spelled_append, hs, spelled_cons, spelled_nil]
          simp only [List.length_singleton, List.length_nil, pow_zero, pow_one]
          omega

theorem padded_eq_text (w n : Nat) :
    ∃ ds, ds ≠ [] ∧ (∀ a ∈ ds, a < 10) ∧ Text.padded w n = text ds ∧ spelled ds = n := by
  obtain ⟨ds, hne, hlt, ht, hs⟩ := ofNat_eq_text n
  refine ⟨List.replicate (w - (Text.ofNat n).length) 0 ++ ds, by simp [hne], ?_, ?_, ?_⟩
  · intro a ha
    rcases List.mem_append.mp ha with ha | ha
    · rw [List.eq_of_mem_replicate ha]
      decide
    · exact hlt a ha
  · rw [text_append, text_replicate_zero, Text.padded, ht]
  · rw [spelled_append, spelled_replicate_zero, hs, Nat.zero_mul, Nat.zero_add]

end Digits

/-! ## Figures -/

/-- Digits before and after a point, and an exponent if there is one. -/
structure Figure where
  whole : List Nat
  frac : List Nat
  exponent : Option Int

namespace Figure

def fracText (ds : List Nat) : Text := if ds.isEmpty then [] else 46 :: Digits.text ds

def exponentText (width : Nat) : Option Int → Text
  | none => []
  | some e => (if e < 0 then [101, 45] else [101, 43]) ++ Text.padded width e.natAbs

def text (width : Nat) (f : Figure) : Text :=
  Digits.text f.whole ++ fracText f.frac ++ exponentText width f.exponent

/-- The number that a figure stands for. -/
def amount (f : Figure) : ℚ := Digits.spelled (f.whole ++ f.frac) * 10 ^ (f.exponent.getD 0 - f.frac.length)

/-- A zero in front stands alone before the point. -/
structure Proper (f : Figure) : Prop where
  whole : ∀ a ∈ f.whole, a < 10
  frac : ∀ a ∈ f.frac, a < 10
  lead : f.whole = [0] ∨ ∃ a rest, f.whole = a :: rest ∧ 0 < a
  exponent : ∀ e ∈ f.exponent, e.natAbs < 1000

end Figure

namespace Digits

section
variable {d : Digits} (h : d.Proper)
include h

theorem exists_figure_positional :
    ∃ f : Figure, f.Proper ∧ f.amount = d.amount ∧ ∀ width, f.text width = d.positional := by
  by_cases hp : d.point ≤ 0
  · refine ⟨⟨[0], List.replicate (-d.point).toNat 0 ++ d.digits, none⟩, ⟨by simp, ?_, .inl rfl, by simp⟩, ?_, ?_⟩
    · intro a ha
      rcases List.mem_append.mp ha with ha | ha
      · rw [List.eq_of_mem_replicate ha]
        decide
      · exact h.below a ha
    · rw [Figure.amount, amount, List.singleton_append, spelled_cons, spelled_append, spelled_replicate_zero,
        Nat.zero_mul, Nat.zero_mul, Nat.zero_add, Nat.zero_add, List.length_append, List.length_replicate]
      congr 2
      simp only [Option.getD_none]
      omega
    · intro width
      obtain ⟨a, rest, hd, -⟩ := h.lead
      rw [Figure.text, positional, if_pos hp, Figure.fracText, if_neg (by simp [hd]), Figure.exponentText,
        List.append_nil, text_append, text_replicate_zero]
      rfl
  · obtain ⟨p, hpoint⟩ := Int.eq_ofNat_of_zero_le (show 0 ≤ d.point by omega)
    have hp' : 0 < p := by omega
    have hlength : (d.digits.take p).length = min p d.digits.length := List.length_take
    refine ⟨⟨d.digits.take p ++ List.replicate (p - (d.digits.take p).length) 0, d.digits.drop p, none⟩,
      ⟨?_, fun a ha => h.below a (List.mem_of_mem_drop ha), .inr ?_, by simp⟩, ?_, ?_⟩
    · intro a ha
      rcases List.mem_append.mp ha with ha | ha
      · exact h.below a (List.mem_of_mem_take ha)
      · rw [List.eq_of_mem_replicate ha]
        decide
    · obtain ⟨a, rest, hd, ha⟩ := h.lead
      obtain ⟨p, rfl⟩ := Nat.exists_eq_succ_of_ne_zero hp'.ne'
      exact ⟨a, _, by rw [hd, List.take_succ_cons, List.cons_append], ha⟩
    · rw [Figure.amount, amount, hpoint]
      simp only [Option.getD_none]
      rcases Nat.lt_or_ge p d.digits.length with hlt | hge
      · rw [hlength, Nat.min_eq_left hlt.le, Nat.sub_self, List.replicate_zero, List.append_nil, List.take_append_drop,
          List.length_drop]
        congr 2
        omega
      · rw [hlength, Nat.min_eq_right hge, List.drop_eq_nil_of_le hge, List.take_of_length_le hge, List.append_nil,
          spelled_append, spelled_replicate_zero, List.length_replicate, ← Int.ofNat_sub hge, zpow_natCast]
        simp
    · intro width
      have hwhole : d.point.toNat = p := by omega
      rw [Figure.text, positional, if_neg hp, hwhole, text_append, text_replicate_zero, Figure.exponentText,
        List.append_nil, Figure.fracText]

theorem exists_figure_scientific (hp : -400 < d.point ∧ d.point < 400) (width : Nat) :
    ∃ f : Figure, f.Proper ∧ f.amount = d.amount ∧ f.text width = d.scientific width := by
  obtain ⟨a, rest, hd, ha⟩ := h.lead
  have hbelow := h.below
  rw [hd] at hbelow
  refine ⟨⟨[a], rest, some (d.point - 1)⟩, ⟨?_, ?_, .inr ⟨a, [], rfl, ha⟩, ?_⟩, ?_, ?_⟩
  · simpa using hbelow a List.mem_cons_self
  · exact fun c hc => hbelow c (List.mem_cons_of_mem a hc)
  · intro e he
    obtain rfl := Option.mem_some_iff.mp he
    omega
  · rw [Figure.amount, amount, hd, List.singleton_append, List.length_cons]
    congr 2
    simp only [Option.getD_some]
    omega
  · have hmark : (if d.point - 1 < 0 then ("e-" : Text) else "e+") =
        if d.point - 1 < 0 then [101, 45] else [101, 43] := by
      split <;> rfl
    rw [scientific, hd, hmark]
    cases rest with
    | nil =>
        rw [Figure.text, Figure.fracText, Figure.exponentText, if_pos (by rfl), List.append_nil]
        exact (List.append_assoc ..).symm
    | cons c rest =>
        rw [Figure.text, Figure.fracText, Figure.exponentText, if_neg (by simp)]
        exact (List.append_assoc ..).symm

end

end Digits

/-! ## Reading a figure -/

namespace Numeral

theorem digitIn?_digit {d : Nat} (h : d < 10) : digitIn? 10 (Text.digit d) = some d := by
  have hvalue : Text.hexValue (Text.digit d) = some d := by
    rw [Text.hexValue, if_pos (Text.isDigit_digit h), Text.toNat_digit h, Nat.add_sub_cancel_left]
  simp only [digitIn?, hvalue, if_pos h]

theorem digit_ne {d : Nat} (h : d < 10) {b : UInt8} (hb : Text.isDigit b = false) : Text.digit d ≠ b := by
  rintro rfl
  rw [Text.isDigit_digit h] at hb
  cases hb

/-- Digits in a row add to the number read so far. -/
theorem mantissa_text {ds : List Nat} (h : ∀ a ∈ ds, a < 10) (m : Mantissa) (t : Text) :
    mantissa 10 m (Digits.text ds ++ t) =
      mantissa 10 ⟨m.value * 10 ^ ds.length + Digits.spelled ds, if m.point then m.places + ds.length else m.places,
        m.seen || !ds.isEmpty, m.point⟩ t := by
  induction ds generalizing m with
  | nil => simp [Digits.text]
  | cons d ds ih =>
      have hd := h d List.mem_cons_self
      rw [Digits.text_cons, List.cons_append, mantissa, if_neg (digit_ne hd rfl), if_neg (digit_ne hd rfl),
        digitIn?_digit hd]
      dsimp only
      rw [ih fun a ha => h a (List.mem_cons_of_mem d ha), Digits.spelled_cons, List.length_cons]
      congr 2
      · ring
      · dsimp only
        split <;> omega
      · simp

theorem exponentDigits_text {ds : List Nat} (h : ∀ a ∈ ds, a < 10) (e : Nat)
    (hlt : e * 10 ^ ds.length + Digits.spelled ds < 100000) :
    exponentDigits e (Digits.text ds) = (e * 10 ^ ds.length + Digits.spelled ds, []) := by
  induction ds generalizing e with
  | nil => simp [Digits.text, exponentDigits]
  | cons d ds ih =>
      have hd := h d List.mem_cons_self
      have hstep : (e * 10 + d) * 10 ^ ds.length + Digits.spelled ds =
          e * 10 ^ (d :: ds).length + Digits.spelled (d :: ds) := by
        rw [Digits.spelled_cons, List.length_cons]
        ring
      have hsmall : e < 10000 := by
        have hle : e * 10 + d ≤ (e * 10 + d) * 10 ^ ds.length := Nat.le_mul_of_pos_right _ (by positivity)
        omega
      rw [Digits.text_cons, exponentDigits, if_neg (digit_ne hd rfl), if_pos (Text.isDigit_digit hd), if_pos hsmall,
        Text.toNat_digit hd, Nat.add_sub_cancel_left, ih (fun a ha => h a (List.mem_cons_of_mem d ha)) _ (by omega),
        hstep]

theorem exponent?_signed {ds : List Nat} (hne : ds ≠ []) (h : ∀ a ∈ ds, a < 10) (hlt : Digits.spelled ds < 1000)
    {b : UInt8} {negative : Bool} (hb : sign (b :: Digits.text ds) = (negative, Digits.text ds)) :
    exponent? (b :: Digits.text ds) =
      some (if negative then -(Digits.spelled ds : Int) else Digits.spelled ds, []) := by
  have hread := exponentDigits_text h 0 (by omega)
  rw [Nat.zero_mul, Nat.zero_add] at hread
  obtain ⟨d, ds, rfl⟩ := List.exists_cons_of_ne_nil hne
  have hd := Text.isDigit_digit (h d List.mem_cons_self)
  rw [Digits.text_cons] at hb hread
  simp only [Digits.text_cons, exponent?, hb, if_pos hd, hread]

theorem exponent?_exponentText (width : Nat) {e : Int} (h : e.natAbs < 1000) :
    ∃ t, Figure.exponentText width (some e) = 101 :: t ∧ exponent? t = some (e, []) := by
  obtain ⟨ds, hne, hlt, ht, hs⟩ := Digits.padded_eq_text width e.natAbs
  rw [Figure.exponentText, ht]
  split
  · refine ⟨45 :: Digits.text ds, rfl, ?_⟩
    rw [exponent?_signed hne hlt (by omega) rfl, hs, if_pos rfl, show -(e.natAbs : Int) = e by omega]
  · refine ⟨43 :: Digits.text ds, rfl, ?_⟩
    rw [exponent?_signed hne hlt (by omega) rfl, hs, if_neg Bool.false_ne_true, show (e.natAbs : Int) = e by omega]

theorem scaled_of_reaches {b : Binary} (hb : b.Canonical) (hm : 0 < b.mantissa) {value : Nat} {scale : Int}
    (h : b.Reaches (value * 10 ^ scale)) (negative : Bool) :
    scaled negative value 10 scale = .ok (b.toFloat negative) := by
  have hratio : (if 0 ≤ scale then Binary.ofRatio? (value * Nat.pow 10 scale.toNat) 1
      else Binary.ofRatio? value (Nat.pow 10 (-scale).toNat)) = some b := by
    split
    · rename_i hs
      obtain ⟨k, rfl⟩ := Int.eq_ofNat_of_zero_le hs
      refine Binary.ofRatio?_of_reaches hb hm Nat.one_pos ?_
      rw [zpow_natCast] at h
      rw [Int.toNat_natCast, Nat.pow_eq, Nat.cast_one, div_one]
      exact_mod_cast h
    · rename_i hs
      obtain ⟨k, hk⟩ := Int.eq_ofNat_of_zero_le (show 0 ≤ -scale by omega)
      obtain rfl : scale = -(k : Int) := by omega
      refine Binary.ofRatio?_of_reaches hb hm (Nat.pow_pos (by decide)) ?_
      rw [zpow_neg, zpow_natCast, ← div_eq_mul_inv] at h
      rw [Int.neg_neg, Int.toNat_natCast, Nat.pow_eq]
      exact_mod_cast h
  simp only [scaled, hratio]

end Numeral

namespace Figure

section
variable {f : Figure} (h : f.Proper)
include h

theorem Proper.whole_ne_nil : f.whole ≠ [] := by
  rcases h.lead with hw | ⟨a, rest, hw, -⟩ <;> rw [hw] <;> exact List.cons_ne_nil _ _

/-- The bytes of a figure are digits, points, signs and the mark of the exponent. -/
theorem Proper.bytes {width : Nat} :
    ∀ b ∈ f.text width, Text.isDigit b = true ∨ b = 46 ∨ b = 101 ∨ b = 43 ∨ b = 45 := by
  intro b hb
  rw [text, List.mem_append, List.mem_append] at hb
  rcases hb with (hb | hb) | hb
  · exact .inl (Digits.isDigit_of_mem_text h.whole b hb)
  · rw [fracText] at hb
    split at hb
    · cases hb
    · rcases List.mem_cons.mp hb with rfl | hb
      · exact .inr (.inl rfl)
      · exact .inl (Digits.isDigit_of_mem_text h.frac b hb)
  · cases he : f.exponent with
    | none => rw [he] at hb; cases hb
    | some e =>
        rw [he, exponentText, List.mem_append] at hb
        rcases hb with hb | hb
        · split at hb <;> simp only [List.mem_cons, List.not_mem_nil, or_false] at hb <;> tauto
        · exact .inl (Text.isDigit_of_mem_padded b hb)

/-- What is read up to the exponent. -/
theorem Proper.mantissa (t : Text) (ht : t = [] ∨ ∃ r, t = 101 :: r) :
    Numeral.mantissa 10 ⟨0, 0, false, false⟩ (Digits.text f.whole ++ fracText f.frac ++ t) =
      (⟨Digits.spelled (f.whole ++ f.frac), f.frac.length, true, !f.frac.isEmpty⟩, t) := by
  have hstop (m : Numeral.Mantissa) : Numeral.mantissa 10 m t = (m, t) := by
    rcases ht with rfl | ⟨r, rfl⟩
    · rfl
    · rw [Numeral.mantissa]
      rfl
  have hseen : f.whole.isEmpty = false := by simpa using h.whole_ne_nil
  rw [List.append_assoc, Numeral.mantissa_text h.whole, hseen]
  dsimp only
  by_cases hfrac : f.frac.isEmpty = true
  · rw [fracText, if_pos hfrac, List.isEmpty_iff.mp hfrac, List.nil_append, hstop]
    simp
  · rw [fracText, if_neg hfrac, List.cons_append, Numeral.mantissa, if_neg (by decide), if_pos rfl,
      if_neg Bool.false_ne_true, Numeral.mantissa_text h.frac, hstop, Digits.spelled_append]
    simp [hfrac]

theorem Proper.head (width : Nat) : ∃ c r, f.text width = c :: r ∧ Text.isDigit c = true := by
  obtain ⟨a, ds, hw⟩ := List.exists_cons_of_ne_nil h.whole_ne_nil
  rw [text, hw]
  exact ⟨Text.digit a, _, rfl, Text.isDigit_digit (h.whole a (by rw [hw]; exact List.mem_cons_self))⟩

theorem Proper.sign (width : Nat) (negative : Bool) :
    Numeral.sign (if negative then 45 :: f.text width else f.text width) = (negative, f.text width) := by
  cases negative with
  | true => rfl
  | false =>
      obtain ⟨c, r, ht, hc⟩ := h.head width
      rw [if_neg Bool.false_ne_true, ht, Numeral.sign]
      · rintro t he
        cases he
        cases hc
      · rintro t he
        cases he
        cases hc

theorem Proper.special? (width : Nat) (negative : Bool) :
    Numeral.special? (if negative then 45 :: f.text width else f.text width) = none := by
  obtain ⟨c, r, ht, hc⟩ := h.head width
  have hword {b : UInt8} (hb : Text.isDigit b = false) (w : Text) : Text.lowerAscii (f.text width) ≠ b :: w := by
    intro he
    rw [ht, Text.lowerAscii, List.map_cons, Text.lowerByte_of_isDigit hc, List.cons.injEq] at he
    rw [he.1, hb] at hc
    cases hc
  have hnan : Text.lowerAscii (if negative then 45 :: f.text width else f.text width) ≠ [110, 97, 110] := by
    cases negative with
    | true =>
        intro he
        cases he
    | false => exact hword rfl _
  have hinf : ("inf" : Text) = [105, 110, 102] := rfl
  have hinfinity : ("infinity" : Text) = [105, 110, 102, 105, 110, 105, 116, 121] := rfl
  have hnan' : ("nan" : Text) = [110, 97, 110] := rfl
  simp only [Numeral.special?, h.sign width negative, hinf, hinfinity, hnan', if_neg hnan,
    decide_eq_false (hword (b := 105) rfl _), Bool.or_self, if_neg Bool.false_ne_true]

/-- A figure is no hexadecimal numeral. -/
theorem Proper.isHexadecimal (width : Nat) : Numeral.isHexadecimal (f.text width) = false := by
  rw [Numeral.isHexadecimal.eq_def]
  split
  · rename_i b _ _ ht
    rcases h.bytes b (by rw [ht]; simp) with hb | rfl | rfl | rfl | rfl
    · rw [Text.lowerByte_of_isDigit hb, beq_eq_false_iff_ne]
      rintro rfl
      cases hb
    all_goals rfl
  · rfl

theorem Proper.contains (width : Nat) (negative : Bool) :
    (if negative then 45 :: f.text width else f.text width : Text).contains 95 = false := by
  have hmem : (95 : UInt8) ∉ f.text width := by
    intro hb
    rcases h.bytes 95 hb with hb | hb | hb | hb | hb <;> cases hb
  cases negative <;> simp [hmem]

theorem Proper.tail? (width : Nat) :
    Numeral.tail? false (exponentText width f.exponent) = some (f.exponent.getD 0, []) := by
  cases he : f.exponent with
  | none => rfl
  | some e =>
      obtain ⟨t, ht, hr⟩ := Numeral.exponent?_exponentText width (h.exponent e he)
      rw [ht, Numeral.tail?]
      exact hr

theorem Proper.float (width : Nat) (negative : Bool) :
    Numeral.float (if negative then 45 :: f.text width else f.text width) =
      if Digits.spelled (f.whole ++ f.frac) = 0 then Numeral.scaled negative 0 2 0
      else Numeral.scaled negative (Digits.spelled (f.whole ++ f.frac)) 10 (f.exponent.getD 0 - f.frac.length) := by
  have hexponent : exponentText width f.exponent = [] ∨ ∃ r, exponentText width f.exponent = 101 :: r := by
    cases he : f.exponent with
    | none => exact .inl rfl
    | some e =>
        obtain ⟨t, ht, -⟩ := Numeral.exponent?_exponentText width (h.exponent e he)
        exact .inr ⟨t, ht⟩
  have hread : Numeral.mantissa 10 ⟨0, 0, false, false⟩ (f.text width) = _ := h.mantissa _ hexponent
  simp only [Numeral.float, h.special?, h.sign, h.isHexadecimal, h.contains, if_neg Bool.false_ne_true, hread, h.tail?,
    Bool.not_true, Bool.false_and, Bool.or_self]

end

end Figure

/-! ## Writing and reading -/

/-- A finite number is written as a figure that rounds to it. -/
theorem Layout.exists_figure (l : Layout) {x : Float} (hx : Binary.isFinite x = true) :
    ∃ (f : Figure) (negative : Bool) (b : Binary), f.Proper ∧ b.Canonical ∧ b.toFloat negative = x ∧
      l.render x = (if negative then 45 :: f.text l.exponentWidth else f.text l.exponentWidth) ∧
      (b.mantissa = 0 ∧ f.amount = 0 ∨ 0 < b.mantissa ∧ b.Reaches f.amount) := by
  rw [Binary.isFinite] at hx
  split at hx
  · rename_i negative b hclass
    have hb := Binary.canonical_of_classOfBits hclass
    simp only [Layout.render, hclass, Layout.finite]
    rcases Nat.eq_zero_or_pos b.mantissa with hm | hm
    · refine ⟨⟨[0], [], none⟩, negative, b, ⟨by simp, by simp, .inl rfl, by simp⟩, hb,
        Binary.toFloat_of_classOf hclass, ?_, .inl ⟨hm, by simp [Figure.amount, Digits.spelled]⟩⟩
      rw [if_pos hm]
      rfl
    · obtain ⟨hproper, hr⟩ := Shortest.digits_spec hb hm
      have hfigure : ∃ f : Figure, f.Proper ∧ f.amount = (Shortest.digits b).amount ∧
          (if l.positional ((Shortest.digits b).point - 1) then (Shortest.digits b).positional
            else (Shortest.digits b).scientific l.exponentWidth) = f.text l.exponentWidth := by
        split
        · obtain ⟨f, hf, ha, ht⟩ := Digits.exists_figure_positional hproper
          exact ⟨f, hf, ha, (ht _).symm⟩
        · obtain ⟨f, hf, ha, ht⟩ :=
            Digits.exists_figure_scientific hproper (Shortest.digits_point hb hm) l.exponentWidth
          exact ⟨f, hf, ha, ht.symm⟩
      obtain ⟨f, hf, ha, ht⟩ := hfigure
      refine ⟨f, negative, b, hf, hb, Binary.toFloat_of_classOf hclass, ?_, .inr ⟨hm, ha ▸ hr⟩⟩
      rw [if_neg hm.ne', ht]
  · cases hx

/-- What is written of a finite number is read back as that number. -/
theorem Layout.float_render (l : Layout) {x : Float} (hx : Binary.isFinite x = true) :
    Numeral.float (l.render x) = .ok x := by
  obtain ⟨f, negative, b, hf, hb, hfloat, ht, ⟨hm, ha⟩ | ⟨hm, hr⟩⟩ := l.exists_figure hx
  · have hzero : Digits.spelled (f.whole ++ f.frac) = 0 := by
      have hunit : (10 : ℚ) ^ (f.exponent.getD 0 - f.frac.length) ≠ 0 := by positivity
      exact_mod_cast (mul_eq_zero.mp ha).resolve_right hunit
    have hleast : b = ⟨0, Binary.leastExponent⟩ := by
      have he : b.exponent = Binary.leastExponent := hb.normal.resolve_right (by rw [hm]; decide)
      rw [← hm, ← he]
    rw [ht, hf.float, if_pos hzero, ← hfloat, hleast]
    rfl
  · have hpos : Digits.spelled (f.whole ++ f.frac) ≠ 0 := by
      intro hzero
      have hlow := lt_of_lt_of_le (Binary.lowEnd_pos hm) hr.low
      rw [Figure.amount, hzero] at hlow
      simp at hlow
    rw [ht, hf.float, if_neg hpos, Numeral.scaled_of_reaches hb hm hr, hfloat]

end Abacus
