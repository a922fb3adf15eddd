import Mathlib
import Abacus.Decimal.Binary

/-!
# Doubles and rounding

The sign and the magnitude of a finite double give the double back. A quotient within half a step of a double is
rounded to that double; below a power of two the step is half as wide.
-/

namespace Abacus.Binary

/-! ## Doubles -/

/-- The mantissa and the exponent are those of a double. -/
structure Canonical (b : Binary) : Prop where
  mantissa : b.mantissa < 2 ^ 53
  least : leastExponent ≤ b.exponent
  greatest : b.exponent ≤ greatestExponent
  normal : b.exponent = leastExponent ∨ 2 ^ 52 ≤ b.mantissa

theorem canonical_of_classOfBits {bits : Nat} {negative : Bool} {b : Binary}
    (h : classOfBits bits = .finite negative b) : b.Canonical := by
  simp only [classOfBits, Nat.pow_eq, Nat.reducePow] at h
  split at h
  · split at h <;> cases h
  · split at h
    · cases h
      exact ⟨by dsimp only; omega, Int.le_refl _, by simp [leastExponent, greatestExponent], .inl rfl⟩
    · cases h
      refine ⟨by dsimp only; omega, ?_, ?_, .inr (by dsimp only; omega)⟩ <;>
        simp only [leastExponent, greatestExponent] <;> omega

/-- The bits of a finite double are put together again. -/
theorem bits_of_classOfBits {bits : Nat} (hb : bits < 2 ^ 64) {negative : Bool} {b : Binary}
    (h : classOfBits bits = .finite negative b) :
    (if negative then Nat.pow 2 63 else 0) +
      (if b.mantissa < Nat.pow 2 52 then 0 else (b.exponent + 1075).toNat) * Nat.pow 2 52 +
        b.mantissa % Nat.pow 2 52 = bits := by
  simp only [classOfBits, Nat.pow_eq, Nat.reducePow] at h ⊢
  split at h
  · split at h <;> cases h
  · have hfraction : bits % 4503599627370496 < 4503599627370496 := Nat.mod_lt _ (by decide)
    have hsign : (if decide (9223372036854775808 ≤ bits) = true then 9223372036854775808 else 0) =
        bits / 9223372036854775808 * 9223372036854775808 := by
      split <;> rename_i hneg <;> simp only [decide_eq_true_eq] at hneg <;> omega
    split at h
    · cases h
      simp only [hsign, if_pos hfraction]
      omega
    · cases h
      have hnormal : ¬ 4503599627370496 + bits % 4503599627370496 < 4503599627370496 := by omega
      simp only [hsign, if_neg hnormal]
      omega

theorem toFloat_of_classOf {x : Float} {negative : Bool} {b : Binary} (h : classOf x = .finite negative b) :
    b.toFloat negative = x := by
  have hbits := bits_of_classOfBits x.toBits.toNat_lt h
  rw [toFloat, hbits, Nat.toUInt64_eq, UInt64.ofNat_toNat, Float.ofBits_toBits]

/-! ## Dividing -/

theorem divideToEven_eq {n d m : Nat} (hlow : 2 * (m * d) ≤ 2 * n + d) (hhigh : 2 * n ≤ 2 * (m * d) + d)
    (htie : m % 2 = 0 ∨ 2 * (m * d) < 2 * n + d ∧ 2 * n < 2 * (m * d) + d) (hd : 0 < d) : divideToEven n d = m := by
  have hn : n = n / d * d + n % d := (Nat.div_add_mod' n d).symm
  have hr := Nat.mod_lt n hd
  have hq : n / d ≤ m := by
    have h : n / d * d < (m + 1) * d := by rw [Nat.succ_mul]; omega
    exact Nat.le_of_lt_succ (Nat.lt_of_mul_lt_mul_right h)
  have hm : m ≤ n / d + 1 := by
    have h : m * d < (n / d + 2) * d := by rw [Nat.add_mul]; omega
    exact Nat.le_of_lt_succ (Nat.lt_of_mul_lt_mul_right h)
  rw [divideToEven]
  generalize n / d = q at *
  generalize n % d = r at *
  rcases Nat.lt_or_eq_of_le hq with hlt | rfl
  · obtain rfl : m = q + 1 := by omega
    have hsucc : (q + 1) * d = q * d + d := Nat.succ_mul q d
    rw [hsucc] at hlow hhigh htie
    split
    · omega
    · split
      · rfl
      · rw [if_neg (by omega)]
  · split
    · rfl
    · rw [if_neg (by omega), if_pos (by omega)]

/-- The quotient lies within half a unit of `m`, and where it lies just between two numbers, `m` is the even one. -/
structure Near (x : ℚ) (m : Nat) : Prop where
  low : m - 1 / 2 ≤ x
  high : x ≤ m + 1 / 2
  tie : m % 2 = 0 ∨ m - 1 / 2 < x ∧ x < m + 1 / 2

theorem divideToEven_of_near {n d m : Nat} (hd : 0 < d) (h : Near (n / d) m) : divideToEven n d = m := by
  have hd' : (0 : ℚ) < d := by exact_mod_cast hd
  have hlow : 2 * ((m : ℚ) * d) ≤ 2 * n + d := by
    have h := h.low
    rw [le_div_iff₀ hd'] at h
    linarith
  have hhigh : 2 * (n : ℚ) ≤ 2 * (m * d) + d := by
    have h := h.high
    rw [div_le_iff₀ hd'] at h
    linarith
  refine divideToEven_eq (by exact_mod_cast hlow) (by exact_mod_cast hhigh) (h.tie.imp_right fun ⟨h₁, h₂⟩ => ?_) hd
  rw [lt_div_iff₀ hd'] at h₁
  rw [div_lt_iff₀ hd'] at h₂
  have h₁' : 2 * ((m : ℚ) * d) < 2 * n + d := by linarith
  have h₂' : 2 * (n : ℚ) < 2 * (m * d) + d := by linarith
  exact ⟨by exact_mod_cast h₁', by exact_mod_cast h₂'⟩

/-- The number of steps of `2 ^ q` in a quotient, rounded. -/
def stepsAt (q : Int) (num den : Nat) : Nat :=
  if 0 ≤ q then divideToEven num (den * Nat.pow 2 q.toNat) else divideToEven (num * Nat.pow 2 (-q).toNat) den

theorem stepsAt_of_near {q : Int} {num den m : Nat} (hd : 0 < den) (h : Near (num / den / 2 ^ q) m) :
    stepsAt q num den = m := by
  rw [stepsAt]
  split
  · rename_i hq
    refine divideToEven_of_near (Nat.mul_pos hd (Nat.pow_pos (by decide))) ?_
    obtain ⟨k, rfl⟩ := Int.eq_ofNat_of_zero_le hq
    rw [zpow_natCast, div_div] at h
    rw [Int.toNat_natCast, Nat.pow_eq]
    push_cast
    exact h
  · rename_i hq
    refine divideToEven_of_near hd ?_
    obtain ⟨k, hk⟩ := Int.eq_ofNat_of_zero_le (show 0 ≤ -q by omega)
    obtain rfl : q = -(k : Int) := by omega
    rw [zpow_neg, zpow_natCast, div_inv_eq_mul, div_mul_eq_mul_div] at h
    rw [Int.neg_neg, Int.toNat_natCast, Nat.pow_eq]
    push_cast
    exact h

/-! ## Size -/

/-- The comparison that tells the logarithm of a quotient from an estimate. -/
theorem fits_iff {p num den : Nat} (hp : 0 < p) (hd : 0 < den) (e : Int) :
    (if 0 ≤ e then den * Nat.pow p e.toNat ≤ num else den ≤ num * Nat.pow p (-e).toNat) ↔ (p : ℚ) ^ e ≤ num / den := by
  have hd' : (0 : ℚ) < den := by exact_mod_cast hd
  have hp' : (0 : ℚ) < p := by exact_mod_cast hp
  rw [le_div_iff₀ hd']
  split
  · rename_i he
    obtain ⟨k, rfl⟩ := Int.eq_ofNat_of_zero_le he
    rw [Int.toNat_natCast, Nat.pow_eq, zpow_natCast, mul_comm]
    exact_mod_cast Iff.rfl
  · rename_i he
    obtain ⟨k, hk⟩ := Int.eq_ofNat_of_zero_le (show 0 ≤ -e by omega)
    obtain rfl : e = -(k : Int) := by omega
    rw [Int.neg_neg, Int.toNat_natCast, Nat.pow_eq, zpow_neg, zpow_natCast, inv_mul_le_iff₀ (by positivity), mul_comm]
    exact_mod_cast Iff.rfl

theorem log2_spec {n : Nat} (hn : 0 < n) : (2 : ℚ) ^ (n.log2 : Int) ≤ n ∧ (n : ℚ) < 2 ^ (n.log2 + 1 : Int) := by
  have hlow : 2 ^ n.log2 ≤ n := Nat.log2_self_le hn.ne'
  have hhigh : n < 2 ^ (n.log2 + 1) := Nat.lt_log2_self
  constructor
  · rw [zpow_natCast]
    exact_mod_cast hlow
  · rw [← Nat.cast_succ, zpow_natCast]
    exact_mod_cast hhigh

theorem log2_ratio {num den : Nat} (hn : 0 < num) (hd : 0 < den) :
    (2 : ℚ) ^ ((num.log2 : Int) - den.log2 - 1) ≤ num / den ∧
      (num / den : ℚ) < 2 ^ ((num.log2 : Int) - den.log2 + 1) := by
  obtain ⟨hn₁, hn₂⟩ := log2_spec hn
  obtain ⟨hd₁, hd₂⟩ := log2_spec hd
  have hd' : (0 : ℚ) < den := by exact_mod_cast hd
  constructor
  · rw [le_div_iff₀ hd', sub_sub, zpow_sub₀ two_ne_zero, div_mul_eq_mul_div, div_le_iff₀ (by positivity)]
    exact mul_le_mul hn₁ hd₂.le hd'.le (by positivity)
  · rw [div_lt_iff₀ hd', sub_add_eq_add_sub, zpow_sub₀ two_ne_zero, div_mul_eq_mul_div, lt_div_iff₀ (by positivity)]
    exact mul_lt_mul hn₂ hd₁ (by positivity) (by positivity)

theorem floorLog_spec {num den : Nat} (hn : 0 < num) (hd : 0 < den) :
    (2 : ℚ) ^ floorLog num den ≤ num / den ∧ (num / den : ℚ) < 2 ^ (floorLog num den + 1) := by
  obtain ⟨hlow, hhigh⟩ := log2_ratio hn hd
  rw [floorLog]
  simp only [fits_iff two_pos hd, Nat.cast_ofNat]
  split
  · rename_i hfits
    exact ⟨hfits, hhigh⟩
  · rename_i hfits
    rw [sub_add_cancel]
    exact ⟨hlow, not_le.mp hfits⟩

/-! ## The quotients that round to a double -/

/-- Below a power of two the step is half as wide. -/
def Narrow (b : Binary) : Prop := b.mantissa = 2 ^ 52 ∧ leastExponent < b.exponent

instance (b : Binary) : Decidable b.Narrow := inferInstanceAs (Decidable (_ ∧ _))

/-- Half a step below the double. -/
def lowEnd (b : Binary) : ℚ := (b.mantissa - if b.Narrow then 1 / 4 else 1 / 2) * 2 ^ b.exponent

/-- Half a step above the double. -/
def highEnd (b : Binary) : ℚ := (b.mantissa + 1 / 2) * 2 ^ b.exponent

/-- Within half a step of the double; the ends count when the mantissa is even. -/
structure Reaches (b : Binary) (v : ℚ) : Prop where
  low : b.lowEnd ≤ v
  high : v ≤ b.highEnd
  ends : b.mantissa % 2 = 0 ∨ b.lowEnd < v ∧ v < b.highEnd

section
variable {b : Binary} {v : ℚ}

theorem halfStep_le_lowEnd (b : Binary) : (b.mantissa - 1 / 2 : ℚ) * 2 ^ b.exponent ≤ b.lowEnd := by
  rw [lowEnd]
  refine mul_le_mul_of_nonneg_right (sub_le_sub_left ?_ _) (by positivity)
  split <;> norm_num

theorem lowEnd_pos (hm : 0 < b.mantissa) : 0 < b.lowEnd := by
  have hm' : (1 : ℚ) ≤ b.mantissa := by exact_mod_cast hm
  refine lt_of_lt_of_le ?_ (halfStep_le_lowEnd b)
  have hhalf : (0 : ℚ) < b.mantissa - 1 / 2 := by linarith
  positivity

theorem lowEnd_lt_value (b : Binary) : b.lowEnd < b.mantissa * 2 ^ b.exponent := by
  rw [lowEnd]
  exact mul_lt_mul_of_pos_right (sub_lt_self _ (by split <;> norm_num)) (by positivity)

theorem value_lt_highEnd (b : Binary) : (b.mantissa : ℚ) * 2 ^ b.exponent < b.highEnd :=
  mul_lt_mul_of_pos_right (lt_add_of_pos_right _ (by norm_num)) (by positivity)

theorem reaches_of_lt (hlow : b.lowEnd < v) (hhigh : v < b.highEnd) : Reaches b v :=
  ⟨hlow.le, hhigh.le, .inr ⟨hlow, hhigh⟩⟩

/-- Two numbers on either side of a double that are both out of its reach are as far apart as its reach is wide. -/
theorem width_le_of_not_reaches {v w : ℚ} (hv : v ≤ b.mantissa * 2 ^ b.exponent) (hw : b.mantissa * 2 ^ b.exponent < w)
    (hv' : ¬ Reaches b v) (hw' : ¬ Reaches b w) : b.highEnd - b.lowEnd ≤ w - v := by
  have hlow : v ≤ b.lowEnd := le_of_not_gt fun h => hv' (reaches_of_lt h (lt_of_le_of_lt hv (value_lt_highEnd b)))
  have hhigh : b.highEnd ≤ w := le_of_not_gt fun h => hw' (reaches_of_lt ((lowEnd_lt_value b).trans hw) h)
  exact sub_le_sub hhigh hlow

theorem Reaches.near (h : Reaches b v) : Near (v / 2 ^ b.exponent) b.mantissa := by
  have hpos : (0 : ℚ) < 2 ^ b.exponent := by positivity
  have hlow := (halfStep_le_lowEnd b).trans h.low
  refine ⟨?_, ?_, h.ends.imp_right fun ⟨hl, hh⟩ => ⟨?_, ?_⟩⟩
  · rwa [le_div_iff₀ hpos]
  · rw [div_le_iff₀ hpos]
    exact h.high
  · rw [lt_div_iff₀ hpos]
    exact lt_of_le_of_lt (halfStep_le_lowEnd b) hl
  · rw [div_lt_iff₀ hpos]
    exact hh

theorem Reaches.lt_pow (hb : b.Canonical) (h : Reaches b v) : v < 2 ^ (b.exponent + 53) := by
  have hm : (b.mantissa : ℚ) + 1 ≤ 2 ^ 53 := by exact_mod_cast hb.mantissa
  have hpos : (0 : ℚ) < 2 ^ b.exponent := by positivity
  calc v ≤ (b.mantissa + 1 / 2) * 2 ^ b.exponent := h.high
    _ < 2 ^ 53 * 2 ^ b.exponent := mul_lt_mul_of_pos_right (by linarith) hpos
    _ = 2 ^ (b.exponent + 53) := by rw [zpow_add₀ two_ne_zero, mul_comm]; norm_num

/-- A quotient below the power of two that a double is rounds to it from the narrow side. -/
theorem Reaches.narrow (hn : 2 ^ 52 ≤ b.mantissa) (hl : b.exponent ≠ leastExponent) (hb : b.Canonical) (h : Reaches b v)
    (hlt : v < 2 ^ (b.exponent + 52)) : b.Narrow ∧ (2 ^ 53 - 1 / 2) * 2 ^ (b.exponent - 1) ≤ v := by
  have hpos : (0 : ℚ) < 2 ^ b.exponent := by positivity
  have hpow : (2 : ℚ) ^ (b.exponent + 52) = 2 ^ 52 * 2 ^ b.exponent := by
    rw [zpow_add₀ two_ne_zero, mul_comm]
    norm_num
  have hnarrow : b.Narrow := by
    refine ⟨le_antisymm ?_ hn, lt_of_le_of_ne hb.least (Ne.symm hl)⟩
    by_contra hgt
    have hm : (2 ^ 52 + 1 : ℚ) ≤ b.mantissa := by exact_mod_cast not_le.mp hgt
    have hle := (halfStep_le_lowEnd b).trans h.low
    have hge : (2 : ℚ) ^ 52 * 2 ^ b.exponent ≤ (b.mantissa - 1 / 2) * 2 ^ b.exponent :=
      mul_le_mul_of_nonneg_right (by linarith) hpos.le
    rw [hpow] at hlt
    linarith
  refine ⟨hnarrow, ?_⟩
  have hlow := h.low
  rw [lowEnd, if_pos hnarrow, hnarrow.1] at hlow
  rw [zpow_sub₀ two_ne_zero, zpow_one]
  push_cast at hlow
  linarith

end

/-- Just below the power of two that a double is, its mantissa is a step of half the width, rounded up. -/
theorem near_of_narrow {v : ℚ} {e : Int} (hlow : (2 ^ 53 - 1 / 2) * 2 ^ (e - 1) ≤ v) (hlt : v < 2 ^ (e + 52)) :
    Near (v / 2 ^ (e - 1)) (2 ^ 53) := by
  have hpos : (0 : ℚ) < 2 ^ (e - 1) := by positivity
  have hpow : (2 : ℚ) ^ (e + 52) = 2 ^ 53 * 2 ^ (e - 1) := by
    rw [show e + 52 = e - 1 + 53 by omega, zpow_add₀ two_ne_zero, mul_comm]
    norm_num
  rw [hpow] at hlt
  refine ⟨?_, ?_, .inl (by decide)⟩
  · rw [le_div_iff₀ hpos]
    exact_mod_cast hlow
  · rw [div_le_iff₀ hpos]
    push_cast
    linarith

theorem floorLog_of_narrow {num den : Nat} (hn : 0 < num) (hd : 0 < den) {e : Int}
    (hlow : (2 ^ 53 - 1 / 2) * 2 ^ (e - 1) ≤ (num / den : ℚ)) (hlt : (num / den : ℚ) < 2 ^ (e + 52)) :
    floorLog num den = e + 51 := by
  obtain ⟨hlog₁, hlog₂⟩ := floorLog_spec hn hd
  have hge : (2 : ℚ) ^ (e + 51) ≤ num / den := by
    rw [show e + 51 = 52 + (e - 1) by omega, zpow_add₀ two_ne_zero]
    refine le_trans ?_ hlow
    exact mul_le_mul_of_nonneg_right (by norm_num) (by positivity)
  have hhigh := (zpow_lt_zpow_iff_right₀ (one_lt_two (α := ℚ))).mp (lt_of_le_of_lt hlog₁ hlt)
  have hlog := (zpow_lt_zpow_iff_right₀ (one_lt_two (α := ℚ))).mp (lt_of_le_of_lt hge hlog₂)
  omega

/-- A quotient within reach of a double is rounded to it. -/
theorem ofRatio?_of_reaches {b : Binary} (hb : b.Canonical) (hm : 0 < b.mantissa) {num den : Nat} (hd : 0 < den)
    (h : Reaches b (num / den)) : ofRatio? num den = some b := by
  have hv : (0 : ℚ) < num / den := lt_of_lt_of_le (lowEnd_pos hm) h.low
  have hn : 0 < num := by
    rcases Nat.eq_zero_or_pos num with rfl | hn
    · simp at hv
    · exact hn
  obtain ⟨hlog₁, hlog₂⟩ := floorLog_spec hn hd
  have hrefuse : ¬ greatestExponent < b.exponent := not_lt.mpr hb.greatest
  -- The rounding at the exponent of the double gives the double.
  have hsame (hq : max (floorLog num den - 52) leastExponent = b.exponent) : ofRatio? num den = some b := by
    have hsteps := stepsAt_of_near hd h.near
    have hlt : b.mantissa ≠ Nat.pow 2 53 := Nat.ne_of_lt hb.mantissa
    rw [stepsAt] at hsteps
    rw [ofRatio?, if_neg hn.ne', hq]
    simp only [hsteps, if_neg hlt, if_neg hrefuse]
  have hupper : floorLog num den < b.exponent + 53 :=
    (zpow_lt_zpow_iff_right₀ one_lt_two).mp (lt_of_le_of_lt hlog₁ (h.lt_pow hb))
  have hleast := hb.least
  by_cases hl : b.exponent = leastExponent
  · exact hsame (by omega)
  · have hnormal := hb.normal.resolve_left hl
    by_cases hbelow : (num / den : ℚ) < 2 ^ (b.exponent + 52)
    · -- The quotient is rounded up to the next power of two.
      obtain ⟨hnarrow, hlow⟩ := h.narrow hnormal hl hb hbelow
      have hq : max (floorLog num den - 52) leastExponent = b.exponent - 1 := by
        have hlog := floorLog_of_narrow hn hd hlow hbelow
        have hlt := hnarrow.2
        omega
      have hsteps := stepsAt_of_near hd (near_of_narrow hlow hbelow)
      have hfull : (2 ^ 53 : Nat) = Nat.pow 2 53 := rfl
      have hself : (⟨Nat.pow 2 52, b.exponent - 1 + 1⟩ : Binary) = b := by
        rw [Int.sub_add_cancel]
        exact congrArg (fun m => (⟨m, b.exponent⟩ : Binary)) hnarrow.1.symm
      rw [stepsAt] at hsteps
      rw [ofRatio?, if_neg hn.ne', hq]
      simp only [hsteps, if_pos hfull, hself, if_neg hrefuse]
    · have hlower : b.exponent + 52 < floorLog num den + 1 :=
        (zpow_lt_zpow_iff_right₀ one_lt_two).mp (lt_of_le_of_lt (not_lt.mp hbelow) hlog₂)
      exact hsame (by omega)

end Abacus.Binary
