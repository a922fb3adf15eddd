import Abacus.Decimal.Shortest
import Abacus.Proofs.Decimal.Rounding

/-!
# The shortest digits read back

The interval that is searched is that of the quotients which round to the double. Seventeen grids are enough: on the
last one two neighbouring points are closer to each other than the ends of the interval are.
-/

namespace Abacus

namespace Digits

/-- The number that digits spell, the most significant first. -/
def spelled (ds : List Nat) : Nat := Nat.ofDigits 10 ds.reverse

/-- The number that digits and a point stand for. -/
def amount (d : Digits) : ℚ := spelled d.digits * 10 ^ (d.point - d.digits.length)

/-- There is a first digit, and it is not zero. -/
structure Proper (d : Digits) : Prop where
  below : ∀ a ∈ d.digits, a < 10
  lead : ∃ a rest, d.digits = a :: rest ∧ 0 < a

theorem Proper.amount_bounds {d : Digits} (h : d.Proper) :
    (10 : ℚ) ^ (d.point - 1) ≤ d.amount ∧ d.amount < 10 ^ d.point := by
  obtain ⟨a, rest, hd, ha⟩ := h.lead
  have hlow : 10 ^ rest.length ≤ spelled d.digits := by
    rw [spelled, hd, List.reverse_cons, Nat.ofDigits_append, List.length_reverse, Nat.ofDigits_singleton]
    exact (Nat.le_mul_of_pos_right _ ha).trans (Nat.le_add_left _ _)
  have hhigh : spelled d.digits < 10 ^ d.digits.length := by
    rw [spelled, ← List.length_reverse]
    exact Nat.ofDigits_lt_base_pow_length (by decide) fun x hx => h.below x (List.mem_reverse.mp hx)
  have hunit : (0 : ℚ) < 10 ^ (d.point - d.digits.length) := by positivity
  constructor
  · calc (10 : ℚ) ^ (d.point - 1) = 10 ^ rest.length * 10 ^ (d.point - d.digits.length) := by
          rw [← zpow_natCast, ← zpow_add₀ (by norm_num), hd, List.length_cons]
          congr 1
          omega
      _ ≤ d.amount := mul_le_mul_of_nonneg_right (by exact_mod_cast hlow) hunit.le
  · calc d.amount < 10 ^ d.digits.length * 10 ^ (d.point - d.digits.length) :=
          mul_lt_mul_of_pos_right (by exact_mod_cast hhigh) hunit
      _ = 10 ^ d.point := by
          rw [← zpow_natCast, ← zpow_add₀ (by norm_num)]
          congr 1
          omega

end Digits

namespace Shortest

open Binary

/-! ## The interval -/

theorem pow_eq_div (p : Nat) (e : Int) :
    (p : ℚ) ^ e = ((if 0 ≤ e then Nat.pow p e.toNat else 1 : Nat) : ℚ) /
      ((if 0 ≤ e then 1 else Nat.pow p (-e).toNat : Nat) : ℚ) := by
  split
  · rename_i he
    obtain ⟨k, rfl⟩ := Int.eq_ofNat_of_zero_le he
    rw [Int.toNat_natCast, zpow_natCast, Nat.cast_one, div_one, Nat.pow_eq, Nat.cast_pow]
  · rename_i he
    obtain ⟨k, hk⟩ := Int.eq_ofNat_of_zero_le (show 0 ≤ -e by omega)
    obtain rfl : e = -(k : Int) := by omega
    rw [Int.neg_neg, Int.toNat_natCast, zpow_neg, zpow_natCast, Nat.cast_one, one_div, Nat.pow_eq, Nat.cast_pow]

theorem den_pos (p : Nat) (hp : 0 < p) (e : Int) : 0 < (if 0 ≤ e then 1 else Nat.pow p (-e).toNat) := by
  split
  · decide
  · exact Nat.pow_pos hp

section
variable {b : Binary}

theorem interval_den_pos (b : Binary) : 0 < (interval b).den :=
  Nat.mul_pos (by decide) (den_pos 2 (by decide) b.exponent)

theorem interval_value (b : Binary) : ((interval b).value : ℚ) / (interval b).den = b.mantissa * 2 ^ b.exponent := by
  have hpow := pow_eq_div 2 b.exponent
  simp only [interval]
  push_cast at hpow ⊢
  rw [hpow, mul_div_mul_comm]
  field_simp

theorem interval_low (hm : 0 < b.mantissa) : ((interval b).low : ℚ) / (interval b).den = b.lowEnd := by
  have hpow := pow_eq_div 2 b.exponent
  have hnarrow : b.Narrow ↔ b.mantissa = Nat.pow 2 52 ∧ leastExponent < b.exponent := Iff.rfl
  simp only [interval, lowEnd, ← hnarrow]
  push_cast at hpow
  split <;> push_cast [show 1 ≤ 4 * b.mantissa by omega, show 2 ≤ 4 * b.mantissa by omega] <;>
    rw [hpow, mul_div_mul_comm] <;> ring

theorem interval_high (b : Binary) : ((interval b).high : ℚ) / (interval b).den = b.highEnd := by
  have hpow := pow_eq_div 2 b.exponent
  simp only [interval, highEnd]
  push_cast at hpow ⊢
  rw [hpow, mul_div_mul_comm]
  ring

/-- The interval is that of the quotients that round to the double. -/
theorem has_iff (hm : 0 < b.mantissa) {n d : Nat} (hd : 0 < d) : (interval b).has n d = true ↔ Reaches b (n / d) := by
  have hi : (0 : ℚ) < (interval b).den := by exact_mod_cast interval_den_pos b
  have hd' : (0 : ℚ) < d := by exact_mod_cast hd
  have hle {a c : Nat} : a * d ≤ c * (interval b).den ↔ (a : ℚ) / (interval b).den ≤ c / d := by
    rw [div_le_div_iff₀ hi hd']
    exact_mod_cast Iff.rfl
  have hlt {a c : Nat} : a * d < c * (interval b).den ↔ (a : ℚ) / (interval b).den < c / d := by
    rw [div_lt_div_iff₀ hi hd']
    exact_mod_cast Iff.rfl
  have hge {a c : Nat} : c * (interval b).den ≤ a * d ↔ (c : ℚ) / d ≤ a / (interval b).den := by
    rw [div_le_div_iff₀ hd' hi]
    exact_mod_cast Iff.rfl
  have hgt {a c : Nat} : c * (interval b).den < a * d ↔ (c : ℚ) / d < a / (interval b).den := by
    rw [div_lt_div_iff₀ hd' hi]
    exact_mod_cast Iff.rfl
  have hclosed : (interval b).closed = true ↔ b.mantissa % 2 = 0 := by simp [interval]
  rw [Interval.has]
  split
  · rename_i hc
    rw [Bool.and_eq_true, decide_eq_true_eq, decide_eq_true_eq, hle, hge, interval_low hm, interval_high]
    exact ⟨fun ⟨h₁, h₂⟩ => ⟨h₁, h₂, .inl (hclosed.mp hc)⟩, fun h => ⟨h.low, h.high⟩⟩
  · rename_i hc
    rw [Bool.and_eq_true, decide_eq_true_eq, decide_eq_true_eq, hlt, hgt, interval_low hm, interval_high]
    exact ⟨fun ⟨h₁, h₂⟩ => ⟨h₁.le, h₂.le, .inr ⟨h₁, h₂⟩⟩, fun h => h.ends.resolve_left fun he => hc (hclosed.mpr he)⟩

/-! ## A grid -/

/-- The value of a double lies between two neighbouring points of a grid. -/
theorem value_between {num den : Nat} {unit : Int} (hnum : 0 < num) (hden : 0 < den)
    (hpow : (10 : ℚ) ^ unit = num / den) {below : Nat}
    (hbelow : (interval b).value * den / ((interval b).den * num) = below) :
    (below : ℚ) * 10 ^ unit ≤ b.mantissa * 2 ^ b.exponent ∧
      (b.mantissa : ℚ) * 2 ^ b.exponent < (below + 1 : Nat) * 10 ^ unit := by
  have hi := interval_den_pos b
  have hi' : (0 : ℚ) < (interval b).den := by exact_mod_cast hi
  have hden' : (0 : ℚ) < den := by exact_mod_cast hden
  rw [← interval_value b, hpow]
  constructor
  · have h : below * ((interval b).den * num) ≤ (interval b).value * den := hbelow ▸ Nat.div_mul_le_self _ _
    rw [← mul_div_assoc, div_le_div_iff₀ hden' hi']
    calc (below : ℚ) * num * (interval b).den = (below * ((interval b).den * num) : Nat) := by push_cast; ring
      _ ≤ _ := by exact_mod_cast h
  · have h : (interval b).value * den < (below + 1) * ((interval b).den * num) :=
      hbelow ▸ Nat.lt_mul_of_div_lt (Nat.lt_succ_self _) (Nat.mul_pos hi hnum)
    rw [← mul_div_assoc, div_lt_div_iff₀ hi' hden']
    calc ((interval b).value : ℚ) * den < ((below + 1) * ((interval b).den * num) : Nat) := by exact_mod_cast h
      _ = _ := by push_cast; ring

/-- The point that is found rounds to the double; a grid without a point is no finer than the interval is wide. -/
theorem onGrid?_cases (hm : 0 < b.mantissa) (unit : Int) :
    (∃ n, (interval b).onGrid? unit = some n ∧ Reaches b (n * 10 ^ unit)) ∨
      (interval b).onGrid? unit = none ∧ b.highEnd - b.lowEnd ≤ 10 ^ unit := by
  have hpow : (10 : ℚ) ^ unit = _ := pow_eq_div 10 unit
  have hden := den_pos 10 (by decide) unit
  have hnum : 0 < (if 0 ≤ unit then Nat.pow 10 unit.toNat else 1) := by
    split
    · exact Nat.pow_pos (by decide)
    · decide
  simp only [Interval.onGrid?]
  generalize (if 0 ≤ unit then Nat.pow 10 unit.toNat else 1) = num at hpow hnum ⊢
  generalize (if 0 ≤ unit then 1 else Nat.pow 10 (-unit).toNat) = den at hpow hden ⊢
  have hpoint (n : Nat) : (interval b).has (n * num) den = true ↔ Reaches b (n * 10 ^ unit) := by
    rw [has_iff hm hden, Nat.cast_mul, mul_div_assoc, ← hpow]
  generalize hbelow : (interval b).value * den / ((interval b).den * num) = below
  generalize (interval b).value * den % ((interval b).den * num) = rest
  obtain ⟨hfloor, hceil⟩ := value_between hnum hden hpow hbelow
  cases hb : (interval b).has (below * num) den <;> cases ha : (interval b).has ((below + 1) * num) den
  · have hwidth := width_le_of_not_reaches hfloor hceil (fun hr => by simp [(hpoint below).mpr hr] at hb)
      (fun hr => by simp [(hpoint (below + 1)).mpr hr] at ha)
    push_cast at hwidth
    exact .inr ⟨rfl, by linarith⟩
  · exact .inl ⟨below + 1, rfl, (hpoint (below + 1)).mp ha⟩
  · exact .inl ⟨below, rfl, (hpoint below).mp hb⟩
  · have hboth (n : Nat) (h : n = below ∨ n = below + 1) : Reaches b (n * 10 ^ unit) := by
      rcases h with rfl | rfl
      · exact (hpoint n).mp hb
      · exact (hpoint (below + 1)).mp ha
    dsimp only
    split
    · exact .inl ⟨below, rfl, hboth _ (.inl rfl)⟩
    · split
      · exact .inl ⟨below + 1, rfl, hboth _ (.inr rfl)⟩
      · split
        · exact .inl ⟨below, rfl, hboth _ (.inl rfl)⟩
        · exact .inl ⟨below + 1, rfl, hboth _ (.inr rfl)⟩

theorem search_cases (hm : 0 < b.mantissa) (count : Nat) (unit : Int) :
    (∃ n u, search (interval b) count unit = some (n, u) ∧ Reaches b (n * 10 ^ u)) ∨
      search (interval b) count unit = none ∧ ∀ k < count, b.highEnd - b.lowEnd ≤ 10 ^ (unit - k) := by
  induction count generalizing unit with
  | zero => exact .inr ⟨rfl, fun k hk => absurd hk (Nat.not_lt_zero k)⟩
  | succ count ih =>
      rw [search]
      rcases onGrid?_cases hm unit with ⟨n, hn, hr⟩ | ⟨hn, hw⟩
      · rw [hn]
        exact .inl ⟨n, unit, rfl, hr⟩
      · rw [hn]
        rcases ih (unit - 1) with hsome | ⟨hnone, hall⟩
        · exact .inl hsome
        · refine .inr ⟨hnone, fun k hk => ?_⟩
          cases k with
          | zero => simpa using hw
          | succ k =>
              have h := hall k (Nat.lt_of_succ_lt_succ hk)
              rwa [show unit - 1 - (k : Int) = unit - (k + 1 : Nat) by push_cast; ring] at h

/-! ## The place of the point -/

theorem pow_estimate (e : Int) (hl : -1100 < e) (hu : e < 1100) : (10 : ℚ) ^ (e * 30103 / 100000 - 1) ≤ 2 ^ e := by
  have hup : ∀ n < 1100, 10 ^ (n * 30103 / 100000) ≤ 10 * 2 ^ n := by decide +kernel
  have hdown : ∀ n < 1100, 2 ^ n ≤ 10 * 10 ^ ((n * 30103 + 99999) / 100000) := by decide +kernel
  rw [zpow_sub₀ (by norm_num), zpow_one, div_le_iff₀ (by norm_num), mul_comm ((2 : ℚ) ^ e)]
  rcases Int.le_total 0 e with he | he
  · obtain ⟨n, rfl⟩ := Int.eq_ofNat_of_zero_le he
    have h := hup n (by omega)
    rw [show (n : Int) * 30103 / 100000 = ((n * 30103 / 100000 : Nat) : Int) by omega, zpow_natCast, zpow_natCast]
    exact_mod_cast h
  · obtain ⟨n, hn⟩ := Int.eq_ofNat_of_zero_le (show 0 ≤ -e by omega)
    obtain rfl : e = -(n : Int) := by omega
    have h : (2 : ℚ) ^ n ≤ 10 * 10 ^ ((n * 30103 + 99999) / 100000) := by exact_mod_cast hdown n (by omega)
    rw [show -(n : Int) * 30103 / 100000 = -(((n * 30103 + 99999) / 100000 : Nat) : Int) by omega, zpow_neg,
      zpow_natCast, zpow_neg, zpow_natCast, inv_le_iff_one_le_mul₀ (by positivity)]
    rw [mul_assoc, mul_comm (_ ⁻¹), ← mul_assoc, ← div_eq_mul_inv, le_div_iff₀ (by positivity), one_mul]
    exact h

theorem decimalPoint_spec {num den : Nat} (hn : 0 < num) (hd : 0 < den) (hlow : (2 : ℚ) ^ (-1090 : Int) ≤ num / den)
    (hhigh : (num / den : ℚ) < 2 ^ (1090 : Int)) : (10 : ℚ) ^ (decimalPoint num den - 1) ≤ num / den := by
  obtain ⟨he₁, he₂⟩ := log2_ratio hn hd
  have hup := (zpow_lt_zpow_iff_right₀ (one_lt_two (α := ℚ))).mp (lt_of_le_of_lt he₁ hhigh)
  have hdown := (zpow_lt_zpow_iff_right₀ (one_lt_two (α := ℚ))).mp (lt_of_le_of_lt hlow he₂)
  have hreaches (j : Int) : (if 0 ≤ j then decide (Nat.pow 10 j.toNat * den ≤ num) else
      decide (den ≤ num * Nat.pow 10 (-j).toNat)) = true ↔ (10 : ℚ) ^ j ≤ num / den := by
    refine Iff.trans ?_ (fits_iff (p := 10) (by decide) hd j)
    split <;> rw [decide_eq_true_eq]
    rw [Nat.mul_comm]
  simp only [decimalPoint, hreaches]
  have hdown : -1092 < (num.log2 : Int) - den.log2 - 1 := by omega
  generalize (num.log2 : Int) - den.log2 - 1 = e at *
  split
  · rename_i h
    rwa [show e * 30103 / 100000 + 2 - 1 = e * 30103 / 100000 + 1 by omega]
  · split
    · rename_i h
      rwa [add_sub_cancel_right]
    · exact (pow_estimate e (by omega) (by omega)).trans he₁

/-! ## The digits that are found -/

theorem value_bounds (hb : b.Canonical) (hm : 0 < b.mantissa) :
    (2 : ℚ) ^ (-1090 : Int) ≤ b.mantissa * 2 ^ b.exponent ∧ (b.mantissa : ℚ) * 2 ^ b.exponent < 2 ^ (1090 : Int) := by
  have hm₁ : (1 : ℚ) ≤ b.mantissa := by exact_mod_cast hm
  have hm₂ : (b.mantissa : ℚ) < 2 ^ 53 := by exact_mod_cast hb.mantissa
  have hleast := hb.least
  have hgreatest := hb.greatest
  simp only [leastExponent, greatestExponent] at hleast hgreatest
  constructor
  · calc (2 : ℚ) ^ (-1090 : Int) ≤ 2 ^ b.exponent := zpow_le_zpow_right₀ one_le_two (by omega)
      _ ≤ b.mantissa * 2 ^ b.exponent := le_mul_of_one_le_left (by positivity) hm₁
  · calc (b.mantissa : ℚ) * 2 ^ b.exponent < 2 ^ 53 * 2 ^ b.exponent := mul_lt_mul_of_pos_right hm₂ (by positivity)
      _ = 2 ^ (53 + b.exponent) := by rw [zpow_add₀ two_ne_zero]; norm_num
      _ ≤ 2 ^ (1090 : Int) := zpow_le_zpow_right₀ one_le_two (by omega)

/-- The seventeenth grid is finer than the interval is wide, so one of the grids has a point in it. -/
theorem search_reaches (hb : b.Canonical) (hm : 0 < b.mantissa) :
    ∃ n u, search (interval b) 17 (decimalPoint (interval b).value (interval b).den - 1) = some (n, u) ∧
      Reaches b (n * 10 ^ u) := by
  refine (search_cases hm 17 _).resolve_right fun ⟨_, hall⟩ => ?_
  have hfine := hall 16 (by decide)
  have hi : (0 : ℚ) < (interval b).den := by exact_mod_cast interval_den_pos b
  have hpos : (0 : ℚ) < 2 ^ b.exponent := by positivity
  have hn : 0 < (interval b).value := by
    have h : (0 : ℚ) < (interval b).value / (interval b).den := by
      rw [interval_value]
      have hm' : (0 : ℚ) < b.mantissa := by exact_mod_cast hm
      positivity
    exact_mod_cast (div_pos_iff_of_pos_right hi).mp h
  obtain ⟨hlow, hhigh⟩ := value_bounds hb hm
  have hpoint := decimalPoint_spec hn (interval_den_pos b) (by rwa [interval_value]) (by rwa [interval_value])
  rw [interval_value] at hpoint
  generalize decimalPoint (interval b).value (interval b).den - 1 = p at *
  rw [zpow_sub₀ (by norm_num), le_div_iff₀ (by positivity)] at hfine
  -- The width in steps exceeds the mantissa over `10 ^ 16`.
  have hwide : (b.mantissa : ℚ) * 2 ^ b.exponent < (b.highEnd - b.lowEnd) * 10 ^ ((16 : Nat) : Int) := by
    have hm' : (b.mantissa : ℚ) < 2 ^ 53 := by exact_mod_cast hb.mantissa
    rw [highEnd, lowEnd, ← sub_mul, mul_right_comm]
    refine mul_lt_mul_of_pos_right ?_ hpos
    split
    · rename_i hnarrow
      rw [hnarrow.1]
      norm_num
    · rw [show (b.mantissa + 1 / 2 - (b.mantissa - 1 / 2) : ℚ) = 1 by ring, one_mul]
      exact hm'.trans (by norm_num)
  linarith

theorem toDigits_eq {n : Nat} (hn : 0 < n) :
    (Nat.toDigits 10 n).map (fun c => c.toNat - 48) = (Nat.digits 10 n).reverse := by
  induction n using Nat.strongRecOn with
  | ind n ih =>
      have hdigit : (Nat.digitChar (n % 10)).toNat - 48 = n % 10 := by
        rw [Nat.toNat_digitChar_of_lt_ten (Nat.mod_lt n (by decide)), Nat.add_sub_cancel_left]
      by_cases h : n < 10
      · rw [Nat.mod_eq_of_lt h] at hdigit
        rw [Nat.toDigits_of_lt_base h, Nat.digits_of_lt 10 n hn.ne' h, List.map_singleton, hdigit,
          List.reverse_singleton]
      · rw [Nat.toDigits_of_base_le (by decide) (by omega), Nat.digits_def' (by decide) hn, List.map_append,
          ih (n / 10) (by omega) (by omega), List.map_singleton, hdigit, List.reverse_cons]

theorem eq_stripZeros_append (ds : List Nat) : ∃ k, ds = stripZeros ds ++ List.replicate k 0 := by
  refine ⟨(ds.reverse.takeWhile (· = 0)).length, ?_⟩
  have hzeros : ds.reverse.takeWhile (· = 0) = List.replicate (ds.reverse.takeWhile (· = 0)).length 0 :=
    List.eq_replicate_iff.mpr ⟨rfl, fun a ha => by simpa using List.mem_takeWhile_imp ha⟩
  have hsplit := congrArg List.reverse
    (List.takeWhile_append_dropWhile (p := fun d => decide (d = 0)) (l := ds.reverse))
  rw [List.reverse_append, List.reverse_reverse, hzeros, List.reverse_replicate] at hsplit
  exact hsplit.symm

/-- The digits that are found are those of a number that rounds to the double. -/
theorem digits_spec (hb : b.Canonical) (hm : 0 < b.mantissa) : (digits b).Proper ∧ Reaches b (digits b).amount := by
  obtain ⟨n, u, hs, hr⟩ := search_reaches hb hm
  have hn : n ≠ 0 := by
    rintro rfl
    have h := lt_of_lt_of_le (lowEnd_pos hm) hr.low
    simp at h
  have hfound : digits b = ⟨stripZeros (Nat.digits 10 n).reverse, ((Nat.digits 10 n).length : Int) + u⟩ := by
    rw [digits, hs]
    dsimp only
    rw [toDigits_eq (Nat.pos_of_ne_zero hn), List.length_reverse]
  obtain ⟨k, hk⟩ := eq_stripZeros_append (Nat.digits 10 n).reverse
  generalize stripZeros (Nat.digits 10 n).reverse = ds at hfound hk
  have hdigits : Nat.digits 10 n = List.replicate k 0 ++ ds.reverse := by
    rw [← List.reverse_reverse (Nat.digits 10 n), hk, List.reverse_append, List.reverse_replicate]
  have hlead : ∃ a rest, ds = a :: rest ∧ 0 < a := by
    have hlast := Nat.getLast_digit_ne_zero 10 hn
    cases ds with
    | nil => simp [hdigits] at hlast
    | cons a rest => exact ⟨a, rest, rfl, by simpa [hdigits, Nat.pos_iff_ne_zero] using hlast⟩
  rw [hfound]
  refine ⟨⟨fun a ha => ?_, hlead⟩, ?_⟩
  · refine Nat.digits_lt_base (m := n) (by decide) ?_
    rw [hdigits]
    exact List.mem_append_right _ (List.mem_reverse.mpr ha)
  · have hamount : Digits.amount ⟨ds, ((Nat.digits 10 n).length : Int) + u⟩ = n * 10 ^ u := by
      have hnumber : n = 10 ^ k * Digits.spelled ds := by
        conv_lhs => rw [← Nat.ofDigits_digits 10 n, hdigits]
        rw [Nat.ofDigits_append, Nat.ofDigits_replicate_zero, List.length_replicate, Nat.zero_add, Digits.spelled]
      have hlength : (Nat.digits 10 n).length = k + ds.length := by
        rw [hdigits, List.length_append, List.length_replicate, List.length_reverse]
      rw [Digits.amount, hlength, show ((k + ds.length : Nat) : Int) + u - ds.length = k + u by push_cast; ring,
        zpow_add₀ (by norm_num), zpow_natCast]
      conv_rhs => rw [hnumber]
      push_cast
      ring
    rw [hamount]
    exact hr

/-- The point is never far from the digits. -/
theorem digits_point (hb : b.Canonical) (hm : 0 < b.mantissa) : -400 < (digits b).point ∧ (digits b).point < 400 := by
  obtain ⟨hproper, hr⟩ := digits_spec hb hm
  obtain ⟨hlow, hhigh⟩ := hproper.amount_bounds
  have hleast := hb.least
  have hgreatest := hb.greatest
  simp only [leastExponent, greatestExponent] at hleast hgreatest
  constructor
  · have hm' : (1 : ℚ) ≤ b.mantissa := by exact_mod_cast hm
    have h : (10 : ℚ) ^ (-400 : Int) < 10 ^ (digits b).point := calc
      (10 : ℚ) ^ (-400 : Int) < 2 ^ (-1075 : Int) := by
          have hnat : (2 : ℕ) ^ 1075 < 10 ^ 400 := by decide +kernel
          have hrat : (2 : ℚ) ^ 1075 < 10 ^ 400 := by exact_mod_cast hnat
          exact inv_strictAnti₀ (by positivity) hrat
      _ = 1 / 2 * 2 ^ (-1074 : Int) := by
          rw [show (-1075 : Int) = -1 + -1074 by decide, zpow_add₀ two_ne_zero]
          norm_num
      _ ≤ (b.mantissa - 1 / 2) * 2 ^ b.exponent :=
          mul_le_mul (by linarith) (zpow_le_zpow_right₀ one_le_two hleast) (by positivity) (by linarith)
      _ ≤ (digits b).amount := (halfStep_le_lowEnd b).trans hr.low
      _ < 10 ^ (digits b).point := hhigh
    exact (zpow_lt_zpow_iff_right₀ (by norm_num)).mp h
  · have h : (10 : ℚ) ^ ((digits b).point - 1) < 10 ^ (399 : Int) := calc
      (10 : ℚ) ^ ((digits b).point - 1) ≤ (digits b).amount := hlow
      _ < 2 ^ (b.exponent + 53) := hr.lt_pow hb
      _ ≤ 2 ^ (1024 : Int) := zpow_le_zpow_right₀ one_le_two (by omega)
      _ < 10 ^ (399 : Int) := by
          have hnat : (2 : ℕ) ^ 1024 < 10 ^ 399 := by decide +kernel
          exact_mod_cast hnat
    have hlt := (zpow_lt_zpow_iff_right₀ (by norm_num)).mp h
    omega

end

end Shortest

end Abacus
