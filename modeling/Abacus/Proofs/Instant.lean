import Abacus.Instant
import Abacus.Proofs.Text.Digits

/-!
# Instants as dates and texts

The calendar gives each instant one date and time of day, in the order of the instants. The stored text of an instant
of the years 0 to 9999 is read back as the instant, and these texts are ordered as the instants are.
-/

namespace Abacus

namespace Calendar

/-! ## Days -/

theorem isLeap_iff {y : Int} : isLeap y = true ↔ y % 4 = 0 ∧ (y % 100 ≠ 0 ∨ y % 400 = 0) := by simp [isLeap]

/-- The number of days of a year. -/
def yearLength (leap : Bool) : Nat := if leap then 366 else 365

theorem daysBefore_succ (y : Int) : daysBefore (y + 1) = daysBefore y + yearLength (isLeap y) := by
  rw [yearLength]
  split
  · rename_i h
    rw [isLeap_iff] at h
    simp only [daysBefore]
    omega
  · rename_i h
    rw [isLeap_iff] at h
    simp only [daysBefore]
    omega

theorem daysBefore_le {y z : Int} (h : y ≤ z) : daysBefore y ≤ daysBefore z := by
  simp only [daysBefore]
  omega

/-- A day is counted off in whole cycles of the calendar, then centuries, spans of four years and years. -/
theorem yearOf_eq (day : Int) :
    ∃ cycle : Int, ∃ century four one rest : Nat,
      yearOf day = (cycle * 400 + (century * 100 + four * 4 + one + 1 : Nat), rest) ∧
      (century ≤ 3 ∧ four ≤ 24 ∧ one ≤ 3) ∧ rest ≤ 365 ∧ (rest = 365 → one = 3 ∧ (four = 24 → century = 3)) ∧
      day = cycle * 146097 + (century * 36524 + four * 1461 + one * 365 + rest : Nat) := by
  have hcycle : day = day / 146097 * 146097 + (day % 146097).toNat := by omega
  have hlt : (day % 146097).toNat < 146097 := by omega
  refine ⟨_, _, _, _, _, rfl, ?_⟩
  generalize (day % 146097).toNat = g at hcycle hlt ⊢
  have hg : g = min (g / 36524) 3 * 36524 + (g - min (g / 36524) 3 * 36524) := by omega
  have hcentury : min (g / 36524) 3 ≤ 3 ∧ g - min (g / 36524) 3 * 36524 ≤ 36524 ∧
      (g - min (g / 36524) 3 * 36524 = 36524 → min (g / 36524) 3 = 3) := by omega
  generalize min (g / 36524) 3 = century at hg hcentury ⊢
  generalize g - century * 36524 = r at hg hcentury ⊢
  omega

/-- The year of a day is the one it falls in. -/
theorem yearOf_spec (day : Int) :
    daysBefore (yearOf day).1 + (yearOf day).2 = day ∧ (yearOf day).2 < yearLength (isLeap (yearOf day).1) := by
  obtain ⟨cycle, century, four, one, rest, he, ⟨hc, hf, ho⟩, hr, hlast, hday⟩ := yearOf_eq day
  rw [he]
  constructor
  · simp only [daysBefore]
    omega
  · rw [yearLength]
    split
    · exact Nat.lt_succ_of_le hr
    · rename_i hleap
      refine Nat.lt_of_le_of_ne hr fun h => hleap (isLeap_iff.mpr ?_)
      have hl := hlast h
      dsimp only
      omega

theorem yearOf_lt {d e : Int} (h : d < e) :
    (yearOf d).1 < (yearOf e).1 ∨ (yearOf d).1 = (yearOf e).1 ∧ (yearOf d).2 < (yearOf e).2 := by
  obtain ⟨hd, hd'⟩ := yearOf_spec d
  obtain ⟨he, he'⟩ := yearOf_spec e
  rcases Int.lt_trichotomy (yearOf d).1 (yearOf e).1 with hlt | heq | hgt
  · exact .inl hlt
  · rw [heq] at hd
    exact .inr ⟨heq, by omega⟩
  · have hle := daysBefore_le (show (yearOf e).1 + 1 ≤ (yearOf d).1 by omega)
    rw [daysBefore_succ] at hle
    omega

/-! ## Months -/

theorem le_monthOf (month rest : Nat) (ns : List Nat) : month ≤ (monthOf month rest ns).1 := by
  induction ns generalizing month rest with
  | nil => exact Nat.le_refl _
  | cons n ns ih =>
      rw [monthOf]
      split
      · exact Nat.le_refl _
      · exact Nat.le_of_succ_le (ih (month + 1) (rest - n))

theorem monthOf_lt (month : Nat) {r s : Nat} (ns : List Nat) (h : r < s) :
    (monthOf month r ns).1 < (monthOf month s ns).1 ∨
      (monthOf month r ns).1 = (monthOf month s ns).1 ∧ (monthOf month r ns).2 < (monthOf month s ns).2 := by
  induction ns generalizing month r s with
  | nil => exact .inr ⟨rfl, Nat.succ_lt_succ h⟩
  | cons n ns ih =>
      rw [monthOf, monthOf]
      by_cases hs : s < n
      · rw [if_pos hs, if_pos (by omega)]
        exact .inr ⟨rfl, Nat.succ_lt_succ h⟩
      · rw [if_neg hs]
        split
        · exact .inl (le_monthOf (month + 1) (s - n) ns)
        · exact ih (month + 1) (by omega)

/-- A day within the months falls in the one that is `k` months on. -/
theorem monthOf_spec (month rest : Nat) {ns : List Nat} (h : rest < ns.foldl (· + ·) 0) :
    ∃ k, ∃ hk : k < ns.length, (monthOf month rest ns).1 = month + k ∧ 0 < (monthOf month rest ns).2 ∧
      (monthOf month rest ns).2 ≤ ns[k] ∧ (ns.take k).foldl (· + ·) 0 + ((monthOf month rest ns).2 - 1) = rest := by
  have hsum (n : Nat) (ns : List Nat) : (n :: ns).foldl (· + ·) 0 = n + ns.foldl (· + ·) 0 := by
    have hassoc : ns.foldl (· + ·) (n + 0) = n + ns.foldl (· + ·) 0 := List.foldl_assoc
    rw [List.foldl_cons, Nat.zero_add]
    exact hassoc
  induction ns generalizing month rest with
  | nil => simp at h
  | cons n ns ih =>
      rw [hsum] at h
      rw [monthOf]
      split
      · exact ⟨0, Nat.zero_lt_succ _, rfl, by simp, ‹rest < n›, by simp⟩
      · rename_i hn
        obtain ⟨k, hk, hm, hpos, hle, he⟩ := ih (month + 1) (rest - n) (by omega)
        refine ⟨k + 1, Nat.succ_lt_succ hk, by omega, hpos, by simpa using hle, ?_⟩
        rw [List.take_succ_cons, hsum]
        omega

theorem daysIn_le (year : Int) (month : Nat) : daysIn year month ≤ 31 := by
  have hall : ∀ leap, ∀ n ∈ monthLengths leap, n ≤ 31 := by decide
  rw [daysIn, List.getD_eq_getElem?_getD]
  cases h : (monthLengths (isLeap year))[month - 1]? with
  | none => exact Nat.zero_le _
  | some n => exact hall _ n (List.mem_of_getElem? h)

theorem sum_monthLengths (leap : Bool) : (monthLengths leap).foldl (· + ·) 0 = yearLength leap := by
  cases leap <;> rfl

end Calendar

namespace Instant

open Calendar

/-! ## Date and time of day -/

/-- The fields are those of a date and a time of day. -/
structure Proper (d : DateTime) : Prop where
  month : 1 ≤ d.month ∧ d.month ≤ 12
  day : 1 ≤ d.day ∧ d.day ≤ daysIn d.year d.month
  hour : d.hour < 24
  minute : d.minute < 60
  second : d.second < 60
  nanosecond : d.nanosecond < nanosPerSecond

/-- The fields of a date, the first ones first, decide. -/
def Earlier (a b : DateTime) : Prop :=
  a.year < b.year ∨ a.year = b.year ∧ (a.month < b.month ∨ a.month = b.month ∧ (a.day < b.day ∨ a.day = b.day ∧
    (a.hour < b.hour ∨ a.hour = b.hour ∧ (a.minute < b.minute ∨ a.minute = b.minute ∧ (a.second < b.second ∨
      a.second = b.second ∧ a.nanosecond < b.nanosecond)))))

section
variable {year year' : Int} {month day hour minute second nanosecond : Nat}
  {month' day' hour' minute' second' nanosecond' : Nat}

/- The fields of a computed date are put in through these, as variables: comparing a projection of the date with what
it was computed from would make the calendar be worked out on the way. -/

theorem proper_mk (hm : 1 ≤ month ∧ month ≤ 12) (hd : 1 ≤ day ∧ day ≤ daysIn year month)
    (ht : hour < 24 ∧ minute < 60 ∧ second < 60) (hn : nanosecond < nanosPerSecond) :
    Proper ⟨year, month, day, hour, minute, second, nanosecond⟩ := ⟨hm, hd, ht.1, ht.2.1, ht.2.2, hn⟩

theorem earlier_mk :
    Earlier ⟨year, month, day, hour, minute, second, nanosecond⟩
        ⟨year', month', day', hour', minute', second', nanosecond'⟩ ↔
      year < year' ∨ year = year' ∧ (month < month' ∨ month = month' ∧ (day < day' ∨ day = day' ∧ (hour < hour' ∨
        hour = hour' ∧ (minute < minute' ∨ minute = minute' ∧ (second < second' ∨
          second = second' ∧ nanosecond < nanosecond'))))) := Iff.rfl

theorem ofDateTime_mk :
    ofDateTime ⟨year, month, day, hour, minute, second, nanosecond⟩ =
      ((daysBefore year + (daysBeforeMonth (isLeap year) month + (day - 1) : Nat)) * secondsPerDay +
        (hour * 3600 + minute * 60 + second : Nat)) * nanosPerSecond + nanosecond := rfl

end

theorem monthOf_yearOf (day : Int) :
    let m := monthOf 1 (yearOf day).2 (monthLengths (isLeap (yearOf day).1))
    (1 ≤ m.1 ∧ m.1 ≤ 12) ∧ (1 ≤ m.2 ∧ m.2 ≤ daysIn (yearOf day).1 m.1) ∧
      daysBeforeMonth (isLeap (yearOf day).1) m.1 + (m.2 - 1) = (yearOf day).2 := by
  obtain ⟨-, hlt⟩ := yearOf_spec day
  rw [← sum_monthLengths] at hlt
  obtain ⟨k, hk, hm, hpos, hle, he⟩ := monthOf_spec 1 (yearOf day).2 hlt
  have hindex : 1 + k - 1 = k := Nat.add_sub_cancel_left 1 k
  have hlen : (monthLengths (isLeap (yearOf day).1)).length = 12 := rfl
  have hget : (monthLengths (isLeap (yearOf day).1)).getD k 0 = (monthLengths (isLeap (yearOf day).1))[k] := by
    rw [List.getD_eq_getElem?_getD, List.getElem?_eq_getElem hk, Option.getD_some]
  simp only [daysIn, daysBeforeMonth, hm, hindex, hget]
  exact ⟨⟨by omega, by omega⟩, ⟨hpos, hle⟩, he⟩

section
variable (t : Int)

/-- The day that an instant falls on, and the second of that day. -/
theorem day_second : t / nanosPerSecond = t / nanosPerSecond / secondsPerDay * secondsPerDay +
    (t / nanosPerSecond % secondsPerDay).toNat ∧ (t / nanosPerSecond % secondsPerDay).toNat < secondsPerDay := by
  simp only [secondsPerDay]
  omega

theorem second_nanosecond : t = t / nanosPerSecond * nanosPerSecond + (t % nanosPerSecond).toNat ∧
    (t % nanosPerSecond).toNat < nanosPerSecond := by
  simp only [nanosPerSecond]
  omega

theorem toDateTime_eq :
    toDateTime t = ⟨(yearOf (t / nanosPerSecond / secondsPerDay)).1,
      (monthOf 1 (yearOf (t / nanosPerSecond / secondsPerDay)).2
        (monthLengths (isLeap (yearOf (t / nanosPerSecond / secondsPerDay)).1))).1,
      (monthOf 1 (yearOf (t / nanosPerSecond / secondsPerDay)).2
        (monthLengths (isLeap (yearOf (t / nanosPerSecond / secondsPerDay)).1))).2,
      (t / nanosPerSecond % secondsPerDay).toNat / 3600, (t / nanosPerSecond % secondsPerDay).toNat / 60 % 60,
      (t / nanosPerSecond % secondsPerDay).toNat % 60, (t % nanosPerSecond).toNat⟩ := rfl

theorem proper_toDateTime : Proper (toDateTime t) := by
  obtain ⟨hm, hd, -⟩ := monthOf_yearOf (t / nanosPerSecond / secondsPerDay)
  have hs := (day_second t).2
  rw [toDateTime_eq]
  refine proper_mk hm hd ?_ (second_nanosecond t).2
  generalize (t / nanosPerSecond % secondsPerDay).toNat = x at hs ⊢
  simp only [secondsPerDay] at hs
  omega

theorem ofDateTime_toDateTime : ofDateTime (toDateTime t) = t := by
  obtain ⟨-, -, hmonth⟩ := monthOf_yearOf (t / nanosPerSecond / secondsPerDay)
  obtain ⟨hyear, -⟩ := yearOf_spec (t / nanosPerSecond / secondsPerDay)
  have hsecond (x : Nat) : x / 3600 * 3600 + x / 60 % 60 * 60 + x % 60 = x := by omega
  rw [toDateTime_eq, ofDateTime_mk, hmonth, hyear, hsecond, ← (day_second t).1]
  exact (second_nanosecond t).1.symm

end

theorem earlier_of_lt {s t : Int} (h : s < t) : Earlier (toDateTime s) (toDateTime t) := by
  have hseconds : s / nanosPerSecond < t / nanosPerSecond ∨
      s / nanosPerSecond = t / nanosPerSecond ∧ (s % nanosPerSecond).toNat < (t % nanosPerSecond).toNat := by
    simp only [nanosPerSecond]
    omega
  have hdays : s / nanosPerSecond / secondsPerDay < t / nanosPerSecond / secondsPerDay ∨
      s / nanosPerSecond / secondsPerDay = t / nanosPerSecond / secondsPerDay ∧
        ((s / nanosPerSecond % secondsPerDay).toNat < (t / nanosPerSecond % secondsPerDay).toNat ∨
          (s / nanosPerSecond % secondsPerDay).toNat = (t / nanosPerSecond % secondsPerDay).toNat ∧
            (s % nanosPerSecond).toNat < (t % nanosPerSecond).toNat) := by
    generalize s / nanosPerSecond = x at hseconds ⊢
    generalize t / nanosPerSecond = y at hseconds ⊢
    simp only [secondsPerDay]
    omega
  rw [toDateTime_eq, toDateTime_eq, earlier_mk]
  rcases hdays with hlt | ⟨heq, hrest⟩
  · rcases yearOf_lt hlt with hy | ⟨hy, hr⟩
    · exact .inl hy
    · refine .inr ⟨hy, ?_⟩
      rw [hy]
      exact (monthOf_lt 1 _ hr).imp_right fun ⟨hm, hd⟩ => ⟨hm, .inl hd⟩
  · rw [heq]
    refine .inr ⟨rfl, .inr ⟨rfl, .inr ⟨rfl, ?_⟩⟩⟩
    generalize (s / nanosPerSecond % secondsPerDay).toNat = x at hrest ⊢
    generalize (t / nanosPerSecond % secondsPerDay).toNat = y at hrest ⊢
    omega

/-! ## Stored texts -/

/-- The year has four digits. -/
def InRange (t : Int) : Prop := 0 ≤ (toDateTime t).year ∧ (toDateTime t).year ≤ 9999

instance (t : Int) : Decidable (InRange t) := inferInstanceAs (Decidable (_ ∧ _))

/-- The texts of the fields with what stands between them. -/
theorem stored_eq {t : Int} (h : InRange t) :
    stored t = Text.padded 4 (toDateTime t).year.toNat ++ (45 :: (Text.padded 2 (toDateTime t).month ++
      (45 :: (Text.padded 2 (toDateTime t).day ++ (84 :: (Text.padded 2 (toDateTime t).hour ++
        (58 :: (Text.padded 2 (toDateTime t).minute ++ (58 :: (Text.padded 2 (toDateTime t).second ++
          (46 :: (Text.padded 9 (toDateTime t).nanosecond ++ [90])))))))))))) := by
  have hyear : yearText (toDateTime t).year = Text.padded 4 (toDateTime t).year.toNat := by
    obtain ⟨n, hn⟩ := Int.eq_ofNat_of_zero_le h.1
    rw [hn]
    rfl
  simp only [stored, dateText, timeText, hyear, List.append_assoc, List.cons_append]

/-- How many digits the fields have. -/
theorem widths {t : Int} (h : InRange t) :
    (toDateTime t).year.toNat < Nat.pow 10 4 ∧ (toDateTime t).month < Nat.pow 10 2 ∧ (toDateTime t).day < Nat.pow 10 2 ∧
      (toDateTime t).hour < Nat.pow 10 2 ∧ (toDateTime t).minute < Nat.pow 10 2 ∧ (toDateTime t).second < Nat.pow 10 2 ∧
        (toDateTime t).nanosecond < Nat.pow 10 9 := by
  obtain ⟨hy, hy'⟩ := h
  obtain ⟨hm, hd, hh, hi, hs, hn⟩ := proper_toDateTime t
  have hmonth := daysIn_le (toDateTime t).year (toDateTime t).month
  simp only [Nat.reducePow, Nat.pow_eq, nanosPerSecond] at hn ⊢
  omega

theorem stored_lt {s t : Int} (hs : InRange s) (ht : InRange t) (h : s < t) : stored s < stored t := by
  obtain ⟨hy, hm, hd, hh, hi, hsec, hn⟩ := widths hs
  obtain ⟨hy', hm', hd', hh', hi', hsec', hn'⟩ := widths ht
  have hyears : (toDateTime s).year < (toDateTime t).year → (toDateTime s).year.toNat < (toDateTime t).year.toNat :=
    fun hlt => (Int.toNat_lt_toNat (Int.lt_of_le_of_lt hs.1 hlt)).mpr hlt
  rw [stored_eq hs, stored_eq ht]
  -- The first fields that differ decide, in the texts as in the dates.
  refine Text.padded_append_lt (by decide) hy hy' 45 ((earlier_of_lt h).imp hyears fun ⟨he, h⟩ => ⟨by rw [he], ?_⟩)
  refine Text.padded_append_lt (by decide) hm hm' 45 (h.imp_right fun ⟨he, h⟩ => ⟨he, ?_⟩)
  refine Text.padded_append_lt (by decide) hd hd' 84 (h.imp_right fun ⟨he, h⟩ => ⟨he, ?_⟩)
  refine Text.padded_append_lt (by decide) hh hh' 58 (h.imp_right fun ⟨he, h⟩ => ⟨he, ?_⟩)
  refine Text.padded_append_lt (by decide) hi hi' 58 (h.imp_right fun ⟨he, h⟩ => ⟨he, ?_⟩)
  refine Text.padded_append_lt (by decide) hsec hsec' 46 (h.imp_right fun ⟨he, h⟩ => ⟨he, ?_⟩)
  exact Text.padded_append_lt (by decide) hn hn' 90 (.inl h)

theorem stored_le_iff {s t : Int} (hs : InRange s) (ht : InRange t) : stored s ≤ stored t ↔ s ≤ t := by
  constructor
  · intro h
    exact Int.not_lt.mp fun hlt => List.not_lt.mpr h (stored_lt ht hs hlt)
  · intro h
    rcases Int.lt_or_eq_of_le h with h | rfl
    · exact List.le_of_lt (stored_lt hs ht h)
    · exact List.le_refl _

/-! ## Reading -/

theorem digit?_digit {d : Nat} (h : d < 10) : digit? (Text.digit d) = some d := by
  rw [digit?, if_pos (Text.isDigit_digit h), Text.toNat_digit h, Nat.add_sub_cancel_left]

theorem number?_padded {w n : Nat} (hw : 0 < w) (h : n < Nat.pow 10 w) : number? (Text.padded w n) = some n := by
  induction w generalizing n with
  | zero => cases hw
  | succ w ih =>
      by_cases hz : w = 0
      · subst hz
        rw [Text.padded_one h, number?, List.foldl_cons, List.foldl_nil, digit?_digit h]
        simp
      · have h : n < Nat.pow 10 w * 10 := h
        have hdiv : number? (Text.padded w (n / 10)) = some (n / 10) := ih (by omega) (by omega)
        rw [number?] at hdiv
        rw [Text.padded_succ (by omega), number?, List.foldl_append, hdiv, List.foldl_cons, List.foldl_nil,
          digit?_digit (Nat.mod_lt n (by decide))]
        simp only [Option.bind_eq_bind, Option.bind_some, Option.pure_def, Option.some.injEq]
        omega

theorem literal_cons (b : UInt8) (t : Text) : literal [b] (b :: t) = .ok t := by
  rw [literal, if_pos rfl]
  cases t <;> rfl

theorem padded_two {n : Nat} (h : n < 100) : Text.padded 2 n = [Text.digit (n / 10), Text.digit (n % 10)] := by
  rw [Text.padded_succ (by decide), Text.padded_one (by omega)]
  rfl

theorem field_padded {n least most : Nat} (h : n < 100) (hl : least ≤ n) (hm : n ≤ most) (layout what t : Text) :
    field layout what least most (Text.padded 2 n ++ t) = .ok (n, t) := by
  rw [padded_two h]
  simp only [List.cons_append, List.nil_append, field, digit?_digit (show n / 10 < 10 by omega),
    digit?_digit (Nat.mod_lt n (show 0 < 10 by decide))]
  rw [Nat.div_add_mod' n 10, if_neg (by simp; omega)]

theorem hourField_padded {n : Nat} (h : n < 24) (t : Text) : hourField (Text.padded 2 n ++ t) = .ok (n, t) := by
  rw [padded_two (by omega)]
  simp only [List.cons_append, List.nil_append, hourField, digit?_digit (show n / 10 < 10 by omega), List.head?_cons,
    Option.bind_some, digit?_digit (Nat.mod_lt n (show 0 < 10 by decide)), List.tail_cons]
  rw [Nat.div_add_mod' n 10, if_neg (by omega)]

theorem yearField_padded {n : Nat} (h : n < Nat.pow 10 4) (t : Text) :
    yearField (Text.padded 4 n ++ t) = .ok (n, t) := by
  have hl := Text.length_padded (by decide) h
  have hlong : ¬ (Text.padded 4 n ++ t).length < 4 := by
    rw [List.length_append, hl]
    omega
  rw [yearField, List.take_left' hl, List.drop_left' hl, number?_padded (by decide) h]
  simp only [if_neg hlong]

theorem fractionField_padded {n : Nat} (h : n < Nat.pow 10 9) (t : Text) :
    fractionField (46 :: (Text.padded 9 n ++ t)) = .ok (n, t) := by
  have hl := Text.length_padded (by decide) h
  have hlong : ¬ (46 :: (Text.padded 9 n ++ t)).length < 10 := by
    rw [List.length_cons, List.length_append, hl]
    omega
  -- The first digit is no sign.
  have hsign {b : UInt8} (hb : Text.isDigit b = false) : ((Text.padded 9 n).head? == some b) = false := by
    cases hp : Text.padded 9 n with
    | nil => rfl
    | cons c u =>
        have hc : Text.isDigit c = true := Text.isDigit_of_mem_padded c (by rw [hp]; exact List.mem_cons_self)
        simp only [List.head?_cons, beq_eq_false_iff_ne, ne_eq, Option.some.injEq]
        rintro rfl
        cases hc.symm.trans hb
  rw [fractionField, if_neg hlong]
  simp only [List.take_left' hl, List.drop_left' hl, hsign (b := 45) rfl, hsign (b := 43) rfl, Bool.or_self,
    Bool.false_eq_true, ↓reduceIte, number?_padded (show 0 < 9 by decide) h, Bool.false_and]
  rfl

/-- What is stored is read back. -/
theorem readStored_stored {t : Int} (h : InRange t) : readStored (stored t) = .ok t := by
  obtain ⟨hy, hm, hd, -, hi, hs, hn⟩ := widths h
  obtain ⟨⟨hm₁, hm₂⟩, ⟨hd₁, hd₂⟩, hh, hi₂, hs₂, -⟩ := proper_toDateTime t
  have hyear : ((toDateTime t).year.toNat : Int) = (toDateTime t).year := Int.toNat_of_nonneg h.1
  have hdash : ("-" : Text) = [45] := rfl
  have ht : ("T" : Text) = [84] := rfl
  have hcolon : (":" : Text) = [58] := rfl
  have hz : ("Z" : Text) = [90] := rfl
  rw [stored_eq h, readStored]
  simp only [yearField_padded hy, bind, Except.bind, hdash, ht, hcolon, hz, literal_cons,
    field_padded hm hm₁ hm₂, field_padded hd (Nat.zero_le _) (Nat.le_of_lt_succ hd), hourField_padded hh,
    field_padded hi (Nat.zero_le _) (Nat.le_of_lt_succ hi₂), field_padded hs (Nat.zero_le _) (Nat.le_of_lt_succ hs₂),
    fractionField_padded hn, List.isEmpty_nil, hyear]
  rw [if_neg (by simp), if_neg (by simp only [Bool.or_eq_true, decide_eq_true_eq]; omega)]
  exact congrArg Except.ok (ofDateTime_toDateTime t)

end Instant

end Abacus
