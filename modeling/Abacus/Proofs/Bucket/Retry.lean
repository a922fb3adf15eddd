import Mathlib.Data.Rat.Floor
import Abacus.Proofs.Bucket.Eviction

/-!
# Asking how long to wait

To learn when a token will be there, one is set aside and given back. It comes back only as long as it could not have
been used: once the moment it was set aside for has passed, it stays taken. So the question goes unnoticed exactly if
that moment has not passed, or if the bucket has filled up without the token.
-/

namespace Abacus.Bucket

/-! ## Levels -/

section
variable {b : Bucket} {r s t : Rat}

theorem level_le_burst (b : Bucket) (r t : Rat) : b.level r t ≤ b.burst := by
  rw [level, lesser_eq_min]
  exact min_le_left _ _

theorem level_eq (h : b.last ≤ t) : b.level r t = min (b.burst : Rat) (b.tokens + r * (t - b.last)) := by
  rw [level, lesser_eq_min, lesser_eq_min, min_eq_right h]

theorem level_early (h : t ≤ b.last) : b.level r t = min (b.burst : Rat) b.tokens := by
  rw [level, lesser_eq_min, lesser_eq_min, min_eq_left h, sub_self, mul_zero, add_zero]

theorem min_min_add {x y z : Rat} (hz : 0 ≤ z) : min x (min x y + z) = min x (y + z) := by
  rw [← min_add_add_right, ← min_assoc, min_eq_left (le_add_of_nonneg_right hz)]

/-- A bucket refills from what it held at any time since it was last touched. -/
theorem level_later (hr : 0 ≤ r) (hs : b.last ≤ s) (ht : s ≤ t) :
    b.level r t = min (b.burst : Rat) (b.level r s + r * (t - s)) := by
  have hsum : b.tokens + r * (t - b.last) = b.tokens + r * (s - b.last) + r * (t - s) := by ring
  rw [level_eq (hs.trans ht), level_eq hs, min_min_add (mul_nonneg hr (sub_nonneg.mpr ht)), hsum]

theorem level_mono (hr : 0 ≤ r) (h : s ≤ t) : b.level r s ≤ b.level r t := by
  rcases le_total b.last s with hs | hs
  · rw [level_later hr hs h]
    exact le_min (level_le_burst b r s) (le_add_of_nonneg_right (mul_nonneg hr (sub_nonneg.mpr h)))
  · rw [level_early hs]
    rcases le_total b.last t with ht | ht
    · rw [level_eq ht]
      exact min_le_min_left _ (le_add_of_nonneg_right (mul_nonneg hr (sub_nonneg.mpr ht)))
    · rw [level_early ht]

theorem allow_eq_true_iff (hrate : b.rate = some r) {n : Int} :
    (b.allow n t).1 = true ↔ n ≤ b.burst ∧ (n : Rat) ≤ b.level r t := by
  have hdecide : (n ≤ b.burst && 0 ≤ b.level r t - n) = true ↔ n ≤ b.burst ∧ (n : Rat) ≤ b.level r t := by
    simp only [Bool.and_eq_true, decide_eq_true_eq, sub_nonneg]
  rw [← hdecide, allow, hrate]
  dsimp only
  split <;> simp_all

theorem allow_one_iff (hrate : b.rate = some r) (hone : 1 ≤ b.burst) (h : b.last ≤ t) :
    (b.allow 1 t).1 = true ↔ 1 ≤ b.tokens + r * (t - b.last) := by
  have hone' : (1 : Rat) ≤ b.burst := by exact_mod_cast hone
  rw [allow_eq_true_iff hrate, level_eq h, Int.cast_one, le_min_iff, and_iff_right hone, and_iff_right hone']

theorem allow_of_le (hrate : b.rate = some r) {n : Int} (hn : n ≤ b.burst) (hle : (n : Rat) ≤ b.level r t) :
    b.allow n t = (true, { b with tokens := b.level r t - n, last := t }) := by
  simp [allow, hrate, hn, hle]

end

/-! ## Answers -/

/-- What a bucket answers to requests of some tokens, each at a time. -/
def answers (b : Bucket) : List (Int × Rat) → List Bool
  | [] => []
  | call :: calls => (b.allow call.1 call.2).1 :: (b.allow call.1 call.2).2.answers calls

/-- The requests come in the order of time, and not before `now`. -/
structure From (now : Rat) (calls : List (Int × Rat)) : Prop where
  ordered : calls.Pairwise fun c d => c.2 ≤ d.2
  later : ∀ c ∈ calls, now ≤ c.2

section
variable {b c : Bucket} {r now t : Rat}

theorem Same.answers (h : Same now b c) {calls : List (Int × Rat)} (hcalls : From now calls) :
    b.answers calls = c.answers calls := by
  induction calls generalizing now b c with
  | nil => rfl
  | cons call calls ih =>
      obtain ⟨hfirst, hordered⟩ := List.pairwise_cons.mp hcalls.ordered
      obtain ⟨hanswer, hsame⟩ := (h.later (hcalls.later call List.mem_cons_self)).allow call.1
      rw [Bucket.answers, Bucket.answers, hanswer, ih hsame ⟨hordered, hfirst⟩]

/-- Two buckets that hold different amounts at a time are told apart by two requests: one that leaves less than a token
in the one with less, and one for a token as soon as the other has one. -/
theorem exists_answers_ne (hb : b.rate = some r) (hc : c.rate = some r) (hr : 0 < r) (hburst : b.burst = c.burst)
    (hone : 1 ≤ c.burst) (ht : now ≤ t) (hlt : b.level r t < c.level r t) :
    ∃ calls, From now calls ∧ b.answers calls ≠ c.answers calls := by
  let n := ⌊b.level r t⌋
  let u := t + (1 - min 1 (c.level r t - n)) / r
  have hn : (n : Rat) ≤ b.level r t := Int.floor_le _
  have hnb : n ≤ b.burst := by exact_mod_cast hn.trans (level_le_burst b r t)
  have hwait : r * (u - t) = 1 - min 1 (c.level r t - n) := by
    rw [add_sub_cancel_left, mul_div_cancel₀ _ hr.ne']
  have hu : t ≤ u := le_add_of_nonneg_right (div_nonneg (sub_nonneg.mpr (min_le_left _ _)) hr.le)
  refine ⟨[(n, t), (1, u)], ⟨by simpa using hu, by simpa using ⟨ht, ht.trans hu⟩⟩, fun h => ?_⟩
  simp only [Bucket.answers, allow_of_le hb hnb hn, allow_of_le hc (hburst ▸ hnb) (hn.trans hlt.le),
    List.cons.injEq, true_and, and_true] at h
  have hrefused : ¬ (1 : Rat) ≤ b.level r t - n + r * (u - t) := by
    rw [hwait, not_le]
    have := Int.lt_floor_add_one (b.level r t)
    rcases min_cases 1 (c.level r t - n) with ⟨hmin, _⟩ | ⟨hmin, _⟩ <;> rw [hmin] <;> linarith
  have hadmitted : (1 : Rat) ≤ c.level r t - n + r * (u - t) := by
    rw [hwait]
    linarith [min_le_right 1 (c.level r t - n)]
  have hyes := (allow_one_iff (b := { c with tokens := c.level r t - n, last := t }) hc hone hu).mpr hadmitted
  exact hrefused ((allow_one_iff (b := { b with tokens := b.level r t - n, last := t }) hb (hburst ▸ hone) hu).mp
    (h.trans hyes))

theorem answers_eq_iff_same (hb : b.rate = some r) (hc : c.rate = some r) (hr : 0 < r) (hburst : b.burst = c.burst)
    (hone : 1 ≤ c.burst) :
    (∀ calls, From now calls → b.answers calls = c.answers calls) ↔ Same now b c := by
  refine ⟨fun h => ⟨hb.trans hc.symm, hburst, fun s hs t ht => ?_⟩, fun h calls hcalls => h.answers hcalls⟩
  cases hc.symm.trans hs
  by_contra hne
  rcases lt_or_gt_of_ne hne with hlt | hlt
  · obtain ⟨calls, hcalls, hdiffer⟩ := exists_answers_ne hb hc hr hburst hone ht hlt
    exact hdiffer (h calls hcalls)
  · obtain ⟨calls, hcalls, hdiffer⟩ := exists_answers_ne hc hb hr hburst.symm (hburst ▸ hone) ht hlt
    exact hdiffer (h calls hcalls).symm

/-- What they hold now decides it, if neither was touched later than now or they are full. -/
theorem same_iff_level_eq (hb : b.rate = some r) (hc : c.rate = some r) (hr : 0 < r) (hburst : b.burst = c.burst)
    (hlast : b.last ≤ now) :
    Same now b c ↔ b.level r now = c.level r now ∧ (c.last ≤ now ∨ (c.burst : Rat) ≤ c.level r now) := by
  constructor
  · intro h
    refine ⟨h.level r hc now le_rfl, or_iff_not_imp_left.mpr fun hlate => ?_⟩
    rw [not_le] at hlate
    have hsame := h.level r hc c.last hlate.le
    have hnow := h.level r hc now le_rfl
    have hflat : c.level r c.last = c.level r now := by rw [level_early hlate.le, level_early le_rfl]
    rw [level_later hr.le hlast hlate.le, hflat, hnow, hburst] at hsame
    -- What is added until then makes no difference only to a full bucket.
    have hadded : 0 < r * (c.last - now) := mul_pos hr (sub_pos.mpr hlate)
    rcases min_cases (c.burst : Rat) (c.level r now + r * (c.last - now)) with ⟨hmin, _⟩ | ⟨hmin, _⟩ <;> linarith
  · rintro ⟨hnow, hstill⟩
    refine ⟨hb.trans hc.symm, hburst, fun s hs t ht => ?_⟩
    cases hc.symm.trans hs
    rw [level_later hr.le hlast ht, hnow, hburst]
    rcases hstill with hstill | hfull
    · rw [level_later hr.le hstill ht]
    · have hfull' : (c.burst : Rat) ≤ c.level r t := hfull.trans (level_mono hr.le ht)
      rw [min_eq_left (hfull.trans (le_add_of_nonneg_right (mul_nonneg hr.le (sub_nonneg.mpr ht))))]
      exact le_antisymm hfull' (level_le_burst c r t)

end

/-! ## The question -/

/-- What a bucket lacks of one token. -/
def lack (b : Bucket) (r now : Rat) : Rat := max 0 (1 - b.level r now)

/-- When one token will be there. -/
def ready (b : Bucket) (r now : Rat) : Rat := now + b.lack r now / r

/-- The bucket with one token taken, whether it was there or not. -/
def taken (b : Bucket) (r now : Rat) : Bucket := { b with tokens := b.level r now - 1, last := now }

section
variable {b : Bucket} {r reserved returned : Rat}

theorem reserve_one (hrate : b.rate = some r) (hburst : 1 ≤ b.burst) (now : Rat) :
    b.reserve 1 now none = (some ⟨1, b.ready r now⟩, b.taken r now) := by
  have hdelay : (if b.level r now - 1 < 0 then -(b.level r now - 1) / r else 0) = b.lack r now / r := by
    rw [lack]
    split
    · rename_i h
      rw [max_eq_right (by linarith), neg_sub]
    · rename_i h
      rw [max_eq_left (by linarith), zero_div]
  simp only [reserve, taken, ready, hrate, hburst, hdelay, Int.cast_one, Option.all_none, decide_true, Bool.and_self,
    if_true]

/-- Either the token stays taken, or it is back in the bucket. -/
theorem retryAfter_snd (hrate : b.rate = some r) (hburst : 1 ≤ b.burst) (reserved asked returned : Rat) :
    (b.retryAfter reserved asked returned).2 =
      if b.ready r reserved < returned then b.taken r reserved
      else { b with tokens := lesser b.burst ((b.taken r reserved).level r returned + 1), last := returned } := by
  rw [retryAfter, reserve_one hrate hburst]
  simp only [giveBack, taken, hrate]
  simp

/-- The tokens that a question leaves taken. -/
def lost (b : Bucket) (r reserved returned : Rat) : Rat := if b.ready r reserved < returned then 1 else 0

theorem level_retryAfter (hrate : b.rate = some r) (hr : 0 < r) (hburst : 1 ≤ b.burst) (asked : Rat)
    (hlater : reserved ≤ returned) :
    (b.retryAfter reserved asked returned).2.level r returned =
      min (b.burst : Rat) (b.level r reserved + r * (returned - reserved) - b.lost r reserved returned) := by
  have htaken : (b.taken r reserved).level r returned =
      min (b.burst : Rat) (b.level r reserved - 1 + r * (returned - reserved)) :=
    level_eq (b := b.taken r reserved) hlater
  rw [retryAfter_snd hrate hburst, lost]
  split
  · rw [htaken]
    ring_nf
  · rename_i hready
    have hroom : b.level r reserved - 1 + r * (returned - reserved) ≤ b.burst := by
      have hsoon : r * (returned - reserved) ≤ b.lack r reserved := by
        have := mul_le_mul_of_nonneg_left (sub_le_iff_le_add'.mpr (not_lt.mp hready)) hr.le
        rwa [mul_div_cancel₀ _ hr.ne'] at this
      have hlevel := level_le_burst b r reserved
      have hone : (1 : Rat) ≤ b.burst := by exact_mod_cast hburst
      rw [lack] at hsoon
      rcases max_cases 0 (1 - b.level r reserved) with ⟨hmax, -⟩ | ⟨hmax, -⟩ <;> linarith
    rw [level_early le_rfl, htaken, lesser_eq_min, min_eq_right hroom, ← min_assoc, min_self]
    ring_nf

theorem retryAfter_kept (hrate : b.rate = some r) (hburst : 1 ≤ b.burst) (asked : Rat)
    (hlater : reserved ≤ returned) :
    (b.retryAfter reserved asked returned).2.rate = some r ∧
      (b.retryAfter reserved asked returned).2.burst = b.burst ∧
      (b.retryAfter reserved asked returned).2.last ≤ returned := by
  rw [retryAfter_snd hrate hburst]
  split
  · exact ⟨hrate, rfl, hlater⟩
  · exact ⟨hrate, rfl, le_rfl⟩

theorem min_sub_one_eq_iff {x y : Rat} : min x (y - 1) = min x y ↔ x ≤ y - 1 := by
  constructor
  · intro h
    by_contra hroom
    rw [min_eq_right (not_le.mp hroom).le] at h
    rcases min_cases x y with ⟨hmin, _⟩ | ⟨hmin, _⟩ <;> linarith
  · intro h
    rw [min_eq_left h, min_eq_left (h.trans (sub_le_self _ zero_le_one))]

/-- All later requests are answered as if nobody had asked. -/
def Unnoticed (b : Bucket) (reserved asked returned : Rat) : Prop :=
  ∀ calls, From returned calls → (b.retryAfter reserved asked returned).2.answers calls = b.answers calls

/-- Whatever the bucket holds and whenever the three readings of the clock come, asking how long to wait goes unnoticed
exactly if the bucket then holds what it would have held, and was not touched later than that or is full. For a bucket
that was not touched after the first reading, this is so exactly if the token is given back before it is ready, or if
the bucket is full without it. -/
theorem retryAfter_unnoticed_iff {asked : Rat} (hrate : b.rate = some r) (hr : 0 < r) (hburst : 1 ≤ b.burst)
    (hasked : reserved ≤ asked) (hreturned : asked ≤ returned) :
    (b.Unnoticed reserved asked returned ↔
      min (b.burst : Rat) (b.level r reserved + r * (returned - reserved) - b.lost r reserved returned) =
        b.level r returned ∧ (b.last ≤ returned ∨ (b.burst : Rat) ≤ b.level r returned)) ∧
    (b.last ≤ reserved →
      (b.Unnoticed reserved asked returned ↔ returned ≤ b.ready r reserved ∨
        (b.burst : Rat) ≤ b.level r reserved - 1 + r * (returned - reserved))) := by
  have hlater : reserved ≤ returned := hasked.trans hreturned
  obtain ⟨hrate', hburst', hlast'⟩ := retryAfter_kept hrate hburst asked hlater
  have hiff := (answers_eq_iff_same hrate' hrate hr hburst' hburst).trans
    (same_iff_level_eq hrate' hrate hr hburst' hlast')
  rw [level_retryAfter hrate hr hburst asked hlater] at hiff
  refine ⟨hiff, fun hlast => hiff.trans ?_⟩
  rw [level_later hr.le hlast hlater, and_iff_left (.inl (hlast.trans hlater)), lost, sub_add_eq_add_sub]
  split
  · rename_i hready
    rw [or_iff_right (not_le.mpr hready), min_sub_one_eq_iff]
  · rename_i hready
    rw [sub_zero]
    exact iff_of_true rfl (.inl (not_lt.mp hready))

end

/-- A bucket that has just been emptied gets half a token a second: a question that ends when the token is there goes
unnoticed. -/
theorem emptyBucket_unaffected :
    let b : Bucket := ⟨some (1 / 2), 1, 0, 0⟩
    b.rate = some (1 / 2) ∧ (0 : Rat) < 1 / 2 ∧ 1 ≤ b.burst ∧ (0 : Rat) ≤ 1 ∧ (1 : Rat) ≤ 2 ∧ b.last ≤ 0 ∧
    (2 : Rat) ≤ b.ready (1 / 2) 0 ∧ b.Unnoticed 0 1 2 := by
  intro b
  have hr : (0 : Rat) < 1 / 2 := by decide +kernel
  have hready : (2 : Rat) ≤ b.ready (1 / 2) 0 := by decide +kernel
  have hasked : (0 : Rat) ≤ 1 := by decide
  have hreturned : (1 : Rat) ≤ 2 := by decide
  obtain ⟨-, hunnoticed⟩ := retryAfter_unnoticed_iff (b := b) rfl hr le_rfl hasked hreturned
  exact ⟨rfl, hr, le_rfl, hasked, hreturned, le_rfl, hready, (hunnoticed le_rfl).mpr (.inl hready)⟩

/-- A full bucket loses its token to a question that takes time. -/
theorem fullBucket_loses_token :
    let b := new (1 / 1000) 1 0
    (b.retryAfter 0 1 2).2.answers [(1, 3)] = [false] ∧ b.answers [(1, 3)] = [true] := by
  decide +kernel

end Abacus.Bucket
