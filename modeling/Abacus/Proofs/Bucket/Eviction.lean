import Abacus.Bucket.Registry
import Abacus.Proofs.Context
import Mathlib.Algebra.Order.Field.Rat
import Mathlib.Data.List.Nodup
import Mathlib.Tactic.Linarith

/-!
# Forgetting idle clients

A client that stays away until its bucket would be full again can be forgotten: the bucket that it gets when it comes
back gives the answers that the old one would have given. So where a bucket fills up within the time to live, no answer
depends on what is forgotten.
-/

namespace Abacus

namespace Bucket

theorem lesser_eq_min (a b : Rat) : lesser a b = min a b := (min_def a b).symm

/-- The buckets hold the same amount at all times from `now` on. -/
structure Same (now : Rat) (b c : Bucket) : Prop where
  rate : b.rate = c.rate
  burst : b.burst = c.burst
  level : ∀ r ∈ c.rate, ∀ t, now ≤ t → b.level r t = c.level r t

/-- A bucket of a registry: it is not in debt and was not touched after `used`. -/
structure Sound (rate : Rat) (burst : Int) (used : Rat) (b : Bucket) : Prop where
  rate : b.rate = (new rate burst 0).rate
  burst : b.burst = burst
  tokens : 0 ≤ b.tokens
  last : b.last ≤ used

theorem Same.refl (now : Rat) (b : Bucket) : Same now b b := ⟨rfl, rfl, fun _ _ _ _ => rfl⟩

theorem Same.symm {now : Rat} {b c : Bucket} (h : Same now b c) : Same now c b :=
  ⟨h.rate.symm, h.burst.symm, fun r hr t ht => (h.level r (h.rate ▸ hr) t ht).symm⟩

theorem Same.trans {now : Rat} {b c d : Bucket} (h : Same now b c) (h' : Same now c d) : Same now b d :=
  ⟨h.rate.trans h'.rate, h.burst.trans h'.burst, fun r hr t ht =>
    (h.level r (h'.rate ▸ hr) t ht).trans (h'.level r hr t ht)⟩

theorem Same.later {now t : Rat} {b c : Bucket} (h : Same now b c) (ht : now ≤ t) : Same t b c :=
  ⟨h.rate, h.burst, fun r hr u hu => h.level r hr u (le_trans ht hu)⟩

theorem Same.allow {now : Rat} {b c : Bucket} (h : Same now b c) (n : Int) :
    (b.allow n now).1 = (c.allow n now).1 ∧ Same now (b.allow n now).2 (c.allow n now).2 := by
  cases hr : c.rate with
  | none => simp only [Bucket.allow, h.rate, hr, true_and, h]
  | some r =>
      simp only [Bucket.allow, h.rate, hr, h.burst, h.level r hr now le_rfl]
      split
      · exact ⟨rfl, .refl now _⟩
      · exact ⟨rfl, h⟩

theorem eq_and_pos_of_rate_new {rate r now : Rat} {burst : Int} (h : r ∈ (new rate burst now).rate) :
    r = rate ∧ 0 < r := by
  simp only [new, Option.mem_def, Option.ite_none_left_eq_some, Option.some.injEq, Bool.or_eq_true,
    decide_eq_true_eq, not_or, not_le] at h
  exact ⟨h.2.symm, h.2 ▸ h.1.1⟩

/-- A bucket that is full by now cannot be told from a new one. -/
theorem same_new_of_full {rate now : Rat} {burst : Int} {b : Bucket} (hrate : b.rate = (new rate burst now).rate)
    (hburst : b.burst = burst) (hlast : b.last ≤ now)
    (hfull : 0 < rate → (burst : Rat) ≤ b.tokens + rate * (now - b.last)) : Same now b (new rate burst now) := by
  refine ⟨hrate, hburst, fun r hr t ht => ?_⟩
  obtain ⟨rfl, hpos⟩ := eq_and_pos_of_rate_new hr
  have hmore : r * (now - b.last) ≤ r * (t - b.last) := mul_le_mul_of_nonneg_left (by linarith) hpos.le
  have hold : (burst : Rat) ≤ b.tokens + r * (t - b.last) := (hfull hpos).trans (by linarith)
  have hnew : (burst : Rat) ≤ burst + r * (t - now) :=
    le_add_of_nonneg_right (mul_nonneg hpos.le (sub_nonneg.mpr ht))
  simp only [level, lesser_eq_min, hburst, new, min_eq_right (hlast.trans ht), min_eq_right ht, min_eq_left hold,
    min_eq_left hnew]

theorem same_new_new {rate t now : Rat} {burst : Int} (h : t ≤ now) :
    Same now (new rate burst t) (new rate burst now) :=
  same_new_of_full rfl rfl h fun hr => le_add_of_nonneg_right (mul_nonneg hr.le (sub_nonneg.mpr h))

/-- A bucket that was left alone for as long as it takes to fill is full. -/
theorem Sound.same_new {rate ttl used now : Rat} {burst : Int} {b : Bucket} (h : Sound rate burst used b)
    (hfull : (burst : Rat) ≤ rate * ttl) (hused : used ≤ now) (hidle : ttl ≤ now - used) :
    Same now b (new rate burst now) := by
  refine same_new_of_full h.rate h.burst (h.last.trans hused) fun hr => hfull.trans ?_
  have hmore : rate * ttl ≤ rate * (now - b.last) := mul_le_mul_of_nonneg_left (by linarith [h.last]) hr.le
  linarith [h.tokens]

theorem sound_new {rate : Rat} {burst : Int} (h : 0 ≤ burst) (now : Rat) : Sound rate burst now (new rate burst now) :=
  ⟨rfl, rfl, Rat.intCast_nonneg.mpr h, le_rfl⟩

theorem Sound.allow {rate used now : Rat} {burst : Int} {b : Bucket} (h : Sound rate burst used b)
    (hused : used ≤ now) (n : Int) : Sound rate burst now (b.allow n now).2 := by
  have hkept : Sound rate burst now b := ⟨h.rate, h.burst, h.tokens, h.last.trans hused⟩
  unfold Bucket.allow
  split
  · exact hkept
  · dsimp only
    split
    · rename_i hleft
      simp only [Bool.and_eq_true, decide_eq_true_eq] at hleft
      exact ⟨h.rate, h.burst, hleft.2, le_rfl⟩
    · exact hkept

end Bucket

namespace Registry

/-! ## One client -/

def bucketOf (r : Registry) (key : Text) (now : Rat) : Bucket :=
  ((r.clients.lookup key).map Client.bucket).getD (Bucket.new r.rate r.burst now)

def ordinalOf (r : Registry) (key : Text) : Nat := ((r.clients.lookup key).map Client.ordinal).getD r.made

theorem lookup_put (r : Registry) (key k : Text) (c : Client) :
    (r.put key c).clients.lookup k = if k = key then some c else r.clients.lookup k := by
  rw [put, lookup_cons_ite]
  split
  · rfl
  · rename_i hk
    exact lookup_filter_ne hk r.clients

theorem put_put (r : Registry) (key : Text) (c d : Client) : (r.put key c).put key d = r.put key d := by
  have hf : ((key, c) :: r.clients.filter (·.1 != key)).filter (·.1 != key) = r.clients.filter (·.1 != key) := by
    rw [List.filter_cons_of_neg (by simp), List.filter_filter]
    simp only [Bool.and_self]
  simp only [put, hf]

/-- What a request does: the client of the key, old or new, is asked, and is put down as used. -/
theorem allow_eq (r : Registry) (key : Text) (n : Int) (now : Rat) :
    r.allow key n now =
      (((r.bucketOf key now).allow n now).1,
        { r.put key ⟨((r.bucketOf key now).allow n now).2, r.ordinalOf key, now⟩ with
          made := if (r.clients.lookup key).isSome then r.made else r.made + 1 }) := by
  unfold allow get bucketOf ordinalOf
  cases r.clients.lookup key with
  | none =>
      have hput := fun d => put_put r key ⟨.new r.rate r.burst now, r.made, now⟩ d
      simp only [put] at hput ⊢
      simp only [Registry.mk.injEq, true_and, and_true] at hput
      simp only [hput]
      rfl
  | some c =>
      simp only [put_put]
      rfl

theorem ordinal_get (r : Registry) (key : Text) (now : Rat) : (r.get key now).1.ordinal = r.ordinalOf key := by
  unfold get ordinalOf
  cases r.clients.lookup key <;> rfl

theorem bucketOf_later {now t : Rat} (h : now ≤ t) (r : Registry) (key : Text) :
    (r.bucketOf key now).Same t (r.bucketOf key t) := by
  unfold bucketOf
  cases r.clients.lookup key with
  | none => exact Bucket.same_new_new h
  | some c => exact .refl t _

section
variable (r : Registry) (key : Text) (n : Int) (now : Rat)

theorem lookup_allow (k : Text) :
    (r.allow key n now).2.clients.lookup k =
      if k = key then some ⟨((r.bucketOf key now).allow n now).2, r.ordinalOf key, now⟩ else r.clients.lookup k := by
  rw [allow_eq]
  exact lookup_put r key k _

theorem bucketOf_allow (k : Text) :
    (r.allow key n now).2.bucketOf k now =
      if k = key then ((r.bucketOf key now).allow n now).2 else r.bucketOf k now := by
  rw [bucketOf, lookup_allow]
  split
  · rfl
  · rw [allow_eq]
    rfl

end

/-! ## Histories -/

/-- A request of a client at a time, or a sweep that forgets idle clients. -/
inductive Visit where
  | request (key : Text) (time : Rat)
  | sweep (time : Rat)

def Visit.time : Visit → Rat
  | .request _ t => t
  | .sweep t => t

def Visit.isOf (keep : Text → Bool) : Visit → Bool
  | .request key _ => keep key
  | .sweep _ => false

/-- What a request was told, and the number of the bucket that it was told by. -/
structure Answer where
  key : Text
  ordinal : Nat
  admitted : Bool
deriving DecidableEq

def answers (r : Registry) : List Visit → List Answer
  | [] => []
  | .request key time :: visits =>
    ⟨key, (r.get key time).1.ordinal, (r.allow key 1 time).1⟩ :: (r.allow key 1 time).2.answers visits
  | .sweep time :: visits => (r.cleanup time).answers visits

def decisions (answers : List Answer) : List (Text × Bool) := answers.map fun a => (a.key, a.admitted)

/-! ## What every history keeps -/

/-- A bucket fills up within the time to live. -/
structure Ample (r : Registry) : Prop where
  burst : 0 ≤ r.burst
  ttl : 0 ≤ r.ttl
  refills : (r.burst : Rat) ≤ r.rate * r.ttl

theorem ample_new {rate ttl : Rat} {burst : Int} (hrate : 0 < rate) (hburst : 0 ≤ burst)
    (hfull : (burst : Rat) ≤ rate * ttl) : (new rate burst ttl).Ample := by
  refine ⟨hburst, ?_, ?_⟩ <;> simp only [new] <;> split <;> rename_i httl
  · decide
  · linarith
  · refine hfull.trans (mul_le_mul_of_nonneg_left (httl.trans ?_) hrate.le)
    decide
  · exact hfull

def Keyed (r : Registry) : Prop := (r.clients.map Prod.fst).Nodup

/-- No bucket was touched after its key was last used. -/
structure Kept (now : Rat) (r : Registry) : Prop where
  keyed : r.Keyed
  sound : ∀ key c, r.clients.lookup key = some c → c.bucket.Sound r.rate r.burst c.lastUsed ∧ c.lastUsed ≤ now

/-- No two keys have a bucket in common, and no bucket is given out again. -/
structure Numbered (r : Registry) : Prop where
  keyed : r.Keyed
  below : ∀ key c, r.clients.lookup key = some c → c.ordinal < r.made
  distinct : ∀ k key c d, r.clients.lookup k = some c → r.clients.lookup key = some d → c.ordinal = d.ordinal → k = key

theorem keyed_new (rate : Rat) (burst : Int) (ttl : Rat) : (new rate burst ttl).Keyed := List.nodup_nil

theorem kept_new (rate : Rat) (burst : Int) (ttl now : Rat) : (new rate burst ttl).Kept now :=
  ⟨keyed_new rate burst ttl, nofun⟩

theorem numbered_new (rate : Rat) (burst : Int) (ttl : Rat) : (new rate burst ttl).Numbered := by
  refine ⟨keyed_new rate burst ttl, fun _ _ h => ?_, fun _ _ _ _ h => ?_⟩
  · cases h
  · cases h

theorem lookup_cleanup {r : Registry} (h : r.Keyed) (now : Rat) (key : Text) :
    (r.cleanup now).clients.lookup key =
      (r.clients.lookup key).filter fun c => decide (now - c.lastUsed ≤ r.ttl) :=
  lookup_filter_of_nodup h (fun c => decide (now - c.lastUsed ≤ r.ttl)) key

section
variable {r : Registry} {now t : Rat}

theorem Keyed.allow (h : r.Keyed) (key : Text) (n : Int) (now : Rat) : (r.allow key n now).2.Keyed := by
  rw [allow_eq]
  simp only [Keyed, put, List.map_cons, List.nodup_cons, List.mem_map, List.mem_filter, bne_iff_ne, not_exists]
  exact ⟨fun e he => he.1.2 he.2, h.sublist (List.filter_sublist.map Prod.fst)⟩

theorem Keyed.cleanup (h : r.Keyed) (now : Rat) : (r.cleanup now).Keyed :=
  h.sublist (List.filter_sublist.map Prod.fst)

theorem Ample.allow (h : r.Ample) (key : Text) (n : Int) (now : Rat) : (r.allow key n now).2.Ample := by
  rw [allow_eq]
  exact ⟨h.burst, h.ttl, h.refills⟩

theorem Ample.cleanup (h : r.Ample) (now : Rat) : (r.cleanup now).Ample := ⟨h.burst, h.ttl, h.refills⟩

theorem Kept.later (h : r.Kept now) (ht : now ≤ t) : r.Kept t :=
  ⟨h.keyed, fun key c hc => ⟨(h.sound key c hc).1, (h.sound key c hc).2.trans ht⟩⟩

theorem Kept.bucketOf (h : r.Kept now) (hb : 0 ≤ r.burst) (ht : now ≤ t) (key : Text) :
    ∃ used, (r.bucketOf key t).Sound r.rate r.burst used ∧ used ≤ t := by
  unfold Registry.bucketOf
  cases hc : r.clients.lookup key with
  | none => exact ⟨t, Bucket.sound_new hb t, le_rfl⟩
  | some c => exact ⟨c.lastUsed, (h.sound key c hc).1, (h.sound key c hc).2.trans ht⟩

theorem Kept.allow (h : r.Kept now) (hb : 0 ≤ r.burst) (ht : now ≤ t) (key : Text) (n : Int) :
    (r.allow key n t).2.Kept t := by
  refine ⟨h.keyed.allow key n t, fun k c hc => ?_⟩
  have hrate : (r.allow key n t).2.rate = r.rate := by rw [allow_eq]; rfl
  have hburst : (r.allow key n t).2.burst = r.burst := by rw [allow_eq]; rfl
  rw [lookup_allow] at hc
  rw [hrate, hburst]
  split at hc
  · obtain ⟨used, hs, hu⟩ := h.bucketOf hb ht key
    cases hc
    exact ⟨hs.allow hu n, le_rfl⟩
  · exact (h.later ht).sound k c hc

theorem Kept.cleanup (h : r.Kept now) (ht : now ≤ t) : (r.cleanup t).Kept t := by
  refine ⟨h.keyed.cleanup t, fun key c hc => ?_⟩
  rw [lookup_cleanup h.keyed] at hc
  exact (h.later ht).sound key c (Option.filter_eq_some_iff.mp hc).1

theorem Numbered.ordinalOf_lt (h : r.Numbered) (key : Text) (n : Int) (now : Rat) :
    r.ordinalOf key < (r.allow key n now).2.made := by
  rw [allow_eq, ordinalOf]
  cases hc : r.clients.lookup key with
  | none => exact Nat.lt_succ_self _
  | some c => exact h.below key c hc

theorem Numbered.ordinal_ne (h : r.Numbered) {k key : Text} {c : Client} (hk : k ≠ key)
    (hc : r.clients.lookup k = some c) : c.ordinal ≠ r.ordinalOf key := by
  unfold ordinalOf
  cases hd : r.clients.lookup key with
  | none => exact Nat.ne_of_lt (h.below k c hc)
  | some d => exact fun he => hk (h.distinct k key c d hc hd he)

theorem made_le_allow (r : Registry) (key : Text) (n : Int) (now : Rat) : r.made ≤ (r.allow key n now).2.made := by
  rw [allow_eq]
  dsimp only
  split <;> omega

theorem Numbered.allow (h : r.Numbered) (key : Text) (n : Int) (now : Rat) : (r.allow key n now).2.Numbered := by
  refine ⟨h.keyed.allow key n now, fun k c hc => ?_, fun k k' c d hc hd he => ?_⟩
  · rw [lookup_allow] at hc
    split at hc
    · cases hc
      exact h.ordinalOf_lt key n now
    · exact Nat.lt_of_lt_of_le (h.below k c hc) (made_le_allow r key n now)
  · rw [lookup_allow] at hc hd
    split at hc <;> split at hd <;> rename_i hk hk'
    · exact hk.trans hk'.symm
    · cases hc
      exact absurd he.symm (h.ordinal_ne hk' hd)
    · cases hd
      exact absurd he (h.ordinal_ne hk hc)
    · exact h.distinct k k' c d hc hd he

theorem Numbered.cleanup (h : r.Numbered) (now : Rat) : (r.cleanup now).Numbered := by
  have hold {k : Text} {c : Client} (hc : (r.cleanup now).clients.lookup k = some c) : r.clients.lookup k = some c := by
    rw [lookup_cleanup h.keyed] at hc
    exact (Option.filter_eq_some_iff.mp hc).1
  exact ⟨h.keyed.cleanup now, fun k c hc => h.below k c (hold hc),
    fun k key c d hc hd he => h.distinct k key c d (hold hc) (hold hd) he⟩

end

/-! ## A registry that forgets and one that does not -/

/-- The clients `keep` have buckets in both registries that hold the same. A client that is not there counts as one with
a new bucket. -/
structure Tracks (keep : Text → Bool) (now : Rat) (r s : Registry) : Prop where
  rate : s.rate = r.rate
  burst : s.burst = r.burst
  bucket : ∀ key, keep key = true → (r.bucketOf key now).Same now (s.bucketOf key now)

section
variable {keep : Text → Bool} {now t : Rat} {r s : Registry}

theorem Tracks.later (h : Tracks keep now r s) (ht : now ≤ t) : Tracks keep t r s :=
  ⟨h.rate, h.burst, fun key hk =>
    ((bucketOf_later ht r key).symm.trans ((h.bucket key hk).later ht)).trans (bucketOf_later ht s key)⟩

theorem Tracks.allow (h : Tracks keep now r s) {key : Text} (hk : keep key = true) (n : Int) :
    (r.allow key n now).1 = (s.allow key n now).1 ∧
      Tracks keep now (r.allow key n now).2 (s.allow key n now).2 := by
  obtain ⟨hanswer, hsame⟩ := (h.bucket key hk).allow n
  refine ⟨by rw [allow_eq, allow_eq]; exact hanswer, ?_, ?_, fun k hk' => ?_⟩
  · rw [allow_eq, allow_eq]
    exact h.rate
  · rw [allow_eq, allow_eq]
    exact h.burst
  · rw [bucketOf_allow, bucketOf_allow]
    split
    · exact hsame
    · exact h.bucket k hk'

theorem Tracks.allow_other (h : Tracks keep now r s) {key : Text} (hk : keep key = false) (n : Int) :
    Tracks keep now (r.allow key n now).2 s := by
  refine ⟨?_, ?_, fun k hk' => ?_⟩
  · rw [allow_eq]
    exact h.rate
  · rw [allow_eq]
    exact h.burst
  · rw [bucketOf_allow, if_neg]
    · exact h.bucket k hk'
    · rintro rfl
      cases hk.symm.trans hk'

/-- What is forgotten is full by then. -/
theorem Tracks.cleanup (h : Tracks keep now r s) (ha : r.Ample) (hk : r.Kept now) :
    Tracks keep now (r.cleanup now) s := by
  refine ⟨h.rate, h.burst, fun key hkey => .trans ?_ (h.bucket key hkey)⟩
  simp only [bucketOf, lookup_cleanup hk.keyed]
  cases hc : r.clients.lookup key with
  | none => exact .refl now _
  | some c =>
      obtain ⟨hs, hu⟩ := hk.sound key c hc
      by_cases hidle : now - c.lastUsed ≤ r.ttl
      · rw [Option.filter_some, if_pos (decide_eq_true hidle)]
        exact .refl now _
      · rw [Option.filter_some, if_neg (by simpa using hidle)]
        exact (hs.same_new ha.refills hu (le_of_not_ge hidle)).symm

/-- The requests of some clients are answered as in a registry that gets these requests alone and forgets nothing. -/
theorem Tracks.decisions (h : Tracks keep now r s) (ha : r.Ample) (hk : r.Kept now) {visits : List Visit}
    (hordered : visits.Pairwise fun v w => v.time ≤ w.time) (hlater : ∀ v ∈ visits, now ≤ v.time) :
    decisions ((r.answers visits).filter fun a => keep a.key) =
      Registry.decisions (s.answers (visits.filter (Visit.isOf keep))) := by
  induction visits generalizing now r s with
  | nil => rfl
  | cons v visits ih =>
      obtain ⟨hv, hrest⟩ := List.pairwise_cons.mp hordered
      have ht : now ≤ v.time := hlater v List.mem_cons_self
      have h := h.later ht
      cases v with
      | request key time =>
          have hkept : (r.allow key 1 time).2.Kept time := hk.allow ha.burst ht key 1
          cases hkey : keep key with
          | true =>
              obtain ⟨hanswer, hnext⟩ := h.allow hkey 1
              have hrec := ih hnext (ha.allow key 1 time) hkept hrest hv
              simp only [answers, List.filter_cons, Visit.isOf, hkey, if_true, Registry.decisions, List.map_cons]
              exact congrArg₂ _ (congrArg _ hanswer) hrec
          | false =>
              have hrec := ih (h.allow_other hkey 1) (ha.allow key 1 time) hkept hrest hv
              simp only [answers, List.filter_cons, Visit.isOf, hkey, Bool.false_eq_true, if_false]
              exact hrec
      | sweep time =>
          have hrec := ih (h.cleanup ha (hk.later ht)) (ha.cleanup time) (hk.cleanup ht) hrest hv
          simp only [answers, List.filter_cons, Visit.isOf, Bool.false_eq_true, if_false]
          exact hrec

end

/-! ## A bucket per client -/

section
variable {r : Registry} {visits : List Visit}

theorem exists_of_ordinalOf_lt {key : Text} (h : r.ordinalOf key < r.made) :
    ∃ c, r.clients.lookup key = some c ∧ c.ordinal = r.ordinalOf key := by
  unfold ordinalOf at h ⊢
  cases hc : r.clients.lookup key with
  | none =>
      rw [hc] at h
      exact absurd h (Nat.lt_irrefl _)
  | some c => exact ⟨c, rfl, rfl⟩

/-- A bucket that is already made answers no client but the one that has it. -/
theorem Numbered.of_mem_answers (h : r.Numbered) {a : Answer} (ha : a ∈ r.answers visits) (hold : a.ordinal < r.made) :
    ∃ c, r.clients.lookup a.key = some c ∧ c.ordinal = a.ordinal := by
  induction visits generalizing r with
  | nil => cases ha
  | cons v visits ih =>
      cases v with
      | request key time =>
          rcases List.mem_cons.mp ha with rfl | ha
          · simp only [ordinal_get] at hold ⊢
            exact exists_of_ordinalOf_lt hold
          · obtain ⟨c, hc, ho⟩ := ih (h.allow key 1 time) ha (Nat.lt_of_lt_of_le hold (made_le_allow r key 1 time))
            rw [lookup_allow] at hc
            split at hc
            · rename_i hk
              cases hc
              rw [← ho] at hold
              rw [hk, ← ho]
              exact exists_of_ordinalOf_lt hold
            · exact ⟨c, hc, ho⟩
      | sweep time =>
          obtain ⟨c, hc, ho⟩ := ih (h.cleanup time) ha hold
          rw [lookup_cleanup h.keyed] at hc
          exact ⟨c, (Option.filter_eq_some_iff.mp hc).1, ho⟩

/-- Whatever is forgotten in between, a bucket answers one client only. -/
theorem Numbered.key_eq (h : r.Numbered) {a b : Answer} (ha : a ∈ r.answers visits) (hb : b ∈ r.answers visits)
    (ho : a.ordinal = b.ordinal) : a.key = b.key := by
  induction visits generalizing r with
  | nil => cases ha
  | cons v visits ih =>
      cases v with
      | request key time =>
          have hnext := h.allow key 1 time
          -- The client of the first request has its bucket from then on.
          have hfirst {b : Answer} (hb : b ∈ (r.allow key 1 time).2.answers visits) (ho : r.ordinalOf key = b.ordinal) :
              key = b.key := by
            obtain ⟨c, hc, hco⟩ := hnext.of_mem_answers hb (ho ▸ h.ordinalOf_lt key 1 time)
            have hmine := lookup_allow r key 1 time key
            rw [if_pos rfl] at hmine
            exact hnext.distinct key b.key _ c hmine hc (ho.trans hco.symm)
          rw [answers, ordinal_get] at ha hb
          rcases List.mem_cons.mp ha with rfl | ha <;> rcases List.mem_cons.mp hb with rfl | hb
          · rfl
          · exact hfirst hb ho
          · exact (hfirst ha ho.symm).symm
          · exact ih hnext ha hb
      | sweep time => exact ih (h.cleanup time) ha hb

end

/-- Forgetting idle clients changes no decision, where a bucket fills up within the time to live: of requests and
sweeps that come in the order of time, every request is answered as if nothing were ever forgotten. And no two clients
have a bucket in common: no bucket answers both, and each client is answered as if it came alone. -/
theorem eviction_changes_no_decision (rate : Rat) (burst : Int) (ttl : Rat) (visits : List Visit) (hrate : 0 < rate)
    (hburst : 0 ≤ burst) (hfull : (burst : Rat) ≤ rate * ttl)
    (hordered : visits.Pairwise fun v w => v.time ≤ w.time) :
    let r := new rate burst ttl
    decisions (r.answers visits) = decisions (r.answers (visits.filter (Visit.isOf fun _ => true))) ∧
    (∀ a ∈ r.answers visits, ∀ b ∈ r.answers visits, a.ordinal = b.ordinal → a.key = b.key) ∧
    ∀ key, decisions ((r.answers visits).filter fun a => a.key == key) =
      decisions (r.answers (visits.filter (Visit.isOf (· == key)))) := by
  intro r
  have hsame (keep : Text → Bool) :
      decisions ((r.answers visits).filter fun a => keep a.key) =
        decisions (r.answers (visits.filter (Visit.isOf keep))) := by
    cases visits with
    | nil => rfl
    | cons v visits =>
        have htracks : Tracks keep v.time r r := ⟨rfl, rfl, fun _ _ => .refl _ _⟩
        refine htracks.decisions (ample_new hrate hburst hfull) (kept_new rate burst ttl v.time) hordered ?_
        exact List.forall_mem_cons.mpr ⟨le_rfl, (List.pairwise_cons.mp hordered).1⟩
  refine ⟨?_, fun a ha b hb => (numbered_new rate burst ttl).key_eq ha hb, fun key => hsame (· == key)⟩
  have hall := hsame fun _ => true
  rwa [List.filter_true] at hall

/-- Forty requests come back within five minutes at twenty a second. -/
example : ((40 : Int) : Rat) ≤ 20 * defaultTtl := by decide +kernel

/-- Two requests empty a bucket for two; after a sweep that forgets it, the client has a new one, and the other client
was never refused. -/
def twoClients : List Visit :=
  [.request "a" 0, .request "a" 0, .request "b" 0, .request "a" 0, .sweep 3, .request "a" 3, .request "b" 3]

theorem twoClients_unaffected :
    (0 : Rat) < 1 ∧ (0 : Int) ≤ 2 ∧ ((2 : Int) : Rat) ≤ 1 * 2 ∧ twoClients.Pairwise (fun v w => v.time ≤ w.time) ∧
    (new 1 2 2).answers twoClients =
      [⟨"a", 0, true⟩, ⟨"a", 0, true⟩, ⟨"b", 1, true⟩, ⟨"a", 0, false⟩, ⟨"a", 2, true⟩, ⟨"b", 3, true⟩] ∧
    decisions ((new 1 2 2).answers twoClients) =
      decisions ((new 1 2 2).answers (twoClients.filter (Visit.isOf fun _ => true))) := by
  have hordered : twoClients.Pairwise fun v w => v.time ≤ w.time := by decide +kernel
  have hfull : ((2 : Int) : Rat) ≤ 1 * 2 := by decide +kernel
  obtain ⟨hsame, -⟩ := eviction_changes_no_decision 1 2 2 twoClients (by decide) (by decide) hfull hordered
  exact ⟨by decide, by decide, hfull, hordered, by decide +kernel, hsame⟩

end Registry

end Abacus
