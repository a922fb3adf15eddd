import Mathlib.Tactic.Common
import Abacus.Text.Bytes

/-!
# Texts cut at a byte

A text with a byte in it is cut at the first one in a single way. So lines can be told as long as none of them has a
line feed in it.
-/

namespace Abacus.Text

theorem cutAt_of_notMem {b : UInt8} {u : Text} (h : b ∉ u) (t : Text) :
    cutAt b (u ++ b :: t) = (u, some t) ∧ cutAt b u = (u, none) := by
  induction u with
  | nil => simp [cutAt]
  | cons c u ih =>
      simp only [List.mem_cons, not_or] at h
      obtain ⟨h₁, h₂⟩ := ih h.2
      simp [cutAt, Ne.symm h.1, h₁, h₂]

theorem eq_of_append_cons {b : UInt8} {t u x y : Text} (ht : b ∉ t) (hu : b ∉ u) (he : t ++ b :: x = u ++ b :: y) :
    t = u ∧ x = y := by
  have hc := congrArg (cutAt b) he
  rw [(cutAt_of_notMem ht x).1, (cutAt_of_notMem hu y).1] at hc
  obtain ⟨h, hx⟩ := Prod.mk.inj hc
  exact ⟨h, Option.some.inj hx⟩

/-! ## Lines -/

theorem unlines_cons (t : Text) (ts : List Text) : unlines (t :: ts) = t ++ 10 :: unlines ts := by
  rw [unlines, List.flatMap_cons, List.append_assoc]
  rfl

theorem count_unlines {ts : List Text} (h : ∀ t ∈ ts, 10 ∉ t) : (unlines ts).count 10 = ts.length := by
  induction ts with
  | nil => rfl
  | cons t ts ih =>
      obtain ⟨ht, hts⟩ := List.forall_mem_cons.mp h
      rw [unlines_cons, List.count_append, List.count_eq_zero.mpr ht, List.count_cons_self, ih hts, List.length_cons,
        Nat.zero_add]

theorem eq_of_unlines {ts us : List Text} (ht : ∀ t ∈ ts, 10 ∉ t) (hu : ∀ u ∈ us, 10 ∉ u)
    (he : unlines ts = unlines us) : ts = us := by
  induction ts generalizing us with
  | nil =>
      cases us with
      | nil => rfl
      | cons u us => exact absurd he.symm (by simp [unlines])
  | cons t ts ih =>
      cases us with
      | nil => exact absurd he (by simp [unlines])
      | cons u us =>
          obtain ⟨ht, hts⟩ := List.forall_mem_cons.mp ht
          obtain ⟨hu, hus⟩ := List.forall_mem_cons.mp hu
          rw [unlines_cons, unlines_cons] at he
          obtain ⟨rfl, hrest⟩ := eq_of_append_cons ht hu he
          rw [ih hts hus hrest]

end Abacus.Text
