import Abacus.Proofs.Text.Runes

/-!
# ASCII bytes stand alone

All bytes of a character but the first have their high bit set. So an ASCII byte is a character of its own wherever it
stands, also among stray bytes, and a text may be cut at it before or after reading.
-/

namespace Abacus.Text

/-! ## Continuation bytes -/

theorem ofNat_ge {n : Nat} (hl : 0x80 ≤ n) (hu : n < 0x100) : (0x80 : UInt8) ≤ UInt8.ofNat n := by
  rw [UInt8.le_iff_toNat_le, UInt8.toNat_ofNat']
  simpa [Nat.mod_eq_of_lt hu] using hl

theorem tail_ofChar_ge (c : Char) : ∀ b ∈ (ofChar c).tail, (0x80 : UInt8) ≤ b := by
  unfold ofChar String.utf8EncodeChar
  simp only
  repeat' split
  all_goals
    intro b hb
    simp only [List.tail_cons, List.mem_cons, List.not_mem_nil, or_false] at hb
  · rcases hb with rfl
    exact ofNat_ge (by omega) (by omega)
  · rcases hb with rfl | rfl <;> exact ofNat_ge (by omega) (by omega)
  · rcases hb with rfl | rfl | rfl <;> exact ofNat_ge (by omega) (by omega)

theorem tail_bytes_ge (r : Rune) : ∀ b ∈ r.bytes.tail, (0x80 : UInt8) ≤ b := by
  cases r with
  | char c => exact tail_ofChar_ge c
  | stray b => simp [Rune.bytes]

/-! ## Cutting at an ASCII byte -/

section
variable {b : UInt8} (hb : b < 0x80)
include hb

/-- The bytes of a rune do not reach over an ASCII byte that follows something. -/
theorem bytes_isPrefix_left {r : Rune} {a c v : Text} (ha : a ≠ []) (he : a ++ b :: c = r.bytes ++ v) :
    ∃ v', a = r.bytes ++ v' ∧ v = v' ++ b :: c := by
  rcases List.append_eq_append_iff.mp he with ⟨u, hu, hv⟩ | ⟨v', hv', hc⟩
  · cases u with
    | nil => exact ⟨[], by simpa using hu.symm, by simpa using hv.symm⟩
    | cons x u =>
        obtain ⟨rfl, _⟩ := List.cons.inj hv
        obtain ⟨a₁, a, rfl⟩ := List.exists_cons_of_ne_nil ha
        have hm : b ∈ r.bytes.tail := by simp [hu]
        exact absurd (tail_bytes_ge r b hm) (by simpa using hb)
  · exact ⟨v', hv', hc⟩

theorem runes_append_ascii_cons (a c : Text) :
    runes (a ++ b :: c) = runes a ++ .char (Char.ofNat b.toNat) :: runes c := by
  by_cases ha : a = []
  · subst ha
    rw [List.nil_append, runes_cons, leadRune_ascii hb]
    rfl
  · have hne : a ++ b :: c ≠ [] := by simp
    obtain ⟨r, v, he, hr, hv, hw⟩ := runes_of_ne_nil hne
    -- The first rune ends before `b`, so it is the first rune of `a` as well.
    obtain ⟨v', rfl, rfl⟩ := bytes_isPrefix_left hb ha he
    have hlt : v'.length < (r.bytes ++ v').length := by
      have := List.length_pos_of_ne_nil hr
      simp only [List.length_append]
      omega
    rw [hv, hw v' (List.prefix_append _ _), runes_append_ascii_cons v' c, List.cons_append]
termination_by a.length

theorem chars_append_ascii_cons (a c : Text) : chars (a ++ b :: c) = chars a ++ Char.ofNat b.toNat :: chars c := by
  rw [chars, runes_append_ascii_cons hb, List.map_append, List.map_cons]
  rfl

/-- An ASCII byte of a character is the whole character. -/
theorem eq_of_mem_ofChar {ch : Char} (h : b ∈ ofChar ch) : ch = Char.ofNat b.toNat := by
  obtain ⟨a, d, he⟩ := List.append_of_mem h
  have hr := runes_ofChar_append ch []
  rw [List.append_nil, he, runes_append_ascii_cons hb] at hr
  have hm : Rune.char (Char.ofNat b.toNat) ∈ [Rune.char ch] := hr ▸ List.mem_append_right _ List.mem_cons_self
  exact (Rune.char.inj (List.mem_singleton.mp hm)).symm

/-- What stands at the end of a trimmed text, behind an ASCII byte, is not blank. -/
theorem not_isBlank_of_trimmed {a c : Text} (ht : (a ++ b :: c).trim = a ++ b :: c) (hc : c ≠ []) :
    c.isBlank = false := by
  refine Bool.eq_false_iff.mpr fun hblank => ?_
  have hne : c.runes ≠ [] := fun hnil => hc (by rw [← ofRunes_runes c, hnil]; rfl)
  have hlast : (runes (a ++ b :: c)).getLast? = some (c.runes.getLast hne) := by
    rw [runes_append_ascii_cons hb, List.getLast?_append, List.getLast?_cons, List.getLast?_eq_some_getLast hne]
    rfl
  have hs := isBlank_iff.mp hblank _ (List.mem_map_of_mem (List.getLast_mem hne))
  rw [isSpace_toChar, isSpace_getLast_of_trimmed ht hlast] at hs
  cases hs

end

/-! ## Stretches of ASCII bytes -/

theorem chars_ascii_append {u : Text} (h : ∀ b ∈ u, b < 0x80) (t : Text) :
    chars (u ++ t) = u.map (fun b => Char.ofNat b.toNat) ++ chars t := by
  induction u with
  | nil => rfl
  | cons b u ih =>
      have hb := chars_append_ascii_cons (h b List.mem_cons_self) [] (u ++ t)
      rw [ih fun d hd => h d (List.mem_cons_of_mem b hd)] at hb
      exact hb

theorem chars_of_ascii {t : Text} (h : ∀ b ∈ t, b < 0x80) : chars t = t.map fun b => Char.ofNat b.toNat := by
  have ht := chars_ascii_append h []
  rw [List.append_nil] at ht
  rw [ht]
  exact List.append_nil _

theorem chars_append_ascii {u : Text} (h : ∀ b ∈ u, b < 0x80) (t : Text) :
    chars (t ++ u) = chars t ++ u.map fun b => Char.ofNat b.toNat := by
  cases u with
  | nil => simp
  | cons b u =>
      rw [chars_append_ascii_cons (h b List.mem_cons_self), chars_of_ascii fun d hd => h d (List.mem_cons_of_mem b hd),
        List.map_cons]

theorem ofChars_chars_of_ascii {t : Text} (h : ∀ b ∈ t, b < 0x80) : ofChars (chars t) = t := by
  rw [chars_of_ascii h]
  induction t with
  | nil => rfl
  | cons b t ih =>
      have hb : ofChar (Char.ofNat b.toNat) = [b] := bytes_ascii (h b List.mem_cons_self)
      rw [List.map_cons, ofChars, List.flatMap_cons, hb]
      exact congrArg _ (ih fun d hd => h d (List.mem_cons_of_mem b hd))

/-- An ASCII character of a text is one of its bytes. -/
theorem mem_of_mem_chars {t : Text} {b : UInt8} (hb : b < 0x80) (h : Char.ofNat b.toNat ∈ chars t) : b ∈ t := by
  obtain ⟨r, hr, he⟩ := List.mem_map.mp h
  rw [← ofRunes_runes t]
  refine List.mem_flatMap.mpr ⟨r, hr, ?_⟩
  cases r with
  | char c =>
      obtain rfl : c = Char.ofNat b.toNat := he
      rw [bytes_ascii hb]
      exact List.mem_singleton_self b
  | stray x =>
      have hlt := b.toNat_lt
      have hn := congrArg Char.toNat he
      rw [toNat_ofNat_of_isValidChar (.inl (by omega)), Rune.toChar, toNat_ofNat_of_isValidChar (by decide)] at hn
      omega

theorem count_chars {b : UInt8} (hb : b < 0x80) (t : Text) : (chars t).count (Char.ofNat b.toNat) = t.count b := by
  by_cases hm : b ∈ t
  · -- Cut at the first such byte; what comes after it is shorter.
    obtain ⟨before, after, rfl, hfirst⟩ := List.eq_append_cons_of_mem hm
    have hchars : Char.ofNat b.toNat ∉ chars before := fun h => hfirst (mem_of_mem_chars hb h)
    rw [chars_append_ascii_cons hb, List.count_append, List.count_append, List.count_cons_self, List.count_cons_self,
      List.count_eq_zero.mpr hchars, List.count_eq_zero.mpr hfirst, count_chars hb after]
  · have hchars : Char.ofNat b.toNat ∉ chars t := fun h => hm (mem_of_mem_chars hb h)
    rw [List.count_eq_zero.mpr hchars, List.count_eq_zero.mpr hm]
termination_by t.length

end Abacus.Text
