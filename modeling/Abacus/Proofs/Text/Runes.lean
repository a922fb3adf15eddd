import Mathlib.Data.List.DropRight
import Abacus.Text.Space

/-!
# Reading a text as runes

Reading loses nothing: the bytes of the runes are the text again. A rune depends on its own bytes only, so a
stretch of the runes of a text is what the bytes of that stretch are read as, also where the text is not
well-formed. Hence trimming takes a stretch out of a text, and trimming again changes nothing.
-/

namespace Abacus.Text

/-! ## Characters of several bytes -/

theorem continuation?_eq_some {b : UInt8} {n : Nat} (h : continuation? b = some n) : b.toNat = 128 + n ∧ n < 64 := by
  simp only [continuation?, Bool.and_eq_true, decide_eq_true_eq, Option.ite_none_right_eq_some, Option.some.injEq] at h
  obtain ⟨⟨hl, hu⟩, rfl⟩ := h
  rw [UInt8.le_iff_toNat_le] at hl
  rw [UInt8.lt_iff_toNat_lt] at hu
  simp only [UInt8.reduceToNat] at hl hu
  omega

theorem toNat_ofNat_of_isValidChar {n : Nat} (h : n.isValidChar) : (Char.ofNat n).toNat = n := by
  rw [Char.ofNat, dif_pos h]
  rfl

theorem scalar?_eq_some {least n : Nat} {c : Char} (h : scalar? least n = some c) : least ≤ n ∧ c.val.toNat = n := by
  simp only [scalar?, Bool.and_eq_true, Bool.or_eq_true, decide_eq_true_eq, Option.ite_none_right_eq_some,
    Option.some.injEq] at h
  obtain ⟨⟨hl, hn⟩, rfl⟩ := h
  exact ⟨hl, toNat_ofNat_of_isValidChar hn⟩

theorem ofNat_eq_of_toNat {b : UInt8} {n : Nat} (h : n = b.toNat) : UInt8.ofNat n = b := by
  rw [h, UInt8.ofNat_toNat]

section
variable {b b₁ b₂ b₃ : UInt8} {c₁ c₂ c₃ : Nat} {c : Char}

theorem ofChar_of_two (hl : ¬ b.toNat < 0xC0) (hu : b.toNat < 0xE0) (h₁ : continuation? b₁ = some c₁)
    (h : scalar? 0x80 (b.toNat % 32 * 64 + c₁) = some c) : ofChar c = [b, b₁] := by
  obtain ⟨hb₁, hc₁⟩ := continuation?_eq_some h₁
  obtain ⟨hn, hv⟩ := scalar?_eq_some h
  simp only [ofChar, String.utf8EncodeChar, hv]
  rw [if_neg (by omega), if_pos (by omega), ofNat_eq_of_toNat (b := b) (by omega),
    ofNat_eq_of_toNat (b := b₁) (by omega)]

theorem ofChar_of_three (hl : ¬ b.toNat < 0xE0) (hu : b.toNat < 0xF0) (h₁ : continuation? b₁ = some c₁)
    (h₂ : continuation? b₂ = some c₂) (h : scalar? 0x800 ((b.toNat % 16 * 64 + c₁) * 64 + c₂) = some c) :
    ofChar c = [b, b₁, b₂] := by
  obtain ⟨hb₁, hc₁⟩ := continuation?_eq_some h₁
  obtain ⟨hb₂, hc₂⟩ := continuation?_eq_some h₂
  obtain ⟨hn, hv⟩ := scalar?_eq_some h
  simp only [ofChar, String.utf8EncodeChar, hv]
  rw [if_neg (by omega), if_neg (by omega), if_pos (by omega), ofNat_eq_of_toNat (b := b) (by omega),
    ofNat_eq_of_toNat (b := b₁) (by omega), ofNat_eq_of_toNat (b := b₂) (by omega)]

theorem ofChar_of_four (hl : ¬ b.toNat < 0xF0) (hu : b.toNat < 0xF8) (h₁ : continuation? b₁ = some c₁)
    (h₂ : continuation? b₂ = some c₂) (h₃ : continuation? b₃ = some c₃)
    (h : scalar? 0x10000 (((b.toNat % 8 * 64 + c₁) * 64 + c₂) * 64 + c₃) = some c) :
    ofChar c = [b, b₁, b₂, b₃] := by
  obtain ⟨hb₁, hc₁⟩ := continuation?_eq_some h₁
  obtain ⟨hb₂, hc₂⟩ := continuation?_eq_some h₂
  obtain ⟨hb₃, hc₃⟩ := continuation?_eq_some h₃
  obtain ⟨hn, hv⟩ := scalar?_eq_some h
  simp only [ofChar, String.utf8EncodeChar, hv]
  rw [if_neg (by omega), if_neg (by omega), if_neg (by omega), ofNat_eq_of_toNat (b := b) (by omega),
    ofNat_eq_of_toNat (b := b₁) (by omega), ofNat_eq_of_toNat (b := b₂) (by omega),
    ofNat_eq_of_toNat (b := b₃) (by omega)]

end

/-- A character of several bytes is made of its own bytes, whatever follows them. -/
theorem multibyte?_eq_some {b : UInt8} {t : Text} {c : Char} {k : Nat} (h : multibyte? b t = some (c, k)) :
    ∃ u v, t = u ++ v ∧ u.length = k ∧ ofChar c = b :: u ∧ ∀ w, multibyte? b (u ++ w) = some (c, k) := by
  unfold multibyte? at h
  simp only at h
  split at h
  · cases h
  rename_i hC0
  split at h
  · rename_i hE0
    split at h
    · rename_i b₁ v
      simp only [Option.bind_eq_bind, Option.bind_eq_some_iff, Option.pure_def, Option.some.injEq, Prod.mk.injEq] at h
      obtain ⟨c₁, h₁, _, hc, rfl, rfl⟩ := h
      exact ⟨[b₁], v, rfl, rfl, ofChar_of_two hC0 hE0 h₁ hc, fun w => by simp [multibyte?, hC0, hE0, h₁, hc]⟩
    · cases h
  rename_i hE0
  split at h
  · rename_i hF0
    split at h
    · rename_i b₁ b₂ v
      simp only [Option.bind_eq_bind, Option.bind_eq_some_iff, Option.pure_def, Option.some.injEq, Prod.mk.injEq] at h
      obtain ⟨c₁, h₁, c₂, h₂, _, hc, rfl, rfl⟩ := h
      exact ⟨[b₁, b₂], v, rfl, rfl, ofChar_of_three hE0 hF0 h₁ h₂ hc,
        fun w => by simp [multibyte?, hC0, hE0, hF0, h₁, h₂, hc]⟩
    · cases h
  rename_i hF0
  split at h
  · rename_i hF8
    split at h
    · rename_i b₁ b₂ b₃ v
      simp only [Option.bind_eq_bind, Option.bind_eq_some_iff, Option.pure_def, Option.some.injEq, Prod.mk.injEq] at h
      obtain ⟨c₁, h₁, c₂, h₂, c₃, h₃, _, hc, rfl, rfl⟩ := h
      exact ⟨[b₁, b₂, b₃], v, rfl, rfl, ofChar_of_four hF0 hF8 h₁ h₂ h₃ hc,
        fun w => by simp [multibyte?, hC0, hE0, hF0, hF8, h₁, h₂, h₃, hc]⟩
    · cases h
  · cases h

/-! ## One rune -/

theorem leadRune_ascii {b : UInt8} (h : b < 0x80) (t : Text) : leadRune b t = (.char (Char.ofNat b.toNat), 0) := by
  simp [leadRune, h]

theorem bytes_ascii {b : UInt8} (h : b < 0x80) : (Rune.char (Char.ofNat b.toNat)).bytes = [b] := by
  rw [UInt8.lt_iff_toNat_lt] at h
  simp only [UInt8.reduceToNat] at h
  have hv : (Char.ofNat b.toNat).val.toNat = b.toNat := toNat_ofNat_of_isValidChar (.inl (by omega))
  simp only [Rune.bytes, ofChar, String.utf8EncodeChar, hv]
  rw [if_pos (by omega), UInt8.ofNat_toNat]

/-- The first rune is made of the first bytes, and is read alike before any beginning of what follows. -/
theorem leadRune_spec (b : UInt8) (t : Text) :
    ∃ u v, t = u ++ v ∧ u.length = (leadRune b t).2 ∧ (leadRune b t).1.bytes = b :: u ∧
      ∀ w, w <+: v → leadRune b (u ++ w) = leadRune b t := by
  by_cases hb : b < 0x80
  · rw [leadRune_ascii hb]
    exact ⟨[], t, rfl, rfl, bytes_ascii hb, fun w _ => leadRune_ascii hb w⟩
  · cases hm : multibyte? b t with
    | some p =>
        obtain ⟨c, k⟩ := p
        obtain ⟨u, v, rfl, hk, hc, hw⟩ := multibyte?_eq_some hm
        simp only [leadRune, hb, ↓reduceIte, hm]
        exact ⟨u, v, rfl, hk, hc, fun w _ => by simp [hw]⟩
    | none =>
        simp only [leadRune, hb, ↓reduceIte, hm]
        refine ⟨[], t, rfl, rfl, rfl, fun w ⟨x, hx⟩ => ?_⟩
        -- a character found in a beginning of the text would be found in the text
        cases hw : multibyte? b w with
        | none => simp [hw]
        | some p =>
            obtain ⟨c, k⟩ := p
            obtain ⟨u, v, rfl, _, _, hu⟩ := multibyte?_eq_some hw
            rw [← hx, List.append_assoc, hu] at hm
            cases hm

theorem runesAfter_eq (skip : Nat) (t : Text) : runesAfter skip t = runes (t.drop skip) := by
  induction t generalizing skip with
  | nil => cases skip <;> rfl
  | cons b t ih =>
      cases skip with
      | zero => rfl
      | succ skip => exact ih skip

theorem runes_cons (b : UInt8) (t : Text) :
    runes (b :: t) = (leadRune b t).1 :: runes (t.drop (leadRune b t).2) := by
  rw [← runesAfter_eq]
  rfl

/-- A text is its first rune and the rest. -/
theorem runes_of_ne_nil {t : Text} (h : t ≠ []) :
    ∃ r v, t = r.bytes ++ v ∧ r.bytes ≠ [] ∧ runes t = r :: runes v ∧
      ∀ w, w <+: v → runes (r.bytes ++ w) = r :: runes w := by
  cases t with
  | nil => exact absurd rfl h
  | cons b t =>
      obtain ⟨u, v, rfl, hk, hr, hw⟩ := leadRune_spec b t
      have hread (w : Text) (hp : w <+: v) : runes (b :: (u ++ w)) = (leadRune b (u ++ v)).1 :: runes w := by
        rw [runes_cons, hw w hp, ← hk, List.drop_left]
      refine ⟨(leadRune b (u ++ v)).1, v, by rw [hr]; rfl, by simp [hr], hread v (List.prefix_refl v), fun w hp => ?_⟩
      rw [hr]
      exact hread w hp

/-! ## All runes -/

@[simp] theorem ofRunes_append (rs ss : List Rune) : ofRunes (rs ++ ss) = ofRunes rs ++ ofRunes ss :=
  List.flatMap_append

@[simp] theorem ofRunes_cons (r : Rune) (rs : List Rune) : ofRunes (r :: rs) = r.bytes ++ ofRunes rs :=
  List.flatMap_cons

/-- Reading loses nothing. -/
theorem ofRunes_runes (t : Text) : ofRunes (runes t) = t := by
  by_cases ht : t = []
  · subst ht; rfl
  · obtain ⟨r, v, he, hr, hv, _⟩ := runes_of_ne_nil ht
    have hlt : v.length < t.length := by
      have := List.length_pos_of_ne_nil hr
      simp only [he, List.length_append]
      omega
    rw [hv, ofRunes_cons, ofRunes_runes v, he]
termination_by t.length

theorem runes_eq_append {t : Text} {rs ss : List Rune} (h : runes t = rs ++ ss) :
    t = ofRunes rs ++ ofRunes ss := by
  rw [← ofRunes_append, ← h, ofRunes_runes]

theorem runes_ofRunes_right {t : Text} {rs ss : List Rune} (h : runes t = rs ++ ss) : runes (ofRunes ss) = ss := by
  induction rs generalizing t with
  | nil =>
      rw [List.nil_append] at h
      rw [← h, ofRunes_runes]
  | cons r rs ih =>
      have ht : t ≠ [] := by rintro rfl; cases h
      obtain ⟨r', v, _, _, hv, _⟩ := runes_of_ne_nil ht
      rw [hv, List.cons_append, List.cons.injEq] at h
      exact ih h.2

theorem runes_ofRunes_left {t : Text} {rs ss : List Rune} (h : runes t = rs ++ ss) : runes (ofRunes rs) = rs := by
  induction rs generalizing t with
  | nil => rfl
  | cons r rs ih =>
      have ht : t ≠ [] := by rintro rfl; cases h
      obtain ⟨r', v, _, _, hv, hw⟩ := runes_of_ne_nil ht
      rw [hv, List.cons_append, List.cons.injEq] at h
      obtain ⟨rfl, h⟩ := h
      have hp : ofRunes rs <+: v := ⟨ofRunes ss, (runes_eq_append h).symm⟩
      rw [ofRunes_cons, hw _ hp, ih h]

/-- A stretch of the runes of a text is read as itself. -/
theorem runes_ofRunes_of_isInfix {t : Text} {rs : List Rune} (h : rs <:+: runes t) : runes (ofRunes rs) = rs := by
  obtain ⟨pre, post, h⟩ := h
  have hl := runes_ofRunes_left h.symm
  exact runes_ofRunes_right hl

/-! ## Trimming -/

theorem trim_eq (t : Text) : trim t = ofRunes (((runes t).dropWhile Rune.isSpace).rdropWhile Rune.isSpace) := rfl

theorem trimmed_isInfix (rs : List Rune) : (rs.dropWhile Rune.isSpace).rdropWhile Rune.isSpace <:+: rs := by
  have hp := List.rdropWhile_prefix Rune.isSpace (rs.dropWhile Rune.isSpace)
  have hs := List.dropWhile_suffix (l := rs) Rune.isSpace
  exact hp.isInfix.trans hs.isInfix

theorem runes_trim (t : Text) :
    runes (trim t) = ((runes t).dropWhile Rune.isSpace).rdropWhile Rune.isSpace := by
  rw [trim_eq]
  exact runes_ofRunes_of_isInfix (trimmed_isInfix _)

theorem trim_isInfix (t : Text) : trim t <:+: t := by
  obtain ⟨pre, post, h⟩ := trimmed_isInfix (runes t)
  refine ⟨ofRunes pre, ofRunes post, ?_⟩
  rw [trim_eq, ← ofRunes_append, ← ofRunes_append, h, ofRunes_runes]

theorem dropWhile_trimmed (p : Rune → Bool) (rs : List Rune) :
    ((rs.dropWhile p).rdropWhile p).dropWhile p = (rs.dropWhile p).rdropWhile p := by
  have hp := List.rdropWhile_prefix p (rs.dropWhile p)
  cases h : (rs.dropWhile p).rdropWhile p with
  | nil => rfl
  | cons r ss =>
      rw [h] at hp
      obtain ⟨post, hp⟩ := hp
      have hr := List.head?_dropWhile_not p rs
      simp only [← hp, List.cons_append, List.head?_cons] at hr
      simp [hr]

theorem isSpace_toChar (r : Rune) : isSpace r.toChar = r.isSpace := by
  cases r with
  | char c => rfl
  | stray b => rfl

theorem trim_eq_self {t : Text} (h : ∀ c ∈ chars t, isSpace c = false) : trim t = t := by
  have hr : ∀ r ∈ runes t, r.isSpace = false := fun r hm =>
    (isSpace_toChar r).symm.trans (h _ (List.mem_map_of_mem hm))
  have hd : (runes t).dropWhile Rune.isSpace = runes t := List.dropWhile_eq_self_iff.mpr fun hl => by
    simp [hr _ (List.getElem_mem hl)]
  rw [trim_eq, hd, List.rdropWhile_eq_self_iff.mpr fun hl => by simp [hr _ (List.getLast_mem hl)], ofRunes_runes]

/-- A text is what trimming leaves, between the white space it takes off. -/
theorem runes_eq_around_trim (t : Text) :
    runes t = (runes t).takeWhile Rune.isSpace ++
      (runes (trim t) ++ ((runes t).dropWhile Rune.isSpace).rtakeWhile Rune.isSpace) := by
  rw [runes_trim, List.rdropWhile_append_rtakeWhile, List.takeWhile_append_dropWhile]

theorem isBlank_iff {t : Text} : isBlank t = true ↔ ∀ c ∈ chars t, isSpace c = true := by
  have hall : (∀ c ∈ chars t, isSpace c = true) ↔ ∀ r ∈ runes t, r.isSpace = true := by
    simp only [chars, List.forall_mem_map, isSpace_toChar]
  rw [hall, isBlank, List.isEmpty_iff]
  constructor
  · intro h r hr
    rw [runes_eq_around_trim, h] at hr
    rcases List.mem_append.mp hr with hr | hr
    · exact List.mem_takeWhile_imp hr
    · exact List.mem_rtakeWhile_imp hr
  · intro h
    rw [trim_eq, List.dropWhile_eq_nil_iff.mpr h]
    rfl

section
variable {t : Text} (h : trim t = t) {r : Rune}
include h

theorem isSpace_head_of_trimmed (hr : (runes t).head? = some r) : r.isSpace = false := by
  have hd : (runes t).dropWhile Rune.isSpace = runes t := by
    rw [← h, runes_trim, dropWhile_trimmed]
  have hn := List.head?_dropWhile_not Rune.isSpace (runes t)
  rw [hd, hr] at hn
  exact hn

theorem isSpace_getLast_of_trimmed (hr : (runes t).getLast? = some r) : r.isSpace = false := by
  have hd : (runes t).rdropWhile Rune.isSpace = runes t := by
    rw [← h, runes_trim, List.rdropWhile_idempotent]
  have hne : runes t ≠ [] := List.ne_nil_of_mem (List.mem_of_getLast? hr)
  have hlast := List.rdropWhile_eq_self_iff.mp hd hne
  rw [(List.getLast_eq_iff_getLast?_eq_some hne).mpr hr] at hlast
  exact Bool.eq_false_iff.mpr hlast

end

theorem trim_trim (t : Text) : trim (trim t) = trim t := by
  rw [trim_eq (trim t), runes_trim, dropWhile_trimmed, List.rdropWhile_idempotent]
  rfl

/-! ## Characters written and read -/

theorem toNat_ofNat_of_lt {n : Nat} (h : n < 256) : (UInt8.ofNat n).toNat = n := by
  rw [UInt8.toNat_ofNat', Nat.mod_eq_of_lt h]

theorem continuation?_ofNat (n : Nat) : continuation? (UInt8.ofNat (n % 64 + 128)) = some (n % 64) := by
  have hn : (UInt8.ofNat (n % 64 + 128)).toNat = n % 64 + 128 := toNat_ofNat_of_lt (by omega)
  simp only [continuation?, UInt8.le_iff_toNat_le, UInt8.lt_iff_toNat_lt, hn, UInt8.reduceToNat]
  rw [if_pos (by simp; omega)]
  congr 1
  omega

theorem scalar?_toNat {least n : Nat} {c : Char} (hn : n = c.val.toNat) (h : least ≤ n) : scalar? least n = some c := by
  have hc : c.val.toNat.isValidChar := c.valid
  have hv : (decide (least ≤ n) && (decide (n < 0xD800) || (decide (0xDFFF < n) && decide (n < 0x110000)))) = true := by
    unfold Nat.isValidChar at hc
    simp only [Bool.and_eq_true, Bool.or_eq_true, decide_eq_true_eq]
    omega
  rw [scalar?, if_pos hv, hn]
  exact congrArg some (Char.ofNat_toNat c)

/-- A character of several bytes is read off its bytes. -/
theorem multibyte?_ofChar {c : Char} (h : ¬ c.val.toNat < 0x80) :
    ∃ b u, ofChar c = b :: u ∧ ¬ b < 0x80 ∧ ∀ w, multibyte? b (u ++ w) = some (c, u.length) := by
  have hs : c.val.toNat < 0x110000 := by
    have hc : c.val.toNat.isValidChar := c.valid
    unfold Nat.isValidChar at hc
    omega
  simp only [ofChar, String.utf8EncodeChar]
  generalize hv : c.val.toNat = v at *
  rw [if_neg (by omega)]
  split
  · have hb : (UInt8.ofNat (v / 64 % 0x20 + 0xc0)).toNat = v / 64 % 0x20 + 0xc0 := toNat_ofNat_of_lt (by omega)
    refine ⟨_, _, rfl, ?_, fun w => ?_⟩
    · simp only [UInt8.lt_iff_toNat_lt, hb, UInt8.reduceToNat]
      omega
    · simp only [multibyte?, List.cons_append, hb]
      rw [if_neg (by omega), if_pos (by omega)]
      simp only [continuation?_ofNat, Option.bind_eq_bind, Option.bind_some]
      rw [scalar?_toNat (c := c) (by omega) (by omega)]
      rfl
  split
  · have hb : (UInt8.ofNat (v / 4096 % 0x10 + 0xe0)).toNat = v / 4096 % 0x10 + 0xe0 := toNat_ofNat_of_lt (by omega)
    refine ⟨_, _, rfl, ?_, fun w => ?_⟩
    · simp only [UInt8.lt_iff_toNat_lt, hb, UInt8.reduceToNat]
      omega
    · simp only [multibyte?, List.cons_append, hb]
      rw [if_neg (by omega), if_neg (by omega), if_pos (by omega)]
      simp only [continuation?_ofNat, Option.bind_eq_bind, Option.bind_some]
      rw [scalar?_toNat (c := c) (by omega) (by omega)]
      rfl
  · have hb : (UInt8.ofNat (v / 262144 % 0x8 + 0xf0)).toNat = v / 262144 % 0x8 + 0xf0 := toNat_ofNat_of_lt (by omega)
    refine ⟨_, _, rfl, ?_, fun w => ?_⟩
    · simp only [UInt8.lt_iff_toNat_lt, hb, UInt8.reduceToNat]
      omega
    · simp only [multibyte?, List.cons_append, hb]
      rw [if_neg (by omega), if_neg (by omega), if_neg (by omega), if_pos (by omega)]
      simp only [continuation?_ofNat, Option.bind_eq_bind, Option.bind_some]
      rw [scalar?_toNat (c := c) (by omega) (by omega)]
      rfl

theorem ofChar_ascii {c : Char} (h : c.toNat < 0x80) : ofChar c = [c.toNat.toUInt8] := by
  have hv : c.val.toNat < 0x80 := h
  simp only [ofChar, String.utf8EncodeChar]
  rw [if_pos (by omega)]
  rfl

/-- A character is read off its bytes, whatever follows them. -/
theorem runes_ofChar_append (c : Char) (t : Text) : runes (ofChar c ++ t) = .char c :: runes t := by
  by_cases h : c.toNat < 0x80
  · have hb : c.toNat.toUInt8.toNat = c.toNat := toNat_ofNat_of_lt (by omega)
    have hlt : c.toNat.toUInt8 < 0x80 := by rwa [UInt8.lt_iff_toNat_lt, hb]
    rw [ofChar_ascii h, List.singleton_append, runes_cons, leadRune_ascii hlt, hb, Char.ofNat_toNat]
    rfl
  · obtain ⟨b, u, hc, hb, hm⟩ := multibyte?_ofChar h
    rw [hc, List.cons_append, runes_cons, leadRune, if_neg hb, hm]
    simp

theorem chars_ofChars (cs : List Char) : chars (ofChars cs) = cs := by
  induction cs with
  | nil => rfl
  | cons c cs ih =>
      rw [ofChars, List.flatMap_cons, chars, runes_ofChar_append, List.map_cons]
      exact congrArg (c :: ·) ih

/-- What is well formed stays as it is. -/
theorem wellFormed_wellFormed (t : Text) : t.wellFormed.wellFormed = t.wellFormed :=
  congrArg ofChars (chars_ofChars _)

end Abacus.Text
