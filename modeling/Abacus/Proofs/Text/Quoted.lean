import Abacus.Proofs.Text.Ascii
import Abacus.Proofs.Text.Digits
import Abacus.Text.Quoted

/-!
# Quoted texts read back

No escape is the beginning of another one, and none begins with a quotation mark. So the runes of a quoted text can be
read off one by one up to the closing mark, whatever follows it, and whichever characters beyond ASCII are taken for
printable. What stands between the marks is free of line feeds.
-/

namespace Abacus

/-- Only a byte with its high bit set can be stray. -/
def Rune.Proper : Rune → Prop
  | .char _ => True
  | .stray b => 0x80 ≤ b

theorem Text.proper_leadRune (b : UInt8) (t : Text) : (leadRune b t).1.Proper := by
  by_cases hb : b < 0x80
  · rw [leadRune_ascii hb]
    trivial
  · have hge : (0x80 : UInt8) ≤ b := by
      rw [UInt8.lt_iff_toNat_lt] at hb
      exact UInt8.le_iff_toNat_le.mpr (Nat.not_lt.mp hb)
    rw [leadRune, if_neg hb]
    cases multibyte? b t with
    | none => exact hge
    | some p => trivial

theorem Text.proper_runes (t : Text) : ∀ r ∈ runes t, r.Proper := by
  cases t with
  | nil => exact fun r hr => absurd hr List.not_mem_nil
  | cons b t =>
      rw [runes_cons]
      exact List.forall_mem_cons.mpr ⟨proper_leadRune b t, proper_runes (t.drop (leadRune b t).2)⟩
termination_by t.length
decreasing_by
  simp only [List.length_drop, List.length_cons]
  omega

/-- The first rune of a text that begins with a character, and what is left. -/
theorem Text.leadRune_ofChar {c : Char} {b : UInt8} {u : Text} (h : ofChar c = b :: u) (x : Text) :
    leadRune b (u ++ x) = (.char c, u.length) := by
  obtain ⟨v, w, _, hlen, hbytes, _⟩ := leadRune_spec b (u ++ x)
  have hr := runes_ofChar_append c x
  rw [h, List.cons_append, runes_cons] at hr
  have hc : (leadRune b (u ++ x)).1 = .char c := (List.cons.inj hr).1
  rw [hc, Rune.bytes, h] at hbytes
  rw [← (List.cons.inj hbytes).2] at hlen
  exact Prod.ext hc hlen.symm

namespace Quoted

open Text (ofChar ofHex)

/-! ## Reading one rune -/

/-- The character that a letter, or one of the two marks, stands for after a backslash. -/
def ofLetter? (b : UInt8) : Option Char :=
  match b.toNat with
  | 34 => some '"'
  | 92 => some '\\'
  | 97 => some (Char.ofNat 0x07)
  | 98 => some (Char.ofNat 0x08)
  | 116 => some (Char.ofNat 0x09)
  | 110 => some (Char.ofNat 0x0A)
  | 118 => some (Char.ofNat 0x0B)
  | 102 => some (Char.ofNat 0x0C)
  | 114 => some (Char.ofNat 0x0D)
  | _ => none

/-- A byte written in hexadecimal: a character in the ASCII range, else a stray byte. -/
def ofByte (n : Nat) : Rune := if n < 0x80 then .char (Char.ofNat n) else .stray (UInt8.ofNat n)

/-- What the bytes after a backslash stand for, and what is left of them. -/
def readEscape? : Text → Option (Rune × Text)
  | [] => none
  | b :: t =>
    if b = 120 then some (ofByte (ofHex (t.take 2)), t.drop 2)
    else if b = 117 then some (.char (Char.ofNat (ofHex (t.take 4))), t.drop 4)
    else if b = 85 then some (.char (Char.ofNat (ofHex (t.take 8))), t.drop 8)
    else (ofLetter? b).map fun c => (.char c, t)

/-- The next rune of what stands between quotation marks, and what is left; none at the closing mark. -/
def next? : Text → Option (Rune × Text)
  | [] => none
  | b :: t =>
    if b = 34 then none
    else if b = 92 then readEscape? t
    else
      let (r, k) := Text.leadRune b t
      some (r, t.drop k)

section
variable {printable : Char → Bool} {c : Char} (x : Text)

theorem next?_ofChar (hq : c ≠ '"') (hb : c ≠ '\\') : next? (ofChar c ++ x) = some (.char c, x) := by
  have hpos : 0 < (ofChar c).length := String.length_utf8EncodeChar c ▸ Char.utf8Size_pos c
  obtain ⟨b, u, h⟩ := List.exists_cons_of_ne_nil (List.ne_nil_of_length_pos hpos)
  have hlead := Text.leadRune_ofChar h x
  have hne {e : UInt8} (he : e < 0x80) (hc : Char.ofNat e.toNat ≠ c) : b ≠ e := by
    rintro rfl
    rw [Text.leadRune_ascii he] at hlead
    exact hc (Rune.char.inj (Prod.mk.inj hlead).1)
  have h34 : b ≠ 34 := hne (by decide) hq.symm
  have h92 : b ≠ 92 := hne (by decide) hb.symm
  rw [h, List.cons_append, next?, if_neg h34, if_neg h92, hlead]
  exact congrArg (fun v => some (Rune.char c, v)) List.drop_left

/-- A letter after a backslash, other than the three that announce hexadecimal digits. -/
theorem next?_letter {l : UInt8} (hl : l ≠ 120 ∧ l ≠ 117 ∧ l ≠ 85) (h : ofLetter? l = some c) :
    next? (92 :: l :: x) = some (.char c, x) := by
  rw [next?, if_neg (by decide), if_pos rfl, readEscape?, if_neg hl.1, if_neg hl.2.1, if_neg hl.2.2, h]
  rfl

theorem take_hex (width n : Nat) : (Text.hex width n ++ x).take width = Text.hex width n :=
  List.take_left' (Text.length_hex width n)

theorem drop_hex (width n : Nat) : (Text.hex width n ++ x).drop width = x := List.drop_left' (Text.length_hex width n)

theorem next?_byte {n : Nat} (h : n < 0x100) : next? (92 :: 120 :: (Text.hex 2 n ++ x)) = some (ofByte n, x) := by
  rw [next?, if_neg (by decide), if_pos rfl, readEscape?, if_pos rfl, take_hex, drop_hex, Text.ofHex_hex h]

theorem next?_four (h : c.toNat < 0x10000) :
    next? (92 :: 117 :: (Text.hex 4 c.toNat ++ x)) = some (.char c, x) := by
  rw [next?, if_neg (by decide), if_pos rfl, readEscape?, if_neg (by decide), if_pos rfl, take_hex, drop_hex,
    Text.ofHex_hex h, Char.ofNat_toNat]

theorem next?_eight : next? (92 :: 85 :: (Text.hex 8 c.toNat ++ x)) = some (.char c, x) := by
  rw [next?, if_neg (by decide), if_pos rfl, readEscape?, if_neg (by decide), if_neg (by decide), if_pos rfl, take_hex,
    drop_hex, Text.ofHex_hex c.val.toNat_lt, Char.ofNat_toNat]

end

/-! ## The forms of a rune -/

/-- The forms in which a character stands between quotation marks. -/
inductive Form (printable : Char → Bool) (c : Char) : Text → Prop where
  | itself (hp : printable c = true) (hq : c ≠ '"') (hb : c ≠ '\\') : Form printable c (ofChar c)
  | letter {l : UInt8} (h : ofLetter? l = some c) (hx : l ≠ 120 ∧ l ≠ 117 ∧ l ≠ 85) (hn : l ≠ 10) :
      Form printable c [92, l]
  | two (h : c.toNat < 0x80) : Form printable c (92 :: 120 :: Text.hex 2 c.toNat)
  | four (h : c.toNat < 0x10000) : Form printable c (92 :: 117 :: Text.hex 4 c.toNat)
  | eight : Form printable c (92 :: 85 :: Text.hex 8 c.toNat)

variable {printable : Char → Bool} {c : Char}

theorem form_of_controlLetter? {l : Char} (h : controlLetter? c = some l) : Form printable c (92 :: ofChar l) := by
  have hc : c = Char.ofNat c.toNat := (Char.ofNat_toNat c).symm
  unfold controlLetter? at h
  split at h
  case h_8 => cases h
  all_goals
    rename_i hn
    rw [hn] at hc
    cases h
    subst hc
    exact .letter rfl (by decide) (by decide)

theorem form_escapeChar (printable : Char → Bool) (c : Char) : Form printable c (escapeChar printable c) := by
  unfold escapeChar
  by_cases hmark : c = '"' ∨ c = '\\'
  · rw [if_pos (by simpa using hmark)]
    rcases hmark with rfl | rfl
    · exact .letter rfl (by decide) (by decide)
    · exact .letter rfl (by decide) (by decide)
  rw [if_neg (by simpa using hmark)]
  rw [not_or] at hmark
  by_cases hp : printable c
  · rw [if_pos hp]
    exact .itself hp hmark.1 hmark.2
  rw [if_neg hp]
  cases hl : controlLetter? c with
  | some l => exact form_of_controlLetter? hl
  | none =>
      simp only
      by_cases h80 : c.toNat < 0x80
      · rw [if_pos h80]
        exact .two h80
      rw [if_neg h80]
      by_cases h10000 : c.toNat < 0x10000
      · rw [if_pos h10000]
        exact .four h10000
      · rw [if_neg h10000]
        exact .eight

theorem Form.next? {e : Text} (h : Form printable c e) (x : Text) : Quoted.next? (e ++ x) = some (.char c, x) := by
  cases h with
  | itself _ hq hb => exact next?_ofChar x hq hb
  | letter hl hx _ => exact next?_letter x hx hl
  | two h =>
      refine (next?_byte x (Nat.lt_trans h (by decide))).trans ?_
      rw [ofByte, if_pos h, Char.ofNat_toNat]
  | four h => exact next?_four x h
  | eight => exact next?_eight x

theorem next?_escapeRune {r : Rune} (h : r.Proper) (x : Text) : next? (escapeRune printable r ++ x) = some (r, x) := by
  cases r with
  | char c => exact (form_escapeChar printable c).next? x
  | stray b =>
      have hb : ¬ b.toNat < 0x80 := Nat.not_lt.mpr (UInt8.le_iff_toNat_le.mp h)
      refine (next?_byte x b.toNat_lt).trans ?_
      rw [ofByte, if_neg hb, UInt8.ofNat_toNat]

/-! ## Reading all of them -/

theorem next?_escapes {r : Rune} (h : r.Proper) (rs : List Rune) (x : Text) :
    next? ((r :: rs).flatMap (escapeRune printable) ++ x) = some (r, rs.flatMap (escapeRune printable) ++ x) := by
  rw [List.flatMap_cons, List.append_assoc, next?_escapeRune h]

/-- Escaped runes are told apart up to the closing mark, and so is what follows it. -/
theorem escapes_inj {rs ss : List Rune} (hr : ∀ r ∈ rs, r.Proper) (hs : ∀ s ∈ ss, s.Proper) {x y : Text}
    (he : rs.flatMap (escapeRune printable) ++ 34 :: x = ss.flatMap (escapeRune printable) ++ 34 :: y) :
    rs = ss ∧ x = y := by
  have hn := congrArg next? he
  induction rs generalizing ss with
  | nil =>
      cases ss with
      | nil => exact ⟨rfl, (List.cons.inj he).2⟩
      | cons s ss =>
          rw [next?_escapes (hs s List.mem_cons_self)] at hn
          cases hn
  | cons r rs ih =>
      obtain ⟨hr, hrs⟩ := List.forall_mem_cons.mp hr
      rw [next?_escapes hr] at hn
      cases ss with
      | nil => cases hn
      | cons s ss =>
          obtain ⟨hs, hss⟩ := List.forall_mem_cons.mp hs
          rw [next?_escapes hs] at hn
          obtain ⟨rfl, ht⟩ := Prod.mk.inj (Option.some.inj hn)
          obtain ⟨rfl, hx⟩ := ih hrs hss ht (congrArg next? ht)
          exact ⟨rfl, hx⟩

/-! ## The quoted text -/

/-- Which characters stand for themselves when `beyond` decides beyond ASCII. -/
def printableBy (beyond : Char → Bool) (c : Char) : Bool :=
  if c.toNat < 0x80 then 0x20 ≤ c.toNat && c.toNat < 0x7F else beyond c

theorem printableBy_isPrintable : printableBy isPrintable = isPrintable := by
  funext c
  unfold printableBy
  by_cases hc : c.toNat < 0x80
  · rw [if_pos hc, isPrintable, if_pos hc]
  · rw [if_neg hc]

end Quoted

/-- The text between quotation marks, `printable` deciding which characters stand for themselves. -/
def Text.quotedWith (printable : Char → Bool) (t : Text) : Text :=
  34 :: ((Text.runes t).flatMap (Quoted.escapeRune printable) ++ [34])

theorem Text.quotedWith_isPrintable (t : Text) : t.quotedWith isPrintable = t.quoted := rfl

/-- A quoted text ends where it says, and tells the text. -/
theorem Text.quotedWith_append_inj {printable : Char → Bool} {t u x y : Text} :
    t.quotedWith printable ++ x = u.quotedWith printable ++ y ↔ t = u ∧ x = y := by
  constructor
  · intro he
    simp only [quotedWith, List.cons_append, List.append_assoc, List.nil_append, List.cons.injEq, true_and] at he
    obtain ⟨hr, hx⟩ := Quoted.escapes_inj (proper_runes t) (proper_runes u) he
    rw [← ofRunes_runes t, hr, ofRunes_runes]
    exact ⟨rfl, hx⟩
  · rintro ⟨rfl, rfl⟩
    rfl

/-! ## One line -/

namespace Quoted

variable {beyond : Char → Bool}

theorem Form.newline_notMem {c : Char} {e : Text} (h : Form (printableBy beyond) c e) : 10 ∉ e := by
  have hex (l : UInt8) (hl : l ≠ 10) (width n : Nat) : 10 ∉ 92 :: l :: Text.hex width n := by
    simp only [List.mem_cons, not_or]
    exact ⟨by decide, hl.symm, Text.newline_notMem_hex width n⟩
  cases h with
  | itself hp _ _ =>
      intro hm
      obtain rfl := Text.eq_of_mem_ofChar (by decide) hm
      cases hp
  | letter _ _ hn =>
      simp only [List.mem_cons, List.not_mem_nil, or_false, not_or]
      exact ⟨by decide, hn.symm⟩
  | two _ => exact hex 120 (by decide) 2 _
  | four _ => exact hex 117 (by decide) 4 _
  | eight => exact hex 85 (by decide) 8 _

theorem newline_notMem_escapeRune (r : Rune) : 10 ∉ escapeRune (printableBy beyond) r := by
  cases r with
  | char c => exact (form_escapeChar (printableBy beyond) c).newline_notMem
  | stray b =>
      have hm := Text.newline_notMem_hex 2 b.toNat
      simp only [escapeRune, List.mem_append, not_or]
      exact ⟨by decide, hm⟩

end Quoted

theorem Text.newline_notMem_quotedWith (beyond : Char → Bool) (t : Text) :
    10 ∉ t.quotedWith (Quoted.printableBy beyond) := by
  simp only [quotedWith, List.mem_cons, List.mem_append, List.mem_flatMap, List.not_mem_nil, or_false, not_or,
    not_exists, not_and]
  exact ⟨by decide, fun r _ => Quoted.newline_notMem_escapeRune r, by decide⟩

end Abacus
