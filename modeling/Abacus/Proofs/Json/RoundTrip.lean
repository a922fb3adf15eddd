import Abacus.Json.Reader
import Abacus.Proofs.Decimal.Reading
import Abacus.Proofs.Text.Ascii

/-!
# JSON read back

A text of UTF-8 is read back from its quoted form, and an object of numbers from its text.
-/

namespace Abacus

/-- No byte of the text is outside a character. -/
def Text.IsUtf8 (t : Text) : Prop := ∀ r ∈ t.runes, r = .char r.toChar

instance (t : Text) : Decidable t.IsUtf8 := inferInstanceAs (Decidable (∀ r ∈ t.runes, _))

theorem Text.IsUtf8.wellFormed {t : Text} (h : t.IsUtf8) : t.wellFormed = t := by
  conv_rhs => rw [← ofRunes_runes t]
  rw [Text.wellFormed, ofChars, chars, List.flatMap_map, ofRunes]
  exact List.flatMap_congr fun r hr => by rw [h r hr]; rfl

theorem Text.isUtf8_of_ascii {t : Text} (h : ∀ b ∈ t, b < 0x80) : t.IsUtf8 := by
  induction t with
  | nil => exact List.forall_mem_nil _
  | cons b t ih =>
      have hruns : runes (b :: t) = .char (Char.ofNat b.toNat) :: runes t :=
        runes_append_ascii_cons (h b List.mem_cons_self) [] t
      rw [IsUtf8, hruns]
      exact List.forall_mem_cons.mpr ⟨rfl, ih fun c hc => h c (List.mem_cons_of_mem b hc)⟩

namespace Json

/-! ## Strings -/

theorem codeUnit?_hex {n : Nat} (h : n < 65536) (t : Text) : codeUnit? (Text.hex 4 n ++ t) = some (n, t) := by
  simp only [Text.hex, List.nil_append, List.cons_append, codeUnit?,
    Text.hexValue_hexDigit (Nat.mod_lt _ (by decide : 0 < 16))]
  simp only [Option.pure_def, Option.bind_eq_bind, Option.bind_some, Option.some.injEq, Prod.mk.injEq, and_true]
  omega

def Plain (b : UInt8) : Prop := ¬ b < 0x20 ∧ b ≠ 34 ∧ b ≠ 92

theorem stringAfter_plain {u : Text} (h : ∀ b ∈ u, Plain b) (acc t : Text) :
    stringAfter acc 0 (u ++ t) = stringAfter (u.reverse ++ acc) 0 t := by
  induction u generalizing acc with
  | nil => rfl
  | cons b u ih =>
      obtain ⟨hlow, hquote, hback⟩ := h b List.mem_cons_self
      rw [List.cons_append, stringAfter.eq_def]
      simp only [if_neg hquote, if_neg hlow, if_neg hback]
      rw [ih fun c hc => h c (List.mem_cons_of_mem b hc), List.reverse_cons, List.append_assoc]
      rfl

theorem stringAfter_letter {e c : UInt8} (h : escaped? e = some c) (acc t : Text) :
    stringAfter acc 0 (92 :: e :: t) = stringAfter (c :: acc) 0 t := by
  rw [stringAfter, if_neg (by decide), if_neg (by decide), if_pos rfl, h]
  rfl

theorem stringAfter_unit {n : Nat} (h : n < 0xD800 ∨ 0xE000 ≤ n) (hn : n < 65536) (acc t : Text) :
    stringAfter acc 0 (92 :: 117 :: (Text.hex 4 n ++ t)) =
      stringAfter ((Text.ofChar (Char.ofNat n)).reverse ++ acc) 0 t := by
  have hunit : (decide (0xD800 ≤ n) && decide (n < 0xE000)) = false := by
    rw [← Bool.decide_and, decide_eq_false (by omega)]
  rw [stringAfter, if_neg (by decide), if_neg (by decide), if_pos rfl, codeUnit?_hex hn]
  simp only [hunit]
  rfl

theorem plain_ofChar {c : Char} (hq : c ≠ '"') (hb : c ≠ '\\') (hn : ¬ c.toNat < 0x20) :
    ∀ b ∈ Text.ofChar c, Plain b := by
  intro b hmem
  refine ⟨fun hlt => ?_, ?_, ?_⟩
  · have hlt : b.toNat < 0x20 := UInt8.lt_iff_toNat_lt.mp hlt
    have hascii : b < 0x80 := UInt8.lt_iff_toNat_lt.mpr (Nat.lt_trans hlt (by decide))
    rw [Text.eq_of_mem_ofChar hascii hmem, Text.toNat_ofNat_of_isValidChar (.inl (by omega))] at hn
    exact hn hlt
  · rintro rfl
    exact hq (Text.eq_of_mem_ofChar (by decide) hmem)
  · rintro rfl
    exact hb (Text.eq_of_mem_ofChar (by decide) hmem)

/-- A character is read back from its escaped form. -/
theorem stringAfter_escape (c : Char) (acc t : Text) :
    stringAfter acc 0 (escape (.char c) ++ t) = stringAfter ((Text.ofChar c).reverse ++ acc) 0 t := by
  have hletter {e b : UInt8} (he : escaped? e = some b) (hb : b.toNat < 0x80) (hc : c.toNat = b.toNat) :
      stringAfter acc 0 ([92, e] ++ t) = stringAfter ((Text.ofChar c).reverse ++ acc) 0 t := by
    rw [Text.ofChar_ascii (hc ▸ hb), hc, Nat.toUInt8_eq, UInt8.ofNat_toNat]
    exact stringAfter_letter he acc t
  simp only [escape]
  split
  · rename_i h
    exact hletter (e := 34) (b := 34) rfl (by decide) (by rw [h]; rfl)
  split
  · rename_i h
    exact hletter (e := 92) (b := 92) rfl (by decide) (by rw [h]; rfl)
  split
  · rename_i h
    exact hletter (e := 98) (b := 8) rfl (by decide) h
  split
  · rename_i h
    exact hletter (e := 116) (b := 9) rfl (by decide) h
  split
  · rename_i h
    exact hletter (e := 110) (b := 10) rfl (by decide) h
  split
  · rename_i h
    exact hletter (e := 102) (b := 12) rfl (by decide) h
  split
  · rename_i h
    exact hletter (e := 114) (b := 13) rfl (by decide) h
  split
  · rename_i h
    have hlt : c.toNat < 0xD800 := by
      simp only [Bool.or_eq_true, decide_eq_true_eq] at h
      rcases h with ((((h | rfl) | rfl) | rfl) | h) | h
      · omega
      · decide
      · decide
      · decide
      · omega
      · omega
    have hunit := stringAfter_unit (.inl hlt) (by omega) acc t
    rw [Char.ofNat_toNat] at hunit
    exact hunit
  · rename_i hquote hback _ _ _ _ _ h
    simp only [Bool.or_eq_true, decide_eq_true_eq, not_or] at h
    exact stringAfter_plain (plain_ofChar hquote hback h.1.1.1.1.1) acc t

/-- A stray byte is read back as the replacement character. -/
theorem stringAfter_rune (r : Rune) (acc t : Text) :
    stringAfter acc 0 (escape r ++ t) = stringAfter ((Text.ofChar r.toChar).reverse ++ acc) 0 t := by
  cases r with
  | char c => exact stringAfter_escape c acc t
  | stray b => exact stringAfter_unit (n := 0xFFFD) (.inr (by decide)) (by decide) acc t

theorem stringAfter_runes (rs : List Rune) (acc t : Text) :
    stringAfter acc 0 (rs.flatMap escape ++ 34 :: t) =
      .ok (Text.wellFormed (acc.reverse ++ Text.ofChars (rs.map Rune.toChar)), t) := by
  induction rs generalizing acc with
  | nil => simp [stringAfter, Text.ofChars]
  | cons r rs ih =>
      rw [List.flatMap_cons, List.append_assoc, stringAfter_rune, ih]
      simp [Text.ofChars]

theorem quote_eq (t : Text) : quote t = 34 :: (t.runes.flatMap escape ++ [34]) := rfl

theorem stringAfter_quote (t r : Text) :
    stringAfter [] 0 (t.runes.flatMap escape ++ 34 :: r) = .ok (t.wellFormed, r) := by
  rw [stringAfter_runes, List.reverse_nil, List.nil_append]
  exact congrArg (fun u => Except.ok (u, r)) (Text.wellFormed_wellFormed t)

/-! ## Numbers -/

theorem digits_text {ds : List Nat} (hne : ds ≠ []) (h : ∀ a ∈ ds, a < 10) {t : Text}
    (ht : ∀ b ∈ t.head?, Text.isDigit b = false) (place : Text) :
    digits place (Digits.text ds ++ t) = .ok (Digits.text ds, t) := by
  have hall := Digits.isDigit_of_mem_text h
  have hrest : t.takeWhile Text.isDigit = [] ∧ t.dropWhile Text.isDigit = t := by
    cases t with
    | nil => exact ⟨rfl, rfl⟩
    | cons b t => simp [ht b rfl]
  rw [digits, List.takeWhile_append_of_pos hall, List.dropWhile_append_of_pos hall, hrest.1, hrest.2, List.append_nil]
  split
  · rename_i hnil
    exact absurd (List.map_eq_nil_iff.mp hnil) hne
  · rfl

/-- What may stand behind a number: nothing that goes on with it. -/
def Ends (t : Text) : Prop := ∀ b ∈ t.head?, Text.isDigit b = false ∧ b ≠ 46 ∧ b ≠ 101 ∧ b ≠ 69

section
variable {t : Text} (ht : Ends t) (width : Nat)
include ht

theorem exponentPart_text (e : Option Int) :
    exponentPart (Figure.exponentText width e ++ t) = .ok (Figure.exponentText width e, t) := by
  cases e with
  | none =>
      rw [Figure.exponentText, List.nil_append]
      cases t with
      | nil => rfl
      | cons b t =>
          obtain ⟨-, -, hb, hb'⟩ := ht b rfl
          simp [exponentPart, hb, hb']
  | some e =>
      obtain ⟨ds, hne, hlt, hp, -⟩ := Digits.padded_eq_text width e.natAbs
      have hread := digits_text hne hlt (fun b hb => (ht b hb).1) "in exponent of numeric literal"
      rw [Figure.exponentText, hp, List.append_assoc]
      split
      · rw [List.cons_append, List.cons_append, exponentPart, if_pos (by decide), List.nil_append]
        simp only [hread]
        rfl
      · rw [List.cons_append, List.cons_append, exponentPart, if_pos (by decide), List.nil_append]
        simp only [hread]
        rfl

theorem head_exponentText (e : Option Int) :
    ∀ b ∈ (Figure.exponentText width e ++ t).head?, Text.isDigit b = false ∧ b ≠ 46 := by
  intro b hb
  cases e with
  | none => exact ⟨(ht b hb).1, (ht b hb).2.1⟩
  | some e =>
      rw [Figure.exponentText] at hb
      split at hb <;> cases hb <;> exact ⟨rfl, by decide⟩

end

theorem fractionPart_text {ds : List Nat} (h : ∀ a ∈ ds, a < 10) {t : Text}
    (ht : ∀ b ∈ t.head?, Text.isDigit b = false ∧ b ≠ 46) :
    fractionPart (Figure.fracText ds ++ t) = .ok (Figure.fracText ds, t) := by
  rw [Figure.fracText]
  split
  · rw [List.nil_append, fractionPart]
    rintro r rfl
    exact (ht 46 rfl).2 rfl
  · rename_i hds
    rw [List.cons_append, fractionPart, digits_text (by simpa using hds) h fun b hb => (ht b hb).1]
    rfl

theorem head_fracText (ds : List Nat) {t : Text} (ht : ∀ b ∈ t.head?, Text.isDigit b = false ∧ b ≠ 46) :
    ∀ b ∈ (Figure.fracText ds ++ t).head?, Text.isDigit b = false := by
  intro b hb
  rw [Figure.fracText] at hb
  split at hb
  · exact (ht b hb).1
  · cases hb
    rfl

theorem wholePart_text {ds : List Nat} (hds : ds = [0] ∨ ∃ a rest, ds = a :: rest ∧ 0 < a) (h : ∀ a ∈ ds, a < 10)
    {t : Text} (ht : ∀ b ∈ t.head?, Text.isDigit b = false) :
    wholePart (Digits.text ds ++ t) = .ok (Digits.text ds, t) := by
  rcases hds with rfl | ⟨a, rest, rfl, ha⟩
  · rfl
  · have hread := digits_text (List.cons_ne_nil a rest) h ht "in numeric literal"
    rw [wholePart]
    · exact hread
    · intro r he
      have hzero : Text.digit a = 48 := (List.cons.inj he).1
      have hnat := Text.toNat_digit (h a List.mem_cons_self)
      rw [hzero] at hnat
      exact absurd hnat (Nat.ne_of_lt (Nat.lt_add_of_pos_right ha))

/-- A figure is read up to its end. -/
theorem numeral_text {f : Figure} (h : f.Proper) (width : Nat) (negative : Bool) {t : Text} (ht : Ends t) :
    numeral ((if negative then 45 :: f.text width else f.text width) ++ t) =
      .ok (if negative then 45 :: f.text width else f.text width, t) := by
  have hsign : signPart ((if negative then 45 :: f.text width else f.text width) ++ t) =
      (if negative then [45] else [], f.text width ++ t) := by
    cases negative with
    | true => rfl
    | false =>
        obtain ⟨c, r, hc, hdigit⟩ := h.head width
        rw [if_neg Bool.false_ne_true, if_neg Bool.false_ne_true, hc, List.cons_append, signPart]
        intro r he
        rw [(List.cons.inj he).1] at hdigit
        cases hdigit
  have hhead := head_exponentText ht width f.exponent
  have hwhole := wholePart_text h.lead h.whole (head_fracText f.frac hhead)
  rw [← List.append_assoc, ← List.append_assoc, ← Figure.text] at hwhole
  rw [numeral, hsign]
  simp only [hwhole, List.append_assoc]
  simp only [Except.bind, bind, fractionPart_text h.frac hhead, exponentPart_text ht width]
  cases negative <;> simp [Figure.text]

theorem skipBlanks_of_head {b : UInt8} (h : isBlank b = false) (t : Text) : skipBlanks (b :: t) = b :: t := by
  rw [skipBlanks, List.dropWhile_cons, h]
  rfl

theorem ends_cons {b : UInt8} (h : Text.isDigit b = false ∧ b ≠ 46 ∧ b ≠ 101 ∧ b ≠ 69) (t : Text) : Ends (b :: t) := by
  intro c hc
  cases hc
  exact h

/-- A text that is read as a number up to its end. It starts with a sign or a digit. -/
structure IsNumeral (l : Text) : Prop where
  head : ∃ b t, l = b :: t ∧ (b = 45 || Text.isDigit b) = true
  read : ∀ t, Ends t → numeral (l ++ t) = .ok (l, t)

theorem isNumeral_figure {f : Figure} (h : f.Proper) (width : Nat) (negative : Bool) :
    IsNumeral (if negative then 45 :: f.text width else f.text width) := by
  refine ⟨?_, fun t ht => numeral_text h width negative ht⟩
  cases negative with
  | true => exact ⟨45, _, rfl, rfl⟩
  | false =>
      obtain ⟨b, t, ht, hb⟩ := h.head width
      exact ⟨b, t, ht, by rw [hb, Bool.or_true]⟩

theorem isNumeral_render {x : Float} (hx : Binary.isFinite x = true) (l : Layout) : IsNumeral (l.render x) := by
  obtain ⟨f, negative, -, hf, -, -, hr, -⟩ := l.exists_figure hx
  rw [hr]
  exact isNumeral_figure hf l.exponentWidth negative

theorem value_number {l : Text} (h : IsNumeral l) (depth fuel : Nat) {t : Text} (ht : Ends t) :
    value depth (fuel + 1) (l ++ t) = .ok (.number l, t) := by
  obtain ⟨b, r, rfl, hstart⟩ := h.head
  have hread := h.read t ht
  have hblank : ∀ b : UInt8, (b = 45 || Text.isDigit b) = true → isBlank b = false := by decide +kernel
  rw [value, List.cons_append, skipBlanks_of_head (hblank b hstart)]
  -- None of the other beginnings of a value is a sign or a digit.
  split <;> rename_i he <;> cases he
  case h_7 => simp only [hstart, if_pos, ← List.cons_append, hread]; rfl
  all_goals cases hstart

/-! ## Values -/

mutual

/-- The value with every stray byte in its strings replaced. -/
def wellFormed : Json → Json
  | .null => .null
  | .bool b => .bool b
  | .number l => .number l
  | .string t => .string t.wellFormed
  | .array items => .array (wellFormedItems items)
  | .object members => .object (wellFormedMembers members)

def wellFormedItems : List Json → List Json
  | [] => []
  | v :: vs => v.wellFormed :: wellFormedItems vs

def wellFormedMembers : List (Text × Json) → List (Text × Json)
  | [] => []
  | (k, v) :: ms => (k.wellFormed, v.wellFormed) :: wellFormedMembers ms

end

theorem wellFormedMembers_eq (ms : List (Text × Json)) :
    wellFormedMembers ms = ms.map fun m => (m.1.wellFormed, m.2.wellFormed) := by
  induction ms with
  | nil => rfl
  | cons m ms ih => rw [wellFormedMembers, ih, List.map_cons]

/-- A value of arrays and objects at most `n` deep whose numbers can be read. -/
inductive Readable : Nat → Json → Prop
  | null (n : Nat) : Readable n .null
  | bool (n : Nat) (b : Bool) : Readable n (.bool b)
  | number (n : Nat) {l : Text} (numeral : IsNumeral l) : Readable n (.number l)
  | string (n : Nat) (t : Text) : Readable n (.string t)
  | array {n : Nat} {items : List Json} (inner : ∀ v ∈ items, Readable n v) : Readable (n + 1) (.array items)
  | object {n : Nat} {members : List (Text × Json)} (inner : ∀ m ∈ members, Readable n m.2) :
      Readable (n + 1) (.object members)

/-- Inside `depth` arrays and objects the value is read back from its text, and it does not look like a closing
bracket. -/
structure ReadsBack (depth : Nat) (v : Json) : Prop where
  head : ∃ b t, v.render = b :: t ∧ isBlank b = false ∧ b ≠ 93
  read : ∀ {fuel t}, v.render.length ≤ fuel → Ends t → value depth fuel (v.render ++ t) = .ok (v.wellFormed, t)

/-- The text of a value is not empty, so there is fuel for its first byte. -/
theorem ReadsBack.of_head {depth : Nat} {v : Json} {b : UInt8} {r : Text} (hr : v.render = b :: r)
    (hb : isBlank b = false ∧ b ≠ 93)
    (h : ∀ {fuel t}, r.length ≤ fuel → Ends t → value depth (fuel + 1) (b :: r ++ t) = .ok (v.wellFormed, t)) :
    ReadsBack depth v := by
  refine ⟨⟨b, r, hr, hb⟩, fun {fuel t} hfuel ht => ?_⟩
  rw [hr, List.length_cons] at hfuel
  obtain ⟨fuel, rfl⟩ := Nat.exists_eq_add_of_le' (Nat.one_le_of_lt hfuel)
  rw [hr]
  exact h (Nat.le_of_succ_le_succ hfuel) ht

theorem renderItems_cons_cons (v w : Json) (vs : List Json) :
    renderItems (v :: w :: vs) = v.render ++ 44 :: renderItems (w :: vs) := by
  rw [renderItems]
  exact nofun

theorem renderMembers_cons_cons (k : Text) (v : Json) (m : Text × Json) (ms : List (Text × Json)) :
    renderMembers ((k, v) :: m :: ms) = quote k ++ (58 :: v.render) ++ 44 :: renderMembers (m :: ms) := by
  rw [renderMembers]
  exact nofun

theorem items_render {depth : Nat} {vs : List Json} (hne : vs ≠ []) (h : ∀ v ∈ vs, ReadsBack depth v) {fuel : Nat}
    (hfuel : (renderItems vs).length < fuel) (t : Text) :
    items depth fuel (renderItems vs ++ 93 :: t) = .ok (wellFormedItems vs, t) := by
  induction vs generalizing fuel with
  | nil => exact absurd rfl hne
  | cons v vs ih =>
      obtain ⟨fuel, rfl⟩ := Nat.exists_eq_add_of_le' (Nat.one_le_of_lt hfuel)
      have hv := h v List.mem_cons_self
      cases vs with
      | nil =>
          rw [renderItems] at hfuel ⊢
          have hread := hv.read (Nat.le_of_lt_succ hfuel) (ends_cons (b := 93) (by decide) t)
          simp only [items, hread, bind, Except.bind, skipBlanks_of_head (b := 93) rfl]
          rfl
      | cons w vs =>
          rw [renderItems_cons_cons] at hfuel ⊢
          rw [List.length_append, List.length_cons] at hfuel
          have hread := hv.read (show v.render.length ≤ fuel by omega)
            (ends_cons (b := 44) (by decide) (renderItems (w :: vs) ++ 93 :: t))
          have hrest := ih (List.cons_ne_nil w vs) (fun u hu => h u (List.mem_cons_of_mem v hu))
            (show (renderItems (w :: vs)).length < fuel by omega)
          rw [List.append_assoc, List.cons_append]
          simp only [items, hread, bind, Except.bind, skipBlanks_of_head (b := 44) rfl, hrest]
          rfl

theorem members_render {depth : Nat} {ms : List (Text × Json)} (hne : ms ≠ []) (h : ∀ m ∈ ms, ReadsBack depth m.2)
    {fuel : Nat} (hfuel : (renderMembers ms).length < fuel) (t : Text) :
    members depth fuel (renderMembers ms ++ 125 :: t) = .ok (wellFormedMembers ms, t) := by
  induction ms generalizing fuel with
  | nil => exact absurd rfl hne
  | cons m ms ih =>
      obtain ⟨k, v⟩ := m
      obtain ⟨fuel, rfl⟩ := Nat.exists_eq_add_of_le' (Nat.one_le_of_lt hfuel)
      have hv : ReadsBack depth v := h (k, v) List.mem_cons_self
      cases ms with
      | nil =>
          rw [renderMembers] at hfuel ⊢
          rw [List.length_append, List.length_cons] at hfuel
          have hread := hv.read (show v.render.length ≤ fuel by omega) (ends_cons (b := 125) (by decide) t)
          simp only [members, quote_eq, List.cons_append, skipBlanks_of_head (b := 34) rfl, List.append_assoc,
            List.nil_append, stringAfter_quote, skipBlanks_of_head (b := 58) rfl, hread,
            skipBlanks_of_head (b := 125) rfl, bind, Except.bind]
          rfl
      | cons m' ms =>
          rw [renderMembers_cons_cons] at hfuel ⊢
          simp only [List.length_append, List.length_cons] at hfuel
          have hread := hv.read (show v.render.length ≤ fuel by omega)
            (ends_cons (b := 44) (by decide) (renderMembers (m' :: ms) ++ 125 :: t))
          have hrest := ih (List.cons_ne_nil m' ms) (fun u hu => h u (List.mem_cons_of_mem (k, v) hu))
            (show (renderMembers (m' :: ms)).length < fuel by omega)
          simp only [members, quote_eq, List.cons_append, skipBlanks_of_head (b := 34) rfl, List.append_assoc,
            List.nil_append, stringAfter_quote, skipBlanks_of_head (b := 58) rfl, hread,
            skipBlanks_of_head (b := 44) rfl, hrest, bind, Except.bind]
          rfl

theorem renderMembers_cons (m : Text × Json) (ms : List (Text × Json)) : ∃ t, renderMembers (m :: ms) = 34 :: t := by
  cases ms with
  | nil => exact ⟨_, rfl⟩
  | cons m' ms => exact ⟨_, rfl⟩

theorem renderItems_cons {depth : Nat} {v : Json} (h : ReadsBack depth v) (vs : List Json) :
    ∃ b t, renderItems (v :: vs) = b :: t ∧ isBlank b = false ∧ b ≠ 93 := by
  obtain ⟨b, t, hr, hb⟩ := h.head
  cases vs with
  | nil => exact ⟨b, t, by rw [renderItems, hr], hb⟩
  | cons w vs => exact ⟨b, _, by rw [renderItems_cons_cons, hr, List.cons_append], hb⟩

section
variable {depth : Nat} (hdepth : ¬ maxNesting ≤ depth)
include hdepth

theorem readsBack_array {vs : List Json} (h : ∀ v ∈ vs, ReadsBack (depth + 1) v) : ReadsBack depth (.array vs) := by
  refine .of_head (b := 91) (r := renderItems vs ++ [93]) rfl (by decide) fun {fuel t} hfuel _ => ?_
  rw [value, List.cons_append, List.append_assoc, skipBlanks_of_head (b := 91) rfl]
  cases vs with
  | nil => simp [hdepth, renderItems, wellFormed, wellFormedItems, skipBlanks_of_head (b := 93) rfl]
  | cons v vs =>
      have hitems := items_render (List.cons_ne_nil v vs) h (show (renderItems (v :: vs)).length < fuel by simpa using hfuel) t
      obtain ⟨b, r, hr, hblank, hclose⟩ := renderItems_cons (h v List.mem_cons_self) vs
      rw [hr, List.cons_append] at hitems
      simp only [if_neg hdepth, hr, List.cons_append, List.nil_append, skipBlanks_of_head hblank]
      split
      · rename_i he
        exact absurd (List.cons.inj he).1 hclose
      · rw [hitems]
        rfl

theorem readsBack_object {ms : List (Text × Json)} (h : ∀ m ∈ ms, ReadsBack (depth + 1) m.2) :
    ReadsBack depth (.object ms) := by
  refine .of_head (b := 123) (r := renderMembers ms ++ [125]) rfl (by decide) fun {fuel t} hfuel _ => ?_
  rw [value, List.cons_append, List.append_assoc, skipBlanks_of_head (b := 123) rfl]
  cases ms with
  | nil => simp [hdepth, renderMembers, wellFormed, wellFormedMembers, skipBlanks_of_head (b := 125) rfl]
  | cons m ms =>
      have hmembers := members_render (List.cons_ne_nil m ms) h
        (show (renderMembers (m :: ms)).length < fuel by simpa using hfuel) t
      obtain ⟨r, hr⟩ := renderMembers_cons m ms
      rw [hr, List.cons_append] at hmembers
      simp only [if_neg hdepth, hr, List.cons_append, List.nil_append, skipBlanks_of_head (b := 34) rfl]
      split
      · rename_i he
        cases he
      · rw [hmembers]
        rfl

end

theorem Readable.readsBack {n : Nat} {v : Json} (h : Readable n v) {depth : Nat} (hdepth : depth + n ≤ maxNesting) :
    ReadsBack depth v := by
  induction h generalizing depth with
  | null n => exact .of_head (b := 110) rfl (by decide) fun _ _ => rfl
  | bool n b =>
      cases b with
      | true => exact .of_head (b := 116) rfl (by decide) fun _ _ => rfl
      | false => exact .of_head (b := 102) rfl (by decide) fun _ _ => rfl
  | @number n l hl =>
      obtain ⟨b, r, hb, hstart⟩ := hl.head
      have hblank : ∀ b : UInt8, (b = 45 || Text.isDigit b) = true → isBlank b = false ∧ b ≠ 93 := by decide +kernel
      refine .of_head hb (hblank b hstart) fun {fuel t} _ ht => ?_
      rw [← hb]
      exact value_number hl depth fuel ht
  | string n t =>
      refine .of_head (b := 34) (quote_eq t) (by decide) fun {fuel r} _ _ => ?_
      simp only [value, List.cons_append, List.append_assoc, List.nil_append,
        skipBlanks_of_head (b := 34) rfl, stringAfter_quote, bind, Except.bind, wellFormed]
  | array inner ih => exact readsBack_array (by omega) fun v hv => ih v hv (by omega)
  | object inner ih => exact readsBack_object (by omega) fun m hm => ih m hm (by omega)

theorem isBlank_ends {t : Text} (h : ∀ b ∈ t, isBlank b = true) : Ends t := by
  have hblank : ∀ b : UInt8, isBlank b = true → Text.isDigit b = false ∧ b ≠ 46 ∧ b ≠ 101 ∧ b ≠ 69 := by
    decide +kernel
  exact fun b hb => hblank b (h b (List.mem_of_mem_head? hb))

/-- A value is read back from its text, with its strings made well-formed. Blanks may follow. -/
theorem read_render {n : Nat} {v : Json} (h : Readable n v) (hn : n ≤ maxNesting) {t : Text}
    (ht : ∀ b ∈ t, isBlank b = true) : read (v.render ++ t) = .ok v.wellFormed := by
  have hfuel : v.render.length ≤ (v.render ++ t).length + 1 := by
    rw [List.length_append]
    omega
  have hrest : skipBlanks t = [] := List.dropWhile_eq_nil_iff.mpr ht
  rw [read, first, (h.readsBack (by omega)).read hfuel (isBlank_ends ht)]
  simp only [bind, Except.bind, hrest]

/-! ## Objects of numbers -/

def numbers (l : Layout) (vs : List (Text × Float)) : List (Text × Json) :=
  vs.map fun (n, v) => (n, .number (l.render v))

/-- An object of numbers is read back from its text. -/
theorem read_numbers {vs : List (Text × Float)} (hnames : ∀ p ∈ vs, p.1.IsUtf8)
    (hfinite : ∀ p ∈ vs, Binary.isFinite p.2 = true) (l : Layout) :
    read (render (.object (numbers l vs))) = .ok (.object (numbers l vs)) := by
  have hreadable : Readable 1 (.object (numbers l vs)) := by
    refine .object fun m hm => ?_
    obtain ⟨p, hp, rfl⟩ := List.mem_map.mp hm
    exact .number 0 (isNumeral_render (hfinite p hp) l)
  have hself : wellFormedMembers (numbers l vs) = numbers l vs := by
    rw [wellFormedMembers_eq, numbers, List.map_map]
    exact List.map_congr_left fun p hp => by simp [wellFormed, (hnames p hp).wellFormed]
  have hread := read_render hreadable (by decide) (List.forall_mem_nil _)
  rwa [List.append_nil, wellFormed, hself] at hread

end Json

end Abacus
