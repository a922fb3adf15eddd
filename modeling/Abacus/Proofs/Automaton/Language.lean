import Mathlib.Computability.Language
import Abacus.Proofs.Automaton

/-!
# The languages of the automata

What an automaton scans is the longest beginning of a text under which there are steps, if these lead to an accepting
state. The texts that the two automata accept form two regular languages, whatever bytes a text is made of.
-/

namespace Abacus.Automaton

open scoped Computability

section
variable {σ : Type} (a : Automaton σ)

/-! ## Reading -/

/-- Steps under the bytes of a text lead from one state to another. -/
inductive Reads : σ → Text → σ → Prop where
  | nil {s : σ} : Reads s [] s
  | cons {s s' q : σ} {b : UInt8} {t : Text} : a.step s b = some s' → Reads s' t q → Reads s (b :: t) q

/-- Of what the text `t` begins with, `p` is the longest that can be read, and leads to `q`. -/
structure LongestRead (s : σ) (t p : Text) (q : σ) : Prop where
  beginning : p <+: t
  reads : a.Reads s p q
  longest : ∀ p' q', p' <+: t → a.Reads s p' q' → p' <+: p

variable {a} {s q : σ} {t : Text}

theorem reads_nil_iff : a.Reads s [] q ↔ q = s := by
  constructor
  · intro h
    cases h
    rfl
  · rintro rfl
    exact .nil

theorem reads_cons_iff {b : UInt8} : a.Reads s (b :: t) q ↔ ∃ s', a.step s b = some s' ∧ a.Reads s' t q := by
  constructor
  · intro h
    cases h with
    | cons hs ht => exact ⟨_, hs, ht⟩
  · rintro ⟨s', hs, ht⟩
    exact .cons hs ht

theorem reads_iff_run : a.Reads s t q ↔ a.run s t = (q, t.length) := by
  induction t generalizing s with
  | nil => simp [reads_nil_iff, run, eq_comm]
  | cons b t ih => simp only [reads_cons_iff, run_cons_eq_length, ih]

/-- A run reads as far as there are steps. -/
theorem longestRead_run (a : Automaton σ) (s : σ) (t : Text) :
    a.LongestRead s t (t.take (a.run s t).2) (a.run s t).1 := by
  induction t generalizing s with
  | nil => exact ⟨List.prefix_rfl, .nil, fun _ _ h _ => h⟩
  | cons b t ih =>
      rw [run]
      cases hs : a.step s b with
      | none =>
          refine ⟨List.nil_prefix, .nil, fun p' q' hp hr => ?_⟩
          cases hr with
          | nil => exact List.prefix_rfl
          | cons hs' _ =>
              rw [(List.cons_prefix_cons.mp hp).1, hs] at hs'
              cases hs'
      | some s' =>
          obtain ⟨hp, hr, hl⟩ := ih s'
          refine ⟨List.cons_prefix_cons.mpr ⟨rfl, hp⟩, .cons hs hr, fun p' q' hp' hr' => ?_⟩
          cases hr' with
          | nil => exact List.nil_prefix
          | cons hs' ht =>
              obtain ⟨rfl, hp''⟩ := List.cons_prefix_cons.mp hp'
              rw [hs] at hs'
              cases hs'
              exact List.cons_prefix_cons.mpr ⟨rfl, hl _ _ hp'' ht⟩

/-- The texts that lead from a state to an accepting one. -/
def language (a : Automaton σ) (s : σ) : Language UInt8 := {t | ∃ q, a.Reads s t q ∧ a.accepting q = true}

theorem nil_mem_language : ([] : Text) ∈ a.language s ↔ a.accepting s = true := by
  change (∃ q, a.Reads s [] q ∧ _) ↔ _
  simp only [reads_nil_iff, exists_eq_left]

theorem cons_mem_language {b : UInt8} : b :: t ∈ a.language s ↔ ∃ s', a.step s b = some s' ∧ t ∈ a.language s' := by
  change (∃ q, a.Reads s (b :: t) q ∧ _) ↔ ∃ s', _ ∧ ∃ q, a.Reads s' t q ∧ _
  simp only [reads_cons_iff]
  constructor
  · rintro ⟨q, ⟨s', hs, ht⟩, hq⟩
    exact ⟨s', hs, q, ht, hq⟩
  · rintro ⟨s', hs, q, ht, hq⟩
    exact ⟨q, ⟨s', hs, ht⟩, hq⟩

theorem accepts_iff_mem_language : a.accepts t = true ↔ t ≠ [] ∧ t ∈ a.language a.initial := by
  simp only [accepts_iff, ← reads_iff_run]
  rfl

end

/-! ## Classes of bytes -/

/-- `[lo-hi]` -/
def between (lo hi : UInt8) : Language UInt8 := {t | ∃ b, (lo ≤ b ∧ b ≤ hi) ∧ t = [b]}

/-- `[A-Za-z]` -/
def letters : Language UInt8 := between 65 90 + between 97 122

/-- `[0-9]` -/
def digits : Language UInt8 := between 48 57

/-- `[A-Za-z_][A-Za-z0-9_]*` -/
def names : Language UInt8 := (letters + between 95 95) * (letters + digits + between 95 95)∗

/-- `[0-9]+(\.[0-9]+)?` -/
def figures : Language UInt8 := digits * digits∗ * (1 + between 46 46 * (digits * digits∗))

/-- The texts of one byte that satisfies `p`. -/
def IsClass (l : Language UInt8) (p : UInt8 → Prop) : Prop := ∀ t, t ∈ l ↔ ∃ b, p b ∧ t = [b]

theorem isClass_between (lo hi : UInt8) : IsClass (between lo hi) fun b => lo ≤ b ∧ b ≤ hi := fun _ => Iff.rfl

section
variable {l m : Language UInt8} {p q : UInt8 → Prop} {t : Text}

theorem IsClass.congr (h : IsClass l p) (hpq : ∀ b, p b ↔ q b) : IsClass l q := fun t => by
  simp only [h t, hpq]

theorem IsClass.add (h : IsClass l p) (h' : IsClass m q) : IsClass (l + m) fun b => p b ∨ q b := fun t => by
  simp only [Language.mem_add, h t, h' t, or_and_right, exists_or]

theorem IsClass.mem_mul (h : IsClass l p) : t ∈ l * m ↔ ∃ b u, t = b :: u ∧ p b ∧ u ∈ m := by
  rw [Language.mem_mul]
  constructor
  · rintro ⟨v, hv, u, hu, rfl⟩
    obtain ⟨b, hb, rfl⟩ := (h v).mp hv
    exact ⟨b, u, rfl, hb, hu⟩
  · rintro ⟨b, u, rfl, hb, hu⟩
    exact ⟨[b], (h _).mpr ⟨b, hb, rfl⟩, u, hu, rfl⟩

/-- Any number of bytes of a class and then `m`: either `m` right away, or one byte and the same again. -/
theorem IsClass.mem_kstar_mul (h : IsClass l p) :
    t ∈ l∗ * m ↔ t ∈ m ∨ ∃ b u, t = b :: u ∧ p b ∧ u ∈ l∗ * m := by
  have hstar : l∗ * m = m + l * (l∗ * m) := by
    conv_lhs => rw [← Language.one_add_self_mul_kstar_eq_kstar, add_mul, one_mul, mul_assoc]
  rw [← h.mem_mul, ← Language.mem_add, ← hstar]

theorem IsClass.mem_kstar (h : IsClass l p) : t ∈ l∗ ↔ ∀ b ∈ t, p b := by
  induction t with
  | nil => simp [Language.nil_mem_kstar]
  | cons b t ih =>
      have hstep := h.mem_kstar_mul (m := 1) (t := b :: t)
      rw [mul_one] at hstep
      rw [hstep, List.forall_mem_cons, ← ih]
      simp [Language.mem_one]

end

theorem isClass_letters : IsClass letters fun b => Text.isLetter b = true := by
  refine ((isClass_between 65 90).add (isClass_between 97 122)).congr fun b => ?_
  simp [Text.isLetter, Text.isLower, Text.isUpper, or_comm]

theorem isClass_digits : IsClass digits fun b => Text.isDigit b = true :=
  (isClass_between 48 57).congr fun _ => by simp [Text.isDigit]

theorem isClass_byte (c : UInt8) : IsClass (between c c) (· = c) :=
  (isClass_between c c).congr fun _ => ⟨fun h => UInt8.le_antisymm h.2 h.1, fun h => by simp [h]⟩

theorem mem_byte_mul {c : UInt8} {m : Language UInt8} {t : Text} :
    t ∈ between c c * m ↔ ∃ u, t = c :: u ∧ u ∈ m := by
  rw [(isClass_byte c).mem_mul]
  constructor
  · rintro ⟨b, u, rfl, rfl, hu⟩
    exact ⟨u, rfl, hu⟩
  · rintro ⟨u, rfl, hu⟩
    exact ⟨c, u, rfl, rfl, hu⟩

/-! ## The two automata -/

theorem accepts_identifier_iff_mem {t : Text} : identifier.accepts t = true ↔ t ∈ names := by
  have hfirst : IsClass (letters + between 95 95) fun b => isNameByte b = true ∧ Text.isDigit b = false :=
    (isClass_letters.add (isClass_byte 95)).congr fun b => by rw [← starts_iff]; simp
  have hnext : IsClass (letters + digits + between 95 95) fun b => isNameByte b = true :=
    ((isClass_letters.add isClass_digits).add (isClass_byte 95)).congr fun b => by simp [isNameByte]
  rw [names, hfirst.mem_mul, accepts_identifier_iff]
  simp only [hnext.mem_kstar]
  constructor
  · rintro ⟨hall, b, u, rfl, hb⟩
    obtain ⟨hn, hu⟩ := List.forall_mem_cons.mp hall
    exact ⟨b, u, rfl, ⟨hn, hb⟩, hu⟩
  · rintro ⟨b, u, rfl, ⟨hn, hb⟩, hu⟩
    exact ⟨List.forall_mem_cons.mpr ⟨hn, hu⟩, b, u, rfl, hb⟩

theorem language_fraction : number.language .fraction = digits∗ := by
  ext t
  rw [isClass_digits.mem_kstar]
  induction t with
  | nil => simp [nil_mem_language, number]
  | cons b t ih =>
      rw [cons_mem_language, List.forall_mem_cons, ← ih]
      simp [number]

theorem language_point : number.language .point = digits * digits∗ := by
  ext t
  rw [isClass_digits.mem_mul, ← language_fraction]
  cases t with
  | nil => simp [nil_mem_language, number]
  | cons b t => rw [cons_mem_language]; simp [number]

theorem step_whole_iff {b : UInt8} {s : Figure} :
    number.step .whole b = some s ↔ Text.isDigit b = true ∧ s = .whole ∨ b = 46 ∧ s = .point := by
  have hstep : number.step .whole b = if Text.isDigit b then some .whole else if b == 46 then some .point else none :=
    rfl
  rw [hstep]
  by_cases hb : b = 46
  · subst hb
    simp [Text.isDigit, eq_comm (b := s)]
  · simp [hb, eq_comm (b := s)]

theorem language_whole : number.language .whole = digits∗ * (1 + between 46 46 * (digits * digits∗)) := by
  rw [← language_point]
  -- What may follow the digits stays the same along the induction.
  generalize hm : 1 + between 46 46 * number.language .point = m
  have hend (t : Text) : t ∈ m ↔ t = [] ∨ ∃ u, t = 46 :: u ∧ u ∈ number.language .point := by
    rw [← hm, Language.mem_add, Language.mem_one, mem_byte_mul]
  ext t
  induction t with
  | nil =>
      rw [isClass_digits.mem_kstar_mul, hend, nil_mem_language]
      simp [number]
  | cons b t ih =>
      rw [cons_mem_language, isClass_digits.mem_kstar_mul, hend]
      simp only [step_whole_iff, List.cons.injEq]
      constructor
      · rintro ⟨s, ⟨hb, rfl⟩ | ⟨rfl, rfl⟩, ht⟩
        · exact .inr ⟨b, t, ⟨rfl, rfl⟩, hb, ih.mp ht⟩
        · exact .inl (.inr ⟨t, ⟨rfl, rfl⟩, ht⟩)
      · rintro ((he | ⟨u, ⟨rfl, rfl⟩, hu⟩) | ⟨c, u, ⟨rfl, rfl⟩, hb, hu⟩)
        · cases he
        · exact ⟨.point, .inr ⟨rfl, rfl⟩, hu⟩
        · exact ⟨.whole, .inl ⟨hb, rfl⟩, ih.mpr hu⟩

theorem accepts_number_iff_mem {t : Text} : number.accepts t = true ↔ t ∈ figures := by
  rw [accepts_iff_mem_language, figures, mul_assoc, ← language_whole, isClass_digits.mem_mul]
  cases t with
  | nil => simp
  | cons b t => rw [cons_mem_language]; simp [number]

/-- Every automaton scans the longest beginning of a text that it can read without an error, if that leads to an
accepting state, and nothing otherwise; it accepts the texts that are not empty and that it reads to the end and to an
accepting state. For the two automata these are `[A-Za-z_][A-Za-z0-9_]*` and `[0-9]+(\.[0-9]+)?`. -/
theorem automata_recognise_languages :
    (∀ {σ : Type} (a : Automaton σ) (t : Text),
      (∃ p q, a.LongestRead a.initial t p q ∧ a.scan t = if a.accepting q then p else []) ∧
      (a.accepts t = true ↔ t ≠ [] ∧ ∃ q, a.Reads a.initial t q ∧ a.accepting q = true)) ∧
    ∀ t : Text, (identifier.accepts t = true ↔ t ∈ names) ∧ (number.accepts t = true ↔ t ∈ figures) :=
  ⟨fun a t => ⟨⟨_, _, longestRead_run a a.initial t, rfl⟩, accepts_iff_mem_language⟩,
    fun _ => ⟨accepts_identifier_iff_mem, accepts_number_iff_mem⟩⟩

end Abacus.Automaton
