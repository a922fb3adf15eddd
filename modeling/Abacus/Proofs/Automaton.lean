import Mathlib.Data.List.TakeDrop
import Abacus.Automaton
import Abacus.Statement
import Abacus.Token

/-!
# What the automata accept

An automaton accepts a text that it reads to the end and after which it stands in an accepting state. The words that one
of the two automata accepts are the names in front of an equals sign; the figures that the other accepts start with a
digit, so no text is both.
-/

namespace Abacus

namespace Automaton

variable {σ : Type} {a : Automaton σ}

theorem run_snd_le (a : Automaton σ) (s : σ) (t : Text) : (a.run s t).2 ≤ t.length := by
  induction t generalizing s with
  | nil => exact Nat.le_refl 0
  | cons b t ih =>
      unfold run
      split
      · exact Nat.zero_le _
      · rename_i s' _
        exact Nat.succ_le_succ (ih s')

theorem run_cons_eq_length {s q : σ} {b : UInt8} {t : Text} :
    a.run s (b :: t) = (q, (b :: t).length) ↔ ∃ s', a.step s b = some s' ∧ a.run s' t = (q, t.length) := by
  rw [run]
  cases a.step s b with
  | none => simp
  | some s' => simp [Prod.ext_iff]

theorem accepts_iff {t : Text} :
    a.accepts t = true ↔ t ≠ [] ∧ ∃ q, a.run a.initial t = (q, t.length) ∧ a.accepting q = true := by
  have hle := run_snd_le a a.initial t
  simp only [accepts, scan, Bool.and_eq_true, Bool.not_eq_eq_eq_not, Bool.not_true, List.isEmpty_eq_false_iff,
    beq_iff_eq]
  generalize a.run a.initial t = r at hle ⊢
  obtain ⟨q, n⟩ := r
  refine and_congr_right fun hne => ?_
  cases hq : a.accepting q with
  | true =>
      simp only [↓reduceIte, List.take_eq_self_iff, Prod.mk.injEq]
      exact ⟨fun h => ⟨q, ⟨rfl, Nat.le_antisymm hle h⟩, hq⟩, fun ⟨_, ⟨_, h⟩, _⟩ => Nat.le_of_eq h.symm⟩
  | false =>
      simp only [Bool.false_eq_true, ↓reduceIte]
      refine iff_of_false (fun h => hne h.symm) ?_
      rintro ⟨q', h, hq'⟩
      cases h
      cases hq.symm.trans hq'

/-- A text that is read to the end is made of bytes for which there are steps. -/
theorem forall_mem_of_run {P : UInt8 → Prop} (hstep : ∀ s b s', a.step s b = some s' → P b) {s q : σ} {t : Text}
    (h : a.run s t = (q, t.length)) : ∀ b ∈ t, P b := by
  induction t generalizing s with
  | nil => exact List.forall_mem_nil _
  | cons b t ih =>
      obtain ⟨s', hs, ht⟩ := run_cons_eq_length.mp h
      exact List.forall_mem_cons.mpr ⟨hstep s b s' hs, ih ht⟩

/-! ## Names -/

theorem starts_iff {b : UInt8} :
    (Text.isLetter b || b == 95) = true ↔ isNameByte b = true ∧ Text.isDigit b = false := by
  have hall : ∀ n < 256, (Text.isLetter (UInt8.ofNat n) || UInt8.ofNat n == 95) = true ↔
      isNameByte (UInt8.ofNat n) = true ∧ Text.isDigit (UInt8.ofNat n) = false := by decide +kernel
  simpa using hall b.toNat b.toNat_lt

theorem run_identifier_inside {t : Text} :
    (∃ q, identifier.run .inside t = (q, t.length) ∧ identifier.accepting q = true) ↔
      ∀ b ∈ t, isNameByte b = true := by
  induction t with
  | nil => simp [run, identifier]
  | cons b t ih =>
      simp only [run_cons_eq_length, List.forall_mem_cons, ← ih]
      simp only [identifier, isNameByte, Option.ite_none_right_eq_some, Option.some.injEq]
      constructor
      · rintro ⟨q, ⟨s', ⟨hb, rfl⟩, ht⟩, hq⟩
        exact ⟨hb, q, ht, hq⟩
      · rintro ⟨hb, q, ht, hq⟩
        exact ⟨q, ⟨_, ⟨hb, rfl⟩, ht⟩, hq⟩

/-- The identifiers are the names: a byte of a name that is no digit, and more of them. -/
theorem accepts_identifier_iff {t : Text} :
    identifier.accepts t = true ↔
      (∀ b ∈ t, isNameByte b = true) ∧ ∃ b rest, t = b :: rest ∧ Text.isDigit b = false := by
  rw [accepts_iff]
  cases t with
  | nil => simp
  | cons b t =>
      have hstart : identifier.initial = .start := rfl
      simp only [hstart, run_cons_eq_length, List.forall_mem_cons, ← run_identifier_inside]
      constructor
      · rintro ⟨_, q, ⟨s', hs, ht⟩, hq⟩
        obtain ⟨hb, hs⟩ := Option.ite_none_right_eq_some.mp hs
        cases hs
        obtain ⟨hn, hd⟩ := starts_iff.mp hb
        exact ⟨⟨hn, q, ht, hq⟩, b, t, rfl, hd⟩
      · rintro ⟨⟨hn, q, ht, hq⟩, _, _, he, hd⟩
        cases he
        exact ⟨by simp, q, ⟨.inside, if_pos (starts_iff.mpr ⟨hn, hd⟩), ht⟩, hq⟩

/-! ## Figures -/

theorem step_number {s s' : Figure} {b : UInt8} (h : number.step s b = some s') :
    Text.isDigit b = true ∨ b = 46 := by
  cases s with
  | start => exact .inl (Option.ite_none_right_eq_some.mp h).1
  | whole =>
      simp only [number] at h
      split at h
      · exact .inl ‹_›
      · exact .inr (beq_iff_eq.mp (Option.ite_none_right_eq_some.mp h).1)
  | point => exact .inl (Option.ite_none_right_eq_some.mp h).1
  | fraction => exact .inl (Option.ite_none_right_eq_some.mp h).1

/-- A figure is made of digits and points and starts with a digit. -/
theorem of_accepts_number {t : Text} (h : number.accepts t = true) :
    (∀ b ∈ t, Text.isDigit b = true ∨ b = 46) ∧ ∃ b rest, t = b :: rest ∧ Text.isDigit b = true := by
  obtain ⟨hne, q, hrun, _⟩ := accepts_iff.mp h
  refine ⟨forall_mem_of_run (fun _ _ _ => step_number) hrun, ?_⟩
  obtain ⟨b, rest, rfl⟩ := List.exists_cons_of_ne_nil hne
  obtain ⟨s', hs, _⟩ := run_cons_eq_length.mp hrun
  exact ⟨b, rest, rfl, (Option.ite_none_right_eq_some.mp hs).1⟩

end Automaton

/-! ## Kinds -/

section
variable {t : Text}

theorem accepts_identifier_of_mem_reservedWords (h : t ∈ reservedWords) : Automaton.identifier.accepts t = true := by
  have hall : ∀ w ∈ reservedWords, Automaton.identifier.accepts w = true := by decide
  exact hall t h

theorem classify_of_mem_reservedWords (h : t ∈ reservedWords) : classify t = .reservedWord := by
  simp [classify, h]

theorem classify_of_identifier (h : Automaton.identifier.accepts t = true) (hr : t ∉ reservedWords) :
    classify t = .identifier := by
  simp [classify, h, hr]

theorem classify_of_number (h : Automaton.number.accepts t = true) : classify t = .number := by
  have hi : Automaton.identifier.accepts t = false := by
    refine Bool.eq_false_iff.mpr fun hi => ?_
    obtain ⟨_, b, rest, rfl, hd⟩ := Automaton.of_accepts_number h
    obtain ⟨_, _, _, he, hd'⟩ := Automaton.accepts_identifier_iff.mp hi
    cases he
    cases hd.symm.trans hd'
  have hr : t ∉ reservedWords := fun hm => by
    cases hi.symm.trans (accepts_identifier_of_mem_reservedWords hm)
  simp [classify, h, hi, hr]

end

end Abacus
