import Abacus.Proofs.Text.Runes
import Abacus.Statement

/-!
# Cutting scripts into statements

A separator between two scripts is a cut like any other: the statements of the whole are those of the first
script and then those of the second. A statement has nothing left to cut or to trim, so statements joined by
separators are cut into the same statements again.
-/

namespace Abacus

theorem Text.pieces_eq_splitOnP (p : UInt8 → Bool) (t : Text) : pieces p t = t.splitOnP p := by
  induction t with
  | nil => exact List.splitOnP_nil.symm
  | cons b t ih =>
      rw [pieces, ih, List.splitOnP_cons_eq_if_modifyHead]
      obtain ⟨q, qs, h⟩ := List.exists_cons_of_ne_nil (List.splitOnP_ne_nil p t)
      rw [h]
      rfl

theorem Text.of_mem_splitOnP {p : UInt8 → Bool} {t q : Text} (h : q ∈ t.splitOnP p) :
    ∀ b ∈ q, p b = false ∧ b ∈ t := by
  induction t generalizing q with
  | nil =>
      rw [List.splitOnP_nil, List.mem_singleton] at h
      simp [h]
  | cons c t ih =>
      have hmore {q : Text} (hq : q ∈ t.splitOnP p) : ∀ b ∈ q, p b = false ∧ b ∈ c :: t := fun b hb =>
        ⟨(ih hq b hb).1, List.mem_cons_of_mem c (ih hq b hb).2⟩
      rw [List.splitOnP_cons_eq_if_modifyHead] at h
      split at h
      · rcases List.mem_cons.mp h with rfl | h
        · simp
        · exact hmore h
      · rename_i hc
        obtain ⟨q', qs, hq⟩ := List.exists_cons_of_ne_nil (List.splitOnP_ne_nil p t)
        rw [hq, List.modifyHead_cons] at h
        rcases List.mem_cons.mp h with rfl | h
        · intro b hb
          rcases List.mem_cons.mp hb with rfl | hb
          · exact ⟨by simpa using hc, List.mem_cons_self⟩
          · exact hmore (hq ▸ List.mem_cons_self) b hb
        · exact hmore (hq ▸ List.mem_cons_of_mem q' h)

/-- What stands between two statements. -/
inductive Separator where
  | semicolon
  | lineFeed
deriving DecidableEq, Repr

def Separator.byte : Separator → UInt8
  | .semicolon => 59
  | .lineFeed => 10

def separates (b : UInt8) : Bool := b == 59 || b == 10

theorem separates_byte (c : Separator) : separates c.byte = true := by
  cases c <;> rfl

theorem splitStatements_eq (script : Text) :
    splitStatements script =
      (((dropReturns script).splitOnP separates).map Text.trim).filter (!·.isEmpty) := by
  rw [← Text.pieces_eq_splitOnP]
  rfl

theorem dropReturns_append (a b : Text) : dropReturns (a ++ b) = dropReturns a ++ dropReturns b :=
  List.filter_append a b

theorem dropReturns_cons_byte (c : Separator) (b : Text) : dropReturns (c.byte :: b) = c.byte :: dropReturns b := by
  cases c <;> rfl

theorem splitStatements_append (a b : Text) (c : Separator) :
    splitStatements (a ++ c.byte :: b) = splitStatements a ++ splitStatements b := by
  rw [splitStatements_eq, splitStatements_eq, splitStatements_eq, dropReturns_append, dropReturns_cons_byte,
    List.splitOnP_append_cons _ _ (separates_byte c), List.map_append, List.filter_append]

/-- Nothing, or a part of a script that ends with a separator. -/
def Separated (pre : Text) : Prop := pre = [] ∨ ∃ a c, pre = a ++ [Separator.byte c]

theorem Separated.splitStatements_append {pre : Text} (h : Separated pre) (b : Text) :
    splitStatements (pre ++ b) = splitStatements pre ++ splitStatements b := by
  rcases h with rfl | ⟨a, c, rfl⟩
  · rfl
  · have hnil : splitStatements [] = [] := rfl
    rw [List.append_assoc, List.singleton_append, Abacus.splitStatements_append, Abacus.splitStatements_append, hnil,
      List.append_nil]

-- Without the carriage return the three bytes around it are white space, on one side of the separator only.
example :
    splitStatements ([97, 0xE2, 13, 0x80, 0xA8] ++ Separator.semicolon.byte :: [0xE2, 98]) = [[97], [0xE2, 98]] := by
  decide

/-! ## Statements -/

/-- A text that is cut into nothing but itself. -/
structure IsStatement (s : Text) : Prop where
  nonempty : s ≠ []
  trimmed : s.trim = s
  whole : ∀ b ∈ s, separates b = false
  noReturn : ∀ b ∈ s, b ≠ 13

theorem IsStatement.newline_notMem {s : Text} (h : IsStatement s) : 10 ∉ s :=
  fun hm => absurd (h.whole 10 hm) (by decide)

theorem isStatement_of_mem {script s : Text} (h : s ∈ splitStatements script) : IsStatement s := by
  rw [splitStatements_eq] at h
  obtain ⟨hm, hne⟩ := List.mem_filter.mp h
  obtain ⟨q, hq, rfl⟩ := List.mem_map.mp hm
  have hb (b : UInt8) (h : b ∈ q.trim) := Text.of_mem_splitOnP hq b ((Text.trim_isInfix q).subset h)
  refine ⟨by simpa using hne, Text.trim_trim q, fun b h => (hb b h).1, fun b h => ?_⟩
  simpa using (List.mem_filter.mp (hb b h).2).2

/-- A text in which no statement ends. -/
def Whole (s : Text) : Prop := ∀ b ∈ s, separates b = false ∧ b ≠ 13

instance (s : Text) : Decidable (Whole s) := List.decidableBAll _ s

theorem Whole.newline_notMem {s : Text} (h : Whole s) : 10 ∉ s :=
  fun hm => absurd (h 10 hm).1 (by decide)

theorem Whole.splitStatements_eq {s : Text} (h : Whole s) : splitStatements s = [s.trim].filter (!·.isEmpty) := by
  have hr : dropReturns s = s := List.filter_eq_self.mpr fun b hb => by simpa using (h b hb).2
  rw [Abacus.splitStatements_eq, hr, List.splitOnP_eq_singleton fun b hb => (h b hb).1]
  rfl

theorem IsStatement.whole_text {s : Text} (h : IsStatement s) : Whole s :=
  fun b hb => ⟨h.whole b hb, h.noReturn b hb⟩

theorem IsStatement.splitStatements_eq {s : Text} (h : IsStatement s) : splitStatements s = [s] := by
  rw [h.whole_text.splitStatements_eq]
  simp [h.trimmed, h.nonempty]

theorem splitStatements_join (c : Separator) {ss : List Text} (h : ∀ s ∈ ss, IsStatement s) :
    splitStatements (Text.join [c.byte] ss) = ss := by
  induction ss with
  | nil => rfl
  | cons s ss ih =>
      have hs := (h s List.mem_cons_self).splitStatements_eq
      have ih := ih fun s' hs' => h s' (List.mem_cons_of_mem s hs')
      cases ss with
      | nil => exact hs
      | cons s' ss =>
          rw [Text.join, List.append_assoc, List.singleton_append, splitStatements_append, hs, ih]
          · rfl
          · intro h; cases h

end Abacus
