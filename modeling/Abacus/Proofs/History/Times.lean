import Abacus.Proofs.History.Saving

/-!
# Stored instants sort as instants

Within the years of four digits the stored texts have one width and are ordered as the instants are. So a table that
compares texts selects its rows and arranges them by time.
-/

namespace Abacus

namespace Instant

section
variable {s t : Instant} (hs : InRange s) (ht : InRange t)
include ht

theorem length_stored : (stored t).length = 30 := by
  obtain ⟨hy, hm, hd, hh, hi, hsec, hn⟩ := widths ht
  have hlen {w n : Nat} (hw : 0 < w) (h : n < Nat.pow 10 w) := Text.length_padded hw h
  simp only [stored_eq ht, List.length_append, List.length_cons, List.length_nil, hlen (by decide) hy,
    hlen (by decide) hm, hlen (by decide) hd, hlen (by decide) hh, hlen (by decide) hi, hlen (by decide) hsec,
    hlen (by decide) hn]

include hs

theorem stored_lt_iff : stored s < stored t ↔ s < t :=
  ⟨fun h => Int.not_le.mp fun hle => List.not_le.mpr h ((stored_le_iff ht hs).mpr hle), stored_lt hs ht⟩

theorem stored_inj : stored s = stored t ↔ s = t := by
  refine ⟨fun he => ?_, fun he => he ▸ rfl⟩
  have hread := readStored_stored hs
  rw [he, readStored_stored ht] at hread
  exact (Except.ok.inj hread).symm

end

end Instant

/-! ## Rows by time -/

/-- Later rows come first, and of one instant the smaller id. -/
def Row.later (instant : Row → Instant) (a b : Row) : Bool :=
  instant b < instant a || (instant a = instant b && a.id ≤ b.id)

/-- The rows from an instant on, the latest first, and the first of them only if there is a limit. -/
def Database.latest (d : Database) (instant : Row → Instant) (since : Instant) (limit : Int) : List Row :=
  firstOf limit ((d.rows.mergeSort (Row.later instant)).filter fun r => since = 0 ∨ since ≤ instant r)

/-- Every row has the text of its instant. -/
def Database.Dated (d : Database) (instant : Row → Instant) : Prop :=
  ∀ row ∈ d.rows, Instant.InRange (instant row) ∧ row.time = Instant.stored (instant row)

section
variable {d : Database} {instant : Row → Instant} (h : d.Dated instant)
include h

theorem Database.Dated.before {a b : Row} (ha : a ∈ d.rows) (hb : b ∈ d.rows) :
    a.before b = Row.later instant a b := by
  obtain ⟨hra, hta⟩ := h a ha
  obtain ⟨hrb, htb⟩ := h b hb
  simp only [Row.before, Row.later, hta, htb, Instant.stored_lt_iff hrb hra, Instant.stored_inj hra hrb]

theorem Database.Dated.ordered : d.ordered = d.rows.mergeSort (Row.later instant) := by
  have hsort := List.map_mergeSort (f := id) (l := d.rows) fun a ha b hb => h.before ha hb
  rwa [List.map_id, List.map_id] at hsort

theorem Database.Dated.select {since : Instant} (hs : Instant.InRange since) (limit : Int) :
    d.select since limit = d.latest instant since limit := by
  rw [Database.select_eq, Database.latest, ← h.ordered]
  refine congrArg (firstOf limit) (List.filter_congr fun r hr => ?_)
  obtain ⟨hrange, htime⟩ := h r (List.mem_mergeSort.mp hr)
  rw [htime]
  simp only [Instant.stored_le_iff hs hrange]

end

/-- Of two instants of the years 0 to 9999 the texts have one length, and are ordered and equal as the instants are; the
text gives the instant back. It is what a row is dated with, so the rows of a table are arranged by time, and those from
an instant on are selected by time. -/
theorem stored_instants_sort :
    (∀ s t, Instant.InRange s → Instant.InRange t →
      (Instant.stored s).length = (Instant.stored t).length ∧ (Instant.stored s < Instant.stored t ↔ s < t) ∧
        (Instant.stored s = Instant.stored t ↔ s = t) ∧ Instant.readStored (Instant.stored t) = .ok t) ∧
    (∀ r row, Row.ofRecord r = .ok row → row.time = Instant.stored r.timestamp) ∧
    ∀ (d : Database) (instant : Row → Instant), d.Dated instant →
      d.ordered = d.rows.mergeSort (Row.later instant) ∧
        ∀ since limit, Instant.InRange since → d.select since limit = d.latest instant since limit := by
  refine ⟨fun s t hs ht => ⟨?_, Instant.stored_lt_iff hs ht, Instant.stored_inj hs ht, Instant.readStored_stored ht⟩,
    fun r row h => (Row.columns_of_ofRecord h).2,
    fun d instant h => ⟨h.ordered, fun since limit hs => h.select hs limit⟩⟩
  rw [Instant.length_stored hs, Instant.length_stored ht]

/-- The last nanosecond of a leap day. -/
def endOfLeapDay : Instant := Instant.ofDateTime ⟨2024, 2, 29, 23, 59, 59, 999999999⟩

def datedRow (id : Text) (t : Instant) : Row :=
  ⟨id, Instant.stored t, "cli", "x = 1", "ok", .int 1, [], [], "\x7b\x7d", 0⟩

/-- A run on the leap day, and one a nanosecond later. -/
def leapDayTable : Database :=
  { Database.empty with rows := [datedRow "a" endOfLeapDay, datedRow "b" (endOfLeapDay + 1)] }

def leapDayInstant (row : Row) : Instant := if row.id = ("a" : Text) then endOfLeapDay else endOfLeapDay + 1

theorem leapDayTable_sorted :
    (Instant.InRange endOfLeapDay ∧ Instant.InRange (endOfLeapDay + 1) ∧ leapDayTable.Dated leapDayInstant) ∧
      Instant.stored endOfLeapDay < Instant.stored (endOfLeapDay + 1) ∧
      Instant.readStored (Instant.stored endOfLeapDay) = .ok endOfLeapDay ∧
      leapDayTable.select (endOfLeapDay + 1) 5 = leapDayTable.latest leapDayInstant (endOfLeapDay + 1) 5 := by
  have hs : Instant.InRange endOfLeapDay := by decide +kernel
  have ht : Instant.InRange (endOfLeapDay + 1) := by decide +kernel
  have hd : leapDayTable.Dated leapDayInstant := by
    have ha : leapDayInstant (datedRow "a" endOfLeapDay) = endOfLeapDay := if_pos rfl
    have hb : leapDayInstant (datedRow "b" (endOfLeapDay + 1)) = endOfLeapDay + 1 := if_neg (by decide +kernel)
    simp only [Database.Dated, leapDayTable, List.mem_cons, List.not_mem_nil, or_false, forall_eq_or_imp, forall_eq,
      ha, hb]
    exact ⟨⟨hs, rfl⟩, ht, rfl⟩
  obtain ⟨hsort, -, hrows⟩ := stored_instants_sort
  exact ⟨⟨hs, ht, hd⟩, (hsort _ _ hs ht).2.1.mpr (by decide +kernel), (hsort _ _ hs hs).2.2.2,
    (hrows _ _ hd).2 _ _ ht⟩

end Abacus
