import Abacus.Path
import Abacus.Proofs.Statement
import Abacus.Proofs.Text.Lines

/-!
# Spellings of paths

A path has one shortest spelling: its parts without the steps that lead nowhere. Names put below a path are its last
parts, so the directory of what is spelled with one name more is the path.
-/

namespace Abacus.Path

/-! ## Parts -/

/-- What an entry of a directory may be called. -/
structure IsName (s : Text) : Prop where
  nonempty : s ≠ []
  here : s ≠ ("." : Text)
  up : s ≠ (".." : Text)
  whole : 47 ∉ s

def isRooted (p : Text) : Bool := p.head? == some 47

/-- The parts of the shortest spelling. -/
def kept (p : Text) : List Text := ((parts p).foldl (pushPart (isRooted p)) []).reverse

/-- The path with the given parts. -/
def spell (rooted : Bool) (ps : List Text) : Text :=
  if rooted then 47 :: Text.join "/" ps else if (Text.join "/" ps).isEmpty then "." else Text.join "/" ps

theorem clean_eq (p : Text) : clean p = spell (isRooted p) (kept p) := rfl

theorem parts_eq (p : Text) : parts p = p.splitOnP (· == 47) := Text.pieces_eq_splitOnP _ p

theorem parts_append_cons (a b : Text) : parts (a ++ 47 :: b) = parts a ++ parts b := by
  simp only [parts_eq]
  exact List.splitOnP_append_cons a b rfl

theorem parts_of_notMem {s : Text} (h : 47 ∉ s) : parts s = [s] := by
  rw [parts_eq]
  refine List.splitOnP_eq_singleton fun b hb => ?_
  simpa using fun he : b = 47 => h (he ▸ hb)

theorem notMem_of_mem_parts {p s : Text} (h : s ∈ parts p) : 47 ∉ s := by
  rw [parts_eq] at h
  intro hm
  simpa using (Text.of_mem_splitOnP h 47 hm).1

theorem join_cons_cons (a b : Text) (ps : List Text) :
    Text.join "/" (a :: b :: ps) = a ++ 47 :: Text.join "/" (b :: ps) := by
  rw [Text.join, List.append_assoc]
  · rfl
  · simp

theorem parts_join (a : Text) {ps : List Text} (h : ∀ s ∈ ps, 47 ∉ s) :
    parts (Text.join "/" (a :: ps)) = parts a ++ ps := by
  induction ps generalizing a with
  | nil => rw [List.append_nil]; rfl
  | cons b ps ih =>
      rw [join_cons_cons, parts_append_cons, ih b fun s hs => h s (List.mem_cons_of_mem b hs),
        parts_of_notMem (h b List.mem_cons_self)]
      rfl

/-! ## Shortest lists of parts -/

/-- Steps to the parent stand in front only, and nowhere in a rooted path. -/
def IsShortest (rooted : Bool) (ps : List Text) : Prop :=
  ∃ (ups : Nat) (names : List Text),
    ps = List.replicate ups (".." : Text) ++ names ∧ (rooted = true → ups = 0) ∧ ∀ s ∈ names, IsName s

theorem isShortest_names {rooted : Bool} {names : List Text} (h : ∀ s ∈ names, IsName s) : IsShortest rooted names :=
  ⟨0, names, rfl, fun _ => rfl, h⟩

theorem IsShortest.append {rooted : Bool} {ps names : List Text} (h : IsShortest rooted ps)
    (hn : ∀ s ∈ names, IsName s) : IsShortest rooted (ps ++ names) := by
  obtain ⟨ups, names', rfl, hr, hn'⟩ := h
  refine ⟨ups, names' ++ names, List.append_assoc .., hr, fun s hs => ?_⟩
  rcases List.mem_append.mp hs with hs | hs
  · exact hn' s hs
  · exact hn s hs

theorem IsShortest.mem {rooted : Bool} {ps : List Text} (h : IsShortest rooted ps) : ∀ s ∈ ps, s ≠ [] ∧ 47 ∉ s := by
  obtain ⟨ups, names, rfl, _, hn⟩ := h
  intro s hs
  rcases List.mem_append.mp hs with hs | hs
  · rw [List.eq_of_mem_replicate hs]
    decide
  · exact ⟨(hn s hs).nonempty, (hn s hs).whole⟩

theorem IsShortest.nonempty {rooted : Bool} {ps : List Text} (h : IsShortest rooted ps) : ∀ s ∈ ps, s ≠ [] :=
  fun s hs => (h.mem s hs).1

theorem IsShortest.whole {rooted : Bool} {ps : List Text} (h : IsShortest rooted ps) : ∀ s ∈ ps, 47 ∉ s :=
  fun s hs => (h.mem s hs).2

theorem pushPart_name (rooted : Bool) (acc : List Text) {s : Text} (h : IsName s) :
    pushPart rooted acc s = s :: acc := by
  simp [pushPart, h.nonempty, h.here, h.up]

theorem pushPart_still (rooted : Bool) (acc : List Text) {s : Text} (h : s = [] ∨ s = ("." : Text)) :
    pushPart rooted acc s = acc := by
  have hstill : (s.isEmpty || decide (s = ("." : Text))) = true := by simpa using h
  rw [pushPart.eq_def, if_pos hstill]

theorem pushPart_up_name (rooted : Bool) (acc : List Text) {last : Text} (h : IsName last) :
    pushPart rooted (last :: acc) (".." : Text) = acc := by
  have hmoves : ((".." : Text).isEmpty || decide ((".." : Text) = ("." : Text))) = false := by decide
  simp [pushPart, hmoves, h.up]

theorem foldl_pushPart_names (rooted : Bool) {names : List Text} (h : ∀ s ∈ names, IsName s) (acc : List Text) :
    names.foldl (pushPart rooted) acc = names.reverse ++ acc := by
  induction names generalizing acc with
  | nil => rfl
  | cons s names ih =>
      rw [List.foldl_cons, pushPart_name rooted acc (h s List.mem_cons_self),
        ih fun t ht => h t (List.mem_cons_of_mem s ht)]
      simp

theorem pushPart_up (n : Nat) :
    pushPart false (List.replicate n (".." : Text)) (".." : Text) = List.replicate (n + 1) (".." : Text) := by
  cases n with
  | zero => rfl
  | succ n => rfl

theorem foldl_pushPart_ups (n m : Nat) :
    (List.replicate n (".." : Text)).foldl (pushPart false) (List.replicate m (".." : Text)) =
      List.replicate (n + m) (".." : Text) := by
  induction n generalizing m with
  | zero => rw [Nat.zero_add]; rfl
  | succ n ih => rw [List.replicate_succ, List.foldl_cons, pushPart_up, ih, Nat.add_assoc, Nat.add_comm 1 m]

/-- Nothing is left out of a shortest list of parts. -/
theorem IsShortest.foldl {rooted : Bool} {ps : List Text} (h : IsShortest rooted ps) :
    ps.foldl (pushPart rooted) [] = ps.reverse := by
  obtain ⟨ups, names, rfl, hr, hn⟩ := h
  have hu : (List.replicate ups (".." : Text)).foldl (pushPart rooted) [] = List.replicate ups (".." : Text) := by
    cases rooted with
    | true => rw [hr rfl]; rfl
    | false => exact foldl_pushPart_ups ups 0
  rw [List.foldl_append, hu, foldl_pushPart_names rooted hn, List.reverse_append, List.reverse_replicate]

/-- One more part keeps the parts kept so far, last first, shortest. -/
theorem isShortest_pushPart {rooted : Bool} {acc : List Text} (h : IsShortest rooted acc.reverse) {part : Text}
    (hw : 47 ∉ part) : IsShortest rooted (pushPart rooted acc part).reverse := by
  unfold pushPart
  split
  · exact h
  · rename_i hne
    simp only [Bool.or_eq_true, List.isEmpty_iff, decide_eq_true_eq, not_or] at hne
    split
    · rename_i hup
      subst hup
      obtain ⟨ups, names, he, hr, hn⟩ := h
      cases acc with
      | nil => cases rooted <;> [exact ⟨1, [], rfl, by simp, by simp⟩; exact ⟨0, [], rfl, by simp, by simp⟩]
      | cons last rest =>
          rw [List.reverse_cons] at he
          rcases List.eq_nil_or_concat names with rfl | ⟨names, s, rfl⟩
          · -- Only parent steps so far, so one more of them stays.
            have hlast : last = (".." : Text) := by
              refine List.eq_of_mem_replicate (n := ups) ?_
              rw [List.append_nil] at he
              rw [← he]
              simp
            have hnr : rooted ≠ true := by
              rintro rfl
              rw [hr rfl] at he
              simp at he
            simp only [hlast, ↓reduceIte]
            refine ⟨ups + 1, [], ?_, fun ht => absurd ht hnr, by simp⟩
            rw [List.reverse_cons, List.reverse_cons, ← hlast, he, List.append_nil, List.append_nil, hlast,
              List.replicate_succ']
          · rw [List.concat_eq_append, ← List.append_assoc] at he
            obtain ⟨hrest, hs⟩ := List.append_inj' he rfl
            obtain rfl : last = s := by simpa using hs
            have hname : IsName last := hn last (by simp)
            simp only [hname.up, ↓reduceIte]
            refine ⟨ups, names, hrest, hr, fun t ht => hn t ?_⟩
            rw [List.concat_eq_append]
            exact List.mem_append_left _ ht
    · rename_i hup
      rw [List.reverse_cons]
      refine h.append fun s hs => ?_
      rw [List.mem_singleton.mp hs]
      exact ⟨hne.1, hne.2, hup, hw⟩

theorem isShortest_foldl {rooted : Bool} {ps : List Text} (hw : ∀ s ∈ ps, 47 ∉ s) {acc : List Text}
    (h : IsShortest rooted acc.reverse) : IsShortest rooted (ps.foldl (pushPart rooted) acc).reverse := by
  induction ps generalizing acc with
  | nil => exact h
  | cons s ps ih =>
      exact ih (fun t ht => hw t (List.mem_cons_of_mem s ht)) (isShortest_pushPart h (hw s List.mem_cons_self))

theorem isShortest_kept (p : Text) : IsShortest (isRooted p) (kept p) :=
  isShortest_foldl (fun _ hs => notMem_of_mem_parts hs) (isShortest_names (by simp))

/-- Parts behind a rooted path go on from the ones kept of it. -/
theorem kept_append {p u : Text} (hp : isRooted p = true) (hu : u = [] ∨ ∃ v, u = 47 :: v) :
    kept (p ++ u) = ((parts u).foldl (pushPart true) (kept p).reverse).reverse := by
  have hrooted : isRooted (p ++ u) = true := by
    cases p with
    | nil => cases hp
    | cons c p => exact hp
  rw [kept, hrooted, kept, hp, List.reverse_reverse]
  rcases hu with rfl | ⟨v, rfl⟩
  · rw [List.append_nil]
    rfl
  · have hparts : parts (47 :: v) = [] :: parts v := parts_append_cons [] v
    rw [parts_append_cons, List.foldl_append, hparts, List.foldl_cons, pushPart_still true _ (.inl rfl)]

/-! ## Spelling -/

theorem head?_join {a : Text} (ha : a ≠ []) (ps : List Text) : (Text.join "/" (a :: ps)).head? = a.head? := by
  cases ps with
  | nil => rfl
  | cons b ps =>
      rw [join_cons_cons]
      cases a with
      | nil => exact absurd rfl ha
      | cons c a => rfl

theorem isEmpty_join {ps : List Text} (h : ∀ s ∈ ps, s ≠ []) : (Text.join "/" ps).isEmpty = ps.isEmpty := by
  cases ps with
  | nil => rfl
  | cons a ps =>
      have hh := head?_join (h a List.mem_cons_self) ps
      obtain ⟨c, a, rfl⟩ := List.exists_cons_of_ne_nil (h a List.mem_cons_self)
      cases hj : Text.join "/" ((c :: a) :: ps) with
      | nil => rw [hj] at hh; cases hh
      | cons d t => rfl

theorem spell_false {ps : List Text} (h : IsShortest false ps) :
    spell false ps = if ps.isEmpty then ("." : Text) else Text.join "/" ps := by
  simp only [spell, Bool.false_eq_true, ↓reduceIte, isEmpty_join h.nonempty]

theorem isRooted_spell {rooted : Bool} {ps : List Text} (h : IsShortest rooted ps) :
    isRooted (spell rooted ps) = rooted := by
  cases rooted with
  | true => rfl
  | false =>
      rw [spell_false h]
      cases ps with
      | nil => rfl
      | cons a ps =>
          have ha := h.nonempty a List.mem_cons_self
          have hw := h.whole a List.mem_cons_self
          obtain ⟨c, a, rfl⟩ := List.exists_cons_of_ne_nil ha
          rw [List.isEmpty_cons, if_neg Bool.false_ne_true, isRooted, head?_join ha]
          simpa using fun hc : c = 47 => hw (by simp [hc])

theorem kept_spell {rooted : Bool} {ps : List Text} (h : IsShortest rooted ps) : kept (spell rooted ps) = ps := by
  rw [kept, isRooted_spell h]
  -- The parts of the spelling are those given, but for parts that are left out again.
  have hp : (parts (spell rooted ps)).foldl (pushPart rooted) [] = ps.foldl (pushPart rooted) [] := by
    cases rooted with
    | true =>
        have ha := parts_append_cons [] (Text.join "/" ps)
        rw [List.nil_append] at ha
        rw [spell, if_pos rfl, ha]
        cases ps with
        | nil => rfl
        | cons a ps =>
            rw [parts_join a fun s hs => h.whole s (List.mem_cons_of_mem a hs),
              parts_of_notMem (h.whole a List.mem_cons_self)]
            rfl
    | false =>
        rw [spell_false h]
        cases ps with
        | nil => rfl
        | cons a ps =>
            rw [List.isEmpty_cons, if_neg Bool.false_ne_true,
              parts_join a fun s hs => h.whole s (List.mem_cons_of_mem a hs),
              parts_of_notMem (h.whole a List.mem_cons_self)]
            rfl
  rw [hp, h.foldl, List.reverse_reverse]

theorem clean_spell {rooted : Bool} {ps : List Text} (h : IsShortest rooted ps) :
    clean (spell rooted ps) = spell rooted ps := by
  rw [clean_eq, isRooted_spell h, kept_spell h]

/-- Names put below a path are its last parts. -/
theorem join_eq_spell {p : Text} (hp : p ≠ []) {names : List Text} (h : ∀ s ∈ names, IsName s) :
    join (p :: names) = spell (isRooted p) (kept p ++ names) := by
  have hf : (p :: names).filter (!·.isEmpty) = p :: names := by
    refine List.filter_eq_self.mpr fun s hs => ?_
    rcases List.mem_cons.mp hs with rfl | hs
    · simpa using hp
    · simpa using (h s hs).nonempty
  have hw : ∀ s ∈ names, 47 ∉ s := fun s hs => (h s hs).whole
  have hr : isRooted (Text.join "/" (p :: names)) = isRooted p := by rw [isRooted, head?_join hp, isRooted]
  have hk : kept (Text.join "/" (p :: names)) = kept p ++ names := by
    rw [kept, hr, parts_join p hw, List.foldl_append, foldl_pushPart_names _ h, List.reverse_append,
      List.reverse_reverse, kept]
  calc
    join (p :: names) = clean (Text.join "/" (p :: names)) := by rw [join, hf]
    _ = spell (isRooted p) (kept p ++ names) := by rw [clean_eq, hr, hk]

theorem spell_ne_nil {rooted : Bool} {ps : List Text} (h : IsShortest rooted ps) : spell rooted ps ≠ [] := by
  cases rooted with
  | true => exact List.cons_ne_nil _ _
  | false =>
      rw [spell_false h]
      split
      · decide
      · rename_i he
        intro hj
        rw [← isEmpty_join h.nonempty, hj] at he
        exact he rfl

theorem join_spell {rooted : Bool} {ps names : List Text} (h : IsShortest rooted ps) (hn : ∀ s ∈ names, IsName s) :
    join (spell rooted ps :: names) = spell rooted (ps ++ names) := by
  rw [join_eq_spell (spell_ne_nil h) hn, isRooted_spell h, kept_spell h]

/-! ## The last part -/

theorem cutAtLast_append {s : Text} (h : 47 ∉ s) (t : Text) : Text.cutAtLast 47 (t ++ 47 :: s) = (some t, s) := by
  have hr : 47 ∉ s.reverse := by simpa using h
  have hc := (Text.cutAt_of_notMem hr t.reverse).1
  rw [Text.cutAtLast, List.reverse_append, List.reverse_cons, List.append_assoc, List.singleton_append, hc]
  simp

theorem cutAtLast_of_notMem {s : Text} (h : 47 ∉ s) : Text.cutAtLast 47 s = (none, s) := by
  have hr : 47 ∉ s.reverse := by simpa using h
  have hc := (Text.cutAt_of_notMem hr []).2
  rw [Text.cutAtLast, hc]
  simp

theorem join_concat (a : Text) (ps : List Text) (s : Text) :
    Text.join "/" (a :: (ps ++ [s])) = Text.join "/" (a :: ps) ++ 47 :: s := by
  induction ps generalizing a with
  | nil => rw [List.nil_append, join_cons_cons]; rfl
  | cons b ps ih => rw [List.cons_append, join_cons_cons, ih, join_cons_cons, List.append_assoc, List.cons_append]

theorem clean_slash {t : Text} (ht : t ≠ []) : clean (t ++ [47]) = clean t := by
  have hr : isRooted (t ++ [47]) = isRooted t := by
    cases t with
    | nil => exact absurd rfl ht
    | cons b t => rfl
  have hk : kept (t ++ [47]) = kept t := by
    have hp : parts (t ++ [47]) = parts t ++ [[]] := parts_append_cons t []
    rw [kept, hr, hp, List.foldl_append, kept]
    rfl
  rw [clean_eq, hr, hk, clean_eq]

/-- A spelling with a last name is that name alone, or the name behind a slash. -/
theorem spell_concat {rooted : Bool} {ps : List Text} {s : Text} (h : IsShortest rooted ps) (hs : IsName s) :
    spell rooted ps = ("." : Text) ∧ spell rooted (ps ++ [s]) = s ∨
      ∃ t, spell rooted (ps ++ [s]) = t ++ 47 :: s ∧ clean (t ++ [47]) = spell rooted ps := by
  have hn := h.append fun t ht => List.mem_singleton.mp ht ▸ hs
  cases ps with
  | nil =>
      cases rooted with
      | true => exact .inr ⟨[], rfl, rfl⟩
      | false => exact .inl ⟨rfl, by rw [spell_false hn]; rfl⟩
  | cons a ps =>
      refine .inr ⟨spell rooted (a :: ps), ?_, by rw [clean_slash (spell_ne_nil h), clean_spell h]⟩
      cases rooted with
      | true => rw [spell, if_pos rfl, List.cons_append, join_concat]; rfl
      | false => rw [spell_false hn, spell_false h, List.cons_append, join_concat]; rfl

theorem dir_spell {rooted : Bool} {ps : List Text} {s : Text} (h : IsShortest rooted ps) (hs : IsName s) :
    dir (spell rooted (ps ++ [s])) = spell rooted ps := by
  rcases spell_concat h hs with ⟨hd, he⟩ | ⟨t, he, ht⟩
  · rw [he, dir, cutAtLast_of_notMem hs.whole, hd]
  · rw [he, dir, cutAtLast_append hs.whole]
    exact ht

end Abacus.Path
