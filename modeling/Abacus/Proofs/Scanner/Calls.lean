import Abacus.Proofs.Scanner.Stream
import Abacus.Proofs.Text.Ascii

/-!
# Call after call

Between two calls a scanner is ahead of the tokens that it has handed out by one token at most. What it has noted are
the unknown ones among those and the token that is waiting, and its line is that of the last token or the next one.
After the tokens of the source it hands out the end of the input for ever.
-/

namespace Abacus

/-- The tokens that the scanner did not know. -/
def unknowns (ts : List Token) : List Token := ts.filter fun t => t.kind == .unknown

@[simp] theorem unknowns_nil : unknowns [] = [] := rfl

@[simp] theorem unknowns_append (ts us : List Token) : unknowns (ts ++ us) = unknowns ts ++ unknowns us :=
  List.filter_append ts us

theorem kind_of_isLineBreak {t : Token} (h : t.isLineBreak = true) : t.kind = .symbol := by
  simp only [Token.isLineBreak, Token.is, Bool.and_eq_true, beq_iff_eq] at h
  exact h.1

theorem unknowns_of_isLineBreak {ts : List Token} (h : ∀ t ∈ ts, t.isLineBreak = true) : unknowns ts = [] :=
  List.filter_eq_nil_iff.mpr fun t ht => by simp [kind_of_isLineBreak (h t ht)]

theorem unknowns_replicate_eof (n : Nat) (line : Int) : unknowns (List.replicate n (Token.eof line)) = [] :=
  List.filter_eq_nil_iff.mpr fun t ht => by simp [List.eq_of_mem_replicate ht, Token.eof]

theorem unknowns_collapse (suppress : Bool) (ts : List Token) : unknowns (collapse suppress ts) = unknowns ts := by
  induction ts generalizing suppress with
  | nil => rfl
  | cons t ts ih =>
      unfold collapse
      split
      · rename_i hb
        have ht : t.isLineBreak = true := (Bool.and_eq_true_iff.mp hb).2
        simpa [unknowns, kind_of_isLineBreak ht] using ih true
      · have hcons (us : List Token) : unknowns (t :: us) = unknowns [t] ++ unknowns us := unknowns_append [t] us
        rw [hcons (collapse _ ts), hcons ts, ih]

namespace Scanner

/-! ## What reading a character adds -/

/-- From `s` to `s'` the tokens `fresh` became ready, all of them on the line of `s`. -/
structure Adds (s s' : Scanner) (fresh : List Token) : Prop where
  ready : s'.ready = s.ready ++ fresh
  diagnostics : s'.diagnostics.toList = s.diagnostics.toList ++ unknowns fresh
  line : ∀ t ∈ fresh, t.line = s.line

theorem Adds.trans {s₁ s₂ s₃ : Scanner} {ts us : List Token} (h : Adds s₁ s₂ ts) (h' : Adds s₂ s₃ us)
    (hl : s₂.line = s₁.line) : Adds s₁ s₃ (ts ++ us) where
  ready := by rw [h'.ready, h.ready, List.append_assoc]
  diagnostics := by rw [h'.diagnostics, h.diagnostics, unknowns_append, List.append_assoc]
  line := List.forall_mem_append.mpr ⟨h.line, fun t ht => hl ▸ h'.line t ht⟩

theorem adds_emit (s : Scanner) (t : Text) : Adds s (s.emit t) [tokenOn s.line t] where
  ready := rfl
  diagnostics := by
    unfold emit unknowns tokenOn
    by_cases hk : classify t = .unknown <;> simp [hk]
  line := List.forall_mem_singleton.mpr rfl

theorem adds_flush (s : Scanner) : Adds s s.flush (pendingToken s.line s.pending) := by
  unfold flush pendingToken
  split
  · exact ⟨(List.append_nil _).symm, (List.append_nil _).symm, List.forall_mem_nil _⟩
  · have h := adds_emit s (Text.ofChars s.pending.reverse)
    exact ⟨h.ready, h.diagnostics, h.line⟩

theorem adds_flush_emit (s : Scanner) (t : Text) :
    Adds s (s.flush.emit t) (pendingToken s.line s.pending ++ [tokenOn s.line t]) := by
  have h := (adds_flush s).trans (adds_emit s.flush t) (flush_line s)
  rwa [flush_line] at h

theorem length_pendingToken_le (line : Nat) (pending : List Char) : (pendingToken line pending).length ≤ 1 := by
  unfold pendingToken
  split <;> simp

/-- One character makes two tokens ready at most: the lexeme that it ends and its own. -/
theorem exists_adds_step (s : Scanner) (c : Char) : ∃ fresh, fresh.length ≤ 2 ∧ Adds s (s.step c) fresh := by
  have hp := length_pendingToken_le s.line s.pending
  have htwo (t : Text) : (pendingToken s.line s.pending ++ [tokenOn s.line t]).length ≤ 2 := by simpa using hp
  unfold step
  split
  · have h := adds_flush_emit s Token.lineBreak
    exact ⟨_, htwo _, h.ready, h.diagnostics, h.line⟩
  · split
    · exact ⟨_, by omega, adds_flush s⟩
    · split
      · exact ⟨_, htwo _, adds_flush_emit s _⟩
      · split
        · exact ⟨[], by simp, (List.append_nil _).symm, (List.append_nil _).symm, List.forall_mem_nil _⟩
        · exact ⟨_, htwo _, adds_flush_emit s _⟩

/-! ## The books between two calls -/

/-- The scanner is on the line of the token or on the next one. -/
def IsAt (s : Scanner) (t : Token) : Prop := (s.line : Int) = t.line ∨ (s.line : Int) = t.line + 1

/-- What holds of a scanner that has handed out `given` and has `cs` ahead, where the source ends on line `last`. -/
structure Books (given : List Token) (last : Nat) (s : Scanner) (cs : List Char) : Prop where
  queued : s.ready.length ≤ 2
  noted : s.diagnostics.toList = unknowns given ++ unknowns s.ready
  near : ∀ t ∈ s.ready, s.IsAt t
  counted : s.line + cs.count '\n' = last

/-- What a call leaves: the token is among those handed out, and one more is waiting at most. -/
structure Handed (given : List Token) (last : Nat) (r : Token × Scanner) : Prop where
  books : Books (given ++ [r.1]) last r.2 r.2.rest
  queued : r.2.ready.length ≤ 1
  near : r.2.IsAt r.1

section
variable {given : List Token} {last : Nat} {s : Scanner} {cs : List Char}

theorem exists_dropped (s : Scanner) :
    ∃ dropped, s.ready = dropped ++ s.surfacing ∧ ∀ t ∈ dropped, t.isLineBreak = true := by
  unfold surfacing
  split
  · exact ⟨s.ready.takeWhile Token.isLineBreak, List.takeWhile_append_dropWhile.symm, fun _ => List.mem_takeWhile_imp⟩
  · exact ⟨[], rfl, List.forall_mem_nil _⟩

/-- Line breaks that are left out change nothing. -/
theorem Books.skip (h : Books given last s cs) (hs : s.surfacing = []) :
    Books given last { s with ready := [] } cs := by
  obtain ⟨dropped, hr, hb⟩ := exists_dropped s
  rw [hs, List.append_nil] at hr
  refine ⟨Nat.zero_le 2, ?_, List.forall_mem_nil _, h.counted⟩
  have hn := h.noted
  rwa [hr, unknowns_of_isLineBreak hb] at hn

theorem Books.step {c : Char} (h : Books given last s (c :: cs)) (hr : s.ready = []) :
    Books given last (s.step c) cs := by
  obtain ⟨fresh, hl, ha⟩ := exists_adds_step s c
  have hready : (s.step c).ready = fresh := by rw [ha.ready, hr, List.nil_append]
  have hline := step_line s c
  refine ⟨hready ▸ hl, ?_, ?_, ?_⟩
  · rw [ha.diagnostics, h.noted, hr, hready, unknowns_nil, List.append_nil]
  · intro t ht
    have htl := ha.line t (hready ▸ ht)
    unfold IsAt
    rw [hline, htl, List.count_singleton]
    split <;> omega
  · have hc := h.counted
    rw [List.count_cons] at hc
    rw [hline, List.count_singleton]
    omega

theorem Books.flush (h : Books given last s []) (hr : s.ready = []) : Books given last s.flush [] := by
  have ha := adds_flush s
  have hready : s.flush.ready = pendingToken s.line s.pending := by rw [ha.ready, hr, List.nil_append]
  refine ⟨?_, ?_, ?_, ?_⟩
  · have hp := length_pendingToken_le s.line s.pending
    rw [hready]
    omega
  · rw [ha.diagnostics, h.noted, hr, hready, unknowns_nil, List.append_nil]
  · intro t ht
    rw [IsAt, flush_line, ha.line t (hready ▸ ht)]
    exact .inl rfl
  · rw [flush_line]
    exact h.counted

/-- A token is handed out together with the line breaks before it, which are left out. -/
theorem Books.handed (h : Books given last s cs) {dropped : List Token} {t : Token} {more : List Token}
    (hr : s.ready = dropped ++ t :: more) (hb : ∀ u ∈ dropped, u.isLineBreak = true) :
    Handed given last (t, { s with rest := cs, ready := more, last := some t }) := by
  have hq := h.queued
  have hn := h.noted
  have near := h.near
  rw [hr] at hq hn near
  simp only [List.length_append, List.length_cons] at hq
  have hone : more.length ≤ 1 := by omega
  obtain ⟨ht, hmore⟩ := List.forall_mem_cons.mp (List.forall_mem_append.mp near).2
  refine ⟨⟨Nat.le_succ_of_le hone, ?_, hmore, h.counted⟩, hone, ht⟩
  have hcons : unknowns (t :: more) = unknowns [t] ++ unknowns more := unknowns_append [t] more
  rw [hn, unknowns_append, unknowns_of_isLineBreak hb, hcons, unknowns_append, List.nil_append, List.append_assoc]

theorem Books.surfaced (h : Books given last s cs) {t : Token} {more : List Token} (hs : s.surfacing = t :: more) :
    Handed given last (t, { s with rest := cs, ready := more, last := some t }) := by
  obtain ⟨dropped, hr, hb⟩ := exists_dropped s
  exact h.handed (hs ▸ hr) hb

/-- The end of the input is handed out from an empty queue, on the line where the source ends. -/
theorem Books.ended (h : Books given last s []) (hr : s.ready = []) :
    Handed given last (Token.eof s.line, { s with rest := [] }) := by
  have he : unknowns [Token.eof s.line] = [] := unknowns_replicate_eof 1 s.line
  refine ⟨⟨h.queued, ?_, h.near, h.counted⟩, ?_, .inl rfl⟩
  · rw [unknowns_append, he, List.append_nil]
    exact h.noted
  · simp [hr]

theorem nextOver_handed (h : Books given last s cs) : Handed given last (s.nextOver cs) := by
  fun_induction nextOver s cs with
  | case1 s t more hs => exact h.surfaced hs
  | case2 s hs s' t more hr => exact ((h.skip hs).flush rfl).handed (List.nil_append _ ▸ hr) (List.forall_mem_nil _)
  | case3 s hs s' hr => exact ((h.skip hs).flush rfl).ended hr
  | case4 s c cs t more hs => exact h.surfaced hs
  | case5 s c cs hs ih => exact ih ((h.skip hs).step rfl)

end

/-! ## Any number of calls -/

/-- The tokens that `n` calls hand out, and the scanner after them. -/
def calls (s : Scanner) : Nat → List Token × Scanner
  | 0 => ([], s)
  | n + 1 =>
    let (ts, s') := s.calls n
    let (t, s'') := s'.next
    (ts ++ [t], s'')

theorem calls_succ (s : Scanner) (n : Nat) :
    s.calls (n + 1) = ((s.calls n).1 ++ [(s.calls n).2.next.1], (s.calls n).2.next.2) := rfl

section
variable {last : Nat} {s : Scanner}

theorem calls_handed (h : Books [] last s s.rest) (n : Nat) :
    Handed (s.calls n).1 last (s.calls n).2.next := by
  induction n with
  | zero => exact nextOver_handed h
  | succ n ih => exact nextOver_handed ih.books

theorem calls_books (h : Books [] last s s.rest) (n : Nat) :
    Books (s.calls n).1 last (s.calls n).2 (s.calls n).2.rest := by
  cases n with
  | zero => exact h
  | succ n => exact (calls_handed h n).books

/-- The calls take the tokens to come one by one; when none is left, they find the end of the input each time. -/
theorem calls_tokens (hp : s.InLexeme) (h : Books [] last s s.rest) (n : Nat) :
    (s.calls n).1 = s.remaining.take n ++ List.replicate (n - s.remaining.length) (Token.eof last) ∧
      (s.calls n).2.remaining = s.remaining.drop n ∧ (s.calls n).2.InLexeme := by
  induction n with
  | zero => exact ⟨by simp [calls], rfl, hp⟩
  | succ n ih =>
      obtain ⟨hts, hrem, hp'⟩ := ih
      have hlast := (calls_books h n).counted
      rw [calls_succ, hts]
      rcases nextOver_cases hp' (s.calls n).2.rest with ⟨t, s', hn, hr, hl⟩ | ⟨s', hn, hr, hr', hl⟩
      · have hdrop : s.remaining.drop n = t :: s'.remaining := hrem.symm.trans hr
        have hlt : n < s.remaining.length := by
          refine Nat.lt_of_not_le fun hle => ?_
          rw [List.drop_of_length_le hle] at hdrop
          cases hdrop
        have ht : s.remaining[n]? = some t := by
          rw [← List.head?_drop, hdrop]
          rfl
        have hzero : n - s.remaining.length = 0 ∧ n + 1 - s.remaining.length = 0 := by omega
        simp only [next, hn]
        refine ⟨?_, ?_, hl⟩
        · simp [hzero, List.take_add_one, ht]
        · rw [← List.drop_drop, hdrop]
          rfl
      · have hdrop : s.remaining.drop n = [] := hrem.symm.trans hr
        have hle : s.remaining.length ≤ n := List.drop_eq_nil_iff.mp hdrop
        have hsucc : n + 1 - s.remaining.length = (n - s.remaining.length) + 1 := by omega
        simp only [next, hn, hlast]
        refine ⟨?_, ?_, hl⟩
        · rw [hsucc, List.replicate_succ', List.take_of_length_le hle, List.take_of_length_le (Nat.le_succ_of_le hle),
            List.append_assoc]
        · rw [hr', List.drop_of_length_le (Nat.le_succ_of_le hle)]

end

theorem remaining_start (source : Text) : (start source).remaining = tokenize source :=
  (tokenize_eq_collapse source).symm

theorem books_start (source : Text) : Books [] (1 + source.count 10) (start source) (start source).rest :=
  ⟨Nat.zero_le 2, rfl, List.forall_mem_nil _,
    congrArg (1 + ·) (Text.count_chars (b := 10) (by decide) source)⟩

/-- Whatever is noted and not handed out is waiting, so nothing is once the end of the input was found. -/
theorem unknowns_ready_of_remaining {s : Scanner} (h : s.remaining = []) : unknowns s.ready = [] := by
  have hu := unknowns_collapse s.suppressesBreak (s.backlog s.rest)
  have hr : collapse s.suppressesBreak (s.backlog s.rest) = [] := h
  rw [hr, backlog, unknowns_append] at hu
  exact (List.append_eq_nil_iff.mp hu.symm).1

end Scanner

theorem kind_ne_of_mem_tokenize {source : Text} {t : Token} (h : t ∈ tokenize source) : t.kind ≠ .endOfInput := by
  rw [tokenize_eq_collapse] at h
  rw [Scanner.kind_of_mem_readout t ((Scanner.collapse_sublist _ _).mem h)]
  exact classify_ne_endOfInput t.text

/-- However often a scanner is called, it hands out the tokens of the source and then, for ever, the end of the input on
the last line. After each call one token is waiting at most; the unknown tokens handed out and that one, if it is
unknown, are what has been noted, in order, and all unknown tokens of the source have been noted once the end of the
input was handed out; and the line is that of the token just handed out or the next one. -/
theorem Scanner.calls_start (source : Text) (n : Nat) :
    let ts := ((start source).calls n).1
    let s := ((start source).calls n).2
    let tokens := tokenize source
    ts = tokens.take n ++ List.replicate (n - tokens.length) (Token.eof (1 + source.count 10 : Nat)) ∧
      s.ready.length ≤ 1 ∧
      s.diagnostics.toList = unknowns ts ++ unknowns s.ready ∧
      ((∃ t ∈ ts, t.kind = .endOfInput) → s.diagnostics.toList = unknowns tokens) ∧
      ∀ t ∈ ts.getLast?, (s.line : Int) = t.line ∨ (s.line : Int) = t.line + 1 := by
  intro ts s tokens
  have hb := books_start source
  obtain ⟨hts, hrem, _⟩ := calls_tokens (s := start source) (List.forall_mem_nil _) hb n
  rw [remaining_start] at hts hrem
  have hts : ts = tokens.take n ++ List.replicate (n - tokens.length) (Token.eof (1 + source.count 10 : Nat)) := hts
  have hnoted : s.diagnostics.toList = unknowns ts ++ unknowns s.ready := (calls_books hb n).noted
  refine ⟨hts, ?_, hnoted, ?_, ?_⟩
  · cases n with
    | zero => exact Nat.zero_le 1
    | succ n => exact (calls_handed hb n).queued
  · rintro ⟨t, ht, hk⟩
    have hle : tokens.length ≤ n := by
      refine Nat.le_of_not_lt fun hlt => ?_
      rw [hts, Nat.sub_eq_zero_of_le (Nat.le_of_lt hlt), List.replicate_zero, List.append_nil] at ht
      exact kind_ne_of_mem_tokenize (List.mem_of_mem_take ht) hk
    have hready : unknowns s.ready = [] := unknowns_ready_of_remaining (hrem.trans (List.drop_of_length_le hle))
    rw [hnoted, hready, hts, unknowns_append, unknowns_replicate_eof, List.take_of_length_le hle, List.append_nil,
      List.append_nil]
  · cases n with
    | zero => exact fun t ht => nomatch ht
    | succ n =>
        intro t ht
        have hlast : ts.getLast? = some ((start source).calls n).2.next.1 := by simp [ts, calls_succ]
        cases hlast.symm.trans ht
        exact (calls_handed hb n).near

example : ((Scanner.start "x\n").calls 1).2.ready.length = 1 ∧ ((Scanner.start "x\n").calls 1).2.line = 2 :=
  ⟨rfl, rfl⟩

end Abacus
