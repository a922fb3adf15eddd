import Abacus.Token.Scanner

/-!
# The tokens still to come

A scanner's state determines every token that it is ever going to hand out. Reading a character keeps what is
to come, and a call takes the first of it off.
-/

namespace Abacus

/-! ## Lexemes -/

theorem Text.ofChars_injective {cs ds : List Char} (h : ofChars cs = ofChars ds) : cs = ds := by
  have hb : cs.utf8Encode = ds.utf8Encode := congrArg List.toByteArray h
  have hs : String.ofList cs = String.ofList ds := String.toByteArray_inj.mp hb
  simpa using congrArg String.toList hs

theorem classify_ne_endOfInput (t : Text) : classify t ≠ .endOfInput := by
  unfold classify
  repeat' split
  all_goals simp

theorem not_isLexemeChar_of_mem_separators {c : Char} (h : c ∈ separators) : isLexemeChar c = false := by
  have ha : (separators.all fun c => !isLexemeChar c) = true := rfl
  simpa using List.all_eq_true.mp ha c h

/-- Of a run of line breaks only the first is kept, and none where `suppress` says that they are left out. -/
def collapse : Bool → List Token → List Token
  | _, [] => []
  | suppress, t :: ts =>
    if suppress && t.isLineBreak then collapse true ts else t :: collapse t.isLineBreak ts

namespace Scanner

/-! ## What one character adds -/

def tokenOn (line : Nat) (lexeme : Text) : Token := ⟨classify lexeme, lexeme, line⟩

def pendingToken (line : Nat) (pending : List Char) : List Token :=
  if pending.isEmpty then [] else [tokenOn line (Text.ofChars pending.reverse)]

@[simp] theorem pendingToken_nil (line : Nat) : pendingToken line [] = [] := rfl

/-- The tokens that reading `cs` to its end makes ready, line breaks included. -/
def readout (line : Nat) (pending : List Char) : List Char → List Token
  | [] => pendingToken line pending
  | c :: cs =>
    if c = '\n' then pendingToken line pending ++ tokenOn line Token.lineBreak :: readout (line + 1) [] cs
    else if isSpace c then pendingToken line pending ++ readout line [] cs
    else if isLexemeChar c then readout line (c :: pending) cs
    else pendingToken line pending ++ tokenOn line (Text.ofChar c) :: readout line [] cs

/-- The tokens that a scanner with `cs` ahead has made ready or is going to. -/
def backlog (s : Scanner) (cs : List Char) : List Token := s.ready ++ readout s.line s.pending cs

@[simp] theorem emit_ready (s : Scanner) (t : Text) : (s.emit t).ready = s.ready ++ [tokenOn s.line t] := rfl

@[simp] theorem emit_line (s : Scanner) (t : Text) : (s.emit t).line = s.line := rfl

@[simp] theorem emit_pending (s : Scanner) (t : Text) : (s.emit t).pending = s.pending := rfl

@[simp] theorem emit_last (s : Scanner) (t : Text) : (s.emit t).last = s.last := rfl

@[simp] theorem flush_ready (s : Scanner) : s.flush.ready = s.ready ++ pendingToken s.line s.pending := by
  unfold flush pendingToken
  split
  · rw [List.append_nil]
  · rfl

@[simp] theorem flush_line (s : Scanner) : s.flush.line = s.line := by
  unfold flush
  split <;> rfl

@[simp] theorem flush_pending (s : Scanner) : s.flush.pending = [] := by
  unfold flush
  split
  · rename_i h
    exact List.isEmpty_iff.mp h
  · rfl

@[simp] theorem flush_last (s : Scanner) : s.flush.last = s.last := by
  unfold flush
  split <;> rfl

theorem step_last (s : Scanner) (c : Char) : (s.step c).last = s.last := by
  unfold step
  repeat' split
  all_goals simp

theorem step_line (s : Scanner) (c : Char) : (s.step c).line = s.line + [c].count '\n' := by
  unfold step
  split
  · rename_i hn
    simp [hn]
  · rename_i hn
    repeat' split
    all_goals simp [hn]

/-- Reading a character moves tokens from what is going to be ready to what is. -/
theorem backlog_step (s : Scanner) (c : Char) (cs : List Char) : (s.step c).backlog cs = s.backlog (c :: cs) := by
  by_cases hn : c = '\n'
  · simp [step, backlog, readout, hn]
  · by_cases hs : isSpace c = true
    · simp [step, backlog, readout, hn, hs]
    · by_cases hl : isLexemeChar c = true
      · have hm : c ∉ separators := fun h => by simp [not_isLexemeChar_of_mem_separators h] at hl
        simp [step, backlog, readout, hn, hs, hl, hm]
      · simp [step, backlog, readout, hn, hs, hl]

/-! ## The pending lexeme -/

/-- What is pending is part of a lexeme; every scanner that is in use is like this. -/
def InLexeme (s : Scanner) : Prop := ∀ c ∈ s.pending, isLexemeChar c = true

theorem inLexeme_flush (s : Scanner) : s.flush.InLexeme := by
  simp [InLexeme]

theorem inLexeme_step {s : Scanner} (h : s.InLexeme) (c : Char) : (s.step c).InLexeme := by
  unfold step
  repeat' split
  case isFalse.isFalse.isFalse.isTrue hl =>
    intro d hd
    rcases List.mem_cons.mp hd with rfl | hd
    · exact hl
    · exact h d hd
  all_goals simp [InLexeme]

theorem isLineBreak_tokenOn (line : Nat) (t : Text) : (tokenOn line t).isLineBreak = true ↔ t = Token.lineBreak := by
  constructor
  · intro h
    simp only [Token.isLineBreak, Token.is, tokenOn, Bool.and_eq_true, beq_iff_eq] at h
    exact h.2
  · rintro rfl
    rfl

theorem not_isLineBreak_of_ne (line : Nat) {cs : List Char} (h : cs ≠ ['\n']) :
    (tokenOn line (Text.ofChars cs)).isLineBreak = false := by
  refine Bool.eq_false_iff.mpr fun hb => h ?_
  have he : Text.ofChars cs = Text.ofChars ['\n'] := (isLineBreak_tokenOn _ _).mp hb
  exact Text.ofChars_injective he

theorem not_isLineBreak_pendingToken (line : Nat) {pending : List Char} (h : ∀ c ∈ pending, isLexemeChar c = true) :
    ∀ t ∈ pendingToken line pending, t.isLineBreak = false := by
  intro t ht
  unfold pendingToken at ht
  split at ht
  · cases ht
  · cases List.mem_singleton.mp ht
    refine not_isLineBreak_of_ne line fun he => ?_
    have hn := h '\n' (List.mem_reverse.mp (by rw [he]; exact List.mem_singleton_self _))
    exact absurd hn (by decide)

/-! ## What one call takes -/

/-- The tokens that a scanner with `cs` ahead is going to hand out. -/
def upcoming (s : Scanner) (cs : List Char) : List Token := collapse s.suppressesBreak (s.backlog cs)

def remaining (s : Scanner) : List Token := s.upcoming s.rest

theorem collapse_true_dropWhile (ts us : List Token) :
    collapse true (ts.dropWhile Token.isLineBreak ++ us) = collapse true (ts ++ us) := by
  induction ts with
  | nil => rfl
  | cons t ts ih =>
      cases ht : t.isLineBreak with
      | true => simp [ht, collapse, ih]
      | false => simp [ht]

theorem upcoming_eq_collapse_surfacing (s : Scanner) (cs : List Char) :
    s.upcoming cs = collapse s.suppressesBreak (s.surfacing ++ readout s.line s.pending cs) := by
  unfold upcoming backlog surfacing
  cases s.suppressesBreak with
  | true => exact (collapse_true_dropWhile _ _).symm
  | false => rfl

theorem surfacing_head {s : Scanner} {t : Token} {more : List Token} (h : s.surfacing = t :: more) :
    (s.suppressesBreak && t.isLineBreak) = false := by
  unfold surfacing at h
  cases hs : s.suppressesBreak with
  | false => rfl
  | true =>
      simp only [hs, ↓reduceIte] at h
      have ht := List.head?_dropWhile_not Token.isLineBreak s.ready
      simpa [h] using ht

theorem upcoming_of_surfacing {s : Scanner} {t : Token} {more : List Token} (h : s.surfacing = t :: more)
    (cs : List Char) :
    s.upcoming cs = t :: collapse t.isLineBreak (more ++ readout s.line s.pending cs) := by
  rw [upcoming_eq_collapse_surfacing, h, List.cons_append, collapse, surfacing_head h]
  rfl

theorem upcoming_of_surfacing_nil {s : Scanner} (h : s.surfacing = []) (cs : List Char) :
    s.upcoming cs = ({ s with ready := [] } : Scanner).upcoming cs := by
  rw [upcoming_eq_collapse_surfacing, h]
  rfl

theorem upcoming_nil_of_surfacing_nil {s : Scanner} (hp : s.InLexeme) (h : s.surfacing = []) :
    s.upcoming [] = pendingToken s.line s.pending := by
  have hb := not_isLineBreak_pendingToken s.line hp
  rw [upcoming_eq_collapse_surfacing, h, List.nil_append, readout]
  unfold pendingToken at hb ⊢
  split
  · rfl
  · rename_i he
    simp only [he] at hb
    simp [collapse, hb]

theorem upcoming_step (s : Scanner) (c : Char) (cs : List Char) : (s.step c).upcoming cs = s.upcoming (c :: cs) := by
  unfold upcoming suppressesBreak
  rw [step_last, backlog_step]

/-- Reading on hands out the first of the tokens to come and leaves the others, or finds the end of the input, which
is on the last line. -/
theorem nextOver_cases {s : Scanner} (hp : s.InLexeme) (cs : List Char) :
    (∃ t s', s.nextOver cs = (t, s') ∧ s.upcoming cs = t :: s'.remaining ∧ s'.InLexeme) ∨
      ∃ s', s.nextOver cs = (Token.eof (s.line + cs.count '\n' : Nat), s') ∧ s.upcoming cs = [] ∧
        s'.remaining = [] ∧ s'.InLexeme := by
  induction cs generalizing s with
  | nil =>
      unfold nextOver
      split
      · rename_i tok more hs
        exact .inl ⟨tok, _, rfl, upcoming_of_surfacing hs [], hp⟩
      · rename_i hs
        simp only [flush_ready, List.nil_append]
        rw [upcoming_nil_of_surfacing_nil hp hs]
        split
        · rename_i tok more hr
          have hmore : more = [] := by
            unfold pendingToken at hr
            split at hr <;> simp_all
          refine .inl ⟨tok, _, rfl, ?_, inLexeme_flush _⟩
          simp [hr, hmore, remaining, upcoming, backlog, readout, collapse]
        · rename_i hr
          refine .inr ⟨_, Prod.ext (congrArg Token.eof ?_) rfl, hr, ?_, inLexeme_flush { s with ready := [] }⟩
          · simp
          · simp [hr, remaining, upcoming, backlog, readout, collapse]
  | cons c cs ih =>
      unfold nextOver
      split
      · rename_i tok more hs
        exact .inl ⟨tok, _, rfl, upcoming_of_surfacing hs (c :: cs), hp⟩
      · rename_i hs
        have hr : ({ s with ready := [] } : Scanner).InLexeme := hp
        have hline : s.line + (c :: cs).count '\n' =
            (({ s with ready := [] } : Scanner).step c).line + cs.count '\n' := by
          rw [step_line, List.count_cons, List.count_singleton, Nat.add_assoc, Nat.add_comm (cs.count '\n')]
        rw [upcoming_of_surfacing_nil hs, ← upcoming_step, hline]
        exact ih (inLexeme_step hr c)

/-! ## A whole run -/

theorem collapse_sublist (suppress : Bool) (ts : List Token) : (collapse suppress ts).Sublist ts := by
  induction ts generalizing suppress with
  | nil => exact .slnil
  | cons t ts ih =>
      unfold collapse
      split
      · exact (ih true).cons t
      · exact (ih t.isLineBreak).cons_cons t

theorem kind_of_mem_pendingToken {line : Nat} {pending : List Char} :
    ∀ t ∈ pendingToken line pending, t.kind = classify t.text := by
  intro t ht
  unfold pendingToken at ht
  split at ht
  · cases ht
  · cases List.mem_singleton.mp ht
    rfl

theorem kind_of_mem_readout {line : Nat} {pending cs : List Char} :
    ∀ t ∈ readout line pending cs, t.kind = classify t.text := by
  induction cs generalizing line pending with
  | nil => exact kind_of_mem_pendingToken
  | cons c cs ih =>
      intro t ht
      unfold readout at ht
      repeat' split at ht
      · rcases List.mem_append.mp ht with ht | ht
        · exact kind_of_mem_pendingToken t ht
        · rcases List.mem_cons.mp ht with rfl | ht
          · rfl
          · exact ih t ht
      · rcases List.mem_append.mp ht with ht | ht
        · exact kind_of_mem_pendingToken t ht
        · exact ih t ht
      · exact ih t ht
      · rcases List.mem_append.mp ht with ht | ht
        · exact kind_of_mem_pendingToken t ht
        · rcases List.mem_cons.mp ht with rfl | ht
          · rfl
          · exact ih t ht

theorem length_readout_le (line : Nat) (pending cs : List Char) :
    (readout line pending cs).length ≤ (pendingToken line pending).length + cs.length := by
  induction cs generalizing line pending with
  | nil => exact Nat.le_refl _
  | cons c cs ih =>
      have hs : (readout line [] cs).length ≤ 0 + cs.length := ih line []
      have hn : (readout (line + 1) [] cs).length ≤ 0 + cs.length := ih (line + 1) []
      have hl : (readout line (c :: pending) cs).length ≤ 1 + cs.length := ih line (c :: pending)
      unfold readout
      repeat' split
      all_goals simp only [List.length_append, List.length_cons]; omega

theorem drain_eq_take (calls : Nat) {s : Scanner} (hp : s.InLexeme)
    (hk : ∀ t ∈ s.remaining, t.kind ≠ .endOfInput) : s.drain calls = s.remaining.take calls := by
  induction calls generalizing s with
  | zero => rfl
  | succ calls ih =>
      unfold drain next
      rcases nextOver_cases hp s.rest with ⟨t, s', hn, hr, hp'⟩ | ⟨s', hn, hr, _⟩
      · have hr : s.remaining = t :: s'.remaining := hr
        rw [hr] at hk ⊢
        have ht : t.kind ≠ .endOfInput := hk t List.mem_cons_self
        have hts : ∀ u ∈ s'.remaining, u.kind ≠ .endOfInput := fun u hu => hk u (List.mem_cons_of_mem t hu)
        simp only [hn, ht, ↓reduceIte, ih hp' hts, List.take_succ_cons]
      · have hr : s.remaining = [] := hr
        rw [hn, hr]
        rfl

end Scanner

theorem tokenize_eq_collapse (source : Text) :
    tokenize source = collapse true (Scanner.readout 1 [] source.chars) := by
  have hr : (Scanner.start source).remaining = collapse true (Scanner.readout 1 [] source.chars) := rfl
  have hp : (Scanner.start source).InLexeme := fun c hc => nomatch hc
  have hk : ∀ t ∈ (Scanner.start source).remaining, t.kind ≠ .endOfInput := by
    intro t ht
    rw [Scanner.kind_of_mem_readout t ((Scanner.collapse_sublist _ _).mem (hr ▸ ht))]
    exact classify_ne_endOfInput t.text
  have hl : (collapse true (Scanner.readout 1 [] source.chars)).length ≤ source.chars.length :=
    calc
      _ ≤ (Scanner.readout 1 [] source.chars).length := (Scanner.collapse_sublist _ _).length_le
      _ ≤ 0 + source.chars.length := Scanner.length_readout_le 1 [] source.chars
      _ = source.chars.length := Nat.zero_add _
  unfold tokenize
  rw [Scanner.drain_eq_take _ hp hk, hr]
  exact List.take_of_length_le hl

end Abacus
