import Abacus.Proofs.Parser.Nesting

/-!
# The language of the parser

Where the nesting limit does not interfere, the parser accepts exactly the expressions of the grammar and
returns the one tree each of them spells. What it rejects, it rejects at the first token with which no
expression can go on.
-/

namespace Abacus.Parser
open Grammar

/-! ## Expressions have one tree -/

/-- A phrase that is read whole is not read as the beginning of another one. -/
theorem Reads.unique {c us vs us' vs' e e'} (h : Reads c us e) (hv : Follows c vs) (h' : Reads c us' e')
    (hv' : Follows c vs') (he : us ++ vs = us' ++ vs') (p : Parser) : e = e' ∧ p.facing vs = p.facing vs' := by
  obtain ⟨n, h⟩ := h
  obtain ⟨n', h'⟩ := h'
  have hr := h (max n n') (by omega) p vs hv
  rw [he, h' (max n n') (by omega) p vs' hv'] at hr
  simp only [Prod.mk.injEq, Except.ok.injEq] at hr
  exact ⟨hr.1.symm, hr.2.symm⟩

theorem derives_unique {c ts e e'} (h : Derives c ts e) (h' : Derives c ts e') : e = e' :=
  ((reads_of_derives h).unique (follows_nil c) (reads_of_derives h') (follows_nil c) rfl (start [] 0)).1

theorem not_derives_of_refused {c us vs ws e} (h : Refused c us vs) (hw : ws.head? = vs.head?) :
    ¬ Derives c (us ++ ws) e := by
  intro hd
  obtain ⟨n, hn⟩ := h
  obtain ⟨m, hm⟩ := reads_of_derives hd
  have hr := hm (max n m) (by omega) (start [] 0) [] (follows_nil c)
  obtain ⟨f, q, he⟩ := hn (max n m) (by omega) (start [] 0) ws hw
  rw [List.append_nil, he] at hr
  cases hr

theorem not_derives_of_trailing {us ws e e'} (h : Derives .expression us e) (line : Int) :
    ¬ Derives .expression (us ++ ⟨.symbol, ")", line⟩ :: ws) e' := by
  intro hd
  have hu := (reads_of_derives h).unique (follows_close line ws) (reads_of_derives hd) (follows_nil _)
    (List.append_nil _).symm (start [] 0)
  cases congrArg Parser.current hu.2

/-! ## Whole inputs -/

theorem parse_start (ts : List Token) (limit : Nat) :
    (start ts limit).parse =
      match reader .expression limit ((start ts limit).facing ts) with
      | (.error f, p) => (.error ⟨f, none⟩, p)
      | (.ok e, p) =>
        match p.current.kind with
        | .endOfInput => (.ok e, p)
        | .unknown => (.error ⟨p.unexpectedFault, some e⟩, { p with failed := true })
        | _ => (.error ⟨p.trailingFault, some e⟩, { p with failed := true }) := by
  cases ts <;> rfl

theorem ReadsWithin.parse {n : Nat} {ts : List Token} {e : Expr} (h : ReadsWithin n .expression ts e) {limit : Nat}
    (hle : n ≤ limit) : (start ts limit).parse.1 = .ok e := by
  have hr := h limit hle (start ts limit) [] (follows_nil _)
  rw [List.append_nil] at hr
  rw [parse_start, hr]
  rfl

theorem parse_isNesting_iff {ts : List Token} {limit : Nat} :
    (∃ r, (start ts limit).parse.1 = .error r ∧ r.fault.IsNesting) ↔
      TooDeep (reader .expression limit ((start ts limit).facing ts)) := by
  rw [parse_start]
  rcases reader .expression limit ((start ts limit).facing ts) with ⟨f | e, q⟩
  · constructor
    · rintro ⟨r, hr, hn⟩
      cases hr
      exact tooDeep_error.mpr hn
    · intro h
      exact ⟨⟨f, none⟩, rfl, tooDeep_error.mp h⟩
  · refine ⟨?_, fun h => absurd h (not_tooDeep_ok e q)⟩
    rintro ⟨r, hr, hn⟩
    simp only at hr
    split at hr
    · cases hr
    · cases hr; exact absurd hn (unexpectedFault_not_isNesting q)
    · cases hr; exact absurd hn (trailingFault_not_isNesting q)

theorem parse_sound {ts : List Token} (hts : ∀ t ∈ ts, t.kind ≠ .endOfInput) {limit : Nat} {e : Expr}
    (h : (start ts limit).parse.1 = .ok e) :
    Derives .expression ts e ∧ (start ts limit).parse.2.rest = [] := by
  have ho := reader_outcome limit .expression (start ts limit) ts
  rw [parse_start] at h ⊢
  generalize reader .expression limit ((start ts limit).facing ts) = r at ho h ⊢
  cases ho with
  | @done us vs e' split derives follows =>
      simp only at h ⊢
      split at h
      · rename_i hk
        cases h
        cases vs with
        | nil => rw [split, List.append_nil]; exact ⟨derives, rfl⟩
        | cons t vs => exact absurd hk (hts t (by simp [split]))
      · cases h
      · cases h
  | tooDeep _ _ => cases h
  | stuck _ _ _ _ => cases h

theorem parse_complete {ts : List Token} {limit : Nat} {e : Expr} (h : Derives .expression ts e)
    (hn : ¬ TooDeep (reader .expression limit ((start ts limit).facing ts))) :
    (start ts limit).parse.1 = .ok e := by
  obtain ⟨n, hr⟩ := reads_of_derives h
  have hr := hr (max n limit) (by omega) (start ts limit) [] (follows_nil _)
  rw [List.append_nil, reader_mono (Nat.le_max_right n limit) hn] at hr
  rw [parse_start, hr]
  rfl

/-- The parser accepts exactly the expressions of the grammar. Some limit is high enough for each input. The
tree is unique, the input is read to its end, operators of one level group to the right, and products bind
tighter than sums. -/
theorem parse_ok_iff_derives (ts : List Token) (hts : ∀ t ∈ ts, t.kind ≠ .endOfInput) (limit : Nat)
    (hlimit : ∀ r, (start ts limit).parse.1 = .error r → ¬ r.fault.IsNesting) :
    (∀ e, (start ts limit).parse.1 = .ok e ↔ Derives .expression ts e) ∧
    (∃ least, ∀ m, least ≤ m → ∀ r, (start ts m).parse.1 = .error r → ¬ r.fault.IsNesting) ∧
    (∀ e e', Derives .expression ts e → Derives .expression ts e' → e = e') ∧
    (∀ e, (start ts limit).parse.1 = .ok e → (start ts limit).parse.2.rest = []) ∧
    (∀ (l : Precedence) a t b t' c x y z op op', ts = a ++ t :: (b ++ t' :: c) →
      Derives l.part a x → l.Sign t op → Derives l.part b y → l.Sign t' op' → Derives l.whole c z →
      (start ts limit).parse.1 = .ok (.binary op x (.binary op' y z))) ∧
    (∀ a t b t' c x y z op op', ts = a ++ t :: (b ++ t' :: c) →
      Derives .factor a x → ProductSign t op → Derives .term b y → SumSign t' op' → Derives .expression c z →
      (start ts limit).parse.1 = .ok (.binary op' (.binary op x y) z)) ∧
    (∀ a t b t' c x y z op op', ts = a ++ t :: (b ++ t' :: c) →
      Derives .term a x → SumSign t op → Derives .factor b y → ProductSign t' op' → Derives .term c z →
      (start ts limit).parse.1 = .ok (.binary op x (.binary op' y z))) := by
  have hdeep : ¬ TooDeep (reader .expression limit ((start ts limit).facing ts)) := by
    intro hd
    obtain ⟨r, hr, hn⟩ := parse_isNesting_iff.mpr hd
    exact hlimit r hr hn
  refine ⟨fun e => ⟨fun h => (parse_sound hts h).1, fun h => parse_complete h hdeep⟩, ?_,
    fun e e' h h' => derives_unique h h', fun e h => (parse_sound hts h).2, ?_, ?_, ?_⟩
  · refine ⟨2 + weight ts, fun m hm r hr hn => ?_⟩
    exact reader_not_tooDeep m .expression (start ts m) ts hm (parse_isNesting_iff.mp ⟨r, hr, hn⟩)
  · intro l a t b t' c x y z op op' he hx ho hy ho' hz
    have hw : Derives l.whole ts (.binary op x (.binary op' y z)) := he ▸ .join l hx ho (.join l hy ho' hz)
    cases l with
    | sums => exact parse_complete hw hdeep
    | products => exact parse_complete (.term hw) hdeep
  · intro a t b t' c x y z op op' he hx ho hy ho' hz
    refine parse_complete ?_ hdeep
    have hp := Derives.sum (.product hx ho hy) ho' hz
    rwa [List.append_assoc, List.cons_append, ← he] at hp
  · intro a t b t' c x y z op op' he hx ho hy ho' hz
    exact parse_complete (he ▸ .sum hx ho (.term (.product hy ho' hz))) hdeep

def productOfDifference : List Token :=
  [⟨.identifier, "x", 1⟩, ⟨.operator, "*", 1⟩, ⟨.symbol, "(", 1⟩, ⟨.identifier, "y", 1⟩, ⟨.operator, "-", 1⟩,
    ⟨.identifier, "z", 1⟩, ⟨.symbol, ")", 2⟩]

theorem productOfDifference_derives :
    (start productOfDifference 6).parse.1 =
      .ok (.binary .mul (.variable "x") (.binary .sub (.variable "y") (.variable "z"))) ∧
    Derives .expression productOfDifference
      (.binary .mul (.variable "x") (.binary .sub (.variable "y") (.variable "z"))) :=
  ⟨rfl, ((parse_ok_iff_derives _ (by decide) 6 (fun _ hr => by cases hr)).1 _).mp rfl⟩

/-! ## The first impossible token -/

/-- Where a failing parse stands: no expression starts with what it has read and the token ahead. -/
theorem parse_error_split {ts : List Token} {limit : Nat} {r : Rejection}
    (h : (start ts limit).parse.1 = .error r) (hn : ¬ r.fault.IsNesting) :
    ∃ us vs, ts = us ++ vs ∧ r.fault.Blames ((start ts limit).facing vs).current ∧ Viable .expression us ∧
      ∀ ws e, ws.head? = vs.head? → ¬ Derives .expression (us ++ ws) e := by
  have ho := reader_outcome limit .expression (start ts limit) ts
  rw [parse_start] at h
  generalize reader .expression limit ((start ts limit).facing ts) = q at ho h
  cases ho with
  | @done us vs e split derives follows =>
      simp only at h
      cases vs with
      | nil => cases h
      | cons t vs =>
          rcases closes_eq_true.mp (follows t rfl) with ⟨line, rfl⟩ | hk
          · cases h
            refine ⟨us, _, split, faultAt_blames _ _ rfl, derives.viable, fun ws e' hw => ?_⟩
            obtain ⟨ws, rfl⟩ := List.head?_eq_some_iff.mp hw
            exact not_derives_of_trailing derives line
          · simp only [facing_cons_current, hk] at h
            cases h
  | tooDeep _ nesting =>
      cases h
      exact absurd nesting hn
  | @stuck us vs f split blames viable refused =>
      cases h
      exact ⟨us, vs, split, blames, viable, fun ws e hw => not_derives_of_refused refused hw⟩

/-- A parse that fails, and not for its depth, stands after the beginning of some expression; with the token
ahead it is no such beginning, or at the end of the input it is no expression. The fault names that place, and
is lexical exactly where the scanner did not know the token. -/
theorem parse_error_at_first_impossible (ts : List Token) (limit : Nat) (r : Rejection)
    (h : (start ts limit).parse.1 = .error r) (hn : ¬ r.fault.IsNesting) :
    ∃ k, Viable .expression (ts.take k) ∧
      ((∃ t, ts[k]? = some t ∧ ¬ Viable .expression (ts.take (k + 1)) ∧
          r.fault.context.find? Fault.tokenKey = some (.text t.text) ∧
          r.fault.context.find? Fault.lineKey = some (.int t.line) ∧
          (r.fault.code = .lexical ↔ t.kind = .unknown) ∧ (r.fault.code = .syntactic ↔ t.kind ≠ .unknown)) ∨
        (k = ts.length ∧ (∀ e, ¬ Derives .expression ts e) ∧
          r.fault.context.find? Fault.tokenKey = some (.text "EOF") ∧
          r.fault.context.find? Fault.lineKey = some (.int ((ts.getLast?.map Token.line).getD 1)) ∧
          r.fault.code = .syntactic)) := by
  obtain ⟨us, vs, rfl, blames, viable, dead⟩ := parse_error_split h hn
  refine ⟨us.length, by rwa [List.take_left], ?_⟩
  cases vs with
  | nil =>
      rw [List.append_nil] at blames ⊢
      refine .inr ⟨rfl, fun e hd => dead [] e rfl (by rwa [List.append_nil]), blames.token, blames.line, ?_⟩
      exact blames.code
  | cons t vs =>
      refine .inl ⟨t, by simp, ?_, blames.token, blames.line, ?_⟩
      · have ht : (us ++ t :: vs).take (us.length + 1) = us ++ [t] := by
          simp [List.take_append, List.take_of_length_le]
        rw [ht]
        rintro ⟨ws, e, hd⟩
        exact dead (t :: ws) e rfl (by simpa using hd)
      · rw [blames.code, facing_cons_current]
        by_cases hk : t.kind = .unknown <;> simp [hk]

def missingOperand : List Token :=
  [⟨.identifier, "x", 1⟩, ⟨.operator, "+", 1⟩, ⟨.symbol, ")", 2⟩, ⟨.identifier, "y", 2⟩]

theorem missingOperand_impossible :
    ∃ r, (start missingOperand 6).parse.1 = .error r ∧ ¬ r.fault.IsNesting ∧
      ∃ k, Viable .expression (missingOperand.take k) ∧ ¬ Viable .expression (missingOperand.take (k + 1)) ∧
        missingOperand[k]?.map Token.text = some (")" : Text) := by
  obtain ⟨r, hr, hf, hn⟩ : ∃ r, (start missingOperand 6).parse.1 = .error r ∧
      r.fault.context.find? Fault.tokenKey = some (.text ")") ∧ ¬ r.fault.IsNesting :=
    ⟨_, rfl, rfl, unexpectedFault_not_isNesting _⟩
  refine ⟨r, hr, hn, ?_⟩
  obtain ⟨k, viable, ⟨t, ht, dead, token, _⟩ | ⟨_, _, token, _⟩⟩ :=
    parse_error_at_first_impossible missingOperand 6 r hr hn
  · simp only [hf, Option.some.injEq, Detail.text.injEq] at token
    exact ⟨k, viable, dead, by rw [ht, token]; rfl⟩
  · rw [hf] at token
    cases token

end Abacus.Parser
