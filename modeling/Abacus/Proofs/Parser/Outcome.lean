import Abacus.Proofs.Context
import Abacus.Proofs.Parser.Lookahead

/-!
# How a rule of the parser can end

A rule ends in one of three ways: it has read a phrase of its kind and stands before something that may follow
it; the nesting limit stopped it; or it stands before the first token that no phrase can have there. Reading
is complete: with enough levels to open, every derivable phrase is read.
-/

namespace Abacus

def Fault.IsNesting (f : Fault) : Prop := f.message = ("expression too deeply nested" : Text)

/-- The fault names the token, its line and, by its code, whether the scanner knew the token. -/
structure Fault.Blames (f : Fault) (t : Token) : Prop where
  token : f.context.find? Fault.tokenKey = some (.text t.text)
  line : f.context.find? Fault.lineKey = some (.int t.line)
  code : f.code = if t.kind = .unknown then .lexical else .syntactic

namespace Parser
open Grammar

def reader : Phrase → Nat → Parser → Except Fault Expr × Parser
  | .expression, room => expression room
  | .term, room => term room
  | .factor, room => factor (expression room)

/-! ## Faults -/

theorem nestingFault_isNesting (p : Parser) : p.nestingFault.IsNesting := rfl

theorem faultAt_blames (p : Parser) (m : Text) {code : Code}
    (h : code = if p.current.kind = .unknown then .lexical else .syntactic) :
    (p.faultAt code m).Blames p.current where
  token := by
    have hne : Fault.tokenKey ≠ Fault.lineKey := by decide
    simp [faultAt, hne]
  line := by simp [faultAt]
  code := by simp [faultAt, Fault.of, h]

theorem unexpectedFault_blames (p : Parser) : p.unexpectedFault.Blames p.current := by
  unfold unexpectedFault
  split
  · rename_i hk; exact faultAt_blames p _ (by simp [hk])
  · rename_i hk; exact faultAt_blames p _ (by simp [hk])

/-! ## One rule for both levels -/

theorem reader_succ (l : Precedence) (room : Nat) (p : Parser) :
    reader l.whole (room + 1) p =
      match reader l.part room p.enter with
      | (.error f, p) => (.error f, p.leave)
      | (.ok left, p) =>
        match sign? l p.current with
        | some op =>
          match reader l.whole room p.advance with
          | (.error f, p) => (.error f, p.leave)
          | (.ok right, p) => (.ok (.binary op left right), p.leave)
        | none => if ends l p.current then (.ok left, p.leave) else p.leave.fail p.unexpectedFault := by
  cases l <;> rfl

theorem reader_zero (l : Precedence) (p : Parser) : reader l.whole 0 p = p.enter.fail p.nestingFault := by
  cases l <;> rfl

/-! ## Completeness -/

/-- With room for so many levels, a phrase `us` that spells `e` is read whole, whatever may follow it. -/
def ReadsWithin (levels : Nat) (c : Phrase) (us : List Token) (e : Expr) : Prop :=
  ∀ room, levels ≤ room → ∀ (p : Parser) (vs : List Token), Follows c vs →
    reader c room (p.facing (us ++ vs)) = (.ok e, p.facing vs)

theorem ReadsWithin.mono {n m c us e} (h : ReadsWithin n c us e) (hle : n ≤ m) : ReadsWithin m c us e :=
  fun room hr => h room (Nat.le_trans hle hr)

theorem ReadsWithin.part (l : Precedence) {n us e} (h : ReadsWithin n l.part us e) :
    ReadsWithin (n + 1) l.whole us e := by
  intro room hr p vs hv
  obtain ⟨room, rfl⟩ : ∃ r, room = r + 1 := ⟨room - 1, by omega⟩
  have he : ends l (p.enter.facing vs).current = true := ends_facing.mpr hv
  simp [reader_succ, h room (by omega) p.enter vs (hv.part l), sign?_eq_none_of_ends he, he]

theorem ReadsWithin.join (l : Precedence) {n m us t vs op x y} (hx : ReadsWithin n l.part us x) (ht : l.Sign t op)
    (hy : ReadsWithin m l.whole vs y) : ReadsWithin (max n m + 1) l.whole (us ++ t :: vs) (.binary op x y) := by
  intro room hr p ws hw
  obtain ⟨room, rfl⟩ : ∃ r, room = r + 1 := ⟨room - 1, by omega⟩
  have hx := hx room (by omega) p.enter (t :: (vs ++ ws)) (follows_sign ht _)
  simp [reader_succ, hx, sign?_eq_some.mpr ht, hy room (by omega) p.enter ws hw]

theorem ReadsWithin.paren {n us e} (h : ReadsWithin n .expression us e) (line line' : Int) :
    ReadsWithin n .factor (⟨.symbol, "(", line⟩ :: (us ++ [⟨.symbol, ")", line'⟩])) e := by
  intro room hr p vs _
  have he : expression room _ = _ := h room hr p (⟨.symbol, ")", line'⟩ :: vs) (follows_close _ _)
  simp [reader, factor, he, Token.is]

theorem readsWithin_number {text : Text} {x : Float} (h : Numeral.float text = .ok x) (line : Int) :
    ReadsWithin 0 .factor [⟨.number, text, line⟩] (.number x) :=
  fun _ _ _ _ _ => by simp [reader, factor, h]

theorem readsWithin_identifier (text : Text) (line : Int) :
    ReadsWithin 0 .factor [⟨.identifier, text, line⟩] (.variable text) :=
  fun _ _ _ _ _ => by simp [reader, factor]

/-- With enough room, a phrase `us` that spells `e` is read whole, whatever may follow it. -/
def Reads (c : Phrase) (us : List Token) (e : Expr) : Prop :=
  ∃ n, ∀ room, n ≤ room → ∀ (p : Parser) (vs : List Token), Follows c vs →
    reader c room (p.facing (us ++ vs)) = (.ok e, p.facing vs)

theorem Reads.part (l : Precedence) {us e} : Reads l.part us e → Reads l.whole us e
  | ⟨_, h⟩ => ⟨_, ReadsWithin.part l h⟩

theorem Reads.join (l : Precedence) {us t vs op x y} (ht : l.Sign t op) :
    Reads l.part us x → Reads l.whole vs y → Reads l.whole (us ++ t :: vs) (.binary op x y)
  | ⟨_, hx⟩, ⟨_, hy⟩ => ⟨_, ReadsWithin.join l hx ht hy⟩

theorem Reads.paren {us e} (line line' : Int) :
    Reads .expression us e → Reads .factor (⟨.symbol, "(", line⟩ :: (us ++ [⟨.symbol, ")", line'⟩])) e
  | ⟨_, h⟩ => ⟨_, ReadsWithin.paren h line line'⟩

theorem reads_of_derives {c us e} (h : Derives c us e) : Reads c us e := by
  induction h with
  | term _ ih => exact ih.part .sums
  | sum _ hs _ ihl ihr => exact ihl.join .sums hs ihr
  | factor _ ih => exact ih.part .products
  | product _ hs _ ihl ihr => exact ihl.join .products hs ihr
  | paren _ ih => exact ih.paren _ _
  | number hx => exact ⟨0, readsWithin_number hx _⟩
  | identifier => exact ⟨0, readsWithin_identifier _ _⟩

/-! ## Outcomes -/

/-- Given enough room, reading fails after `us` as soon as the token ahead is the first one of `vs`, whatever
comes later. -/
def Refused (c : Phrase) (us vs : List Token) : Prop :=
  ∃ n, ∀ room, n ≤ room → ∀ (p : Parser) (ws : List Token), ws.head? = vs.head? →
    ∃ f q, reader c room (p.facing (us ++ ws)) = (.error f, q)

/-- How a rule for phrases of kind `c` that starts before `ts` ends. -/
inductive Outcome (c : Phrase) (p : Parser) (ts : List Token) : Except Fault Expr × Parser → Prop
  | done {us vs e} (split : ts = us ++ vs) (derives : Derives c us e) (follows : Follows c vs) :
      Outcome c p ts (.ok e, p.facing vs)
  | tooDeep {us vs f} (split : ts = us ++ vs) (nesting : f.IsNesting) :
      Outcome c p ts (.error f, p.enter.flagged.facing vs)
  | stuck {us vs f} (split : ts = us ++ vs) (blames : f.Blames (p.facing vs).current) (viable : Viable c us)
      (refused : Refused c us vs) : Outcome c p ts (.error f, p.flagged.facing vs)

theorem factor_stuck {p : Parser} {ts : List Token} {f : Fault} (hf : f.Blames (p.facing ts).current)
    (h : ∀ (inner : Parser → Except Fault Expr × Parser) (q : Parser) (ws : List Token), ws.head? = ts.head? →
      ∃ g q', factor inner (q.facing ws) = (.error g, q')) :
    Outcome .factor p ts (.error f, p.flagged.facing ts) :=
  .stuck (show ts = [] ++ ts from rfl) hf (viable_nil _) ⟨0, fun _ _ q ws hw => h _ q ws hw⟩

theorem factor_unexpected {p : Parser} {t : Token} {ts : List Token}
    (h : ∀ (inner : Parser → Except Fault Expr × Parser) (q : Parser) (ws : List Token),
      factor inner (q.facing (t :: ws)) = (q.facing (t :: ws)).fail (q.facing (t :: ws)).unexpectedFault)
    (inner : Parser → Except Fault Expr × Parser) :
    Outcome .factor p (t :: ts) (factor inner (p.facing (t :: ts))) := by
  rw [h, fail_eq, facing_flagged]
  apply factor_stuck (unexpectedFault_blames _)
  intro inner q ws hw
  obtain ⟨ws, rfl⟩ := List.head?_eq_some_iff.mp hw
  exact ⟨_, _, h inner q ws⟩

theorem isClose_facing {p : Parser} {vs : List Token} (h : (p.facing vs).current.is .symbol ")" = true) :
    ∃ line ws, vs = ⟨.symbol, ")", line⟩ :: ws := by
  cases vs with
  | nil => cases h
  | cons t vs =>
      obtain ⟨kind, text, line⟩ := t
      simp only [facing_cons_current, Token.is, Bool.and_eq_true, beq_iff_eq] at h
      obtain ⟨rfl, rfl⟩ := h
      exact ⟨line, vs, rfl⟩

theorem paren_outcome {room : Nat} (ih : ∀ p ts, Outcome .expression p ts (reader .expression room (p.facing ts)))
    (p : Parser) (line : Int) (ts : List Token) :
    Outcome .factor p (⟨.symbol, "(", line⟩ :: ts) (reader .factor room (p.facing (⟨.symbol, "(", line⟩ :: ts))) := by
  have ho := ih p ts
  simp only [reader, factor, facing_cons_current, facing_cons_advance, ↓reduceIte] at ho ⊢
  generalize expression room (p.facing ts) = r at ho ⊢
  cases ho with
  | @done us vs e split derives follows =>
      subst split
      simp only
      split
      · rename_i hc
        obtain ⟨line', ws, rfl⟩ := isClose_facing hc
        rw [facing_cons_advance]
        have hd : Derives .factor (⟨.symbol, "(", line⟩ :: (us ++ [⟨.symbol, ")", line'⟩])) e := .paren derives
        exact .done (by simp) hd trivial
      · rename_i hc
        -- what follows an expression and is no closing parenthesis is the end of the input
        have hk : (p.facing vs).current.kind = .endOfInput := by
          rcases closes_eq_true.mp (ends_facing.mpr follows : ends .sums (p.facing vs).current = true) with
            ⟨_, he⟩ | hk
          · rw [he] at hc; exact absurd rfl hc
          · exact hk
        rw [fail_eq, facing_flagged]
        refine .stuck (List.cons_append).symm (faultAt_blames _ _ (by simp [hk])) (derives.viable.paren line) ?_
        obtain ⟨n, hn⟩ := reads_of_derives derives
        refine ⟨n, fun room hr q ws hw => ?_⟩
        have he : expression room _ = _ := hn room hr q ws (follows.of_head?_eq hw)
        have hc' := lookahead_congr (·.is .symbol ")") (fun _ _ => rfl) (p := p) (q := q) hw
        simp [reader, factor, he, hc', hc, fail_eq]
  | tooDeep split nesting =>
      subst split
      exact .tooDeep (List.cons_append).symm nesting
  | stuck split blames viable refused =>
      subst split
      refine .stuck (List.cons_append).symm blames (viable.paren line) ?_
      obtain ⟨n, hn⟩ := refused
      refine ⟨n, fun room hr q ws hw => ?_⟩
      obtain ⟨f, q', he⟩ := hn room hr q ws hw
      simp only [reader] at he
      exact ⟨f, q', by simp [reader, factor, he]⟩

theorem factor_outcome {room : Nat} (ih : ∀ p ts, Outcome .expression p ts (reader .expression room (p.facing ts)))
    (p : Parser) (ts : List Token) : Outcome .factor p ts (reader .factor room (p.facing ts)) := by
  cases ts with
  | nil =>
      have he : reader .factor room (p.facing []) = (.error (p.facing []).unexpectedFault, p.flagged.facing []) := rfl
      rw [he]
      apply factor_stuck (unexpectedFault_blames _)
      intro inner q ws hw
      cases List.head?_eq_none_iff.mp hw
      exact ⟨_, _, rfl⟩
  | cons t ts =>
      obtain ⟨kind, text, line⟩ := t
      cases kind with
      | symbol =>
          by_cases ht : text = ("(" : Text)
          · subst ht
            exact paren_outcome ih p line ts
          · exact factor_unexpected (fun inner q ws => by simp [factor, ht]) _
      | number =>
          cases hx : Numeral.float text with
          | ok x =>
              have he : reader .factor room (p.facing (⟨.number, text, line⟩ :: ts)) =
                  (.ok (.number x), p.facing ts) := by
                simp [reader, factor, hx]
              rw [he]
              exact .done rfl (.number hx) trivial
          | error _ =>
              have he (inner) (q : Parser) (ws : List Token) : factor inner (q.facing (⟨.number, text, line⟩ :: ws)) =
                  (.error (q.facing (⟨.number, text, line⟩ :: ws)).numberFault,
                    q.flagged.facing (⟨.number, text, line⟩ :: ws)) := by
                simp [factor, hx, fail_eq]
              rw [reader, he]
              apply factor_stuck (faultAt_blames _ _ rfl)
              intro inner q ws hw
              obtain ⟨ws, rfl⟩ := List.head?_eq_some_iff.mp hw
              exact ⟨_, _, he inner q ws⟩
      | identifier =>
          have he : reader .factor room (p.facing (⟨.identifier, text, line⟩ :: ts)) =
              (.ok (.variable text), p.facing ts) := by
            simp [reader, factor]
          rw [he]
          exact .done rfl .identifier trivial
      | endOfInput | reservedWord | operator | unknown | other _ =>
          exact factor_unexpected (fun _ _ _ => rfl) (expression room)

theorem Refused.part (l : Precedence) {us vs} : Refused l.part us vs → Refused l.whole us vs
  | ⟨n, h⟩ => by
      refine ⟨n + 1, fun room hr q ws hw => ?_⟩
      obtain ⟨room, rfl⟩ : ∃ r, room = r + 1 := ⟨room - 1, by omega⟩
      obtain ⟨f, q', he⟩ := h room (by omega) q.enter ws hw
      exact ⟨f, q'.leave, by simp [reader_succ, he]⟩

theorem Refused.join (l : Precedence) {us t vs ws op x} (hx : Reads l.part us x) (ht : l.Sign t op) :
    Refused l.whole vs ws → Refused l.whole (us ++ t :: vs) ws
  | ⟨m, h⟩ => by
      obtain ⟨n, hx⟩ := hx
      refine ⟨max n m + 1, fun room hr q ys hw => ?_⟩
      obtain ⟨room, rfl⟩ : ∃ r, room = r + 1 := ⟨room - 1, by omega⟩
      have hx := hx room (by omega) q.enter (t :: (vs ++ ys)) (follows_sign ht _)
      obtain ⟨f, q', he⟩ := h room (by omega) q.enter ys hw
      exact ⟨f, q'.leave, by simp [reader_succ, hx, sign?_eq_some.mpr ht, he]⟩

theorem Refused.after (l : Precedence) {us vs x} {p : Parser} (hx : Reads l.part us x) (hf : Follows l.part vs)
    (hs : sign? l (p.facing vs).current = none) (he : ends l (p.facing vs).current = false) :
    Refused l.whole us vs := by
  obtain ⟨n, hx⟩ := hx
  refine ⟨n + 1, fun room hr q ws hw => ?_⟩
  obtain ⟨room, rfl⟩ : ∃ r, room = r + 1 := ⟨room - 1, by omega⟩
  have hx := hx room (by omega) q.enter ws (hf.of_head?_eq hw)
  have hs' : sign? l (q.enter.facing ws).current = none :=
    (lookahead_congr (sign? l) (fun _ _ => by cases l <;> rfl) hw).trans hs
  have he' : ends l (q.enter.facing ws).current = false :=
    (lookahead_congr (ends l) (fun _ _ => by cases l <;> rfl) hw).trans he
  simp [reader_succ, hx, hs', he', fail_eq]

theorem rule_outcome (l : Precedence) {room : Nat}
    (part : ∀ p ts, Outcome l.part p ts (reader l.part room (p.facing ts)))
    (whole : ∀ p ts, Outcome l.whole p ts (reader l.whole room (p.facing ts))) (p : Parser) (ts : List Token) :
    Outcome l.whole p ts (reader l.whole (room + 1) (p.facing ts)) := by
  have ho := part p.enter ts
  rw [reader_succ, facing_enter]
  generalize reader l.part room (p.enter.facing ts) = r at ho ⊢
  cases ho with
  | @done us vs x split derives follows =>
      subst split
      simp only
      split
      · rename_i op hs
        obtain ⟨t, vs, rfl, sign⟩ := sign?_facing hs
        have ho := whole p.enter vs
        rw [facing_cons_advance]
        generalize reader l.whole room (p.enter.facing vs) = r at ho ⊢
        cases ho with
        | @done us' vs y split derives' follows' =>
            subst split
            simp only [facing_leave, enter_leave]
            exact .done (List.append_assoc us (t :: us') vs).symm (.join l derives sign derives') follows'
        | @tooDeep us' vs f split nesting =>
            subst split
            simp only [facing_leave, enter_flagged_leave]
            exact .tooDeep (List.append_assoc us (t :: us') vs).symm nesting
        | @stuck us' vs f split blames viable refused =>
            subst split
            simp only [facing_leave, enter_flagged_leave]
            rw [enter_facing_current] at blames
            exact .stuck (List.append_assoc us (t :: us') vs).symm blames (.join l derives sign viable)
              (refused.join l (reads_of_derives derives) sign)
      · rename_i hs
        split
        · rename_i he
          simp only [facing_leave, enter_leave]
          exact .done rfl (.part l derives) (ends_facing.mp he)
        · rename_i he
          have hb := unexpectedFault_blames (p.enter.facing vs)
          rw [enter_facing_current] at hb
          simp only [fail_eq, facing_leave, enter_leave, facing_flagged]
          exact .stuck rfl hb (Derives.part l derives).viable
            (.after l (reads_of_derives derives) follows hs (by simpa using he))
  | tooDeep split nesting =>
      simp only [facing_leave, enter_flagged_leave]
      exact .tooDeep split nesting
  | stuck split blames viable refused =>
      simp only [facing_leave, enter_flagged_leave]
      rw [enter_facing_current] at blames
      exact .stuck split blames (viable.part l) (refused.part l)

/-- Every rule ends in one of the three ways. -/
theorem reader_outcome (room : Nat) (c : Phrase) (p : Parser) (ts : List Token) :
    Outcome c p ts (reader c room (p.facing ts)) := by
  induction room generalizing c p ts with
  | zero =>
      have hz (l : Precedence) (p : Parser) (ts : List Token) :
          Outcome l.whole p ts (reader l.whole 0 (p.facing ts)) := by
        rw [reader_zero, fail_eq, facing_enter, facing_flagged]
        exact .tooDeep (List.nil_append ts).symm (nestingFault_isNesting _)
      cases c with
      | expression => exact hz .sums p ts
      | term => exact hz .products p ts
      | factor => exact factor_outcome (hz .sums) p ts
  | succ room ih =>
      cases c with
      | expression => exact rule_outcome .sums (ih .term) (ih .expression) p ts
      | term => exact rule_outcome .products (ih .factor) (ih .term) p ts
      | factor => exact factor_outcome (rule_outcome .sums (ih .term) (ih .expression)) p ts

end Parser

end Abacus
