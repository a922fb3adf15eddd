import Abacus.Proofs.Scanner.Words

/-!
# Printed tokens

The texts of tokens, with spaces between them, are scanned as the same tokens again: each text is one token where a
space or nothing follows, and a list without superfluous line breaks is handed out as it is.
-/

namespace Abacus

/-! ## Spellings with spaces between them -/

def spaced : List (List Char) → List Char
  | [] => []
  | [w] => w
  | w :: ws => w ++ ' ' :: spaced ws

theorem spaced_cons_cons (w v : List Char) (ws : List (List Char)) :
    spaced (w :: v :: ws) = w ++ ' ' :: spaced (v :: ws) := rfl

theorem join_ofChars (ws : List (List Char)) :
    Text.join " " (ws.map Text.ofChars) = Text.ofChars (spaced ws) := by
  induction ws with
  | nil => rfl
  | cons w ws ih =>
      cases ws with
      | nil => rfl
      | cons v ws =>
          have hspace : Text.ofChars (w ++ ' ' :: spaced (v :: ws)) =
              Text.ofChars w ++ (" " : Text) ++ Text.ofChars (spaced (v :: ws)) := by
            simp [Text.ofChars]
            rfl
          rw [spaced_cons_cons, hspace, ← ih]
          rfl

namespace Scanner

theorem spelling_of_mem_pendingToken {line : Nat} {pending : List Char} (hp : ∀ c ∈ pending, isLexemeChar c = true) :
    ∀ t ∈ pendingToken line pending, ∃ w, Spelling w ∧ t.text = Text.ofChars w := by
  intro t ht
  unfold pendingToken at ht
  split at ht
  · cases ht
  · rename_i hne
    cases List.mem_singleton.mp ht
    exact ⟨pending.reverse, .lexeme (by simpa using hne) (by simpa using hp), rfl⟩

/-- Every token has a spelling. -/
theorem spelling_of_mem_readout {line : Nat} {pending cs : List Char} (hp : ∀ c ∈ pending, isLexemeChar c = true) :
    ∀ t ∈ readout line pending cs, ∃ w, Spelling w ∧ t.text = Text.ofChars w := by
  induction cs generalizing line pending with
  | nil => exact spelling_of_mem_pendingToken hp
  | cons c cs ih =>
      have hrest (l : Nat) : ∀ t ∈ readout l [] cs, ∃ w, Spelling w ∧ t.text = Text.ofChars w :=
        ih (List.forall_mem_nil _)
      have hpending : ∀ t ∈ pendingToken line pending, ∃ w, Spelling w ∧ t.text = Text.ofChars w :=
        spelling_of_mem_pendingToken hp
      unfold readout
      split
      · exact List.forall_mem_append.mpr ⟨hpending, List.forall_mem_cons.mpr ⟨⟨_, .lineBreak, rfl⟩, hrest _⟩⟩
      · split
        · exact List.forall_mem_append.mpr ⟨hpending, hrest _⟩
        · split
          · rename_i hl
            exact ih (List.forall_mem_cons.mpr ⟨hl, hp⟩)
          · rename_i hs hl
            have hown : Spelling [c] := .own (by simpa using hl) (by simpa using hs)
            exact List.forall_mem_append.mpr ⟨hpending,
              List.forall_mem_cons.mpr ⟨⟨[c], hown, (ofChars_singleton c).symm⟩, hrest _⟩⟩

theorem lexemes_readout_spaced {ws : List (List Char)} (h : ∀ w ∈ ws, Spelling w) (line : Nat) :
    (readout line [] (spaced ws)).map Token.lexeme = ws.map fun w => classified (Text.ofChars w) := by
  induction ws generalizing line with
  | nil => rfl
  | cons w ws ih =>
      obtain ⟨hw, hws⟩ := List.forall_mem_cons.mp h
      cases ws with
      | nil =>
          have hend : ∀ c ∈ ([] : List Char).head?, isLexemeChar c = false := nofun
          have hr := readout_spelling hw (fun _ => hend) line
          rw [List.append_nil] at hr
          rw [spaced, hr]
          rfl
      | cons v ws =>
          have hspace (line : Nat) :
              readout line [] (' ' :: spaced (v :: ws)) = readout line [] (spaced (v :: ws)) := rfl
          rw [spaced_cons_cons, readout_spelling hw (fun _ c hc => by cases hc; rfl) line, hspace, List.map_cons,
            ih hws]
          rfl

end Scanner

/-! ## Line breaks that are kept -/

theorem isLineBreak_eq_of_lexeme {t u : Token} (h : t.lexeme = u.lexeme) : t.isLineBreak = u.isLineBreak := by
  obtain ⟨hk, ht⟩ := Prod.mk.inj h
  rw [Token.isLineBreak, Token.isLineBreak, Token.is, Token.is, hk, ht]

/-- Which line breaks are left out does not depend on the lines. -/
theorem lexemes_collapse_congr {ts us : List Token} (h : ts.map Token.lexeme = us.map Token.lexeme) (suppress : Bool) :
    (collapse suppress ts).map Token.lexeme = (collapse suppress us).map Token.lexeme := by
  induction ts generalizing us suppress with
  | nil =>
      cases List.map_eq_nil_iff.mp h.symm
      rfl
  | cons t ts ih =>
      obtain ⟨u, us, rfl, htu, hrest⟩ := List.map_eq_cons_iff.mp h.symm
      have hb := isLineBreak_eq_of_lexeme htu
      rw [collapse, collapse, hb]
      split
      · exact ih hrest.symm true
      · rw [List.map_cons, List.map_cons, htu, ih hrest.symm]

theorem collapse_collapse (suppress : Bool) (ts : List Token) :
    collapse suppress (collapse suppress ts) = collapse suppress ts := by
  induction ts generalizing suppress with
  | nil => rfl
  | cons t ts ih =>
      cases hb : suppress && t.isLineBreak with
      | true =>
          have hs : suppress = true := (Bool.and_eq_true_iff.mp hb).1
          subst hs
          rw [collapse, hb]
          exact ih true
      | false =>
          have hc (us : List Token) : collapse suppress (t :: us) = t :: collapse t.isLineBreak us := by
            rw [collapse, hb]
            rfl
          rw [hc, hc, ih]

/-- The texts of the tokens of a source, with single spaces between them, have tokens of the same kinds and texts. -/
theorem lexemes_tokenize_join (source : Text) :
    (tokenize (Text.join " " ((tokenize source).map Token.text))).map Token.lexeme =
      (tokenize source).map Token.lexeme := by
  have hspelled : ∀ t ∈ tokenize source, ∃ w, Scanner.Spelling w ∧ t.text = Text.ofChars w := fun t ht =>
    Scanner.spelling_of_mem_readout (List.forall_mem_nil _) t ((tokenize_sublist_readout source).mem ht)
  choose! w hw ht using hspelled
  have htexts : (tokenize source).map Token.text = ((tokenize source).map w).map Text.ofChars := by
    rw [List.map_map]
    exact List.map_congr_left ht
  have hread : (Scanner.readout 1 [] (spaced ((tokenize source).map w))).map Token.lexeme =
      (tokenize source).map Token.lexeme := by
    rw [Scanner.lexemes_readout_spaced (List.forall_mem_map.mpr hw), List.map_map]
    refine List.map_congr_left fun t hm => ?_
    rw [Token.lexeme, kind_of_mem_tokenize hm, ht t hm]
    rfl
  have hkept : collapse true (tokenize source) = tokenize source := by
    rw [tokenize_eq_collapse, collapse_collapse]
  rw [htexts, join_ofChars, tokenize_eq_collapse (Text.ofChars _), Text.chars_ofChars, lexemes_collapse_congr hread,
    hkept]

end Abacus
