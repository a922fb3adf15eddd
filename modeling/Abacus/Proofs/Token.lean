import Abacus.Proofs.Text.Lines
import Abacus.Proofs.Text.Quoted
import Abacus.Token

/-!
# The listing of tokens

A listing has one line for each token, and tells the tokens: the kind stands before the first comma, the text between
its quotation marks, and the line number behind them.
-/

namespace Abacus

/-! ## Names of kinds -/

namespace Kind

def code : Kind → Nat
  | .endOfInput => 0
  | .reservedWord => 1
  | .identifier => 2
  | .number => 3
  | .operator => 4
  | .symbol => 5
  | .unknown => 6
  | .other n => n

theorem code_ofCode (n : Nat) : (ofCode n).code = n := by
  unfold ofCode
  split <;> rfl

theorem ofCode_injective : Function.Injective ofCode := Function.LeftInverse.injective code_ofCode

/-- The kinds with a name of their own. -/
def named : List Kind := [.endOfInput, .reservedWord, .identifier, .number, .operator, .symbol, .unknown]

theorem mem_named_or_other (k : Kind) : k ∈ named ∨ ∃ n, k = .other n := by
  cases k with
  | other n => exact .inr ⟨n, rfl⟩
  | _ => exact .inl (by decide)

theorem name_injOn_named : ∀ j ∈ named, ∀ k ∈ named, j.name = k.name → j = k := by decide +kernel

/-- No name begins as the kinds without one are shown. -/
theorem take_name_named : ∀ k ∈ named, k.name.take 5 ≠ ("Kind(" : Text) := by decide +kernel

theorem name_other (n : Nat) : (other n).name = ("Kind(" : Text) ++ (Text.ofNat n ++ (")" : Text)) := by
  rw [name, List.append_assoc]

theorem take_name_other (n : Nat) : (other n).name.take 5 = ("Kind(" : Text) := by
  rw [name_other]
  exact List.take_left' (by decide +kernel)

theorem name_inj {j k : Kind} : j.name = k.name ↔ j = k := by
  refine ⟨fun he => ?_, fun he => he ▸ rfl⟩
  rcases mem_named_or_other j with hj | ⟨m, rfl⟩ <;> rcases mem_named_or_other k with hk | ⟨n, rfl⟩
  · exact name_injOn_named j hj k hk he
  · exact absurd (he ▸ take_name_other n) (take_name_named j hj)
  · exact absurd (he ▸ take_name_other m) (take_name_named k hk)
  · rw [name_other, name_other] at he
    exact congrArg other (Text.ofNat_inj.mp (List.append_cancel_right (List.append_cancel_left he)))

theorem notMem_name (k : Kind) : 10 ∉ k.name ∧ 44 ∉ k.name := by
  rcases mem_named_or_other k with hk | ⟨n, rfl⟩
  · have hall : ∀ k ∈ named, 10 ∉ k.name ∧ 44 ∉ k.name := by decide +kernel
    exact hall k hk
  · have hn {b : UInt8} (hd : Text.isDigit b = false) : b ∉ Text.ofNat n := fun hb =>
      Bool.false_ne_true (hd.symm.trans (Text.isDigit_of_mem_ofNat b hb))
    simp only [name_other, List.mem_append, not_or]
    exact ⟨⟨by decide +kernel, hn rfl, by decide +kernel⟩, ⟨by decide +kernel, hn rfl, by decide +kernel⟩⟩

end Kind

/-! ## Lines of tokens -/

namespace Token

/-- The line of a token when `printable` says which characters stand for themselves. -/
def renderWith (printable : Char → Bool) (t : Token) : Text :=
  t.kind.name ++ (", " : Text) ++ t.text.quotedWith printable ++ (", " : Text) ++ Text.ofInt t.line

theorem renderWith_isPrintable : renderWith isPrintable = render := by
  funext t
  rw [renderWith, Text.quotedWith_isPrintable, render]

theorem renderWith_eq (printable : Char → Bool) (t : Token) :
    t.renderWith printable =
      t.kind.name ++ 44 :: 32 :: (t.text.quotedWith printable ++ 44 :: 32 :: Text.ofInt t.line) := by
  have hcomma : ((", " : String) : Text) = [44, 32] := by decide +kernel
  simp only [renderWith, hcomma, List.append_assoc, List.cons_append, List.nil_append]

theorem renderWith_inj {printable : Char → Bool} {t u : Token} :
    t.renderWith printable = u.renderWith printable ↔ t = u := by
  refine ⟨fun he => ?_, fun he => he ▸ rfl⟩
  obtain ⟨kind, text, line⟩ := t
  obtain ⟨kind', text', line'⟩ := u
  rw [renderWith_eq, renderWith_eq] at he
  obtain ⟨hname, he⟩ := Text.eq_of_append_cons kind.notMem_name.2 kind'.notMem_name.2 he
  obtain ⟨rfl, he⟩ := Text.quotedWith_append_inj.mp (List.cons.inj he).2
  obtain rfl := Kind.name_inj.mp hname
  obtain rfl := Text.ofInt_inj.mp (List.cons.inj (List.cons.inj he).2).2
  rfl

theorem newline_notMem_renderWith (beyond : Char → Bool) (t : Token) :
    10 ∉ t.renderWith (Quoted.printableBy beyond) := by
  have hline : 10 ∉ Text.ofInt t.line := fun hm => by
    rcases Text.mem_ofInt hm with h | h
    · cases h
    · cases h
  simp only [renderWith_eq, List.mem_append, List.mem_cons, not_or]
  exact ⟨t.kind.notMem_name.1, by decide, by decide, Text.newline_notMem_quotedWith beyond t.text, by decide,
    by decide, hline⟩

/-- The listing when `printable` says which characters stand for themselves. -/
def listingWith (printable : Char → Bool) (ts : List Token) : Text := Text.unlines (ts.map (renderWith printable))

theorem listingWith_isPrintable : listingWith isPrintable = listing := by
  funext ts
  rw [listingWith, renderWith_isPrintable, listing]

/-- Whichever characters beyond ASCII are printable, a listing has as many line feeds as tokens, none of them within the
line of a token, and lists with one listing are equal. -/
theorem listing_tells_tokens (beyond : Char → Bool) :
    (∀ ts, (listingWith (Quoted.printableBy beyond) ts).count 10 = ts.length) ∧
      (∀ t, 10 ∉ renderWith (Quoted.printableBy beyond) t) ∧
      (∀ ts us, listingWith (Quoted.printableBy beyond) ts = listingWith (Quoted.printableBy beyond) us ↔ ts = us) ∧
      listingWith (Quoted.printableBy isPrintable) = listing ∧ Function.Injective Kind.ofCode := by
  have hlines (ts : List Token) : ∀ l ∈ ts.map (renderWith (Quoted.printableBy beyond)), 10 ∉ l :=
    List.forall_mem_map.mpr fun t _ => newline_notMem_renderWith beyond t
  refine ⟨fun ts => ?_, newline_notMem_renderWith beyond, fun ts us => ⟨fun he => ?_, fun he => he ▸ rfl⟩, ?_,
    Kind.ofCode_injective⟩
  · exact (Text.count_unlines (hlines ts)).trans (List.length_map _)
  · have hmap := Text.eq_of_unlines (hlines ts) (hlines us) he
    exact List.map_injective_iff.mpr (fun _ _ => renderWith_inj.mp) hmap
  · rw [Quoted.printableBy_isPrintable, listingWith_isPrintable]

end Token

end Abacus
