import Abacus.Text.Bytes

/-!
# Deterministic automata

An automaton reads a text byte by byte and stops at the first byte without a transition. Two automata
decide which lexemes are identifiers and numbers.
-/

namespace Abacus

/-- A deterministic automaton over bytes; a missing step is an error. -/
structure Automaton (σ : Type) where
  initial : σ
  accepting : σ → Bool
  step : σ → UInt8 → Option σ

namespace Automaton

variable {σ : Type}

/-- The state in which the automaton stops, and how many bytes it has read by then. -/
def run (a : Automaton σ) (s : σ) : Text → σ × Nat
  | [] => (s, 0)
  | b :: t =>
    match a.step s b with
    | none => (s, 0)
    | some s' =>
      let (q, n) := a.run s' t
      (q, n + 1)

/-- What was read if the automaton stops in an accepting state, and nothing otherwise. -/
def scan (a : Automaton σ) (t : Text) : Text :=
  let (q, n) := a.run a.initial t
  if a.accepting q then t.take n else []

/-- The whole text, which is not empty, is read and accepted. -/
def accepts (a : Automaton σ) (t : Text) : Bool := !t.isEmpty && a.scan t == t

inductive Word where
  | start
  | inside
deriving DecidableEq, Repr

/-- A letter or underscore, then letters, digits and underscores. -/
def identifier : Automaton Word where
  initial := .start
  accepting s := s == .inside
  step
    | .start, b => if Text.isLetter b || b == 95 then some .inside else none
    | .inside, b => if Text.isLetter b || Text.isDigit b || b == 95 then some .inside else none

inductive Figure where
  | start
  | whole
  | point
  | fraction
deriving DecidableEq, Repr

/-- Digits, then perhaps a point and more digits. -/
def number : Automaton Figure where
  initial := .start
  accepting s := s == .whole || s == .fraction
  step
    | .start, b => if Text.isDigit b then some .whole else none
    | .whole, b => if Text.isDigit b then some .whole else if b == 46 then some .point else none
    | .point, b => if Text.isDigit b then some .fraction else none
    | .fraction, b => if Text.isDigit b then some .fraction else none

/-- The automaton with the given edges; an edge to `-1` is no edge, and a later edge replaces an earlier
one from the same state under the same byte. -/
def ofEdges (initial : Int) (accepting : List Int) (edges : List (Int × UInt8 × Int)) : Automaton Int where
  initial
  accepting s := accepting.contains s
  step s b :=
    match edges.reverse.find? (fun (src, c, _) => src == s && c == b) with
    | some (_, _, dst) => if dst = -1 then none else some dst
    | none => none

end Automaton

end Abacus
