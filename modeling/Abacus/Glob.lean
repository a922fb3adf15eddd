import Abacus.Text.Utf8

/-!
# Glob patterns

A pattern describes names: stars stand for any run of characters, a question mark for one, brackets for one
of a set, braces for alternatives, and a backslash takes the next character as it is. A name matches only as
a whole.
-/

namespace Abacus

inductive Glob where
  | literal (c : Char)
  | anyChar
  | anyRun
  | oneOf (negated : Bool) (chars : List Char)
  | range (negated : Bool) (low high : Char)
  | choice (alternatives : List (List Glob))

inductive GlobError where
  | unexpectedEnd
  | unclosedRange
  | emptyRange
  | descendingRange (low high : Char)
  | unreadable
deriving DecidableEq, Repr

def GlobError.message : GlobError → Text
  | .unexpectedEnd => "unexpected end of input"
  | .unclosedRange => "expected close range character"
  | .emptyRange => "could not parse range"
  | .descendingRange low high =>
    ("hi character '" : Text) ++ Text.ofChar high ++ ("' should be greater than lo '" : Text) ++ Text.ofChar low
      ++ ("'" : Text)
  | .unreadable => "could not read rune"

namespace Glob

/-! ## Matching -/

/-- The name and all that is left of it after its first characters. -/
def suffixes : List Char → List (List Char)
  | [] => [[]]
  | c :: s => (c :: s) :: suffixes s

mutual

/-- What may be left of a name once the pattern has taken its part. -/
def rests : Glob → List Char → List (List Char)
  | .literal c, s =>
    match s with
    | x :: t => if x = c then [t] else []
    | [] => []
  | .anyChar, s =>
    match s with
    | _ :: t => [t]
    | [] => []
  | .anyRun, s => suffixes s
  | .oneOf negated chars, s =>
    match s with
    | x :: t => if chars.contains x != negated then [t] else []
    | [] => []
  | .range negated low high, s =>
    match s with
    | x :: t => if decide (low ≤ x ∧ x ≤ high) != negated then [t] else []
    | [] => []
  | .choice alternatives, s => restsAny alternatives s

/-- What may be left once all patterns have taken their parts in turn. -/
def restsAll : List Glob → List Char → List (List Char)
  | [], s => [s]
  | g :: gs, s => (g.rests s).flatMap (restsAll gs)

/-- What may be left after one of the alternatives. -/
def restsAny : List (List Glob) → List Char → List (List Char)
  | [], _ => []
  | gs :: alternatives, s => restsAll gs s ++ restsAny alternatives s

end

def matchesName (pattern : List Glob) (name : Text) : Bool := (restsAll pattern name.chars).any List.isEmpty

/-! ## Reading a pattern -/

/-- The replacement character cannot stand in a pattern. -/
def unreadable : Char := Char.ofNat 0xFFFD

/-- The characters of a set up to its closing bracket, with the number of characters read. -/
def setChars (count : Nat) (acc : List Char) : List Char → Except GlobError (List Char × Nat)
  | [] => .error .unexpectedEnd
  | '\\' :: c :: t => if c = unreadable then .error .unexpectedEnd else setChars (count + 2) (c :: acc) t
  | c :: t =>
    if c = unreadable then .error .unexpectedEnd
    else if c = ']' then .ok (acc.reverse, count + 1)
    else if c = '\\' then .error .unexpectedEnd
    else setChars (count + 1) (c :: acc) t

/-- What stands in brackets, after the opening one and a mark of negation. -/
def bracketBody (negated : Bool) (s : List Char) : Except GlobError (Glob × Nat) :=
  match s with
  | low :: '-' :: high :: close :: _ =>
    if low = unreadable || high = unreadable || close = unreadable then .error .unexpectedEnd
    else if close != ']' then .error .unclosedRange
    else if high < low then .error (.descendingRange low high)
    else .ok (.range negated low high, 4)
  | _ :: '-' :: _ => .error .unexpectedEnd
  | _ =>
    match setChars 0 [] s with
    | .error e => .error e
    | .ok ([], _) => .error .emptyRange
    | .ok (chars, n) => .ok (.oneOf negated chars, n)

/-- What stands in brackets, and how many characters it takes. -/
def bracket : List Char → Except GlobError (Glob × Nat)
  | '!' :: s => (bracketBody true s).map fun (g, n) => (g, n + 1)
  | s => bracketBody false s

/-- A sequence that is being read, last pattern first, and the finished alternatives before it. -/
structure Frame where
  done : List (List Glob)
  current : List Glob

def Frame.push (f : Frame) (g : Glob) : Frame := { f with current := g :: f.current }

def Frame.alternatives (f : Frame) : List (List Glob) := (f.current.reverse :: f.done).reverse

/-- Braces that are never closed end with the pattern. -/
def close : Frame → List Frame → List Glob
  | f, [] => f.current.reverse
  | f, outer :: more => close (outer.push (.choice f.alternatives)) more

/-- Reads the rest of a pattern after `skip` characters inside the open braces. -/
def readFrom (f : Frame) (outer : List Frame) : Nat → List Char → Except GlobError (List Glob)
  | _, [] => .ok (close f outer)
  | skip + 1, _ :: t => readFrom f outer skip t
  | 0, c :: t =>
    if c = unreadable then .error .unreadable
    else if c = '{' then readFrom ⟨[], []⟩ (f :: outer) 0 t
    else if c = ',' && !outer.isEmpty then readFrom ⟨f.current.reverse :: f.done, []⟩ outer 0 t
    else if c = '}' && !outer.isEmpty then
      match outer with
      | [] => .ok (close f outer)
      | o :: more => readFrom (o.push (.choice f.alternatives)) more 0 t
    else if c = '[' then
      match bracket t with
      | .error e => .error e
      | .ok (g, n) => readFrom (f.push g) outer n t
    else if c = '?' then readFrom (f.push .anyChar) outer 0 t
    else if c = '*' then readFrom (f.push .anyRun) outer 0 t
    else if c = '\\' then
      match t with
      | [] => .ok (close f outer)
      | e :: _ => if e = unreadable then .error .unreadable else readFrom (f.push (.literal e)) outer 1 t
    else readFrom (f.push (.literal c)) outer 0 t

def read (pattern : Text) : Except GlobError (List Glob) := readFrom ⟨[], []⟩ [] 0 pattern.chars

end Glob

end Abacus
