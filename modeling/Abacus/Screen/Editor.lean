import Abacus.Text.Utf8

/-!
# The text box

A box holds a text of several lines with the cursor at its end. Whatever is put into it, typed or set, is cleaned first:
a box never holds a control character besides the line end.
-/

namespace Abacus

structure Editor where
  chars : List Char
deriving DecidableEq, Repr

namespace Editor

def empty : Editor := ⟨[]⟩

/-- The number of lines that a text can grow to. -/
def mostLines : Nat := 10000

/-- The number of lines from which on the enter key adds none. -/
def mostEntered : Nat := 99

def isControl (c : Char) : Bool := c.val < 32 || (127 ≤ c.val && c.val < 160)

/-- What is put into the box for a character: either line end ends a line, a tab is four blanks, and other control
characters and the mark of an unreadable byte are left out. -/
def cleanChar (c : Char) : List Char :=
  if c = '\n' || c = '\r' then ['\n']
  else if c = '\t' then [' ', ' ', ' ', ' ']
  else if isControl c || c = '\uFFFD' then []
  else [c]

def clean (cs : List Char) : List Char := cs.flatMap cleanChar

/-- The first part of a text that ends at most `n` lines. -/
def takeLines : Nat → List Char → List Char
  | _, [] => []
  | n, c :: cs =>
    if c = '\n' then
      match n with
      | 0 => []
      | n + 1 => c :: takeLines n cs
    else c :: takeLines n cs

/-- The number of lines; an empty text has one. -/
def lineCount (e : Editor) : Nat := e.chars.count '\n' + 1

/-- Puts characters in at the cursor, as far as the lines last. -/
def insert (e : Editor) (cs : List Char) : Editor := ⟨e.chars ++ takeLines (mostLines - e.lineCount) (clean cs)⟩

def ofText (t : Text) : Editor := empty.insert t.chars

def toText (e : Editor) : Text := Text.ofChars e.chars

def newline (e : Editor) : Editor := if e.lineCount < mostEntered then ⟨e.chars ++ ['\n']⟩ else e

/-- Takes the last character away, which may be a line end. -/
def backspace (e : Editor) : Editor := ⟨e.chars.dropLast⟩

end Editor

end Abacus
