import Abacus.Decimal.Read
import Abacus.Toml

/-!
# Reading TOML

A document is read character by character into its lines. All readers take what they understand off the
front of the input and give back the rest, or nothing when the input is no TOML.
-/

namespace Abacus.Toml

abbrev Input := List Char

def isWhite (c : Char) : Bool := c = ' ' || c = '\t'

def isBreak (c : Char) : Bool := c = '\n' || c = '\r'

def isHex (c : Char) : Bool := c.isDigit || ('a' ≤ c && c ≤ 'f') || ('A' ≤ c && c ≤ 'F')

def skipWhite (s : Input) : Input := s.dropWhile isWhite

/-- Passes over the rest of a comment. -/
def skipComment (s : Input) : Input := s.dropWhile (!isBreak ·)

/-- Passes over blanks, line breaks and comments; `comment` tells whether the input starts inside one. -/
def skipSpace (comment : Bool) : Input → Input
  | [] => []
  | c :: s =>
    if comment then skipSpace (!isBreak c) s
    else if isWhite c || isBreak c then skipSpace false s
    else if c = '#' then skipSpace true s
    else c :: s

/-- The input holds no control characters but tabs and line breaks. -/
def isClean : Input → Bool
  | [] => true
  | c :: s =>
    let control := c.toNat < 0x20 || c.toNat = 0x7F
    if c = '\r' then s.head? == some '\n' && isClean s
    else (!control || c = '\t' || c = '\n') && isClean s

/-! ## Strings -/

/-- The character with the code that hexadecimal digits spell. -/
def codePoint? (ds : Input) : Option Char := do
  let n ← ds.foldlM (fun n c => (Text.hexValue c.toNat.toUInt8).map (n * 16 + ·)) 0
  if ds.all isHex && (n < 0xD800 || (0xDFFF < n && n < 0x110000)) then some (Char.ofNat n) else none

/-- The character of an escape, and how many characters follow its letter. -/
def escape? : Input → Option (Char × Nat)
  | c :: s =>
    match c with
    | 'b' => some (Char.ofNat 8, 0)
    | 't' => some ('\t', 0)
    | 'n' => some ('\n', 0)
    | 'f' => some (Char.ofNat 12, 0)
    | 'r' => some ('\r', 0)
    | 'e' => some (Char.ofNat 27, 0)
    | '"' => some ('"', 0)
    | '\\' => some ('\\', 0)
    | 'x' => digits 2 s
    | 'u' => digits 4 s
    | 'U' => digits 8 s
    | _ => none
  | [] => none
where
  digits (n : Nat) (s : Input) : Option (Char × Nat) :=
    if s.length < n then none else (codePoint? (s.take n)).map (·, n)

/-- The rest of a one-line string after `skip` characters. -/
def basicString (acc : List Char) : Nat → Input → Option (List Char × Input)
  | _, [] => none
  | skip + 1, _ :: s => basicString acc skip s
  | 0, c :: s =>
    if c = '"' then some (acc.reverse, s)
    else if isBreak c then none
    else if c = '\\' then do
      let (e, n) ← escape? s
      basicString (e :: acc) (n + 1) s
    else basicString (c :: acc) 0 s

def literalString (s : Input) : Option (List Char × Input) :=
  let body := s.takeWhile (fun c => c != '\'' && !isBreak c)
  match s.drop body.length with
  | '\'' :: rest => some (body, rest)
  | _ => none

/-- A run of three to five quotes ends a string of several lines; those beyond three belong to it. -/
def closing? (quote : Char) (s : Input) : Option (Option Nat) :=
  let n := (s.takeWhile (· = quote)).length
  if n < 3 then some none else if n ≤ 5 then some (some n) else none

/-- A backslash at the end of a line takes away the break and the blanks after it. -/
def lineJoin? (s : Input) : Option Nat :=
  let white := s.takeWhile isWhite
  match s.drop white.length with
  | c :: _ => if isBreak c then some (s.takeWhile (fun c => isWhite c || isBreak c)).length else none
  | [] => none

/-- The rest of a string of several lines after `skip` characters. -/
def longBasic (acc : List Char) : Nat → Input → Option (List Char × Input)
  | _, [] => none
  | skip + 1, _ :: s => longBasic acc skip s
  | 0, c :: s =>
    if c = '"' then
      match closing? '"' (c :: s) with
      | none => none
      | some (some n) => some (acc.reverse ++ List.replicate (n - 3) '"', s.drop (n - 1))
      | some none => longBasic (c :: acc) 0 s
    else if c = '\\' then
      match lineJoin? s with
      | some n => longBasic acc n s
      | none => do
        let (e, n) ← escape? s
        longBasic (e :: acc) (n + 1) s
    else longBasic (c :: acc) 0 s

def longLiteral (acc : List Char) : Input → Option (List Char × Input)
  | [] => none
  | c :: s =>
    if c = '\'' then
      match closing? '\'' (c :: s) with
      | none => none
      | some (some n) => some (acc.reverse ++ List.replicate (n - 3) '\'', s.drop (n - 1))
      | some none => longLiteral (c :: acc) s
    else longLiteral (c :: acc) s

/-- A line break right after the opening quotes does not count. -/
def dropFirstBreak : Input → Input
  | '\r' :: '\n' :: s => s
  | '\n' :: s => s
  | s => s

def asText (r : Option (List Char × Input)) : Option (Text × Input) := r.map fun (cs, s) => (Text.ofChars cs, s)

def string? : Input → Option (Text × Input)
  | '"' :: '"' :: '"' :: s => asText (longBasic [] 0 (dropFirstBreak s))
  | '\'' :: '\'' :: '\'' :: s => asText (longLiteral [] (dropFirstBreak s))
  | '"' :: s => asText (basicString [] 0 s)
  | '\'' :: s => asText (literalString s)
  | _ => none

/-! ## Keys -/

def name? : Input → Option (Text × Input)
  | '"' :: s => asText (basicString [] 0 s)
  | '\'' :: s => asText (literalString s)
  | s =>
    match s.takeWhile isBareChar with
    | [] => none
    | cs => some (Text.ofChars cs, s.dropWhile isBareChar)

/-- Names with dots between them; at most `fuel` of them. -/
def key? : Nat → Input → Option (Key × Input)
  | 0, _ => none
  | fuel + 1, s => do
    let (name, s) ← name? (skipWhite s)
    match skipWhite s with
    | '.' :: s =>
      let (key, s) ← key? fuel s
      return (name :: key, s)
    | s => return ([name], s)

/-! ## Numbers, dates and truth values -/

/-- Underscores stand after a digit, and something other than one stands last. -/
def underscoresOk (s : List Char) : Bool :=
  let step : Bool × Bool → Char → Bool × Bool := fun (ok, accept) c => (ok && (c != '_' || accept), isHex c)
  let (ok, accept) := s.foldl step (true, false)
  ok && accept

def leadingZero : List Char → Bool
  | '0' :: c :: _ => c != 'b' && c != 'o' && c != 'x'
  | '+' :: '0' :: _ :: _ => true
  | '-' :: '0' :: _ :: _ => true
  | _ => false

def integer? (s : List Char) : Option Value :=
  if !underscoresOk s || leadingZero s then none
  else
    match Numeral.integerLiteral (Text.ofChars s) with
    | .ok n => some (.integer n)
    | .error _ => none

/-- A point has a digit after it. -/
def pointsOk : List Char → Bool
  | [] => true
  | '.' :: s =>
    match s with
    | c :: _ => c.isDigit && pointsOk s
    | [] => false
  | _ :: s => pointsOk s

/-- The parts of a number between point and exponent mark. -/
def floatParts (s : List Char) : List (List Char) :=
  (s.splitBy (fun a b => !isMark a && !isMark b)).filter (fun p => !p.any isMark)
where
  isMark (c : Char) : Bool := c = '.' || c = 'e' || c = 'E'

def float? (s : List Char) : Option Value :=
  let parts := floatParts s
  if !parts.all underscoresOk || (parts.head?.map leadingZero).getD false || !pointsOk s then none
  else
    match Numeral.float (Text.ofChars (s.filter (· != '_'))) with
    | .ok x => some (.float x)
    | .error _ => none

def number2? (a b : Char) (limit : Nat) : Bool :=
  a.isDigit && b.isDigit && (a.toNat - 48) * 10 + (b.toNat - 48) < limit

def monthDays (year month : Nat) : Nat :=
  if month = 2 then if year % 4 = 0 && (year % 100 != 0 || year % 400 = 0) then 29 else 28
  else if [4, 6, 9, 11].contains month then 30
  else 31

def date? : Input → Option Input
  | y₁ :: y₂ :: y₃ :: y₄ :: '-' :: m₁ :: m₂ :: '-' :: d₁ :: d₂ :: s =>
    if [y₁, y₂, y₃, y₄, m₁, m₂, d₁, d₂].all Char.isDigit then
      let v := fun (cs : List Char) => cs.foldl (fun n c => n * 10 + (c.toNat - 48)) 0
      let month := v [m₁, m₂]
      let day := v [d₁, d₂]
      if 1 ≤ month && month ≤ 12 && 1 ≤ day && day ≤ monthDays (v [y₁, y₂, y₃, y₄]) month then some s else none
    else none
  | _ => none

def time? : Input → Option Input
  | h₁ :: h₂ :: ':' :: m₁ :: m₂ :: s =>
    if number2? h₁ h₂ 24 && number2? m₁ m₂ 60 then
      match s with
      | ':' :: s₁ :: s₂ :: r =>
        if number2? s₁ s₂ 60 then
          match r with
          | '.' :: f :: r => if f.isDigit then some (r.dropWhile Char.isDigit) else none
          | r => some r
        else none
      | s => some s
    else none
  | _ => none

def zone? : Input → Bool
  | [] => true
  | ['Z'] => true
  | [sign, h₁, h₂, ':', m₁, m₂] => (sign = '+' || sign = '-') && number2? h₁ h₂ 25 && number2? m₁ m₂ 60
  | _ => false

/-- A date, a time, or both with an optional zone. -/
def datetime? (s : List Char) : Option Value :=
  let s := s.map fun c => if c = 'z' then 'Z' else if c = 't' || c = ' ' then 'T' else c
  let ok : Bool :=
    match date? s with
    | some [] => true
    | some ('T' :: r) => (time? r).any zone?
    | some _ => false
    | none => (time? s).any List.isEmpty
  if ok then some .datetime else none

def isDateChar (c : Char) : Bool := c.isDigit || ['-', ':', 'T', 't', ' ', '.', 'Z', 'z', '+'].contains c

def isFloatChar (c : Char) : Bool := c.isDigit || ['_', '.', '-', '+', 'e', 'E'].contains c

def trimEnd (s : List Char) : List Char := (s.reverse.dropWhile (· = ' ')).reverse

/-- A number after its sign or at a digit, or a date. What it is shows at the first character that is no
digit. -/
def numeric? (signed : Bool) (start s : Input) : Option (Value × Input) :=
  let taken (isPart : Char → Bool) : List Char := start ++ s.takeWhile isPart
  let rest (isPart : Char → Bool) : Input := s.dropWhile isPart
  let digits := s.dropWhile Char.isDigit
  let decimal := s.dropWhile (fun c => c.isDigit || c = '_')
  match s with
  | '0' :: 'x' :: _ => if signed then none else based 'x' isHex
  | '0' :: 'o' :: _ => if signed then none else based 'o' (fun c => '0' ≤ c && c ≤ '7')
  | '0' :: 'b' :: _ => if signed then none else based 'b' (fun c => c = '0' || c = '1')
  | c :: _ =>
    if !c.isDigit then none
    else
      match digits with
      | d :: _ =>
        if !signed && (d = '-' || d = ':') then
          (datetime? (trimEnd (taken isDateChar))).map (·, rest isDateChar)
        else
          match decimal with
          | e :: _ =>
            if e = '.' || e = 'e' || e = 'E' then
              let isPart := fun c => isFloatChar c
              (float? (taken isPart)).map (·, rest isPart)
            else (integer? (taken fun c => c.isDigit || c = '_')).map (·, decimal)
          | [] => (integer? (taken fun c => c.isDigit || c = '_')).map (·, decimal)
      | [] => (integer? (taken Char.isDigit)).map (·, digits)
  | [] => none
where
  based (mark : Char) (isDigit : Char → Bool) : Option (Value × Input) :=
    let isPart := fun c => isDigit c || c = '_'
    let body := (s.drop 2).takeWhile isPart
    (integer? ('0' :: mark :: body)).map (·, (s.drop 2).dropWhile isPart)

/-- The spelled-out floats after a sign. -/
def special? (sign : List Char) : Input → Option (Value × Input)
  | 'i' :: 'n' :: 'f' :: s => some (.float (Binary.infinity (sign = ['-'])), s)
  | 'n' :: 'a' :: 'n' :: s => some (.float Binary.nan, s)
  | _ => none

def bool? : Input → Option (Value × Input)
  | 't' :: 'r' :: 'u' :: 'e' :: s => some (.bool true, s)
  | 'f' :: 'a' :: 'l' :: 's' :: 'e' :: s => some (.bool false, s)
  | _ => none

/-- A value that holds no others. -/
def scalar? (s : Input) : Option (Value × Input) :=
  match s with
  | '"' :: _ => (string? s).map fun (t, s) => (.string t, s)
  | '\'' :: _ => (string? s).map fun (t, s) => (.string t, s)
  | '+' :: r => (special? ['+'] r).orElse fun _ => numeric? true ['+'] r
  | '-' :: r => (special? ['-'] r).orElse fun _ => numeric? true ['-'] r
  | 't' :: _ => bool? s
  | 'f' :: _ => bool? s
  | 'i' :: _ => special? [] s
  | 'n' :: _ => special? [] s
  | _ => numeric? false [] s

/-! ## Values -/

mutual

/-- A value; arrays and inline tables are read with `fuel` steps. -/
def value? : Nat → Input → Option (Value × Input)
  | 0, _ => none
  | fuel + 1, s =>
    match skipWhite s with
    | '[' :: s => (items? fuel s).map fun (vs, s) => (.array vs, s)
    | '\x7b' :: s => (pairs? fuel s).map fun (ps, s) => (.inline ps, s)
    | s => scalar? s

/-- The items of an array up to its closing bracket; a comma may follow the last. -/
def items? : Nat → Input → Option (List Value × Input)
  | 0, _ => none
  | fuel + 1, s =>
    match skipSpace false s with
    | ']' :: s => some ([], s)
    | s => do
      let (v, s) ← value? fuel s
      match skipSpace false s with
      | ',' :: s =>
        let (vs, s) ← items? fuel s
        return (v :: vs, s)
      | ']' :: s => return ([v], s)
      | _ => none

/-- The pairs of an inline table up to its closing brace; a comma may follow the last. -/
def pairs? : Nat → Input → Option (List (Key × Value) × Input)
  | 0, _ => none
  | fuel + 1, s =>
    match skipSpace false s with
    | '\x7d' :: s => some ([], s)
    | s => do
      let (p, s) ← pair? fuel s
      match skipSpace false s with
      | ',' :: s =>
        let (ps, s) ← pairs? fuel s
        return (p :: ps, s)
      | '\x7d' :: s => return ([p], s)
      | _ => none

def pair? : Nat → Input → Option ((Key × Value) × Input)
  | 0, _ => none
  | fuel + 1, s => do
    let (key, s) ← key? (fuel + 1) s
    match s with
    | '=' :: s =>
      let (v, s) ← value? fuel s
      return ((key, v), s)
    | _ => none

end

/-! ## Documents -/

/-- A line ends with blanks, perhaps a comment, and a break or the end of the input. -/
def lineEnd? (s : Input) : Option Input :=
  match skipWhite s with
  | [] => some []
  | '#' :: s => some (skipComment s)
  | c :: s => if isBreak c then some s else none

/-- One line that says something. -/
def line? (s : Input) : Option (Line × Input) :=
  let fuel := s.length + 1
  match s with
  | '[' :: '[' :: s => do
    let (key, s) ← key? fuel s
    match s with
    | ']' :: ']' :: s => return (.tableArray key, s)
    | _ => none
  | '[' :: s => do
    let (key, s) ← key? fuel s
    match s with
    | ']' :: s => return (.table key, s)
    | _ => none
  | s => do
    let ((key, v), s) ← pair? (fuel + 1) s
    return (.pair key v, s)

/-- All lines; at most `fuel` of them. -/
def linesOf? : Nat → Input → Option (List Line)
  | 0, _ => none
  | fuel + 1, s =>
    match skipSpace false s with
    | [] => some []
    | s => do
      let (l, s) ← line? s
      let s ← lineEnd? s
      let ls ← linesOf? fuel s
      return l :: ls

/-- Passes over a byte-order mark, of whichever encoding. -/
def dropMark : Text → Text
  | 0xEF :: 0xBB :: 0xBF :: t => t
  | 0xFF :: 0xFE :: t => t
  | 0xFE :: 0xFF :: t => t
  | t => t

/-- The lines of a document, which is well-formed UTF-8 after its byte-order mark. -/
def lines? (t : Text) : Option (List Line) :=
  let runes := (dropMark t).runes
  let input := runes.filterMap fun
    | .char c => some c
    | .stray _ => none
  if input.length = runes.length && isClean input then linesOf? (input.length + 1) input else none

end Abacus.Toml
