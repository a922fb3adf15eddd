import Abacus.Text.Bytes
import Abacus.Text.Quoted

/-!
# Instants

An instant is a number of nanoseconds since the start of year 1. It is shown in UTC as a calendar date with a time
of day. The fixed layout has all fields at fixed width, so that texts of the years 0 to 9999 are ordered as the
instants are.
-/

namespace Abacus

/-- Nanoseconds since the start of year 1; zero stands for no instant. -/
abbrev Instant := Int

/-- A calendar date and a time of day. -/
structure DateTime where
  year : Int
  month : Nat
  day : Nat
  hour : Nat
  minute : Nat
  second : Nat
  nanosecond : Nat
deriving DecidableEq, Repr

namespace Calendar

def isLeap (year : Int) : Bool := year % 4 == 0 && (year % 100 != 0 || year % 400 == 0)

def monthLengths (leap : Bool) : List Nat := [31, if leap then 29 else 28, 31, 30, 31, 30, 31, 31, 30, 31, 30, 31]

def daysIn (year : Int) (month : Nat) : Nat := (monthLengths (isLeap year)).getD (month - 1) 0

/-- Days from the start of year 1 to the start of the year. -/
def daysBefore (year : Int) : Int :=
  let y := year - 1
  y * 365 + y / 4 - y / 100 + y / 400

/-- Days from the start of the year to the start of the month. -/
def daysBeforeMonth (leap : Bool) (month : Nat) : Nat := ((monthLengths leap).take (month - 1)).foldl (· + ·) 0

/-- The year of a day, and the number of the day in it, from zero. -/
def yearOf (day : Int) : Int × Nat :=
  let cycle := day / 146097
  let rest := (day % 146097).toNat
  let century := min (rest / 36524) 3
  let rest := rest - century * 36524
  let four := rest / 1461
  let rest := rest % 1461
  let one := min (rest / 365) 3
  (cycle * 400 + (century * 100 + four * 4 + one + 1 : Nat), rest - one * 365)

/-- The month, from `month` on, and the day in it that a number of days leads to. -/
def monthOf (month rest : Nat) : List Nat → Nat × Nat
  | [] => (month, rest + 1)
  | n :: ns => if rest < n then (month, rest + 1) else monthOf (month + 1) (rest - n) ns

end Calendar

namespace Instant

def nanosPerSecond : Nat := 1000000000

def secondsPerDay : Nat := 86400

def ofDateTime (d : DateTime) : Instant :=
  let day := Calendar.daysBefore d.year + (Calendar.daysBeforeMonth (Calendar.isLeap d.year) d.month + (d.day - 1) : Nat)
  let second : Nat := d.hour * 3600 + d.minute * 60 + d.second
  (day * secondsPerDay + second) * nanosPerSecond + d.nanosecond

def toDateTime (t : Instant) : DateTime :=
  let seconds : Int := t / nanosPerSecond
  let second := (seconds % secondsPerDay).toNat
  let inYear := Calendar.yearOf (seconds / secondsPerDay)
  let inMonth := Calendar.monthOf 1 inYear.2 (Calendar.monthLengths (Calendar.isLeap inYear.1))
  { year := inYear.1
    month := inMonth.1
    day := inMonth.2
    hour := second / 3600
    minute := second / 60 % 60
    second := second % 60
    nanosecond := (t % nanosPerSecond).toNat }

/-! ## Texts -/

/-- At least four digits, after a minus sign for a year before year 0. -/
def yearText : Int → Text
  | .ofNat n => Text.padded 4 n
  | .negSucc n => 45 :: Text.padded 4 (n + 1)

def dateText (d : DateTime) : Text :=
  yearText d.year ++ (45 :: Text.padded 2 d.month) ++ (45 :: Text.padded 2 d.day)

def timeText (d : DateTime) : Text :=
  Text.padded 2 d.hour ++ (58 :: Text.padded 2 d.minute) ++ (58 :: Text.padded 2 d.second)

/-- The layout in which instants are stored. -/
def storedLayout : Text := "2006-01-02T15:04:05.000000000Z"

def stored (t : Instant) : Text :=
  let d := t.toDateTime
  dateText d ++ (84 :: timeText d) ++ (46 :: Text.padded 9 d.nanosecond) ++ [90]

/-- Date and time of day with the fraction as short as possible. -/
def brief (t : Instant) : Text :=
  let d := t.toDateTime
  let digits := ((Text.padded 9 d.nanosecond).reverse.dropWhile (· == 48)).reverse
  dateText d ++ (84 :: timeText d) ++ (if digits.isEmpty then [] else 46 :: digits) ++ [90]

/-- Date and time of day to the second, for a reader. -/
def plain (t : Instant) : Text :=
  let d := t.toDateTime
  dateText d ++ (32 :: timeText d)

/-! ## Reading -/

inductive ReadError where
  | mismatch (found expected : Text)
  | outOfRange (what : Text)
  | extra (rest : Text)
deriving DecidableEq, Repr

/-- Between quotes, with a backslash before a quote or a backslash; bytes outside printable ASCII in hexadecimal. -/
def quoteBytes (t : Text) : Text :=
  let byte (b : UInt8) : Text :=
    if b < 32 || 128 ≤ b then 92 :: 120 :: Text.hex 2 b.toNat
    else if b = 34 || b = 92 then [92, b]
    else [b]
  34 :: (t.flatMap byte ++ [34])

def ReadError.message (whole : Text) : ReadError → Text
  | .mismatch found expected =>
    ("parsing time " : Text) ++ quoteBytes whole ++ (" as " : Text) ++ quoteBytes storedLayout ++
      (": cannot parse " : Text) ++ quoteBytes found ++ (" as " : Text) ++ quoteBytes expected
  | .outOfRange what => ("parsing time " : Text) ++ quoteBytes whole ++ (": " : Text) ++ what ++ (" out of range" : Text)
  | .extra rest => ("parsing time " : Text) ++ quoteBytes whole ++ (": extra text: " : Text) ++ quoteBytes rest

def digit? (b : UInt8) : Option Nat := if Text.isDigit b then some (b.toNat - 48) else none

def number? (ds : Text) : Option Nat := ds.foldl (fun n b => do return (← n) * 10 + (← digit? b)) (some 0)

/-- The bytes `sep` and the rest after them. -/
def literal (sep : Text) (t : Text) : Except ReadError Text :=
  match sep, t with
  | [], t => .ok t
  | s :: sep', b :: t' => if b = s then literal sep' t' else .error (.mismatch t sep)
  | _, [] => .error (.mismatch t sep)

/-- Two digits below or at `most`, named `what` where that fails. -/
def field (layout what : Text) (least most : Nat) (t : Text) : Except ReadError (Nat × Text) :=
  match t with
  | a :: b :: rest =>
    match digit? a, digit? b with
    | some x, some y =>
      let n := x * 10 + y
      if n < least || most < n then .error (.outOfRange what) else .ok (n, rest)
    | _, _ => .error (.mismatch t layout)
  | _ => .error (.mismatch t layout)

/-- The hour may have one digit. -/
def hourField (t : Text) : Except ReadError (Nat × Text) :=
  match t with
  | a :: rest =>
    match digit? a, rest.head?.bind digit? with
    | some x, some y => if 24 ≤ x * 10 + y then .error (.outOfRange "hour") else .ok (x * 10 + y, rest.tail)
    | some x, none => .ok (x, rest)
    | none, _ => .error (.mismatch t "15")
  | [] => .error (.mismatch t "15")

def yearField (t : Text) : Except ReadError (Nat × Text) :=
  match number? (t.take 4) with
  | some n => if t.length < 4 then .error (.mismatch t "2006") else .ok (n, t.drop 4)
  | none => .error (.mismatch t "2006")

/-- A point or comma and nine digits, or eight after a sign. -/
def fractionField (t : Text) : Except ReadError (Nat × Text) :=
  let failed : ReadError := .mismatch t ".000000000"
  if t.length < 10 then .error failed
  else
    match t with
    | b :: rest =>
      if b ≠ 46 && b ≠ 44 then .error failed
      else
        let ds := rest.take 9
        let negative := ds.head? == some 45
        let ds := if negative || ds.head? == some 43 then ds.tail else ds
        match number? ds with
        | none => .error failed
        | some n =>
          if negative && n ≠ 0 then .error (.outOfRange "fractional second") else .ok (n, rest.drop 9)
    | [] => .error failed

def readStored (t : Text) : Except ReadError Instant := do
  let (year, t) ← yearField t
  let t ← literal "-" t
  let (month, t) ← field "01" "month" 1 12 t
  let t ← literal "-" t
  let (day, t) ← field "02" "day" 0 99 t
  let t ← literal "T" t
  let (hour, t) ← hourField t
  let t ← literal ":" t
  let (minute, t) ← field "04" "minute" 0 59 t
  let t ← literal ":" t
  let (second, t) ← field "05" "second" 0 59 t
  let (nanosecond, t) ← fractionField t
  let t ← literal "Z" t
  if !t.isEmpty then .error (.extra t)
  else if day < 1 || Calendar.daysIn year month < day then .error (.outOfRange "day")
  else return ofDateTime { year, month, day, hour, minute, second, nanosecond }

/-- The minutes that a zone is ahead of UTC. -/
def zone? : Text → Option Int
  | [90] => some 0
  | sign :: h1 :: h2 :: 58 :: m1 :: m2 :: [] => do
    let h ← number? [h1, h2]
    let m ← number? [m1, m2]
    if h ≤ 24 && m < 60 then
      if sign = 43 then some (h * 60 + m : Nat)
      else if sign = 45 then some (-(h * 60 + m : Nat))
      else none
    else none
  | _ => none

/-- Reads a date with time of day, any fraction of a second, and a zone. -/
def read? (t : Text) : Option Instant := do
  let head := t.take 19
  let rest := t.drop 19
  let (digits, zone) : Text × Text :=
    match rest with
    | 46 :: r => (r.takeWhile Text.isDigit, r.dropWhile Text.isDigit)
    | r => ([], r)
  if rest.head? == some 46 && digits.isEmpty then none
  else
    let fraction := (digits ++ List.replicate 9 48).take 9
    let ahead ← zone? zone
    let utc ← (readStored (head ++ (46 :: fraction) ++ [90])).toOption
    return utc - ahead * 60 * nanosPerSecond

end Instant

end Abacus
