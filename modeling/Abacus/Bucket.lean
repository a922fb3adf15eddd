import Abacus.Decimal.Binary
import Abacus.Fault

/-!
# Token buckets

A bucket holds tokens up to its burst and refills at a steady rate. Taking tokens succeeds when enough are there.
Tokens and times are exact; times are seconds.
-/

namespace Abacus

/-- A bucket without a rate never runs out. -/
structure Bucket where
  rate : Option Rat
  burst : Int
  tokens : Rat
  last : Rat
deriving DecidableEq

/-- The exact value of a float; zero for one that is no number. -/
def ratOfFloat (x : Float) : Rat :=
  match Binary.classOf x with
  | .finite negative b =>
    let m : Rat := b.mantissa
    let v := if 0 ≤ b.exponent then m * Nat.pow 2 b.exponent.toNat else m / Nat.pow 2 (-b.exponent).toNat
    if negative then -v else v
  | .infinite negative => if negative then -(Nat.pow 2 1024 : Nat) else Nat.pow 2 1024
  | .nan => 0

/-- Tokens set aside, and when they may be used. -/
structure Reservation where
  amount : Int
  ready : Rat
deriving DecidableEq

namespace Bucket

/-- The rate from which a bucket counts as unlimited. -/
def unlimitedRate : Rat := ratOfFloat (Binary.toFloat false ⟨Nat.pow 2 53 - 1, 971⟩)

def lesser (a b : Rat) : Rat := if a ≤ b then a else b

/-- A full bucket. A rate that is not positive means no limit. -/
def new (rate : Rat) (burst : Int) (now : Rat) : Bucket :=
  ⟨if rate ≤ 0 || rate = unlimitedRate then none else some rate, burst, burst, now⟩

def level (b : Bucket) (r now : Rat) : Rat := lesser b.burst (b.tokens + r * (now - lesser now b.last))

def allow (b : Bucket) (n : Int) (now : Rat) : Bool × Bucket :=
  match b.rate with
  | none => (true, b)
  | some r =>
    let left := b.level r now - n
    if n ≤ b.burst && 0 ≤ left then (true, { b with tokens := left, last := now }) else (false, b)

/-- Sets `n` tokens aside, also ones that are still to come, as long as the wait for them is at most `patience`. -/
def reserve (b : Bucket) (n : Int) (now : Rat) (patience : Option Rat) : Option Reservation × Bucket :=
  match b.rate with
  | none => (some ⟨n, now⟩, b)
  | some r =>
    let left := b.level r now - n
    let delay := if left < 0 then -left / r else 0
    if n ≤ b.burst && patience.all (fun p => decide (delay ≤ p)) then
      (some ⟨n, now + delay⟩, { b with tokens := left, last := now })
    else (none, b)

/-- Gives back what was set aside last, unless its time has passed. -/
def giveBack (b : Bucket) (res : Reservation) (now : Rat) : Bucket :=
  match b.rate with
  | none => b
  | some r =>
    if res.amount = 0 || res.ready < now then b
    else { b with tokens := lesser b.burst (b.level r now + res.amount), last := now }

/-- How long a reservation still has to wait. -/
def Reservation.delay (res : Reservation) (now : Rat) : Rat := if res.ready < now then 0 else res.ready - now

/-- How long to wait for one token: one is set aside, its delay read, and the token given back. The three happen one
after the other, each with the clock as it then is. A bucket that never holds a token answers one second. -/
def retryAfter (b : Bucket) (reserved asked returned : Rat) : Rat × Bucket :=
  match b.reserve 1 reserved none with
  | (none, b) => (1, b)
  | (some res, b) => (Reservation.delay res asked, b.giveBack res returned)

/-- The longest delay, in seconds. -/
def longestDelay : Rat := ((Nat.pow 2 63 - 1 : Nat) : Rat) / (1000000000 : Nat)

/-- Whole seconds, rounded up; what is below a nanosecond does not count. -/
def wholeSeconds (d : Rat) : Nat :=
  let nanos := (lesser d longestDelay * (1000000000 : Nat)).floor.toNat
  (nanos + 999999999) / 1000000000

/-- Why a wait was given up. -/
inductive WaitError where
  | beyondBurst (n burst : Int)
  | interrupted (why : Interruption)
  | beyondDeadline (n : Int)
deriving DecidableEq, Repr

def WaitError.message : WaitError → Text
  | .beyondBurst n burst =>
    ("rate: Wait(n=" : Text) ++ Text.ofInt n ++ (") exceeds limiter's burst " : Text) ++ Text.ofInt burst
  | .interrupted why => why.message
  | .beyondDeadline n => ("rate: Wait(n=" : Text) ++ Text.ofInt n ++ (") would exceed context deadline" : Text)

/-- Waits for `n` tokens, and answers how long that takes. -/
def wait (b : Bucket) (n : Int) (now : Rat) (interrupted : Option Interruption) (patience : Option Rat) :
    Except WaitError Rat × Bucket :=
  if b.rate.isSome && b.burst < n then (.error (.beyondBurst n b.burst), b)
  else
    match interrupted with
    | some why => (.error (.interrupted why), b)
    | none =>
      match b.reserve n now patience with
      | (none, b) => (.error (.beyondDeadline n), b)
      | (some res, b) => (.ok (Reservation.delay res now), b)

end Bucket

end Abacus
