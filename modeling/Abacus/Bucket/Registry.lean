import Abacus.Bucket

/-!
# A bucket per client

Each client has a bucket of its own, made when it first comes. Clients that stay away longer than a time to live are
forgotten.
-/

namespace Abacus

/-- A client's bucket, the number of the bucket in the order they were made, and when it was last asked for. -/
structure Client where
  bucket : Bucket
  ordinal : Nat
  lastUsed : Rat
deriving DecidableEq

structure Registry where
  rate : Rat
  burst : Int
  ttl : Rat
  clients : List (Text × Client)
  made : Nat
deriving DecidableEq

namespace Registry

def defaultTtl : Rat := 300

def new (rate : Rat) (burst : Int) (ttl : Rat) : Registry :=
  ⟨rate, burst, if ttl ≤ 0 then defaultTtl else ttl, [], 0⟩

def size (r : Registry) : Nat := r.clients.length

def put (r : Registry) (key : Text) (c : Client) : Registry :=
  { r with clients := (key, c) :: r.clients.filter (·.1 != key) }

/-- The client of a key, made if need be, as used now. -/
def get (r : Registry) (key : Text) (now : Rat) : Client × Registry :=
  match r.clients.lookup key with
  | some c =>
    let c := { c with lastUsed := now }
    (c, r.put key c)
  | none =>
    let c : Client := ⟨Bucket.new r.rate r.burst now, r.made, now⟩
    (c, { r.put key c with made := r.made + 1 })

def allow (r : Registry) (key : Text) (n : Int) (now : Rat) : Bool × Registry :=
  let (c, r) := r.get key now
  let (ok, bucket) := c.bucket.allow n now
  (ok, r.put key { c with bucket })

def retryAfter (r : Registry) (key : Text) (now : Rat) : Rat × Registry :=
  let (c, r) := r.get key now
  let (d, bucket) := c.bucket.retryAfter now now now
  (d, r.put key { c with bucket })

/-- Forgets the clients that were idle for longer than the time to live. -/
def cleanup (r : Registry) (now : Rat) : Registry :=
  { r with clients := r.clients.filter (fun e => decide (now - e.2.lastUsed ≤ r.ttl)) }

end Registry

end Abacus
