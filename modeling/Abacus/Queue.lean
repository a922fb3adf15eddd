/-!
# Bounded queues

A queue holds at most `capacity` items, first in first out. Adding never waits: a full or closed queue drops the
item. Taking waits for a first item and then takes what else is there, up to a limit; a closed queue says so once
nothing is left in it.
-/

namespace Abacus

structure Queue (α : Type) where
  capacity : Nat
  items : List α
  closed : Bool
deriving Repr

/-- What became of an item offered to a queue. -/
inductive Admission where
  | accepted
  | dropped
deriving DecidableEq, Repr

/-- Which of the things a reader waits for happened. -/
inductive Wake where
  | ready
  | cancelled
  | timeout
deriving DecidableEq, Repr

/-- Why a reader need not come back. -/
inductive Ending where
  | drained
  | cancelled
deriving DecidableEq, Repr

/-- What one look into a queue finds. -/
inductive Receipt (α : Type) where
  | item (a : α)
  | drained
  | nothing
deriving Repr

/-- The items taken in one call, and whether there will be more. -/
structure Delivery (α : Type) where
  items : List α
  ending : Option Ending
deriving Repr

namespace Queue

variable {α : Type}

/-- An empty queue. A capacity that is not positive counts as one. -/
def new (capacity : Int) : Queue α := ⟨if capacity ≤ 0 then 1 else capacity.toNat, [], false⟩

def size (q : Queue α) : Nat := q.items.length

def admits (q : Queue α) : Bool := !q.closed && q.items.length < q.capacity

def enqueue (q : Queue α) (a : α) : Admission × Queue α :=
  if q.admits then (.accepted, { q with items := q.items ++ [a] }) else (.dropped, q)

def close (q : Queue α) : Queue α := { q with closed := true }

def receive (q : Queue α) : Receipt α × Queue α :=
  match q.items with
  | a :: rest => (.item a, { q with items := rest })
  | [] => (if q.closed then .drained else .nothing, q)

/-- Takes items while there is room in the batch and something to take. Filling the batch ends the call before it
can find the queue drained. -/
def gather : Nat → Queue α → Delivery α × Queue α
  | 0, q => (⟨[], none⟩, q)
  | room + 1, q =>
    match q.receive with
    | (.item a, q) =>
      let (delivery, q) := gather room q
      (⟨a :: delivery.items, delivery.ending⟩, q)
    | (.drained, q) => (⟨[], some .drained⟩, q)
    | (.nothing, q) => (⟨[], none⟩, q)

/-- A limit on a batch that is not positive counts as one. -/
def batchLimit (most : Int) : Nat := if most ≤ 0 then 1 else most.toNat

/-- Takes a batch. A reader that is woken with nothing to take has waited in vain. -/
def dequeue (q : Queue α) (most : Int) : Wake → Delivery α × Queue α
  | .cancelled => (⟨[], some .cancelled⟩, q)
  | .timeout => (⟨[], none⟩, q)
  | .ready => gather (batchLimit most) q

/-- How a wait ends when nothing happens during it but time passing. -/
def wake (q : Queue α) (cancelled : Bool) : Wake :=
  if !q.items.isEmpty || q.closed then .ready else if cancelled then .cancelled else .timeout

end Queue

end Abacus
