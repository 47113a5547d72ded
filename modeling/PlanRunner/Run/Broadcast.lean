/-!
# PlanRunner — broadcasting with a bounded memory

Everything published goes to every subscriber. Only a bounded number of items is
kept; a subscriber that falls further behind is told once how many items it lost
and goes on with the oldest one kept.

* `publish` — appends an item; nobody has to listen;
* `receive` — the next thing a subscriber gets.
-/

namespace PlanRunner

/-- Published items. The last `capacity` of them are kept. -/
structure Broadcast (α : Type) where
  capacity : Nat
  /-- How many items have been dropped from the front of `kept`. -/
  dropped : Nat
  kept : List α
  closed : Bool

/-- What a subscriber gets next. -/
inductive Received (α : Type) where
  | item (a : α)
  | lagged (missed : Nat)
  | empty
  | closed

namespace Broadcast

variable {α : Type}

/-- The smallest power of two that is at least `n`. -/
def roundUp (n : Nat) : Nat :=
  if n ≤ 1 then 1 else Nat.pow 2 ((n - 1).log2 + 1)

def withCapacity (capacity : Nat) : Broadcast α :=
  ⟨roundUp capacity, 0, [], false⟩

def published (b : Broadcast α) : Nat :=
  b.dropped + b.kept.length

/-- Publishes an item; the oldest one is dropped when there are too many. -/
def publish (b : Broadcast α) (a : α) : Broadcast α :=
  let items := b.kept ++ [a]
  if b.capacity < items.length then { b with dropped := b.dropped + 1, kept := items.drop 1 }
  else { b with kept := items }

/-- Ends the broadcast; what is kept can still be received. -/
def close (b : Broadcast α) : Broadcast α :=
  { b with closed := true }

/-- The next thing for a subscriber that has got `position` items so far, lost ones
included, and its new position. A new subscriber starts at `published`. -/
def receive (b : Broadcast α) (position : Nat) : Received α × Nat :=
  if position < b.dropped then (.lagged (b.dropped - position), b.dropped)
  else
    match b.kept[position - b.dropped]? with
    | some a => (.item a, position + 1)
    | none => (if b.closed then .closed else .empty, position)

/-- Everything a subscriber can get now, in order, and its new position. -/
def drain (b : Broadcast α) (position : Nat) : List (Received α) × Nat :=
  let start := max position b.dropped
  let missed := if position < b.dropped then [.lagged (b.dropped - position)] else []
  (missed ++ (b.kept.drop (start - b.dropped)).map .item, max start b.published)

end Broadcast

end PlanRunner
