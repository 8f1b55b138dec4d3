import Matchbook.Book.Basic
import Matchbook.Store.Slots
import Std.Data.HashMap

/-
  Stored books.

  The orders of a stored book are kept in slots.  The ladders
  rank the numbers of the slots, and an index tells the slot
  of every id.

  Key definitions include:
    * `Place`
    * `Store`
    * `Store.insert`
    * `Store.removeSlot?`
    * `Store.cancel?`
    * `Store.takeTriggered?`
-/

------------------------------------------------------------
-- Stores
------------------------------------------------------------

namespace Matchbook

/- The slot of an order, and the policy of the ladder that it
stands on. -/
structure Place where
  slot : Nat
  policy : Policy
deriving DecidableEq

structure Store (σ : Type) where
  symbol : String
  slots : σ
  index : Std.HashMap UInt64 Place := ∅
  bids : Ladder .buy .price Nat := .empty
  asks : Ladder .sell .price Nat := .empty
  stopBids : Ladder .buy .stop Nat := .empty
  stopAsks : Ladder .sell .stop Nat := .empty
  lastPrice : Option Decimal := none
  nextTradeId : UInt64 := 1
  halted : Bool := false

namespace Store

variable {σ : Type} [Slots σ]

/- The store of a symbol before its first order. -/
def new (symbol : String) : Store σ where
  symbol := symbol
  slots := Slots.empty

/- The ladder of a side and a policy. -/
def ladder
    (s : Store σ) :
    (side : Side) →
    (policy : Policy) →
    Ladder side policy Nat
  | .buy, .price => s.bids
  | .sell, .price => s.asks
  | .buy, .stop => s.stopBids
  | .sell, .stop => s.stopAsks

/- The store with another ladder. -/
def withLadder
    (s : Store σ) :
    {side : Side} →
    {policy : Policy} →
    Ladder side policy Nat →
    Store σ
  | .buy, .price, l => { s with bids := l }
  | .sell, .price, l => { s with asks := l }
  | .buy, .stop, l => { s with stopBids := l }
  | .sell, .stop, l => { s with stopAsks := l }

------------------------------------------------------------
-- Queries
------------------------------------------------------------

/- The number of stored orders. -/
def orderCount (s : Store σ) : Nat :=
  Slots.size s.slots

def bidCount (s : Store σ) : Nat :=
  s.bids.size

def askCount (s : Store σ) : Nat :=
  s.asks.size

/- The number of waiting orders. -/
def stopCount (s : Store σ) : Nat :=
  s.stopBids.size + s.stopAsks.size

/- Whether an id is in the index. -/
def contains (s : Store σ) (id : UInt64) : Bool :=
  s.index.contains id

/- The order that is stored where the index says. -/
def get? (s : Store σ) (id : UInt64) : Option Order := do
  let place ← s.index[id]?
  Slots.get? s.slots place.slot

/- Whether the index says that an order waits. -/
def isPendingStop (s : Store σ) (id : UInt64) : Bool :=
  s.index[id]?.any fun place => place.policy = .stop

------------------------------------------------------------
-- Insertion and removal
------------------------------------------------------------

/- The store after a broken contract. -/
def halt (s : Store σ) : Store σ :=
  { s with halted := true }

/-
  Insert an order of the symbol of the store, and the store
  after that.  The ladder takes the slot before the slot takes
  the order and the index the id; if the ladder refuses it,
  neither of them comes to pass.
-/
def insert
    (s : Store σ)
    (policy : Policy)
    (o : Order) : Except Refusal Unit × Store σ :=
  if o.symbol ≠ s.symbol then
    (.error
      (.violation (.symbolMismatch o.id o.symbol s.symbol)),
      s)
  else if s.index.contains o.id then
    (.error (.duplicateOrder s.symbol o.id), s)
  else
    let slot := Slots.vacant s.slots
    match (s.ladder o.side policy).insert o.key slot with
    | .error cause => (.error (.violation cause), s)
    | .ok l =>
        (.ok (),
          { s.withLadder l with
            slots := Slots.insert s.slots o
            index := s.index.insert o.id ⟨slot, policy⟩ })

/-
  Vacate a slot.  The entry of the ladder is found by the key
  of the stored order.  `none` if the slot is vacant, or if
  the ladder has another slot there.
-/
def removeSlot?
    (s : Store σ)
    (place : Place) : Option (Order × Store σ) := do
  let o ← Slots.get? s.slots place.slot
  let (slot, l) ←
    ((s.ladder o.side place.policy).erase? o.key).filter
      (·.1 = place.slot)
  some
    (o,
      { s.withLadder l with
        slots := Slots.erase s.slots slot
        index := s.index.erase o.id })

/- Take out the order with an id, if the index has it. -/
def cancel?
    (s : Store σ)
    (id : UInt64) : Option (Option Order × Store σ) :=
  match s.index[id]? with
  | none => some (none, s)
  | some place =>
      (s.removeSlot? place).map fun (o, s') => (some o, s')

------------------------------------------------------------
-- Matching
------------------------------------------------------------

/- The slot of the best active order of a side. -/
def bestSlot? (s : Store σ) (side : Side) : Option Nat :=
  (s.ladder side .price).best?.map Entry.item

/- Change the order in a slot. -/
def update
    (s : Store σ)
    (slot : Nat)
    (o : Order) : Store σ :=
  { s with slots := Slots.update s.slots slot o }

/- Record a trade. -/
def record (s : Store σ) (t : Trade) : Store σ :=
  { s with
    lastPrice := some t.price
    nextTradeId := t.id + 1 }

/- Vacate slots of one policy, one after the other. -/
def removeSlots?
    (policy : Policy) :
    List Nat → Store σ → Option (List Order × Store σ)
  | [], s => some ([], s)
  | slot :: rest, s => do
      let (o, s') ← s.removeSlot? ⟨slot, policy⟩
      (removeSlots? policy rest s').map fun (os, s'') =>
        (o :: os, s'')

/- Take out the waiting orders that a trade at a price
releases. -/
def takeTriggered?
    (s : Store σ)
    (last : Decimal) : Option (List Order × Store σ) :=
  removeSlots? .stop
    (s.stopBids.triggered last ++ s.stopAsks.triggered last)
    s

end Store

end Matchbook
