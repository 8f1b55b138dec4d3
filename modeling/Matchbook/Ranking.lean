import Matchbook.Order.Basic
import Matchbook.Violation

/-
  The ranking of orders of one side.

  Active orders rank by their price, waiting ones by their
  stop price.  Of two orders the one with the better price
  ranks higher: for buyers the higher price, for sellers the
  lower one.  Of equal prices the earlier order ranks higher,
  of equal times the lower id.  Greater means higher.

  Key definitions include:
    * `OrderKey`
    * `Policy`
    * `RankedKey`
    * `RankedKey.compare`
    * `RankedKey.ascending`
    * `Policy.rank`
    * `Policy.compare`
-/

------------------------------------------------------------
-- Keys
------------------------------------------------------------

namespace Matchbook

/- The part of an order that its rank depends on. -/
structure OrderKey where
  id : UInt64
  side : Side
  price : Option Decimal
  stopPrice : Option Decimal
  createdAt : Timestamp
deriving DecidableEq

/- The key of an order. -/
def Order.key (o : Order) : OrderKey where
  id := o.id
  side := o.side
  price := o.price
  stopPrice := o.stopPrice
  createdAt := o.createdAt

/- Which of its prices an order ranks by. -/
inductive Policy where
  | price
  | stop
deriving DecidableEq

/- The place of an order among the orders of its side. -/
structure RankedKey where
  side : Side
  price : Decimal
  createdAt : Timestamp
  id : UInt64
deriving DecidableEq

------------------------------------------------------------
-- Comparison
------------------------------------------------------------

/- How good one price is against another for a side. -/
def Side.comparePrices (s : Side) (p q : Decimal) :
    Ordering :=
  match s with
  | .buy => compare p q
  | .sell => compare q p

namespace RankedKey

/-
  The ranking itself.  Keys of one id are equal, whatever
  their other parts.
-/
def compare (a b : RankedKey) : Ordering :=
  if a.id = b.id then
    .eq
  else
    (a.side.comparePrices a.price b.price).then
      ((Ord.compare b.createdAt a.createdAt).then
        (Ord.compare b.id a.id))

/- Keys from the lowest to the highest rank. -/
def ascending (keys : List RankedKey) : List RankedKey :=
  keys.mergeSort fun a b => (a.compare b).isLE

/- The key of the highest rank. -/
def best? (keys : List RankedKey) : Option RankedKey :=
  (ascending keys).getLast?

end RankedKey

------------------------------------------------------------
-- Policies
------------------------------------------------------------

namespace Policy

/- The price that a key ranks by. -/
def sortPrice (p : Policy) (k : OrderKey) :
    Option Decimal :=
  match p with
  | price => k.price
  | stop => k.stopPrice

/- The rank of a key; a key without the price has none. -/
def rank (p : Policy) (k : OrderKey) :
    Except Violation RankedKey :=
  match p.sortPrice k with
  | some q => .ok ⟨k.side, q, k.createdAt, k.id⟩
  | none => .error (.missingSortPrice k.id)

/-
  The ranking of keys.  Keys of different sides do not
  compare; keys of one id are equal even without a price.
-/
def compare (p : Policy) (a b : OrderKey) :
    Except Violation Ordering :=
  if a.side ≠ b.side then
    .error
      (.crossSideComparison a.id a.side b.id b.side)
  else if a.id = b.id then
    .ok .eq
  else do
    let ra ← p.rank a
    let rb ← p.rank b
    return ra.compare rb

end Policy

end Matchbook
