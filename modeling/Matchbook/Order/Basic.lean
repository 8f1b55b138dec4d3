import Matchbook.Decimal.Arithmetic
import Matchbook.Side
import Matchbook.Timestamp.Basic

/-
  Orders.

  An order with a price is a limit order, one without is a
  market order.  An order with a stop price waits until a
  trade reaches it.  Only the filled quantity of an order
  changes while it trades.

  Key definitions include:
    * `Order`
    * `Order.IsFilled`
    * `Order.pending?`
    * `Order.fill?`
    * `Order.activate`
    * `Order.gap`

  The main statements are:
    * `Order.gap_fill?_lt`
    * `Order.gap_fill?_le`
-/

------------------------------------------------------------
-- Orders
------------------------------------------------------------

namespace Matchbook

structure Order where
  id : UInt64
  symbol : String
  memberId : UInt64
  side : Side
  price : Option Decimal
  stopPrice : Option Decimal
  quantity : Decimal
  filled : Decimal
  immediateOrCancel : Bool
  createdAt : Timestamp
deriving DecidableEq

namespace Order

/- Whether the order has a price of its own. -/
def isLimit (o : Order) : Bool :=
  o.price.isSome

/- Whether the order takes any price. -/
def isMarket (o : Order) : Bool :=
  o.price.isNone

/- Whether the order still waits for its stop price. -/
def isStop (o : Order) : Bool :=
  o.stopPrice.isSome

/- The order released from its stop price. -/
def activate (o : Order) : Order :=
  { o with stopPrice := none }

------------------------------------------------------------
-- Filling
------------------------------------------------------------

/- Whether all of the quantity has traded. -/
def IsFilled (o : Order) : Prop :=
  Decimal.Same o.filled o.quantity

instance (o : Order) : Decidable o.IsFilled :=
  inferInstanceAs (Decidable (Decimal.Same _ _))

/- The quantity that has not traded, if it is in range. -/
def pending? (o : Order) : Option Decimal :=
  o.quantity.sub? o.filled

/- The order after a trade of `amount`, if the filled
quantity stays in range. -/
def fill? (o : Order) (amount : Decimal) : Option Order :=
  (o.filled.add? amount).map fun f => { o with filled := f }

/- The filled quantity is all that a fill changes. -/
theorem fill?_eq_some
    {o o' : Order}
    {amount : Decimal}
    (h : o.fill? amount = some o') :
    ∃ f, o.filled.add? amount = some f ∧
      o' = { o with filled := f } := by
  obtain ⟨f, hf, rfl⟩ := Option.map_eq_some_iff.1 h
  exact ⟨f, hf, rfl⟩

------------------------------------------------------------
-- Room to trade
------------------------------------------------------------

/-
  The units an order lacks to be filled, none if it has been
  filled beyond its quantity.  Matching ends because every
  trade lowers the sum of the two gaps.
-/
def gap (o : Order) : Nat :=
  (o.quantity.units - o.filled.units).toNat

/- A positive fill never widens the gap. -/
theorem gap_fill?_le
    {o o' : Order}
    {amount : Decimal}
    (h : o.fill? amount = some o')
    (hPos : 0 < amount.units) :
    o'.gap ≤ o.gap := by
  obtain ⟨f, hf, rfl⟩ := fill?_eq_some h
  have := Decimal.le_add? hf hPos
  simp only [gap]
  omega

/- Filling what is pending narrows the gap, also where the
sum is rounded. -/
theorem gap_fill?_lt
    {o o' : Order}
    {amount : Decimal}
    (hPending : o.pending? = some amount)
    (h : o.fill? amount = some o')
    (hPos : 0 < amount.units) :
    o'.gap < o.gap := by
  obtain ⟨f, hf, rfl⟩ := fill?_eq_some h
  have hLess := Decimal.lt_add?_of_sub? hPending hf hPos
  have hOpen := Decimal.lt_of_sub?_pos hPending hPos
  simp only [gap]
  omega

end Order

end Matchbook
