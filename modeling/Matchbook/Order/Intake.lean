import Matchbook.Decimal.Text
import Matchbook.Order.Basic

/-
  Intake: the checks an order passes before it reaches a book.

  Quantities and prices are positive and have at most 14
  decimal places, so that a product of two of them never needs
  more than 28, and the total of a limit order fits.  What is
  filled has no minus, not even as a zero.

  Key definitions include:
    * `OrderDefect`
    * `OrderDefect.message`
    * `Order.defect?`
-/

------------------------------------------------------------
-- Defects
------------------------------------------------------------

namespace Matchbook

/- The fields whose decimal places are bounded. -/
inductive PlacedField where
  | quantity
  | price
  | stopPrice
deriving DecidableEq

namespace PlacedField

def name : PlacedField → String
  | quantity => "quantity"
  | price => "price"
  | stopPrice => "stop price"

end PlacedField

/- What intake finds wrong with an order. -/
inductive OrderDefect where
  | emptySymbol (orderId : UInt64)
  | nonPositiveQuantity
      (orderId : UInt64)
      (quantity : Decimal)
  | nonPositivePrice
      (orderId : UInt64)
      (price : Decimal)
  | scaleTooLarge
      (orderId : UInt64)
      (field : PlacedField)
      (value : Decimal)
  | notionalOutOfRange
      (orderId : UInt64)
      (price quantity : Decimal)
  | filledOutOfRange
      (orderId : UInt64)
      (filled quantity : Decimal)
deriving DecidableEq

/- The most decimal places of a price or quantity. -/
def maxPlaces : Nat := 14

namespace OrderDefect

/- The sentence that reports a defect. -/
def message : OrderDefect → String
  | emptySymbol orderId =>
      s!"order {orderId} has no symbol"
  | nonPositiveQuantity orderId quantity =>
      s!"order {orderId} has non-positive quantity " ++
        quantity.toText
  | nonPositivePrice orderId price =>
      s!"order {orderId} has non-positive price " ++
        price.toText
  | scaleTooLarge orderId field value =>
      s!"order {orderId} {field.name} {value.toText} " ++
        s!"has more than {maxPlaces} decimal places"
  | notionalOutOfRange orderId price quantity =>
      s!"order {orderId} notional {price.toText} x " ++
        s!"{quantity.toText} is out of range"
  | filledOutOfRange orderId filled quantity =>
      s!"order {orderId} filled quantity {filled.toText} " ++
        s!"outside 0..={quantity.toText}"

end OrderDefect

------------------------------------------------------------
-- Checks
------------------------------------------------------------

namespace Order

/- A defect where the condition holds. -/
def defectIf
    (p : Prop)
    [Decidable p]
    (d : OrderDefect) : Option OrderDefect :=
  if p then some d else none

/- A price that is present must be positive. -/
def priceDefect?
    (o : Order)
    (price : Option Decimal) : Option OrderDefect :=
  price.bind fun p =>
    defectIf (p ≤ 0) (.nonPositivePrice o.id p)

/- A value must not have too many decimal places. -/
def placesDefect?
    (o : Order)
    (field : PlacedField)
    (value : Option Decimal) : Option OrderDefect :=
  value.bind fun v =>
    defectIf (maxPlaces < v.scale)
      (.scaleTooLarge o.id field v)

/- The first defect of an order, if it has one. -/
def defect? (o : Order) : Option OrderDefect :=
  defectIf (o.symbol = "") (.emptySymbol o.id) <|>
  defectIf (o.quantity ≤ 0)
    (.nonPositiveQuantity o.id o.quantity) <|>
  defectIf (o.filled.negative ∨ o.quantity < o.filled)
    (.filledOutOfRange o.id o.filled o.quantity) <|>
  o.priceDefect? o.price <|>
  o.priceDefect? o.stopPrice <|>
  o.placesDefect? .quantity o.quantity <|>
  o.placesDefect? .price o.price <|>
  o.placesDefect? .stopPrice o.stopPrice <|>
  o.price.bind fun p =>
    defectIf (p.product? o.quantity = none)
      (.notionalOutOfRange o.id p o.quantity)

end Order

end Matchbook
