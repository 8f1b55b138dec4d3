import Matchbook.Decimal.Text
import Matchbook.Side

/-
  Broken contracts: calls that no correct caller makes.  A
  book that meets one while it matches is halted.

  Key definitions include:
    * `Violation`
    * `Violation.message`
-/

------------------------------------------------------------
-- Causes
------------------------------------------------------------

namespace Matchbook

inductive Violation where
  | sameSideMatch
      (side : Side)
      (makerId takerId : UInt64)
  | crossSideComparison
      (leftId : UInt64)
      (leftSide : Side)
      (rightId : UInt64)
      (rightSide : Side)
  | missingSortPrice (orderId : UInt64)
  | makerWithoutPrice (orderId : UInt64)
  | exhaustedOrder (orderId : UInt64)
  | wrongCollection
      (orderId : UInt64)
      (side collectionSide : Side)
  | totalOutOfRange
      (makerId takerId : UInt64)
      (price quantity : Decimal)
  | symbolMismatch
      (orderId : UInt64)
      (orderSymbol bookSymbol : String)
deriving DecidableEq

namespace Violation

/- The sentence that reports a broken contract. -/
def message : Violation → String
  | sameSideMatch side makerId takerId =>
      s!"match order with same side {side.name}: " ++
        s!"maker {makerId}, taker {takerId}"
  | crossSideComparison leftId leftSide rightId rightSide =>
      "compare order keys with different sides: " ++
        s!"{leftId} ({leftSide.name}) vs " ++
        s!"{rightId} ({rightSide.name})"
  | missingSortPrice orderId =>
      s!"order {orderId} has no price to rank by"
  | makerWithoutPrice orderId =>
      s!"resting maker order {orderId} has no price"
  | exhaustedOrder orderId =>
      s!"order {orderId} has nothing left to fill"
  | wrongCollection orderId side collectionSide =>
      s!"order {orderId} ({side.name}) inserted into the " ++
        s!"{collectionSide.name} collection"
  | totalOutOfRange makerId takerId price quantity =>
      s!"trade total {price.toText} x {quantity.toText} " ++
        s!"between maker {makerId} and taker {takerId} " ++
        "is not exactly representable"
  | symbolMismatch orderId orderSymbol bookSymbol =>
      s!"order {orderId} for symbol {orderSymbol} " ++
        s!"routed to book {bookSymbol}"

end Violation

end Matchbook
