import Matchbook.Decimal.Arithmetic
import Matchbook.Side
import Matchbook.Timestamp.Basic

/-
  Trades.

  A trade matches a resting order, the maker, with an incoming
  one, the taker, at the price of the maker.

  Key definitions include:
    * `Trade`
    * `Trade.notional?`
-/

------------------------------------------------------------
-- Trades
------------------------------------------------------------

namespace Matchbook

structure Trade where
  id : UInt64
  symbol : String
  price : Decimal
  quantity : Decimal
  total : Decimal
  takerSide : Side
  makerOrderId : UInt64
  takerOrderId : UInt64
  makerMemberId : UInt64
  takerMemberId : UInt64
  createdAt : Timestamp
deriving DecidableEq

namespace Trade

/- The total of the trade, computed again from its price and
quantity. -/
def notional? (t : Trade) : Option Decimal :=
  t.price.product? t.quantity

end Trade

end Matchbook
