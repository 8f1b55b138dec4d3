import Matchbook.Book.Basic

/-
  Views of the active orders of a book: its price levels and
  its spread.

  Key definitions include:
    * `Depth`
    * `Book.depth?`
    * `Book.spread?`
-/

------------------------------------------------------------
-- Depth
------------------------------------------------------------

namespace Matchbook

/- Price levels with the quantity pending at each, the best
level first. -/
structure Depth where
  symbol : String
  bids : List (Decimal × Decimal)
  asks : List (Decimal × Decimal)
deriving DecidableEq

namespace Book

/- The best `n` levels of both sides.  `none` if a quantity or
`n` itself is out of range. -/
def depth? (b : Book) (n : Nat) : Option Depth := do
  let bids ← b.bids.levels? n Order.pending?
  let asks ← b.asks.levels? n Order.pending?
  return ⟨b.symbol, bids, asks⟩

/- The prices of the best bid and the best ask. -/
def bestPrices? (b : Book) : Option (Decimal × Decimal) := do
  let bid ← b.best? .buy
  let ask ← b.best? .sell
  return (← bid.price, ← ask.price)

/-
  The distance from the best bid to the best ask, if both
  exist.  The outer `none` says that it is out of range.
-/
def spread? (b : Book) : Option (Option Decimal) :=
  match b.bestPrices? with
  | none => some none
  | some (bid, ask) => (ask.sub? bid).map some

end Book

end Matchbook
