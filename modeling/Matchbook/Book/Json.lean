import Matchbook.Book.Depth
import Matchbook.Json.Member

/-
  Price levels as JSON values.

  Key definitions include:
    * `Depth.toJson`
-/

------------------------------------------------------------
-- Writing
------------------------------------------------------------

namespace Matchbook

/- Levels as pairs of a price and a quantity. -/
def Json.levels (ls : List (Decimal × Decimal)) : Json :=
  .array
    (ls.map fun (price, quantity) =>
      .array [.decimal price, .decimal quantity])

/- The JSON value of the levels of a book. -/
def Depth.toJson (d : Depth) : Json :=
  .record
    [("symbol", .str d.symbol), ("bids", .levels d.bids),
      ("asks", .levels d.asks)]

end Matchbook
