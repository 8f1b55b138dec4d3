import Matchbook.Order.Intake
import Matchbook.Trade
import Matchbook.Violation

/-
  Refusals: the answers other than success to a request.

  Key definitions include:
    * `Refusal`
    * `Refusal.message`
    * `Refusal.isFatal`
-/

------------------------------------------------------------
-- Causes
------------------------------------------------------------

namespace Matchbook

inductive Refusal where
  | violation (cause : Violation)
  | violationAfterTrades
      (cause : Violation)
      (trades : List Trade)
  | halted (symbol : String)
  | invalidOrder (cause : OrderDefect)
  | unknownSymbol (symbol : String)
  | duplicateOrder (symbol : String) (orderId : UInt64)
  | unavailable (symbol : String)
deriving DecidableEq

namespace Refusal

/- The sentence that reports a refusal. -/
def message : Refusal → String
  | violation cause =>
      "contract violation: " ++ cause.message
  | violationAfterTrades cause trades =>
      s!"contract violation after {trades.length} trades: " ++
        cause.message
  | halted symbol =>
      s!"book {symbol} is halted after a contract violation"
  | invalidOrder cause =>
      "invalid order: " ++ cause.message
  | unknownSymbol symbol => s!"unknown symbol: {symbol}"
  | duplicateOrder symbol orderId =>
      s!"order {orderId} is already in book {symbol}"
  | unavailable symbol =>
      s!"book {symbol} is not accepting commands"

/- Whether the book can no longer be trusted. -/
def isFatal : Refusal → Bool
  | violation _ => true
  | violationAfterTrades _ _ => true
  | halted _ => true
  | _ => false

end Refusal

end Matchbook
