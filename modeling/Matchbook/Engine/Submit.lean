import Matchbook.Engine.Cascade

/-
  The engine: submissions and cancellations against one book.

  A stop order waits until a trade reaches its stop price; one
  whose stop price the last trade has already reached is
  executed at once.  A broken contract halts the book for
  good.

  Key definitions include:
    * `Engine`
    * `Disposition`
    * `Report`
    * `Engine.submit?`
    * `Engine.cancel`
-/

------------------------------------------------------------
-- Reports
------------------------------------------------------------

namespace Matchbook

/- What happened to a submitted order. -/
inductive Disposition where
  | filled
  | rested (remaining : Decimal)
  | discarded (remaining : Decimal)
  | parked
deriving DecidableEq

/- The answer to a submission. -/
structure Report where
  orderId : UInt64
  disposition : Disposition
  trades : List Trade
  triggered : List UInt64
deriving DecidableEq

namespace Report

/- Whether the submitted order was filled at once. -/
def isFullyFilled (r : Report) : Bool :=
  r.disposition = .filled

end Report

namespace Ending

/- The disposition of a pass that ended well. -/
def disposition : Ending → Except Violation Disposition
  | filled => .ok .filled
  | rested remaining => .ok (.rested remaining)
  | discarded remaining => .ok (.discarded remaining)
  | broken cause => .error cause

end Ending

namespace Cascade

/-
  The report on the submitted order, unless a pass met a
  broken contract.  The orders of the other passes are the
  ones it triggered.
-/
def outcome (c : Cascade) : Except Violation Report :=
  match c.first.ending.disposition, c.violation with
  | .error cause, _ => .error cause
  | .ok _, some cause => .error cause
  | .ok disposition, none =>
      .ok
        { orderId := c.first.taker.id
          disposition := disposition
          trades := c.trades
          triggered := c.others.map (·.taker.id) }

end Cascade

------------------------------------------------------------
-- The engine
------------------------------------------------------------

/- A book and the counts of what has been done to it. -/
structure Engine where
  book : Book
  processed : UInt64 := 0
  executed : UInt64 := 0
deriving DecidableEq

namespace Engine

/- The engine of a new book. -/
def new (symbol : String) : Engine where
  book := Book.new symbol

/- Halt the book and report a broken contract with the trades
made before it. -/
def breakOff
    (e : Engine)
    (cause : Violation)
    (trades : List Trade) :
    Except Refusal Report × Engine :=
  let refusal :=
    if trades.isEmpty then
      Refusal.violation cause
    else
      Refusal.violationAfterTrades cause trades
  (.error refusal, { e with book := e.book.halt })

/- Whether an order has to wait for its stop price. -/
def mustWait (e : Engine) (o : Order) : Bool :=
  match o.stopPrice with
  | none => false
  | some stop =>
      !e.book.lastPrice.any fun last =>
        o.side.Triggers stop last

/- Let an order wait for its stop price. -/
def park
    (e : Engine)
    (o : Order) : Except Refusal Report × Engine :=
  match e.book.place .stop o with
  | .ok b =>
      (.ok
        { orderId := o.id
          disposition := .parked
          trades := []
          triggered := [] },
        { e with book := b })
  | .error cause => e.breakOff cause []

/- Execute an order and all that it sets off. -/
def execute?
    (e : Engine)
    (o : Order)
    (now : Timestamp) :
    Option (Except Refusal Report × Engine) :=
  (e.book.cascade? o now).map fun c =>
    let e' : Engine :=
      { e with
        book := c.book
        executed :=
          e.executed + c.trades.length.toUInt64 }
    match c.outcome with
    | .ok report => (.ok report, e')
    | .error cause => e'.breakOff cause c.trades

/-
  Submit an order.  `none` if a quantity is out of range: the
  engine has then no state to go on with.
-/
def submit?
    (e : Engine)
    (o : Order)
    (now : Timestamp) :
    Option (Except Refusal Report × Engine) :=
  if e.book.halted then
    some (.error (.halted e.book.symbol), e)
  else if o.symbol ≠ e.book.symbol then
    some (e.breakOff (e.book.misrouted o) [])
  else if e.book.contains o.id then
    some (.error (.duplicateOrder e.book.symbol o.id), e)
  else
    let e' := { e with processed := e.processed + 1 }
    if e'.mustWait o then
      some (e'.park o)
    else
      e'.execute? o now

/- Cancel the order with an id, if the book holds one. -/
def cancel
    (e : Engine)
    (id : UInt64) :
    Except Refusal (Option Order) × Engine :=
  if e.book.halted then
    (.error (.halted e.book.symbol), e)
  else
    match e.book.cancel? id with
    | none => (.ok none, e)
    | some (o, b) => (.ok (some o), { e with book := b })

end Engine

end Matchbook
