import Matchbook.Engine.Submit
import Matchbook.Store.Basic

/-
  Clerks: submissions and cancellations against one stored
  book, step by step.

  An order that is out of place is not told from a number out
  of range: `none` stands for both.

  Key definitions include:
    * `Store.trade?`
    * `Store.execute?`
    * `Store.drain?`
    * `Store.cascade?`
    * `Clerk`
    * `Clerk.submit?`
    * `Clerk.cancel?`
-/

------------------------------------------------------------
-- Executions
------------------------------------------------------------

namespace Matchbook

namespace Store

variable {σ : Type} [Slots σ]

/- Vacate the slot of a maker that is filled. -/
def settle?
    (s : Store σ)
    (slot : Nat)
    (maker : Order) : Option (Store σ) :=
  if maker.IsFilled then
    (s.removeSlot? ⟨slot, .price⟩).map Prod.snd
  else
    some s

/-
  Let a taker meet the best orders of the other side, one
  after the other, until it is filled or stopped.  The trades
  are added to those made before.
-/
def trade?
    (now : Timestamp)
    (taker : Order)
    (trades : List Trade)
    (s : Store σ) :
    Option
      (Except Violation Order × List Trade × Store σ) :=
  if taker.IsFilled then
    some (.ok taker, trades, s)
  else
    match s.bestSlot? taker.side.opposite with
    | none => some (.ok taker, trades, s)
    | some slot => do
        let maker ← Slots.get? s.slots slot
        let meeting ← maker.meet? taker s.nextTradeId now
        match meeting with
        | .broken cause => some (.error cause, trades, s)
        | .apart => some (.ok taker, trades, s)
        | .traded t maker' taker' => do
            let s' ←
              ((s.update slot maker').record t).settle? slot
                maker'
            s' |>.trade? now taker' (trades ++ [t])
partial_fixpoint

/- Rest, discard or forget a taker that has stopped
trading. -/
def finish?
    (s : Store σ)
    (taker : Order) :
    Option (Except Refusal Disposition × Store σ) :=
  if taker.IsFilled then
    some (.ok .filled, s)
  else
    taker.pending?.map fun remaining =>
      if taker.immediateOrCancel ∨ taker.isMarket then
        (.ok (.discarded remaining), s)
      else
        let (stored, s') := s.insert .price taker
        (stored.map fun _ => .rested remaining, s')

/- Execute one order. -/
def execute?
    (now : Timestamp)
    (taker : Order)
    (trades : List Trade)
    (s : Store σ) :
    Option
      (Except Refusal Disposition × List Trade × Store σ) := do
  let (stopped, trades', s') ← trade? now taker trades s
  match stopped with
  | .error cause =>
      some (.error (.violation cause), trades', s')
  | .ok taker' =>
      (s'.finish? taker').map fun (answer, s'') =>
        (answer, trades', s'')

/- Take out the waiting orders that the last trade
releases. -/
def sweep? (s : Store σ) : Option (List Order × Store σ) :=
  match s.lastPrice with
  | none => some ([], s)
  | some last => s.takeTriggered? last

/- Sweep the store if there are more trades than before. -/
def sweepAfter?
    (s : Store σ)
    (before after : List Trade) :
    Option (List Order × Store σ) :=
  if before.length < after.length then
    s.sweep?
  else
    some ([], s)

/-
  Execute released orders and all that they release, first in
  first out, until one of them is refused.  Their trades and
  ids are added to those from before.
-/
def drain?
    (now : Timestamp)
    (released : List Order)
    (trades : List Trade)
    (triggered : List UInt64)
    (s : Store σ) :
    Option
      (Except Refusal Unit × List Trade × List UInt64 ×
        Store σ) :=
  match released with
  | [] => some (.ok (), trades, triggered, s)
  | o :: rest => do
      let (answer, trades', s') ←
        execute? now o.activate trades s
      match answer with
      | .error refusal =>
          some
            (.error refusal, trades', triggered ++ [o.id], s')
      | .ok _ => do
          let (more, s'') ← s'.sweepAfter? trades trades'
          s'' |>.drain? now (rest ++ more) trades'
            (triggered ++ [o.id])
partial_fixpoint

end Store

------------------------------------------------------------
-- Submissions
------------------------------------------------------------

/- What has come of an order: its disposition or why it was
refused, the trades made so far, and the ids of the orders
that it has released. -/
structure Tally where
  outcome : Except Refusal Disposition
  trades : List Trade := []
  triggered : List UInt64 := []

namespace Store

variable {σ : Type} [Slots σ]

/- Execute an order and all that it sets off. -/
def cascade?
    (s : Store σ)
    (o : Order)
    (now : Timestamp) : Option (Tally × Store σ) := do
  let (answer, trades, s₁) ← s.execute? now o.activate []
  match answer with
  | .error refusal => some (⟨.error refusal, trades, []⟩, s₁)
  | .ok disposition => do
      let (released, s₂) ← s₁.sweepAfter? [] trades
      (s₂.drain? now released trades []).map
        fun (drained, trades', triggered, s₃) =>
          (⟨drained.map fun _ => disposition, trades',
            triggered⟩, s₃)

/- Whether an order has to wait for its stop price. -/
def mustWait (s : Store σ) (o : Order) : Bool :=
  match o.stopPrice with
  | none => false
  | some stop =>
      !s.lastPrice.any fun last => o.side.Triggers stop last

end Store

------------------------------------------------------------
-- Clerks
------------------------------------------------------------

/- A stored book and the counts of what has been done to
it. -/
structure Clerk (σ : Type) where
  store : Store σ
  processed : UInt64 := 0
  executed : UInt64 := 0

namespace Clerk

variable {σ : Type} [Slots σ]

/- The clerk of a new book. -/
def new (symbol : String) : Clerk σ where
  store := Store.new symbol

/- Let an order wait for its stop price. -/
def park (c : Clerk σ) (o : Order) : Tally × Clerk σ :=
  let (stored, s) := c.store.insert .stop o
  (⟨stored.map fun _ => .parked, [], []⟩,
    { c with store := s })

/- Take an order in: let it wait, or execute it. -/
def process?
    (c : Clerk σ)
    (o : Order)
    (now : Timestamp) : Option (Tally × Clerk σ) :=
  if o.symbol ≠ c.store.symbol then
    some
      (⟨.error
          (.violation
            (.symbolMismatch o.id o.symbol c.store.symbol)),
        [], []⟩, c)
  else if c.store.contains o.id then
    some
      (⟨.error (.duplicateOrder c.store.symbol o.id), [], []⟩,
        c)
  else
    let c' := { c with processed := c.processed + 1 }
    if c.store.mustWait o then
      some (c'.park o)
    else
      (c.store.cascade? o now).map fun (tally, s) =>
        (tally,
          { c' with
            store := s
            executed :=
              c.executed + tally.trades.length.toUInt64 })

/-
  Answer with what has come of an order.  A broken contract
  halts the store and is reported with the trades made before
  it; any other refusal is reported without trades.
-/
def answer
    (c : Clerk σ)
    (o : Order)
    (tally : Tally) :
    Except Refusal Report × Clerk σ :=
  match tally.outcome with
  | .ok disposition =>
      (.ok
        { orderId := o.id
          disposition := disposition
          trades := tally.trades
          triggered := tally.triggered },
        c)
  | .error (.violation cause) =>
      (.error
        (if tally.trades.isEmpty then
          .violation cause
        else
          .violationAfterTrades cause tally.trades),
        { c with store := c.store.halt })
  | .error refusal => (.error refusal, c)

/- Submit an order. -/
def submit?
    (c : Clerk σ)
    (o : Order)
    (now : Timestamp) :
    Option (Except Refusal Report × Clerk σ) :=
  if c.store.halted then
    some (.error (.halted c.store.symbol), c)
  else
    (c.process? o now).map fun (tally, c') =>
      c'.answer o tally

/- Cancel the order with an id, if the store holds one. -/
def cancel?
    (c : Clerk σ)
    (id : UInt64) :
    Option (Except Refusal (Option Order) × Clerk σ) :=
  if c.store.halted then
    some (.error (.halted c.store.symbol), c)
  else
    (c.store.cancel? id).map fun (found, s) =>
      (.ok found, { c with store := s })

end Clerk

end Matchbook
