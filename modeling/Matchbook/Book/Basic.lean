import Matchbook.Ladder
import Matchbook.Refusal

/-
  Order books.

  A book holds the orders of one symbol in four ladders: bids
  and asks ranked by price, waiting buy and sell stops ranked
  by stop price.  The policy of a ladder tells what its orders
  do: those ranked by price are active, those ranked by stop
  price wait.

  Key definitions include:
    * `Book`
    * `Book.maxRoom`
    * `Book.ladder`
    * `Book.withLadder`
    * `Book.locate?`
    * `Book.place`
    * `Book.insert`
    * `Book.cancel?`
    * `Book.release`

  The main statements are:
    * `Book.ladder_withLadder_self`
    * `Book.ladder_withLadder_of_ne`
    * `Book.length_release_add_stopCount`
-/

------------------------------------------------------------
-- Books
------------------------------------------------------------

namespace Matchbook

structure Book where
  symbol : String
  bids : Ladder .buy .price Order := .empty
  asks : Ladder .sell .price Order := .empty
  stopBids : Ladder .buy .stop Order := .empty
  stopAsks : Ladder .sell .stop Order := .empty
  lastPrice : Option Decimal := none
  nextTradeId : UInt64 := 1
  halted : Bool := false
deriving DecidableEq

namespace Book

/- The most orders that a new book can be given room for. -/
def maxRoom : Nat := 2 ^ 56 - 1

/- The book of a symbol before its first order. -/
def new (symbol : String) : Book where
  symbol := symbol

------------------------------------------------------------
-- Ladders
------------------------------------------------------------

/- The ladder of a side and a policy. -/
def ladder
    (b : Book) :
    (side : Side) →
    (policy : Policy) →
    Ladder side policy Order
  | .buy, .price => b.bids
  | .sell, .price => b.asks
  | .buy, .stop => b.stopBids
  | .sell, .stop => b.stopAsks

/- The book with another ladder. -/
def withLadder
    (b : Book) :
    {side : Side} →
    {policy : Policy} →
    Ladder side policy Order →
    Book
  | .buy, .price, l => { b with bids := l }
  | .sell, .price, l => { b with asks := l }
  | .buy, .stop, l => { b with stopBids := l }
  | .sell, .stop, l => { b with stopAsks := l }

@[simp] theorem ladder_withLadder_self
    {side : Side}
    {policy : Policy}
    (b : Book)
    (l : Ladder side policy Order) :
    (b.withLadder l).ladder side policy = l := by
  cases side <;> cases policy <;> rfl

theorem ladder_withLadder_of_ne
    {side side' : Side}
    {policy policy' : Policy}
    (b : Book)
    (l : Ladder side policy Order)
    (h : (side, policy) ≠ (side', policy')) :
    (b.withLadder l).ladder side' policy' =
      b.ladder side' policy' := by
  cases side <;> cases policy <;>
    cases side' <;> cases policy' <;>
    first | rfl | exact absurd rfl h

/- The orders of a ladder, best first. -/
def orders
    (b : Book)
    (side : Side)
    (policy : Policy) : List Order :=
  (b.ladder side policy).byPriority.map Entry.item

/- All orders of the book, ladder by ladder. -/
def allOrders (b : Book) : List Order :=
  b.orders .buy .price ++ b.orders .sell .price ++
    b.orders .buy .stop ++ b.orders .sell .stop

/- The number of waiting orders. -/
def stopCount (b : Book) : Nat :=
  b.stopBids.size + b.stopAsks.size

/- The number of orders in the book. -/
def orderCount (b : Book) : Nat :=
  b.bids.size + b.asks.size + b.stopCount

/- The best active order of a side. -/
def best? (b : Book) (side : Side) : Option Order :=
  (b.ladder side .price).best?.map Entry.item

/- A change of the active orders keeps the waiting ones. -/
@[simp] theorem stopCount_withLadder_price
    {side : Side}
    (b : Book)
    (l : Ladder side .price Order) :
    (b.withLadder l).stopCount = b.stopCount := by
  cases side <;> rfl

------------------------------------------------------------
-- Finding orders
------------------------------------------------------------

/- The order with an id and the policy of its ladder. -/
def locate?
    (b : Book)
    (id : UInt64) : Option (Order × Policy) :=
  let find (side : Side) (policy : Policy) :=
    ((b.orders side policy).find? (·.id == id)).map
      (·, policy)
  find .buy .price <|> find .sell .price <|>
    find .buy .stop <|> find .sell .stop

/- The order with an id. -/
def get? (b : Book) (id : UInt64) : Option Order :=
  (b.locate? id).map (·.1)

/- Whether the book holds an order with an id. -/
def contains (b : Book) (id : UInt64) : Bool :=
  (b.locate? id).isSome

/- Whether the order with an id waits for its stop price. -/
def isPendingStop (b : Book) (id : UInt64) : Bool :=
  (b.locate? id).any fun (_, policy) => policy = .stop

------------------------------------------------------------
-- Insertion and removal
------------------------------------------------------------

/- The book after a broken contract. -/
def halt (b : Book) : Book :=
  { b with halted := true }

/- Put an order on the ladder of its side and a policy. -/
def place
    (b : Book)
    (policy : Policy)
    (o : Order) : Except Violation Book :=
  ((b.ladder o.side policy).insert o.key o).map
    b.withLadder

/- The broken contract of an order that is routed to a book
of another symbol. -/
def misrouted (b : Book) (o : Order) : Violation :=
  .symbolMismatch o.id o.symbol b.symbol

/-
  Insert an order of the book's symbol whose id the book does
  not hold yet.
-/
def insert
    (b : Book)
    (policy : Policy)
    (o : Order) : Except Refusal Book :=
  if o.symbol ≠ b.symbol then
    .error (.violation (b.misrouted o))
  else if b.contains o.id then
    .error (.duplicateOrder b.symbol o.id)
  else
    (b.place policy o).mapError .violation

/- Take the order with an id out of the book. -/
def cancel?
    (b : Book)
    (id : UInt64) : Option (Order × Book) := do
  let (o, policy) ← b.locate? id
  let (_, l) ← (b.ladder o.side policy).erase? o.key
  return (o, b.withLadder l)

------------------------------------------------------------
-- Stop orders
------------------------------------------------------------

/-
  Take out the waiting orders that the last trade releases:
  first the buy stops, then the sell stops, the best of each
  side first.
-/
def release (b : Book) : List Order × Book :=
  match b.lastPrice with
  | none => ([], b)
  | some last =>
      (b.stopBids.triggered last ++
          b.stopAsks.triggered last,
        { b with
          stopBids := b.stopBids.release last
          stopAsks := b.stopAsks.release last })

/- Every released order was waiting. -/
theorem length_release_add_stopCount (b : Book) :
    b.release.1.length + b.release.2.stopCount =
      b.stopCount := by
  unfold release
  split
  · simp
  · rename_i last _
    have hBids :=
      b.stopBids.length_triggered_add_size_release last
    have hAsks :=
      b.stopAsks.length_triggered_add_size_release last
    simp only [List.length_append, stopCount]
    omega

/- Inserting an active order keeps the waiting ones. -/
theorem stopCount_place_price
    {b b' : Book}
    {o : Order}
    (h : b.place .price o = .ok b') :
    b'.stopCount = b.stopCount := by
  unfold place at h
  cases hInsert :
      (b.ladder o.side .price).insert o.key o with
  | error v =>
      rw [hInsert] at h
      cases h
  | ok l =>
      rw [hInsert] at h
      cases h
      exact stopCount_withLadder_price b l

end Book

end Matchbook
