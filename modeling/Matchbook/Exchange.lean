import Matchbook.Book.Depth
import Matchbook.Book.Root
import Matchbook.Config.Basic
import Matchbook.Engine.Submit

/-
  Exchanges: the engines of several symbols behind one door.

  Every symbol has a desk.  A request is answered by the desk
  of its symbol alone.  A desk whose engine came to a number
  that is out of range has no engine any more and answers
  nothing from then on.

  Key definitions include:
    * `Query`
    * `Command`
    * `Answer`
    * `Engine.answer?`
    * `Desk`
    * `Exchange`
    * `Exchange.start?`
    * `Exchange.request`

  The main statements are:
    * `Exchange.desk?_withDesk_of_ne`
    * `Exchange.desk?_request_of_ne`
-/

------------------------------------------------------------
-- Requests
------------------------------------------------------------

namespace Matchbook

/- A question about a book. -/
inductive Query where
  | bestBid
  | bestAsk
  | lastPrice
  | depth (levels : Nat)
  | root
deriving DecidableEq

/- What is asked of the desk of a symbol. -/
inductive Command where
  | submit (o : Order)
  | cancel (id : UInt64)
  | query (q : Query)
deriving DecidableEq

/- What a desk answers if it does not refuse. -/
inductive Answer where
  | report (r : Report)
  | cancelled (b : Bool)
  | order (o : Option Order)
  | price (p : Option Decimal)
  | depth (d : Depth)
  | root (hex : String)
deriving DecidableEq

------------------------------------------------------------
-- Answers of an engine
------------------------------------------------------------

namespace Book

/- The answer to a question.  `none` if a quantity or a number
of levels is out of range. -/
def answer? (b : Book) : Query → Option Answer
  | .bestBid => some (.order (b.best? .buy))
  | .bestAsk => some (.order (b.best? .sell))
  | .lastPrice => some (.price b.lastPrice)
  | .depth levels => (b.depth? levels).map .depth
  | .root => some (.root b.rootText)

end Book

namespace Engine

/- The answer to a command and the engine after it.  `none`
if a quantity or a number of levels is out of range. -/
def answer?
    (e : Engine)
    (now : Timestamp) :
    Command → Option (Except Refusal Answer × Engine)
  | .submit o =>
      (e.submit? o now).map fun (r, e') =>
        (r.map .report, e')
  | .cancel id =>
      let (r, e') := e.cancel id
      some (r.map fun o => .cancelled o.isSome, e')
  | .query q =>
      if e.book.halted then
        some (.error (.halted e.book.symbol), e)
      else
        (e.book.answer? q).map fun a => (.ok a, e)

end Engine

------------------------------------------------------------
-- Desks
------------------------------------------------------------

/- The desk of a symbol: its engine, or nothing if it has
stopped. -/
abbrev Desk :=
  Option Engine

namespace Desk

/- The answer of the desk of a symbol and the desk after
it. -/
def serve
    (symbol : String)
    (now : Timestamp)
    (command : Command) :
    Desk → Except Refusal Answer × Desk
  | none => (.error (.unavailable symbol), none)
  | some e =>
      match e.answer? now command with
      | none => (.error (.unavailable symbol), none)
      | some (r, e') => (r, some e')

end Desk

------------------------------------------------------------
-- Exchanges
------------------------------------------------------------

/- The desks by symbol. -/
structure Exchange where
  desks : List (String × Desk)
deriving DecidableEq

namespace Exchange

/- The most commands that can wait at a desk. -/
def maxQueue : Nat := 2 ^ 61 - 1

/-
  An exchange with a new book for every symbol of a
  configuration without defects.  `none` if a capacity is out
  of range.
-/
def start?
    (c : Config) : Option (Except ConfigDefect Exchange) :=
  match c.defect? with
  | some d => some (.error d)
  | none =>
      if maxQueue < c.channelCapacity ∨
          Book.maxRoom < c.bookCapacity then
        none
      else
        some
          (.ok
            ⟨c.symbols.map fun s =>
              (s, some (Engine.new s))⟩)

/- The symbols of the desks in ascending order. -/
def symbols (x : Exchange) : List String :=
  (x.desks.map (·.1)).mergeSort fun a b => decide (a ≤ b)

/- The desk of a symbol. -/
def desk? (x : Exchange) (symbol : String) : Option Desk :=
  x.desks.lookup symbol

/- The exchange with another desk for a symbol that has
one. -/
def withDesk
    (x : Exchange)
    (symbol : String)
    (desk : Desk) : Exchange where
  desks :=
    x.desks.map fun (s, d) =>
      (s, if s = symbol then desk else d)

/- Pass a command to the desk of a symbol. -/
def request
    (x : Exchange)
    (symbol : String)
    (command : Command)
    (now : Timestamp) :
    Except Refusal Answer × Exchange :=
  match x.desk? symbol with
  | none => (.error (.unknownSymbol symbol), x)
  | some desk =>
      let (r, desk') := desk.serve symbol now command
      (r, x.withDesk symbol desk')

/- Submit an order to the desk of its symbol.  An order with
a defect reaches no desk. -/
def submit
    (x : Exchange)
    (o : Order)
    (now : Timestamp) :
    Except Refusal Answer × Exchange :=
  match o.defect? with
  | some d => (.error (.invalidOrder d), x)
  | none => x.request o.symbol (.submit o) now

------------------------------------------------------------
-- Desks after a request
------------------------------------------------------------

theorem desk?_withDesk_of_ne
    {x : Exchange}
    {symbol other : String}
    (desk : Desk)
    (h : other ≠ symbol) :
    (x.withDesk symbol desk).desk? other =
      x.desk? other := by
  cases x with
  | mk desks =>
      simp only [withDesk, desk?]
      induction desks with
      | nil => rfl
      | cons entry rest ih =>
          obtain ⟨s, d⟩ := entry
          simp only [List.map_cons, List.lookup_cons]
          by_cases hs : other = s
          · subst hs
            simp [h]
          · have hBeq : (other == s) = false := by
              simpa using hs
            rw [hBeq]
            exact ih

/- A request leaves the desks of the other symbols alone. -/
theorem desk?_request_of_ne
    {x : Exchange}
    {symbol other : String}
    {command : Command}
    {now : Timestamp}
    (h : other ≠ symbol) :
    (x.request symbol command now).2.desk? other =
      x.desk? other := by
  unfold request
  split
  · rfl
  · exact desk?_withDesk_of_ne _ h

end Exchange

end Matchbook
