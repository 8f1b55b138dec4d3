import Matchbook.Book.Basic
import Matchbook.Meeting

/-
  Passes: one order executed against the other side of a book.

  The taker meets the makers from the best one on, until it is
  filled, no maker is left or the best one is out of its reach.
  What is left of it rests in the book, unless it must be
  discarded.

  Key definitions include:
    * `Matching`
    * `Matching.run?`
    * `Ending`
    * `Pass`
    * `Book.pass?`

  The main statements are:
    * `Matching.room_lt`
    * `Book.stopCount_pass?`
-/

------------------------------------------------------------
-- Matching
------------------------------------------------------------

namespace Matchbook

/-
  Where a taker stands when it has stopped trading: its
  deals, the makers that are left and the taker itself.  The
  taker stopped at a broken contract if there is one.
-/
structure Matching where
  deals : List Deal
  makers : List (Entry Order)
  taker : Order
  violation : Option Violation
deriving DecidableEq

namespace Matching

/- The trades of the deals, in their order. -/
def trades (m : Matching) : List Trade :=
  m.deals.map Deal.trade

/- The units that a taker and its makers lack to be filled. -/
def room (makers : List (Entry Order)) (taker : Order) :
    Nat :=
  makers.foldr (fun e gaps => e.item.gap + gaps) 0 +
    taker.gap

/- The makers after a trade with the first of them.  A filled
maker leaves the book. -/
def remaining
    (key : RankedKey)
    (maker : Order)
    (rest : List (Entry Order)) : List (Entry Order) :=
  if maker.IsFilled then
    rest
  else
    ⟨key, maker⟩ :: rest

/- Every trade leaves less room. -/
theorem room_lt
    {e : Entry Order}
    {rest : List (Entry Order)}
    {taker maker' taker' : Order}
    {id : UInt64}
    {now : Timestamp}
    {t : Trade}
    (h :
      e.item.meet? taker id now =
        some (.traded t maker' taker')) :
    room (remaining e.key maker' rest) taker' <
      room (e :: rest) taker := by
  have hGap := Order.gap_meet?_lt h
  unfold remaining room
  split <;>
    simp only [List.foldr_cons] <;>
    omega

/- The matching with one more deal before it. -/
def after (d : Deal) (m : Matching) : Matching :=
  { m with deals := d :: m.deals }

/-
  Match a taker with makers, the best one first.  Trades are
  numbered from `id` on.  `none` if a quantity is out of
  range.
-/
def run?
    (now : Timestamp)
    (id : UInt64)
    (makers : List (Entry Order))
    (taker : Order) : Option Matching :=
  if taker.IsFilled then
    some ⟨[], makers, taker, none⟩
  else
    match makers with
    | [] => some ⟨[], [], taker, none⟩
    | e :: rest =>
        match h : e.item.meet? taker id now with
        | none => none
        | some (.broken cause) =>
            some ⟨[], e :: rest, taker, some cause⟩
        | some .apart => some ⟨[], e :: rest, taker, none⟩
        | some (.traded t maker' taker') =>
            (run? now (id + 1)
              (remaining e.key maker' rest) taker').map
              (after ⟨t, maker', taker'⟩)
termination_by room makers taker
decreasing_by exact room_lt h

end Matching

------------------------------------------------------------
-- Passes
------------------------------------------------------------

/- What becomes of a taker after its trades. -/
inductive Ending where
  | filled
  | rested (remaining : Decimal)
  | discarded (remaining : Decimal)
  | broken (cause : Violation)
deriving DecidableEq

/- One execution: the taker as it was left, its deals and
what became of it. -/
structure Pass where
  taker : Order
  deals : List Deal
  ending : Ending
deriving DecidableEq

/- The trades of a pass, in their order. -/
def Pass.trades (p : Pass) : List Trade :=
  p.deals.map Deal.trade

namespace Book

/- The book after the trades of a matching with one side. -/
def settle
    (b : Book)
    (side : Side)
    (m : Matching) : Book :=
  let b' :=
    b.withLadder
      (Ladder.ofPriority m.makers :
        Ladder side .price Order)
  match m.trades.getLast? with
  | none => b'
  | some t =>
      { b' with
        lastPrice := some t.price
        nextTradeId := t.id + 1 }

/-
  Rest, discard or forget a taker that has stopped trading.
  Market orders and orders that must trade at once are
  discarded.
-/
def finish?
    (b : Book)
    (taker : Order) : Option (Ending × Book) :=
  if taker.IsFilled then
    some (.filled, b)
  else
    taker.pending?.map fun remaining =>
      if taker.immediateOrCancel ∨ taker.isMarket then
        (.discarded remaining, b)
      else
        match b.place .price taker with
        | .ok b' => (.rested remaining, b')
        | .error cause => (.broken cause, b)

/- Execute a taker against the other side of the book. -/
def pass?
    (b : Book)
    (taker : Order)
    (now : Timestamp) : Option (Pass × Book) :=
  let side := taker.side.opposite
  (Matching.run? now b.nextTradeId
      (b.ladder side .price).byPriority taker).bind
    fun m =>
      let b' := b.settle side m
      match m.violation with
      | some cause =>
          some (⟨m.taker, m.deals, .broken cause⟩, b')
      | none =>
          (b'.finish? m.taker).map fun (ending, b'') =>
            (⟨m.taker, m.deals, ending⟩, b'')

------------------------------------------------------------
-- Waiting orders
------------------------------------------------------------

theorem stopCount_settle
    (b : Book)
    (side : Side)
    (m : Matching) :
    (b.settle side m).stopCount = b.stopCount := by
  unfold settle
  dsimp only
  split <;> exact stopCount_withLadder_price b _

theorem stopCount_finish?
    {b b' : Book}
    {taker : Order}
    {ending : Ending}
    (h : b.finish? taker = some (ending, b')) :
    b'.stopCount = b.stopCount := by
  unfold finish? at h
  split at h
  · cases h
    rfl
  · obtain ⟨remaining, _, h⟩ := Option.map_eq_some_iff.1 h
    split at h
    · cases h
      rfl
    · split at h
      · rename_i hPlace
        cases h
        exact stopCount_place_price hPlace
      · cases h
        rfl

/- A pass leaves the waiting orders alone. -/
theorem stopCount_pass?
    {b b' : Book}
    {taker : Order}
    {now : Timestamp}
    {p : Pass}
    (h : b.pass? taker now = some (p, b')) :
    b'.stopCount = b.stopCount := by
  unfold pass? at h
  obtain ⟨m, _, h⟩ := Option.bind_eq_some_iff.1 h
  dsimp only at h
  split at h
  · cases h
    exact stopCount_settle b _ m
  · obtain ⟨⟨ending, b''⟩, hFinish, h⟩ :=
      Option.map_eq_some_iff.1 h
    cases h
    rw [stopCount_finish? hFinish]
    exact stopCount_settle b _ m

end Book

end Matchbook
