import Matchbook.Proofs.Engine.Present
import Matchbook.Proofs.Reach

/-
  No book is ever crossed: what buyers bid stays below what
  sellers ask.

  Key definitions include:
    * `Book.IsUncrossed`

  The main statements are:
    * `Book.IsUncrossed.place`
    * `Floor.Reached.isUncrossed`
    * `Engine.Run.bid_lt_ask`
-/

------------------------------------------------------------
-- Uncrossed books
------------------------------------------------------------

namespace Matchbook

namespace Book

/- A book in which every active buy order has a price below
that of every active sell order. -/
def IsUncrossed (b : Book) : Prop :=
  ∀ bid ∈ b.orders .buy .price,
    ∀ ask ∈ b.orders .sell .price,
      ∃ p q, bid.price = some p ∧ ask.price = some q ∧ p < q

variable {b b' : Book}

/- Only the prices matter. -/
theorem IsUncrossed.of_prices
    (h : b.IsUncrossed)
    (hPrices :
      ∀ side, ∀ o' ∈ b'.orders side .price,
        ∃ o ∈ b.orders side .price, o.price = o'.price) :
    b'.IsUncrossed := by
  intro bid' hBid' ask' hAsk'
  rcases hPrices .buy bid' hBid' with ⟨bid, hBid, hEq⟩
  rcases hPrices .sell ask' hAsk' with ⟨ask, hAsk, hEq'⟩
  rw [← hEq, ← hEq']
  exact h bid hBid ask hAsk

/- An order may rest where it reaches nobody. -/
theorem IsUncrossed.place
    {o : Order}
    (h : b.IsUncrossed)
    (hRanked : b.IsRanked)
    (hFresh : o.id ∉ b.allOrders.map Order.id)
    (hApart :
      ∀ maker ∈ b.orders o.side.opposite .price,
        maker.IsApartFrom o)
    (hPlace : b.place .price o = .ok b') :
    b'.IsUncrossed := by
  rcases exists_price_of_place hPlace with ⟨p, hPrice⟩
  have hOwn := orders_place_perm hRanked hFresh hPlace
  have hOther :
      b'.orders o.side.opposite .price =
        b.orders o.side.opposite .price := by
    apply orders_place_of_ne ?_ hPlace
    cases o.side <;> simp [Side.opposite]
  intro bid hBid ask hAsk
  cases hSide : o.side with
  | buy =>
      rw [hSide] at hOwn hOther hApart
      rw [Side.opposite] at hOther hApart
      rw [hOther] at hAsk
      rcases List.mem_cons.1 (hOwn.mem_iff.1 hBid) with
        rfl | hBid
      · rcases hApart ask hAsk with ⟨_, q, hAskPrice, hFar⟩
        refine ⟨p, q, hPrice, hAskPrice, ?_⟩
        simp only [Order.Accepts, hPrice, hSide] at hFar
        exact Int.not_le.1 hFar
      · exact h bid hBid ask hAsk
  | sell =>
      rw [hSide] at hOwn hOther hApart
      rw [Side.opposite] at hOther hApart
      rw [hOther] at hBid
      rcases List.mem_cons.1 (hOwn.mem_iff.1 hAsk) with
        rfl | hAsk
      · rcases hApart bid hBid with ⟨_, q, hBidPrice, hFar⟩
        refine ⟨q, p, hBidPrice, hPrice, ?_⟩
        simp only [Order.Accepts, hPrice, hSide] at hFar
        exact Int.not_le.1 hFar
      · exact h bid hBid ask hAsk

end Book

------------------------------------------------------------
-- Floors
------------------------------------------------------------

namespace Floor

variable {symbol : String} {log : List Event}

/- After a trade every active order has the price of one that
was active before. -/
theorem exists_price_eq_of_settle
    {b : Book}
    {side : Side}
    {e : Entry Order}
    {rest : List (Entry Order)}
    {d : Deal}
    {taker : Order}
    (hMakers :
      (b.ladder side .price).byPriority = e :: rest)
    (hStruck : d.IsStruck e.item taker)
    (side' : Side) :
    ∀ o' ∈
        (b.settle side
          ⟨[d], Matching.remaining e.key d.maker rest,
            d.taker, none⟩).orders side' .price,
      ∃ o ∈ b.orders side' .price, o.price = o'.price := by
  intro o' ho'
  by_cases hSame : side = side'
  · subst hSame
    rw [Book.orders_settle] at ho'
    rw [Book.orders, hMakers]
    rcases List.mem_map.1 ho' with ⟨e', he', rfl⟩
    rcases hStruck.exists_of_mem_remaining he' with
      ⟨e'', he'', hPrice⟩
    exact
      ⟨e''.item, List.mem_map_of_mem he'', hPrice.symm⟩
  · refine ⟨o', ?_, rfl⟩
    rw [Book.orders, Book.ladder_settle,
      Book.ladder_withLadder_of_ne b _ (by simp [hSame])]
      at ho'
    exact ho'

/- The best order of a side tells about all of them. -/
theorem isApartFrom_of_best
    {b : Book}
    {side : Side}
    {taker : Order}
    (hRanked : b.IsRanked)
    (hApart :
      ∀ e rest,
        (b.ladder side .price).byPriority = e :: rest →
          e.item.IsApartFrom taker) :
    ∀ maker ∈ b.orders side .price,
      maker.IsApartFrom taker := by
  intro maker hMaker
  rcases List.mem_map.1 hMaker with ⟨e', he', rfl⟩
  have hEntries := hRanked side .price
  unfold Ladder.IsRanked at hEntries
  cases hCons : (b.ladder side .price).byPriority with
  | nil =>
      rw [hCons] at he'
      cases he'
  | cons e rest =>
      rw [hCons] at he' hEntries
      exact
        hEntries.isApartFrom_of_head (hApart e rest hCons)
          e' he'

/- No move crosses the book: only a taker that reaches nobody
comes to rest in it. -/
theorem Reached.isUncrossed
    {f : Floor}
    (h : Reached symbol log f) :
    f.book.IsUncrossed := by
  induction h with
  | start =>
      intro bid hBid
      cases hBid
  | enter _ _ _ ih => exact ih
  | activate _ ih => exact ih
  | trade _ _ hMakers hMeet ih =>
      exact
        ih.of_prices
          (exists_price_eq_of_settle hMakers
            (Deal.isStruck_of_meet? hMeet).1)
  | retire _ _ ih => exact ih
  | rest h _ hApart hPlace ih =>
      exact
        ih.place h.isRanked (fresh_of_present h.present)
          (isApartFrom_of_best h.isRanked hApart) hPlace
  | park _ hPlace ih =>
      apply ih.of_prices
      intro side o' ho'
      rw [Book.orders_place_of_ne (by simp) hPlace] at ho'
      exact ⟨o', ho', rfl⟩
  | release _ ih =>
      apply ih.of_prices
      intro side o' ho'
      rw [Book.orders_release_price] at ho'
      exact ⟨o', ho', rfl⟩
  | cancel _ hCancel ih =>
      apply ih.of_prices
      intro side o' ho'
      rcases Book.cancel?_eq_some hCancel with
        ⟨_, _, l, hSub, rfl⟩
      exact
        ⟨o',
          (Book.orders_withLadder_sublist hSub
            side .price).subset ho', rfl⟩
  | halt _ ih => exact ih

end Floor

------------------------------------------------------------
-- Runs
------------------------------------------------------------

namespace Engine

/-
  Whatever is submitted and cancelled, all that buyers bid
  stays below all that sellers ask.
-/
theorem Run.bid_lt_ask
    {symbol : String}
    {log : List Event}
    {e : Engine}
    (h : Run symbol log e)
    {bid ask : Order}
    (hBid : bid ∈ e.book.orders .buy .price)
    (hAsk : ask ∈ e.book.orders .sell .price) :
    ∃ p q, bid.price = some p ∧ ask.price = some q ∧
      p < q :=
  h.reached.isUncrossed bid hBid ask hAsk

/- A seller at 98 meets a buyer at 99 and rests with what is
left of it; a later buyer at 97 rests, too. -/
def remainderFlow : List Order :=
  [.ordinary 1 .buy (some (.ofParts 99 0)) (.ofParts 2 0),
    .ordinary 2 .sell (some (.ofParts 98 0)) (.ofParts 3 0),
    .ordinary 3 .buy (some (.ofParts 97 0)) (.ofParts 1 0)]

theorem bid_lt_ask_of_remainder :
    ∃ bid ∈ (played "BTC-USDT" remainderFlow).2.book.orders
        .buy .price,
      ∃ ask ∈ (played "BTC-USDT"
          remainderFlow).2.book.orders .sell .price,
        bid.id = 3 ∧ ask.id = 2 ∧
          ∃ p q, bid.price = some p ∧ ask.price = some q ∧
            p < q := by
  have hBids :
      (played "BTC-USDT" remainderFlow).2.book.orders
          .buy .price =
        [.ordinary 3 .buy (some (.ofParts 97 0))
          (.ofParts 1 0)] := by
    decide +kernel
  have hAsks :
      (played "BTC-USDT" remainderFlow).2.book.orders
          .sell .price =
        [{ Order.ordinary 2 .sell (some (.ofParts 98 0))
            (.ofParts 3 0) with
          filled := .ofParts 2 0 }] := by
    decide +kernel
  refine
    ⟨_, hBids ▸ List.mem_cons_self, _,
      hAsks ▸ List.mem_cons_self, rfl, rfl, ?_⟩
  apply (run_played "BTC-USDT" remainderFlow).bid_lt_ask
  · rw [hBids]
    exact List.mem_cons_self
  · rw [hAsks]
    exact List.mem_cons_self

end Engine

end Matchbook
