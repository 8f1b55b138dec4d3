import Matchbook.Proofs.Engine.Replies
import Matchbook.Proofs.Engine.Rounds

/-
  Why a submission ends.

  A filled quantity may be rounded, so that a deal need not
  fill anybody.  But it always adds to what is filled of the
  order that has the least open, and a waiting order that is
  released never waits again.  So every round uses up some of
  a stock that is finite when the submission begins.

  Key definitions include:
    * `Progress.openUnits`
    * `Progress.lack`
    * `Order.KeepFilled`
    * `Progress.Advances`
    * `Book.RunsOut`
    * `Engine.ComesToAnEnd`

  The main statements are:
    * `Progress.Moves.lack_lt`
    * `Progress.exists_ends`
    * `Progress.Moves.advances`
    * `Book.runsOut`
    * `Engine.comesToAnEnd`
-/

------------------------------------------------------------
-- What is lacking
------------------------------------------------------------

namespace Matchbook

namespace Order

variable {os os' : List Order}

/- The units that some orders lack to be filled. -/
def gaps (os : List Order) : Nat :=
  os.foldr (fun o rest => o.gap + rest) 0

@[simp] theorem gaps_nil : gaps [] = 0 := rfl

@[simp] theorem gaps_cons
    (o : Order)
    (os : List Order) :
    gaps (o :: os) = o.gap + gaps os := rfl

@[simp] theorem gaps_append
    (os os' : List Order) :
    gaps (os ++ os') = gaps os + gaps os' := by
  induction os with
  | nil => simp
  | cons o os ih =>
      rw [List.cons_append, gaps_cons, gaps_cons, ih]
      omega

theorem gaps_of_perm
    (hPerm : os'.Perm os) :
    gaps os' = gaps os := by
  induction hPerm with
  | nil => rfl
  | cons o _ ih => rw [gaps_cons, gaps_cons, ih]
  | swap o o' os =>
      simp only [gaps_cons]
      omega
  | trans _ _ ih ih' => exact ih.trans ih'

theorem gaps_le_of_sublist
    (hSub : os'.Sublist os) :
    gaps os' ≤ gaps os := by
  induction hSub with
  | slnil => exact Nat.le_refl _
  | cons o _ ih =>
      rw [gaps_cons]
      omega
  | cons_cons o _ ih =>
      rw [gaps_cons, gaps_cons]
      omega

/- Fewer orders lack less. -/
theorem gaps_le_of_subperm
    (hSub : os'.Subperm os) :
    gaps os' ≤ gaps os := by
  rcases hSub with ⟨os'', hPerm, hSublist⟩
  rw [← gaps_of_perm hPerm]
  exact gaps_le_of_sublist hSublist

end Order

namespace Progress

variable {now : Timestamp} {g g' : Progress}

/- The units that the orders on the floor lack to be
filled. -/
def openUnits (g : Progress) : Nat :=
  Order.gaps g.floor.orders

/- The rounds besides the deals: two for each order that is
queued or may still be released, and one for the pass that is
under way. -/
def chores (g : Progress) : Nat :=
  2 * (g.queue.length + g.book.stopCount) +
    g.current.toList.length

/- What the rounds can use up. -/
def lack (g : Progress) : Nat :=
  g.openUnits + g.chores

/- All deals so far, the first one first. -/
def deals (g : Progress) : List Deal :=
  g.past.flatMap Pass.deals ++ g.current.elim [] Prod.snd

/- A move leaves an orderly floor. -/
theorem Moves.isOrderly
    (h : Moves now g g')
    (hOrderly : g.floor.IsOrderly) :
    g'.floor.IsOrderly := by
  cases h with
  | begin => exact hOrderly.activate
  | trade hMakers hMeet =>
      exact
        hOrderly.trade hMakers
          (Deal.isStruck_of_meet? hMeet).1
  | @finish _ _ b' _ _ _ p _ hFinish _ =>
      have hFinishes := Book.finishes_of_finish? hFinish
      exact (hOrderly.finishes hFinishes).releaseAfter p

/- A move is a deal or one of the other rounds. -/
theorem Moves.chores_cases
    (h : Moves now g g') :
    g'.chores < g.chores ∧ g'.deals = g.deals ∨
      g'.chores = g.chores ∧
        g'.deals.length = g.deals.length + 1 := by
  cases h with
  | begin =>
      refine .inl ⟨?_, rfl⟩
      simp only [chores, List.length_cons,
        Option.toList_some, Option.toList_none,
        List.length_nil]
      omega
  | @trade _ b _ taker _ e rest d _ _ =>
      have hStops :=
        b.stopCount_settle taker.side.opposite
          ⟨[d], Matching.remaining e.key d.maker rest,
            d.taker, none⟩
      refine .inr ⟨?_, ?_⟩
      · simp only [chores, hStops, Option.toList_some,
          List.length_singleton]
      · simp only [deals, Option.elim_some,
          ← List.append_assoc, List.length_append,
          List.length_singleton]
  | @finish _ _ b' _ _ _ p _ hFinish hPass =>
      have hStops := Book.stopCount_finish? hFinish
      have hReleased :=
        b'.length_releaseAfter_add_stopCount p
      refine .inl ⟨?_, ?_⟩
      · simp only [chores, List.length_append,
          Option.toList_some, Option.toList_none,
          List.length_singleton, List.length_nil]
        omega
      · simp [deals, hPass]

/- A deal uses up an open unit at least, and nothing opens
one. -/
theorem Moves.openUnits_add_length_deals_le
    (h : Moves now g g')
    (hOrderly : g.floor.IsOrderly) :
    g'.openUnits + g'.deals.length ≤
      g.openUnits + g.deals.length := by
  cases h with
  | @begin past b o rest =>
      have hUnits :
          Order.gaps (Floor.orders ⟨b, o.activate :: rest⟩) =
            Order.gaps (Floor.orders ⟨b, o :: rest⟩) := by
        unfold Floor.orders
        rw [Order.gaps_append, Order.gaps_append]
        rfl
      exact Nat.add_le_add_right (Nat.le_of_eq hUnits) _
  | @trade past b queue taker before e rest d hMakers
      hMeet =>
      have hGap := Order.gap_meet?_lt hMeet
      rcases
          Floor.exists_orders_of_deal hMakers taker queue d
        with
        ⟨others, hPerm, hSub⟩
      have hBefore := Order.gaps_of_perm hPerm
      have hAfter := Order.gaps_le_of_subperm hSub
      rw [Order.gaps_cons, Order.gaps_cons]
        at hBefore hAfter
      simp only [openUnits, floor, deals, Option.map_some,
        Option.toList_some, List.singleton_append,
        Option.elim_some, List.length_append,
        List.length_singleton]
      omega
  | @finish past b b' queue taker before p ending hFinish
      hPass =>
      have hFinishes := Book.finishes_of_finish? hFinish
      have hLeft :=
        Order.gaps_le_of_subperm
          (hOrderly.orders_finishes_subperm hFinishes)
      have hMoved :=
        Order.gaps_le_of_subperm
          (Floor.orders_releaseAfter_perm b' queue p).subperm
      refine
        Nat.add_le_add (hMoved.trans hLeft)
          (Nat.le_of_eq ?_)
      simp [deals, hPass]

/- Every move uses something up. -/
theorem Moves.lack_lt
    (h : Moves now g g')
    (hOrderly : g.floor.IsOrderly) :
    g'.lack < g.lack := by
  have hUnits := h.openUnits_add_length_deals_le hOrderly
  unfold lack
  rcases h.chores_cases with ⟨hLess, hDeals⟩ | ⟨hSame, hDeal⟩
  · rw [hDeals] at hUnits
    omega
  · omega

/-
  The rounds come to an end.  By strong induction on what can
  still be used up, which each of them lowers.
-/
theorem exists_ends
    (hOrderly : g.floor.IsOrderly) :
    ∃ n, n ≤ g.lack + 1 ∧ Ends now g n (g.result? now) := by
  induction hLack : g.lack using Nat.strong_induction_on
    generalizing g with
  | h k ih =>
      have hResult :
          (g.round now).result? now = g.result? now :=
        g.result?_round
      cases hRound : g.round now with
      | ended result =>
          rw [hRound] at hResult
          rw [← hResult]
          exact ⟨1, by omega, .ended hRound⟩
      | next g' =>
          rw [hRound] at hResult
          rw [← hResult]
          have hMoves := moves_of_round hRound
          have hLess := hMoves.lack_lt hOrderly
          rcases
              ih g'.lack (by omega)
                (hMoves.isOrderly hOrderly) rfl with
            ⟨n, hBound, hEnds⟩
          exact ⟨n + 1, by omega, .next hRound hEnds⟩

/- What a start comes to is the cascade of its order. -/
theorem result?_start
    (b : Book)
    (o : Order)
    (now : Timestamp) :
    (start b o).result? now =
      (b.cascade? o now).map fun c => (c.passes, c.book) := by
  rw [Book.map_cascade?]
  unfold start result? queueResult?
  simp

------------------------------------------------------------
-- What a round does
------------------------------------------------------------

/- The ids of the orders whose passes have begun. -/
def begun (g : Progress) : List UInt64 :=
  g.past.map (fun p => p.taker.id) ++
    (g.current.map fun under => under.1.id).toList

/- The ids of the orders whose passes have begun, of those
that are queued and of those that wait. -/
def known (g : Progress) : List UInt64 :=
  g.begun ++ g.queue.map Order.id ++
    g.book.waiting.map Order.id

/- No move brings in an order or repeats one. -/
theorem Moves.known_perm
    (h : Moves now g g') :
    g'.known.Perm g.known := by
  cases h with
  | begin => simp [known, begun, Order.activate]
  | trade hMakers hMeet =>
      have hStruck := (Deal.isStruck_of_meet? hMeet).1
      simp only [known, begun, Book.waiting_settle,
        Option.map_some]
      rw [hStruck.taker_with_filled]
  | @finish past b b' queue taker before p ending hFinish
      hPass =>
      have hFinishes := Book.finishes_of_finish? hFinish
      have hMoved := b'.waiting_releaseAfter_perm p
      rw [hFinishes.waiting_eq] at hMoved
      have hIds :=
        (List.perm_append_comm.trans hMoved).map Order.id
      have hTaker : p.taker.id = taker.id := by
        rw [hPass]
      simpa [known, begun, hTaker, List.perm_append_left_iff]
        using hIds

/- Only orders that have waited before are waiting after a
move. -/
theorem Moves.waiting_subset
    (h : Moves now g g') :
    g'.book.waiting ⊆ g.book.waiting := by
  cases h with
  | begin => exact List.Subset.refl _
  | trade =>
      rw [Book.waiting_settle]
      exact List.Subset.refl _
  | @finish _ _ b' _ _ _ p _ hFinish _ =>
      rw [← (Book.finishes_of_finish? hFinish).waiting_eq]
      have hMoved := b'.waiting_releaseAfter_perm p
      intro o ho
      exact hMoved.subset (List.mem_append_left _ ho)

end Progress

namespace Order

variable {os os' : List Order}

/- Whether each of the later orders has been one of the earlier
ones, with no more filled. -/
def KeepFilled (os os' : List Order) : Prop :=
  ∀ x' ∈ os', ∃ x ∈ os,
    x.id = x'.id ∧ x.filled ≤ x'.filled

theorem KeepFilled.of_subset
    (hSubset : os' ⊆ os) :
    KeepFilled os os' := by
  intro x' hx'
  exact ⟨x', hSubset hx', rfl, Int.le_refl _⟩

theorem KeepFilled.cons
    {x x' : Order}
    (h : KeepFilled os os')
    (hId : x.id = x'.id)
    (hFilled : x.filled ≤ x'.filled) :
    KeepFilled (x :: os) (x' :: os') := by
  intro y' hy'
  rcases List.mem_cons.1 hy' with rfl | hRest
  · exact ⟨x, List.mem_cons_self .., hId, hFilled⟩
  · rcases h y' hRest with ⟨y, hy, hEq, hLe⟩
    exact ⟨y, List.mem_cons_of_mem _ hy, hEq, hLe⟩

theorem KeepFilled.trans
    {os'' : List Order}
    (h : KeepFilled os os')
    (h' : KeepFilled os' os'') :
    KeepFilled os os'' := by
  intro x'' hx''
  rcases h' x'' hx'' with ⟨x', hx', hId', hLe'⟩
  rcases h x' hx' with ⟨x, hx, hId, hLe⟩
  exact
    ⟨x, hx, hId.trans hId', Int.le_trans hLe hLe'⟩

end Order

namespace Progress

variable {now : Timestamp} {g g' : Progress}

/-
  What a round does: nobody's filled quantity falls, nobody
  begins to wait, and a new deal is one of the taker that is
  under way with a maker of the book, in which whoever has
  the least open gains.
-/
structure Advances (g g' : Progress) : Prop where
  keepFilled :
    Order.KeepFilled g.floor.orders g'.floor.orders
  waiting_subset : g'.book.waiting ⊆ g.book.waiting
  deals_cases :
    g'.deals = g.deals ∨
      ∃ (taker maker : Order) (d : Deal),
        g'.deals = g.deals ++ [d] ∧
        g.current.map Prod.fst = some taker ∧
        g'.current.map Prod.fst = some d.taker ∧
        maker ∈ g.book.orders taker.side.opposite .price ∧
        d.IsStruck maker taker ∧ d.IsGain maker taker

/- In a deal everybody keeps what was filled. -/
theorem keepFilled_of_deal
    {b : Book}
    {taker : Order}
    {queue : List Order}
    {e : Entry Order}
    {rest : List (Entry Order)}
    {d : Deal}
    (hMakers :
      (b.ladder taker.side.opposite .price).byPriority =
        e :: rest)
    (hStruck : d.IsStruck e.item taker) :
    Order.KeepFilled
      (Floor.orders ⟨b, taker :: queue⟩)
      (Floor.orders
        ⟨b.settle taker.side.opposite
            ⟨[d], Matching.remaining e.key d.maker rest,
              d.taker, none⟩,
          d.taker :: queue⟩) := by
  have hGain := hStruck.isGain
  have hMaker : e.item.id = d.maker.id := by
    rw [hStruck.maker_with_filled]
  have hTaker : taker.id = d.taker.id := by
    rw [hStruck.taker_with_filled]
  rcases Floor.exists_orders_of_deal hMakers taker queue d
    with ⟨others, hBefore, hAfter⟩
  have hOthers : Order.KeepFilled others others :=
    .of_subset (List.Subset.refl _)
  have hFront :
      Order.KeepFilled (e.item :: taker :: others)
        (d.maker :: d.taker :: others) :=
    (hOthers.cons hTaker hGain.taker_le).cons hMaker
      hGain.maker_le
  have hFrom :=
    Order.KeepFilled.of_subset hBefore.symm.subset
  exact
    (hFrom.trans hFront).trans (.of_subset hAfter.subset)

theorem Moves.advances
    (h : Moves now g g')
    (hOrderly : g.floor.IsOrderly) :
    g.Advances g' := by
  have hWaiting := h.waiting_subset
  cases h with
  | @begin past b o rest =>
      have hRest :
          Order.KeepFilled (b.allOrders ++ rest)
            (b.allOrders ++ rest) :=
        .of_subset (List.Subset.refl _)
      have hFront :
          Order.KeepFilled (o :: (b.allOrders ++ rest))
            (o.activate :: (b.allOrders ++ rest)) :=
        hRest.cons rfl (Int.le_refl _)
      have hBefore :
          Order.KeepFilled (b.allOrders ++ o :: rest)
            (o :: (b.allOrders ++ rest)) :=
        .of_subset List.perm_middle.symm.subset
      have hAfter :
          Order.KeepFilled (o.activate :: (b.allOrders ++ rest))
            (b.allOrders ++ o.activate :: rest) :=
        .of_subset List.perm_middle.subset
      exact
        { keepFilled := (hBefore.trans hFront).trans hAfter
          waiting_subset := hWaiting
          deals_cases := .inl rfl }
  | @trade past b queue taker before e rest d hMakers
      hMeet =>
      have hStruck := (Deal.isStruck_of_meet? hMeet).1
      have hMaker :
          e.item ∈ b.orders taker.side.opposite .price := by
        rw [Book.orders, hMakers]
        exact List.mem_cons_self ..
      exact
        { keepFilled := keepFilled_of_deal hMakers hStruck
          waiting_subset := hWaiting
          deals_cases :=
            .inr
              ⟨taker, e.item, d, (List.append_assoc ..).symm,
                rfl, rfl, hMaker, hStruck, hStruck.isGain⟩ }
  | @finish past b b' queue taker before p ending hFinish
      hPass =>
      have hFinishes := Book.finishes_of_finish? hFinish
      have hLeft :=
        hOrderly.orders_finishes_subperm hFinishes
      have hMoved :=
        Floor.orders_releaseAfter_perm b' queue p
      exact
        { keepFilled :=
            .of_subset (hMoved.subperm.trans hLeft).subset
          waiting_subset := hWaiting
          deals_cases := .inl (by simp [deals, hPass]) }

------------------------------------------------------------
-- All rounds
------------------------------------------------------------

namespace Reaches

/- The rounds leave an orderly floor, ... -/
theorem isOrderly
    (h : Reaches now g g')
    (hOrderly : g.floor.IsOrderly) :
    g'.floor.IsOrderly := by
  induction h with
  | refl => exact hOrderly
  | next _ hRound ih =>
      exact (moves_of_round hRound).isOrderly ih

/- ... bring in nobody ... -/
theorem known_perm
    (h : Reaches now g g') :
    g'.known.Perm g.known := by
  induction h with
  | refl => exact .refl _
  | next _ hRound ih =>
      exact (moves_of_round hRound).known_perm.trans ih

/- ... and pay for every deal. -/
theorem openUnits_add_length_deals_le
    (h : Reaches now g g')
    (hOrderly : g.floor.IsOrderly) :
    g'.openUnits + g'.deals.length ≤
      g.openUnits + g.deals.length := by
  induction h with
  | refl => exact Nat.le_refl _
  | next hReaches hRound ih =>
      have hMoves := moves_of_round hRound
      exact
        (hMoves.openUnits_add_length_deals_le
          (hReaches.isOrderly hOrderly)).trans ih

end Reaches

end Progress

namespace Book

variable {b : Book} {o : Order} {now : Timestamp}

open Progress

/-
  How the execution of an order runs out: after a number of
  rounds that the open units of the book and the order and
  the waiting orders bound, with the outcome of the cascade.
  Each round does its part, and no order has two passes or
  waits once its pass has begun.
-/
structure RunsOut
    (b : Book)
    (o : Order)
    (now : Timestamp) : Prop where
  ends :
    ∃ n,
      n ≤ Order.gaps b.allOrders + o.gap +
          2 * (b.stopCount + 1) + 1 ∧
      Ends now (start b o) n
        ((b.cascade? o now).map fun c =>
          (c.passes, c.book))
  advances :
    ∀ g g', Reaches now (start b o) g →
      g.round now = .next g' → g.Advances g'
  length_deals_le :
    ∀ g, Reaches now (start b o) g →
      g.deals.length ≤
        Order.gaps b.allOrders + o.gap
  known_perm :
    ∀ g, Reaches now (start b o) g →
      g.known.Perm (o.id :: b.waiting.map Order.id)
  nodup : (o.id :: b.waiting.map Order.id).Nodup

theorem openUnits_start
    (b : Book)
    (o : Order) :
    (start b o).openUnits =
      Order.gaps b.allOrders + o.gap := by
  simp [openUnits, start, floor, Floor.orders]

theorem lack_start
    (b : Book)
    (o : Order) :
    (start b o).lack =
      Order.gaps b.allOrders + o.gap +
        2 * (b.stopCount + 1) := by
  unfold lack
  rw [openUnits_start]
  simp only [chores, start, List.length_singleton,
    Option.toList_none, List.length_nil]
  omega

/- The waiting orders and the one in flight have different
ids. -/
theorem nodup_of_isOrderly
    (hOrderly : Floor.IsOrderly ⟨b, [o]⟩) :
    (o.id :: b.waiting.map Order.id).Nodup := by
  have hNodup := hOrderly.nodup
  unfold Floor.orders at hNodup
  rw [allOrders_eq_append, List.append_assoc] at hNodup
  have hWaiting :=
    hNodup.sublist
      ((List.sublist_append_right _ _).map Order.id)
  exact
    (List.perm_append_comm.map Order.id).nodup_iff.1 hWaiting

theorem runsOut
    (hOrderly : Floor.IsOrderly ⟨b, [o]⟩)
    (now : Timestamp) :
    b.RunsOut o now where
  ends := by
    have hStart : (start b o).floor.IsOrderly := hOrderly
    rcases exists_ends hStart with ⟨n, hBound, hEnds⟩
    rw [lack_start] at hBound
    rw [result?_start] at hEnds
    exact ⟨n, hBound, hEnds⟩
  advances := by
    intro g g' hReaches hRound
    exact
      (moves_of_round hRound).advances
        (hReaches.isOrderly hOrderly)
  length_deals_le := by
    intro g hReaches
    have hUnits :=
      hReaches.openUnits_add_length_deals_le hOrderly
    have hNone : (start b o).deals.length = 0 := rfl
    rw [openUnits_start] at hUnits
    omega
  known_perm := by
    intro g hReaches
    exact hReaches.known_perm
  nodup := nodup_of_isOrderly hOrderly

end Book

------------------------------------------------------------
-- Submissions
------------------------------------------------------------

namespace Engine

variable {e : Engine}

/-
  How a submission comes to an end.  Without a pass it is
  answered at once; otherwise its execution runs out, and what
  it is answered is made of the outcome.  The orders it
  triggers have waited before and are told of once.
-/
structure ComesToAnEnd
    (e : Engine)
    (o : Order)
    (now : Timestamp) : Prop where
  answered :
    (e.TakesIn o → e.mustWait o = true) →
      e.submit? o now ≠ none
  executed :
    e.TakesIn o → e.mustWait o = false →
      e.book.RunsOut o now ∧
        e.submit? o now =
          execute? { e with processed := e.processed + 1 } o
            now
  triggered :
    ∀ r e', e.submit? o now = some (.ok r, e') →
      r.triggered.Subperm (e.book.waiting.map Order.id) ∧
        r.triggered.Nodup ∧
        r.triggered.length ≤ e.book.stopCount

/- Every submission to a book that calls have made of a new
one comes to an end. -/
theorem comesToAnEnd
    {symbol : String}
    {calls : List Call}
    (hRun : (new symbol).run? calls = some e)
    (o : Order)
    (now : Timestamp) :
    e.ComesToAnEnd o now := by
  have hOrderly := isOrderly_run? hRun
  refine
    { answered := submit?_ne_none
      executed := ?_
      triggered := ?_ }
  · intro hIn hGo
    refine
      ⟨Book.runsOut (hOrderly.enter hIn.2.1 hIn.2.2) now,
        ?_⟩
    rw [submit?_of_takesIn now hIn]
    unfold admit?
    rw [if_neg (by simp [hGo])]
  · intro r e' hSubmit
    rcases exists_succeeds hSubmit with
      ⟨hIn, stages, hSucceeds⟩
    have hSub := hSucceeds.triggered_subperm
    have hNodup :=
      Book.nodup_of_isOrderly
        (hOrderly.enter hIn.2.1 hIn.2.2)
    have hLength := hSub.length_le
    rw [List.length_map, e.book.length_waiting] at hLength
    refine ⟨hSub, ?_, hLength⟩
    rcases hSub with ⟨ids, hPerm, hSublist⟩
    exact
      hPerm.nodup_iff.1
        ((List.nodup_cons.1 hNodup).2.sublist hSublist)

/- A seller of an odd number of coins who has sold half a coin,
another one, and a buyer that waits for the price of the
other. -/
def oddSaleCalls : List Call :=
  [.ordinary 1 .sell (some (.ofParts 1 0))
      (.ofParts (2 ^ 96 - 3) 0),
    .ordinaryStop 2 .buy (.ofParts 2 0) (.ofParts 1 0),
    .ordinary 3 .sell (some (.ofParts 2 0)) (.ofParts 1 0),
    .ordinary 4 .buy (some (.ofParts 1 0))
      (.ofParts 5 1)].map fun o => .submit o (.ofNanos 0)

/- A buyer of more than both of them sell. -/
def oddSaleBuy : Order :=
  .ordinary 5 .buy (some (.ofParts 2 0))
    (.ofParts (2 ^ 96 - 1) 0)

/- What the first seller has left does not fit, so that the
first deal fills nobody. -/
theorem comesToAnEnd_of_oddSale :
    ∃ e,
      (new "BTC-USDT").run? oddSaleCalls = some e ∧
        e.TakesIn oddSaleBuy ∧
        e.mustWait oddSaleBuy = false ∧
        ((e.book.cascade? oddSaleBuy (.ofNanos 0)).map
            fun c =>
              (c.trades.map Trade.quantity,
                c.others.map fun p => p.taker.id)) =
          some
            ([.ofParts (2 ^ 96 - 4) 0, .ofParts 1 0,
              .ofParts 1 0], [2]) ∧
      e.ComesToAnEnd oddSaleBuy (.ofNanos 0) := by
  have hSeen :
      ((new "BTC-USDT").run? oddSaleCalls).any (fun e =>
        decide
          (e.TakesIn oddSaleBuy ∧
            e.mustWait oddSaleBuy = false ∧
            ((e.book.cascade? oddSaleBuy (.ofNanos 0)).map
                fun c =>
                  (c.trades.map Trade.quantity,
                    c.others.map fun p => p.taker.id)) =
              some
                ([.ofParts (2 ^ 96 - 4) 0, .ofParts 1 0,
                  .ofParts 1 0], [2]))) := by
    decide +kernel
  rcases (Option.any_eq_true _ _).1 hSeen with
    ⟨e, hRun, hAll⟩
  rcases of_decide_eq_true hAll with ⟨hIn, hGo, hCascade⟩
  exact
    ⟨e, hRun, hIn, hGo, hCascade,
      comesToAnEnd hRun oddSaleBuy (.ofNanos 0)⟩

end Engine

end Matchbook
