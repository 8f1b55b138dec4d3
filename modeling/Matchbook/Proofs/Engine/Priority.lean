import Matchbook.Proofs.Engine.Makers
import Matchbook.Proofs.Engine.Present

/-
  Priority by price and time: every pass of every run takes
  the first orders of the other side, best price first, of
  equal prices the earliest, of equal times the lowest id.

  Key definitions include:
    * `Order.Outranks`
    * `Pass.TakesInOrder`

  The main statements are:
    * `Floor.Reached.exists_takesInOrder`
    * `Engine.Run.takes_in_order`
-/

------------------------------------------------------------
-- Ranks of active orders
------------------------------------------------------------

namespace Matchbook

/- The higher rank of two active orders of one side. -/
def Order.Outranks (a b : Order) : Prop :=
  ∃ p q, a.price = some p ∧ b.price = some q ∧
    (a.side.IsBetter p q ∨
      Decimal.Same p q ∧
        (a.createdAt.IsBefore b.createdAt ∨
          a.createdAt = b.createdAt ∧ a.id < b.id))

theorem Entry.IsRanked.outranks
    {side : Side}
    {e e' : Entry Order}
    (h : e.IsRanked side .price)
    (h' : e'.IsRanked side .price)
    (hOver : e.key.Outranks e'.key) :
    e.item.Outranks e'.item := by
  rcases Policy.rank_eq_ok_iff.1 h.rank_eq with
    ⟨p, hPrice, hKey⟩
  rcases Policy.rank_eq_ok_iff.1 h'.rank_eq with
    ⟨q, hPrice', hKey'⟩
  rw [hKey, hKey'] at hOver
  exact ⟨p, q, hPrice, hPrice', hOver⟩

theorem Book.IsRanked.pairwise_outranks
    {b : Book}
    (h : b.IsRanked)
    (side : Side) :
    (b.orders side .price).Pairwise Order.Outranks := by
  have hEntries := h side .price
  unfold Ladder.IsRanked at hEntries
  rw [Book.orders, List.pairwise_map]
  apply hEntries.sorted.imp_of_mem
  intro e e' he he' hOver
  exact
    (hEntries.ranked e he).outranks
      (hEntries.ranked e' he') hOver

------------------------------------------------------------
-- Passes in order
------------------------------------------------------------

/-
  A pass in which `taker` takes the first `k` of the makers
  in their order.  All but the last of them are gone from the
  book afterwards, and the makers behind them stay as they
  are.  A taker that is not filled has left nothing that it
  accepts.
-/
structure Pass.TakesInOrder
    (p : Pass)
    (taker : Order)
    (makers : List Order)
    (k : Nat)
    (after : Book) : Prop where
  le_length : k ≤ makers.length
  ids_eq :
    (p.trades.map Trade.makerOrderId).destutter (· ≠ ·) =
      (makers.take k).map Order.id
  gone :
    ∀ maker ∈ makers.take (k - 1),
      after.contains maker.id = false
  left_eq :
    ∃ kept,
      after.orders taker.side.opposite .price =
          kept ++ makers.drop k ∧
        (kept = [] ∨
          ∃ maker f,
            (makers.take k).getLast? = some maker ∧
              kept = [{ maker with filled := f }])
  prices_of_buy :
    taker.side = .buy →
      (p.trades.map Trade.price).Pairwise (· ≤ ·)
  prices_of_sell :
    taker.side = .sell →
      (p.trades.map Trade.price).Pairwise (· ≥ ·)
  taker_eq : p.taker = { taker with filled := p.taker.filled }
  out_of_reach :
    ¬ p.taker.IsFilled →
      ∀ maker ∈ after.orders taker.side.opposite .price,
        ∃ price, maker.price = some price ∧
          ¬ taker.Accepts price
  left_of_market :
    ¬ p.taker.IsFilled →
      taker.isMarket →
        after.orders taker.side.opposite .price = []

namespace Matching

variable {now : Timestamp}
variable {id : UInt64}
variable {makers used : List (Entry Order)}
variable {taker : Order}
variable {m : Matching}

/- What a taker leaves when it stops short of filled. -/
theorem Runs.out_of_reach
    {side : Side}
    (h : Runs now id makers taker m)
    (hRanked : RankedEntries side .price makers)
    (hIntact : m.violation = none)
    (hOpen : ¬ m.taker.IsFilled) :
    ∀ maker ∈ m.makers.map Entry.item,
      ∃ price, maker.price = some price ∧
        ¬ taker.Accepts price := by
  intro maker hMaker
  rcases List.mem_map.1 hMaker with ⟨e, he, rfl⟩
  have hApart := h.isApartFrom hRanked hIntact hOpen e he
  rw [h.taker_with_filled] at hApart
  exact hApart.2

/- Of the makers that have traded at most the last one is
left. -/
theorem Uses.ids_sublist
    (h : Uses makers used m) :
    (m.makers.map fun e => e.item.id).Sublist
      ((makers.drop (used.length - 1)).map
        fun e => e.item.id) := by
  rcases h.makers_eq with
    ⟨kept, behind, hMakers, hLeft, hKept⟩
  rw [hMakers, hLeft]
  rcases hKept with rfl | ⟨earlier, e, f, rfl, rfl⟩
  · apply List.Sublist.map
    rw [List.drop_append_of_le_length (by omega)]
    exact List.sublist_append_right _ _
  · have hLength :
        (earlier ++ [e]).length - 1 = earlier.length := by
      simp
    rw [hLength, List.append_assoc, List.drop_left]
    exact List.Sublist.refl _

end Matching

namespace Book

variable {b b' : Book}
variable {taker : Order}
variable {ending : Ending}

/- Only the taker can have come into the book. -/
theorem Finishes.mem_allOrders
    (h : b.Finishes taker ending b')
    (hRanked : b.IsRanked)
    (hFresh : taker.id ∉ b.allOrders.map Order.id)
    {o : Order}
    (ho : o ∈ b'.allOrders) :
    o = taker ∨ o ∈ b.allOrders := by
  cases h with
  | filled => exact Or.inr ho
  | discarded => exact Or.inr ho
  | broken => exact Or.inr ho
  | rested _ _ hPlace =>
      have hPerm :=
        allOrders_place_perm hRanked hFresh hPlace
      exact List.mem_cons.1 (hPerm.mem_iff.1 ho)

theorem Finishes.orders_opposite
    (h : b.Finishes taker ending b') :
    b'.orders taker.side.opposite .price =
      b.orders taker.side.opposite .price := by
  cases h with
  | filled => rfl
  | discarded => rfl
  | broken => rfl
  | rested _ _ hPlace =>
      apply orders_place_of_ne ?_ hPlace
      cases taker.side <;> simp [Side.opposite]

/- A pass leaves the other side as the matching left it. -/
theorem Finishes.orders_settle
    {side : Side}
    {m : Matching}
    (h : (b.settle side.opposite m).Finishes m.taker ending b')
    (hSide : m.taker.side = side) :
    b'.orders side.opposite .price =
      m.makers.map Entry.item := by
  have hOpposite := h.orders_opposite
  rw [hSide, Book.orders_settle] at hOpposite
  exact hOpposite

end Book

------------------------------------------------------------
-- Passes on the floor
------------------------------------------------------------

namespace Floor

variable {symbol : String} {log : List Event}
variable {b b' : Book}
variable {taker : Order} {queue : List Order}
variable {now : Timestamp}

/- The ids of one ladder, of the other ones and of the taker
are all different. -/
theorem Reached.nodup_ids
    (h : Reached symbol log ⟨b, taker :: queue⟩)
    (side : Side) :
    ((b.orders side .price ++
      (b.others side .price ++ [taker])).map
        Order.id).Nodup := by
  have hPerm :=
    ((b.allOrders_perm side .price).append_right
      [taker]).map Order.id
  rw [List.append_assoc] at hPerm
  apply hPerm.nodup_iff.1
  have hSub :
      (b.allOrders ++ [taker]).Sublist
        (b.allOrders ++ taker :: queue) :=
    ((List.nil_sublist queue).cons_cons taker).append_left _
  exact h.present.nodup.sublist (hSub.map Order.id)

theorem Reached.nodup_makers
    (h : Reached symbol log ⟨b, taker :: queue⟩)
    (side : Side) :
    ((b.ladder side .price).byPriority.map
      fun e => e.item.id).Nodup := by
  have hNodup := h.nodup_ids side
  rw [List.map_append, List.nodup_append, Book.orders,
    List.map_map] at hNodup
  exact hNodup.1

/- What is in the book after a pass has the id of an order of
another ladder, of the taker, or of a maker from the last one
on that has traded. -/
theorem Reached.id_of_mem_allOrders
    {m : Matching}
    {used : List (Entry Order)}
    {ending : Ending}
    {o : Order}
    (h : Reached symbol log ⟨b, taker :: queue⟩)
    (hRuns :
      Matching.Runs now b.nextTradeId
        (b.ladder taker.side.opposite .price).byPriority
        taker m)
    (hUses :
      Matching.Uses
        (b.ladder taker.side.opposite .price).byPriority
        used m)
    (hFinish :
      (b.settle taker.side.opposite m).Finishes m.taker
        ending b')
    (ho : o ∈ b'.allOrders) :
    o.id ∈
      ((b.orders taker.side.opposite .price).drop
          (used.length - 1) ++
        (b.others taker.side.opposite .price ++
          [taker])).map Order.id := by
  have hMatched := h.matching hRuns rfl rfl rfl
  rw [List.map_append, List.map_append]
  rcases
      hFinish.mem_allOrders hMatched.isRanked
        (fresh_of_present hMatched.present) ho with
    rfl | hSettled
  · apply List.mem_append_right
    apply List.mem_append_right
    rw [hRuns.taker_with_filled]
    exact List.mem_singleton_self _
  · have hPerm :=
      b.allOrders_settle_perm taker.side.opposite m
    rcases List.mem_append.1 (hPerm.mem_iff.1 hSettled) with
      hMaker | hOther
    · apply List.mem_append_left
      have hIds := hUses.ids_sublist
      rw [Book.orders, ← List.map_drop, List.map_map]
      apply hIds.subset
      have hMem := List.mem_map_of_mem (f := Order.id) hMaker
      rw [List.map_map] at hMem
      exact hMem
    · apply List.mem_append_right
      apply List.mem_append_left
      exact List.mem_map_of_mem hOther

/- All makers that have traded are gone, the last one aside. -/
theorem Reached.contains_eq_false
    {m : Matching}
    {used : List (Entry Order)}
    {ending : Ending}
    {maker : Order}
    (h : Reached symbol log ⟨b, taker :: queue⟩)
    (hRuns :
      Matching.Runs now b.nextTradeId
        (b.ladder taker.side.opposite .price).byPriority
        taker m)
    (hUses :
      Matching.Uses
        (b.ladder taker.side.opposite .price).byPriority
        used m)
    (hFinish :
      (b.settle taker.side.opposite m).Finishes m.taker
        ending b')
    (hMaker :
      maker ∈
        (b.orders taker.side.opposite .price).take
          (used.length - 1)) :
    b'.contains maker.id = false := by
  rw [Book.contains_eq_false_iff]
  intro hMem
  rcases List.mem_map.1 hMem with ⟨o, ho, hId⟩
  have hWhere := h.id_of_mem_allOrders hRuns hUses hFinish ho
  rw [hId] at hWhere
  have hNodup := h.nodup_ids taker.side.opposite
  rw [← List.take_append_drop (used.length - 1)
      (b.orders taker.side.opposite .price),
    List.append_assoc, List.map_append,
    List.nodup_append] at hNodup
  exact
    hNodup.2.2 _ (List.mem_map_of_mem hMaker) _ hWhere rfl

/- Every pass on a floor keeps to the order of the makers. -/
theorem Reached.exists_takesInOrder
    {p : Pass}
    (h : Reached symbol log ⟨b, taker :: queue⟩)
    (hPass : b.pass? taker now = some (p, b'))
    (hIntact : p.violation = none) :
    ∃ k,
      p.TakesInOrder taker
        (b.orders taker.side.opposite .price) k b' := by
  cases Book.passes_of_pass? hPass with
  | broken => cases hIntact
  | @finished m ending _ hRuns hWhole hFinish =>
      have hRanked :
          RankedEntries taker.side.opposite .price
            (b.ladder taker.side.opposite
              .price).byPriority :=
        h.isRanked taker.side.opposite .price
      rcases
          hRuns.exists_uses
            (h.nodup_makers taker.side.opposite) with
        ⟨used, hUses⟩
      rcases hUses.makers_eq with
        ⟨kept, behind, hMakers, hLeft, hKept⟩
      have hTaker := hRuns.taker_with_filled
      have hOrders :
          b.orders taker.side.opposite .price =
            used.map Entry.item ++
              behind.map Entry.item := by
        rw [Book.orders, hMakers, List.map_append]
      have hTake :
          (b.orders taker.side.opposite .price).take
              used.length =
            used.map Entry.item := by
        rw [hOrders, List.take_left' (by simp)]
      have hAfter := hFinish.orders_settle (by rw [hTaker])
      have hFar := hRuns.out_of_reach hRanked hWhole
      refine ⟨used.length, ?_⟩
      constructor
      case le_length =>
        rw [hOrders, List.length_append, List.length_map]
        exact Nat.le_add_right _ _
      case ids_eq =>
        rw [hTake, List.map_map]
        exact hUses.ids_eq
      case gone =>
        intro maker hMaker
        exact h.contains_eq_false hRuns hUses hFinish hMaker
      case left_eq =>
        refine ⟨kept.map Entry.item, ?_, ?_⟩
        · rw [hAfter, hLeft, List.map_append, hOrders,
            List.drop_left' (by simp)]
        · rcases hKept with rfl | ⟨earlier, e, f, rfl, rfl⟩
          · exact Or.inl rfl
          · refine Or.inr ⟨e.item, f, ?_, rfl⟩
            rw [hTake, List.map_append]
            exact List.getLast?_concat
      case prices_of_buy =>
        intro hBuy
        have hSorted := hRuns.prices_sorted hRanked
        rw [hBuy] at hSorted
        exact hSorted.imp Side.IsNoWorse.le_of_sell
      case prices_of_sell =>
        intro hSell
        have hSorted := hRuns.prices_sorted hRanked
        rw [hSell] at hSorted
        exact hSorted.imp Side.IsNoWorse.ge_of_buy
      case taker_eq => exact hTaker
      case out_of_reach =>
        rw [hAfter]
        exact hFar
      case left_of_market =>
        intro hOpen hMarket
        rw [hAfter]
        apply List.eq_nil_iff_forall_not_mem.2
        intro maker hMaker
        rcases hFar hOpen maker hMaker with
          ⟨price, _, hNot⟩
        exact hNot (Order.accepts_of_isMarket hMarket price)

end Floor

------------------------------------------------------------
-- Runs
------------------------------------------------------------

namespace Engine

/-
  In every run, every order that is executed, be it the
  submitted one or one that it has released, takes the first
  of the orders that stand against it at that moment.
-/
theorem Run.takes_in_order
    {symbol : String}
    {log : List Event}
    {e : Engine}
    {o taker : Order}
    {now : Timestamp}
    {before after : Book}
    {p : Pass}
    (h : Run symbol log e)
    (hBegins : e.Begins o now before taker)
    (hPass : before.pass? taker now = some (p, after))
    (hIntact : p.violation = none) :
    (before.orders taker.side.opposite .price).Pairwise
        Order.Outranks ∧
      ∃ k,
        p.TakesInOrder taker
          (before.orders taker.side.opposite .price) k
          after := by
  rcases h.reached_begins hBegins with
    ⟨deals, inFlight, hReached⟩
  exact
    ⟨hReached.isRanked.pairwise_outranks _,
      hReached.exists_takesInOrder hPass hIntact⟩

/- A waiting buy order of 2 that a trade at 100 releases. -/
def waitingBuy : Order :=
  { Order.ordinary 4 .buy none (.ofParts 2 0) with
    stopPrice := some (.ofParts 100 0) }

/- Three sellers, two of them at the same price, and the
waiting buyer. -/
def waitingFlow : List Order :=
  [.ordinary 3 .sell (some (.ofParts 101 0)) (.ofParts 3 0),
    .ordinary 2 .sell (some (.ofParts 101 0)) (.ofParts 1 0),
    .ordinary 1 .sell (some (.ofParts 100 0)) (.ofParts 1 0),
    waitingBuy]

/- The buyer that trades at 100. -/
def releasingBuy : Order :=
  .ordinary 5 .buy (some (.ofParts 100 0)) (.ofParts 1 0)

theorem takes_in_order_of_released :
    ∃ before after p,
      (played "BTC-USDT" waitingFlow).2.Begins releasingBuy
        (.ofNanos 0) before waitingBuy.activate ∧
      before.pass? waitingBuy.activate (.ofNanos 0) =
        some (p, after) ∧
      p.violation = none ∧
      p.trades.map Trade.makerOrderId = [2, 3] ∧
      (before.orders .sell .price).Pairwise
        Order.Outranks ∧
      ∃ k,
        p.TakesInOrder waitingBuy.activate
          (before.orders .sell .price) k after := by
  let e := (played "BTC-USDT" waitingFlow).2
  let first :=
    (e.book.pass? releasingBuy.activate (.ofNanos 0)).get
      (by decide +kernel)
  let before := (first.2.releaseAfter first.1).2
  let second :=
    (before.pass? waitingBuy.activate (.ofNanos 0)).get
      (by decide +kernel)
  have hFirst :
      e.book.pass? releasingBuy.activate (.ofNanos 0) =
        some (first.1, first.2) :=
    (Option.some_get _).symm
  have hQueue :
      (first.2.releaseAfter first.1).1 = [waitingBuy] := by
    decide +kernel
  have hBegins :
      e.Begins releasingBuy (.ofNanos 0) before
        waitingBuy.activate := by
    refine ⟨by decide +kernel, by decide +kernel, ?_⟩
    apply Book.Begins.later hFirst
    · decide +kernel
    · rw [hQueue]
      exact Book.Begins.first
  have hPass :
      before.pass? waitingBuy.activate (.ofNanos 0) =
        some (second.1, second.2) :=
    (Option.some_get _).symm
  have hIntact : second.1.violation = none := by
    decide +kernel
  exact
    ⟨before, second.2, second.1, hBegins, hPass, hIntact,
      by decide +kernel,
      (run_played "BTC-USDT" waitingFlow).takes_in_order
        hBegins hPass hIntact⟩

end Engine

end Matchbook
