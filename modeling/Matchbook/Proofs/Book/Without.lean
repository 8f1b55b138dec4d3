import Matchbook.Proofs.Book.Canonical
import Matchbook.Proofs.Book.Shelves
import Matchbook.Proofs.Engine.Orderly
import Matchbook.Proofs.Store.Ladder

/-
  The book without one of its orders, and how the operations
  on a book do to it what they do to the whole book, as long
  as they leave that order alone.

  Key definitions include:
    * `Ladder.without`
    * `Book.without`
    * `Matching.without`

  The main statements are:
    * `Book.without_of_place`
    * `Book.place_without`
    * `Book.cancel?_eq_without`
    * `Book.release_without`
    * `Book.settle_without`
    * `Book.finish?_without`
-/

------------------------------------------------------------
-- Ladders
------------------------------------------------------------

namespace Matchbook

/- Whether an entry is not that of the order with an id. -/
def Entry.isOther (id : UInt64) (e : Entry Order) : Bool :=
  e.item.id != id

namespace Ladder

variable {side : Side} {policy : Policy}
variable {l : Ladder side policy Order}

/- The ladder without the order with an id. -/
def without
    (l : Ladder side policy Order)
    (id : UInt64) : Ladder side policy Order :=
  ⟨l.ascending.filter (Entry.isOther id)⟩

theorem byPriority_without
    (l : Ladder side policy Order)
    (id : UInt64) :
    (l.without id).byPriority =
      l.byPriority.filter (Entry.isOther id) :=
  (List.filter_reverse ..).symm

theorem map_item_without
    (es : List (Entry Order))
    (id : UInt64) :
    (es.filter (Entry.isOther id)).map Entry.item =
      (es.map Entry.item).filter (·.id != id) := by
  rw [List.filter_map]
  rfl

theorem IsRanked.without
    (h : l.IsRanked)
    (id : UInt64) :
    (l.without id).IsRanked :=
  h.of_sublist List.filter_sublist

section Release

variable {l : Ladder side .stop Order}
variable {id : UInt64} {last : Decimal}

/- Without an order that is not released, the released ones
still stand at the low end. -/
theorem ascending_without_of_spared
    (hSpared : id ∉ (l.triggered last).map Order.id) :
    (l.without id).ascending =
      l.ascending.takeWhile (isTriggered side last) ++
        ((l.release last).without id).ascending := by
  have hKept :
      (l.ascending.takeWhile
          (isTriggered side last)).filter
        (Entry.isOther id) =
      l.ascending.takeWhile (isTriggered side last) := by
    rw [List.filter_eq_self]
    intro e he
    unfold Entry.isOther
    rw [bne_iff_ne]
    rintro rfl
    apply hSpared
    exact
      List.mem_map_of_mem
        (List.mem_map_of_mem (List.mem_reverse.2 he))
  unfold without release
  dsimp only
  rw [← List.takeWhile_append_dropWhile
      (p := isTriggered side last) (l := l.ascending),
    List.filter_append, List.takeWhile_append_dropWhile,
    hKept]

/- Above the released entries nothing is triggered, also
without the order. -/
theorem IsRanked.not_isTriggered_without
    (h : l.IsRanked)
    {es : List (Entry Order)}
    (hEntries :
      ((l.release last).without id).ascending = es) :
    es.takeWhile (isTriggered side last) = [] ∧
      es.dropWhile (isTriggered side last) = es := by
  cases es with
  | nil => exact ⟨rfl, rfl⟩
  | cons e rest =>
      have hMem :
          e ∈ ((l.release last).without id).ascending :=
        hEntries ▸ List.mem_cons_self
      have hLeft := List.mem_of_mem_filter hMem
      have hNot : ¬ isTriggered side last e = true := by
        unfold isTriggered
        rw [decide_eq_true_iff]
        exact h.not_triggers_of_mem_release hLeft
      exact
        ⟨List.takeWhile_cons_of_neg hNot,
          List.dropWhile_cons_of_neg hNot⟩

/- A release that spares an order releases the same others if
the order is not there. -/
theorem IsRanked.triggered_without
    (h : l.IsRanked)
    (hSpared : id ∉ (l.triggered last).map Order.id) :
    (l.without id).triggered last = l.triggered last := by
  unfold triggered
  rw [ascending_without_of_spared hSpared,
    List.takeWhile_append_of_pos
      (fun _ he => List.mem_takeWhile_imp he),
    (h.not_isTriggered_without rfl).1, List.append_nil]

theorem IsRanked.release_without
    (h : l.IsRanked)
    (hSpared : id ∉ (l.triggered last).map Order.id) :
    (l.without id).release last =
      (l.release last).without id := by
  have hDrop :
      ((l.without id).release last).ascending =
        ((l.release last).without id).ascending := by
    unfold release
    dsimp only
    rw [ascending_without_of_spared hSpared,
      List.dropWhile_append_of_pos
        (fun _ he => List.mem_takeWhile_imp he)]
    exact (h.not_isTriggered_without rfl).2
  exact congrArg Ladder.mk hDrop

end Release

end Ladder

------------------------------------------------------------
-- Books
------------------------------------------------------------

/- The matching after which a maker is not among those that
are left. -/
def Matching.without
    (m : Matching)
    (id : UInt64) : Matching :=
  { m with makers := m.makers.filter (Entry.isOther id) }

namespace Book

/- The book without the order with an id. -/
def without (b : Book) (id : UInt64) : Book :=
  { b with
    bids := b.bids.without id
    asks := b.asks.without id
    stopBids := b.stopBids.without id
    stopAsks := b.stopAsks.without id }

variable {b b' : Book}
variable {side : Side} {policy : Policy}
variable {o : Order} {id id' : UInt64}
variable {queue : List Order}

@[simp] theorem ladder_without
    (b : Book)
    (id : UInt64)
    (side : Side)
    (policy : Policy) :
    (b.without id).ladder side policy =
      (b.ladder side policy).without id := by
  cases side <;> cases policy <;> rfl

theorem withLadder_without
    (b : Book)
    (l : Ladder side policy Order)
    (id : UInt64) :
    (b.withLadder l).without id =
      (b.without id).withLadder (l.without id) := by
  cases side <;> cases policy <;> rfl

@[simp] theorem margin_without
    (b : Book)
    (id : UInt64) :
    (b.without id).margin = b.margin :=
  rfl

theorem orders_without
    (b : Book)
    (id : UInt64)
    (side : Side)
    (policy : Policy) :
    (b.without id).orders side policy =
      (b.orders side policy).filter (·.id != id) := by
  unfold orders
  rw [ladder_without, Ladder.byPriority_without,
    Ladder.map_item_without]

theorem allOrders_without
    (b : Book)
    (id : UInt64) :
    (b.without id).allOrders =
      b.allOrders.filter (·.id != id) := by
  unfold allOrders
  simp only [orders_without, List.filter_append]

theorem shelved_without
    (b : Book)
    (id : UInt64) :
    (b.without id).shelved =
      b.shelved.filter fun x => x.1.id != id := by
  unfold shelved active waiting
  simp only [orders_without, List.map_append,
    List.filter_append, List.filter_map]
  rfl

theorem IsRanked.without
    (h : b.IsRanked)
    (id : UInt64) :
    (b.without id).IsRanked := by
  intro side policy
  rw [ladder_without]
  exact (h side policy).without id

theorem without_comm
    (b : Book)
    (id id' : UInt64) :
    (b.without id).without id' =
      (b.without id').without id := by
  refine eq_of_ladders rfl ?_
  intro side policy
  simp only [ladder_without, Ladder.without,
    List.filter_filter, Bool.and_comm]

/- Nothing is taken out of a book that does not hold the
id. -/
theorem without_eq_self
    (hFresh : id ∉ b.allOrders.map Order.id) :
    b.without id = b := by
  refine eq_of_ladders rfl ?_
  intro side policy
  rw [ladder_without]
  unfold Ladder.without
  have hAll :
      (b.ladder side policy).ascending.filter
          (Entry.isOther id) =
        (b.ladder side policy).ascending := by
    rw [List.filter_eq_self]
    intro e he
    unfold Entry.isOther
    rw [bne_iff_ne]
    rintro rfl
    apply hFresh
    apply List.mem_map_of_mem
    apply mem_allOrders_of_mem_orders
    exact List.mem_map_of_mem (List.mem_reverse.2 he)
  rw [hAll]

theorem without_fresh
    (hFresh : id' ∉ b.allOrders.map Order.id) :
    id' ∉ (b.without id).allOrders.map Order.id := by
  rw [allOrders_without]
  exact fun hMem =>
    hFresh ((List.filter_sublist.map Order.id).subset hMem)

theorem isOrderly_without
    (h : Floor.IsOrderly ⟨b, queue⟩)
    (id : UInt64) :
    Floor.IsOrderly ⟨b.without id, queue⟩ := by
  refine
    h.of_subperm (h.isRanked.without id) rfl
      (List.Sublist.subperm ?_)
  unfold Floor.orders
  rw [allOrders_without]
  exact List.filter_sublist.append_right queue

------------------------------------------------------------
-- Finding orders
------------------------------------------------------------

/- The other orders are found as before. -/
theorem locate?_without
    (b : Book)
    (hOther : id' ≠ id) :
    (b.without id).locate? id' = b.locate? id' := by
  rw [locate?_eq_find?, locate?_eq_find?, shelved_without,
    List.find?_filter]
  congr 1
  funext x
  by_cases hId : x.1.id = id' <;>
    simp [hId, hOther]

theorem get?_without
    (b : Book)
    (hOther : id' ≠ id) :
    (b.without id).get? id' = b.get? id' := by
  unfold get?
  rw [locate?_without b hOther]

theorem contains_without
    (b : Book)
    (hOther : id' ≠ id) :
    (b.without id).contains id' = b.contains id' := by
  unfold contains
  rw [locate?_without b hOther]

------------------------------------------------------------
-- Insertion
------------------------------------------------------------

/- To place a new order and to take it out again changes
nothing. -/
theorem without_of_place
    (hRanked : b.IsRanked)
    (hFresh : o.id ∉ b.allOrders.map Order.id)
    (h : b.place policy o = .ok b') :
    b'.without o.id = b := by
  have hAfter := isRanked_place hRanked hFresh h
  refine
    (hAfter.without o.id).eq_of_perm hRanked
      ((margin_without b' o.id).trans (margin_place h)) ?_
  intro side policy'
  have hOrders :=
    (orders_place_perm_append hRanked hFresh h side
      policy').filter (·.id != o.id)
  have hLanding :
      (o.landing policy side policy').filter
        (·.id != o.id) = [] := by
    unfold Order.landing
    split <;> simp
  have hRest :
      (b.orders side policy').filter (·.id != o.id) =
        b.orders side policy' := by
    rw [← orders_without, without_eq_self hFresh]
  rw [List.filter_append, hLanding, hRest] at hOrders
  rw [orders_without]
  exact hOrders

/- Another order is placed as if the order were not there. -/
theorem place_without
    (hRanked : b.IsRanked)
    (hFresh : o.id ∉ b.allOrders.map Order.id)
    (hOther : o.id ≠ id) :
    (b.without id).place policy o =
      (b.place policy o).map (·.without id) := by
  have hMap := (b.without id).place_eq_map policy o
  have hMap' := b.place_eq_map policy o
  cases hRank : policy.rank o.key with
  | error v =>
      rw [hRank] at hMap hMap'
      rw [hMap, hMap']
      rfl
  | ok key =>
      rw [hRank] at hMap hMap'
      have hFresh' :
          o.id ∉ (b.without id).allOrders.map Order.id :=
        without_fresh hFresh
      have hRanked' := hRanked.without id
      rw [hMap']
      refine hMap.trans (congrArg Except.ok ?_)
      refine
        (isRanked_place hRanked' hFresh' hMap).eq_of_perm
          ((isRanked_place hRanked hFresh hMap').without id)
          ?_ ?_
      · exact (margin_place hMap).trans
          (margin_place hMap').symm
      · intro side policy'
        have hLeft :=
          orders_place_perm_append hRanked' hFresh' hMap side
            policy'
        have hRight :=
          (orders_place_perm_append hRanked hFresh hMap' side
            policy').filter (·.id != id)
        have hLanding :
            (o.landing policy side policy').filter
                (·.id != id) =
              o.landing policy side policy' := by
          unfold Order.landing
          split <;> simp [hOther]
        rw [List.filter_append, hLanding, ← orders_without,
          ← orders_without] at hRight
        exact hLeft.trans hRight.symm

/- And inserted, or refused for the same reason. -/
theorem insert_without
    (hRanked : b.IsRanked)
    (hOther : o.id ≠ id) :
    (b.without id).insert policy o =
      (b.insert policy o).map (·.without id) := by
  have hSymbol : (b.without id).symbol = b.symbol := rfl
  unfold insert
  rw [hSymbol, contains_without b hOther]
  split
  · rfl
  split
  · rfl
  rename_i hNew
  have hFresh : o.id ∉ b.allOrders.map Order.id :=
    contains_eq_false_iff.1 (by simpa using hNew)
  rw [place_without hRanked hFresh hOther]
  cases b.place policy o <;> rfl

------------------------------------------------------------
-- Removal
------------------------------------------------------------

/- Without an entry that no other one shares its id with, a
ladder is what stands below and above it. -/
theorem without_eq_withLadder
    {low high : List (Entry Order)}
    {e : Entry Order}
    (hNodup : (b.allOrders.map Order.id).Nodup)
    (hSplit :
      (b.ladder side policy).ascending =
        low ++ e :: high) :
    b.without e.item.id =
      b.withLadder
        (⟨low ++ high⟩ : Ladder side policy Order) := by
  have hShelved :=
    (shelved_split_perm hSplit).map Prod.fst
  rw [List.map_cons, map_fst_shelved, map_fst_shelved]
    at hShelved
  have hFresh :=
    (List.nodup_cons.1
      ((hShelved.map Order.id).nodup_iff.1 hNodup)).1
  rw [← without_eq_self hFresh, withLadder_without]
  have hDrop :
      (b.ladder side policy).without e.item.id =
        (⟨low ++ high⟩ : Ladder side policy Order).without
          e.item.id := by
    have hSelf : Entry.isOther e.item.id e = false :=
      bne_self_eq_false e.item.id
    unfold Ladder.without
    rw [hSplit, List.filter_append,
      List.filter_cons_of_neg (by simp [hSelf]),
      ← List.filter_append]
  rw [← hDrop, ← ladder_without, withLadder_ladder]

/- A cancellation takes the order with the id out of the book,
and nothing else. -/
theorem cancel?_eq_without
    (h : Floor.IsOrderly ⟨b, []⟩)
    (id : UInt64) :
    b.cancel? id =
      (b.get? id).map fun o => (o, b.without id) := by
  have hNodup : (b.allOrders.map Order.id).Nodup := by
    have hAll := h.nodup
    unfold Floor.orders at hAll
    rwa [List.append_nil] at hAll
  unfold cancel? get?
  cases hLocate : b.locate? id with
  | none => rfl
  | some found =>
      rcases found with ⟨o, policy⟩
      rcases (locate?_eq_some_iff hNodup).1 hLocate with
        ⟨hMem, rfl⟩
      rcases h.isRanked.exists_entry hMem with
        ⟨e, he, rfl⟩
      rcases List.append_of_mem he with ⟨low, high, hSplit⟩
      have hIds :
          ((b.ladder e.item.side policy).ascending.map
            fun e => e.item.id).Nodup := by
        refine nodup_ladder ?_ e.item.side policy
        rw [← map_fst_shelved, List.map_map] at hNodup
        exact hNodup
      have hErase :=
        (h.isRanked e.item.side policy).erase?_eq hIds
          hSplit
      rw [without_eq_withLadder hNodup hSplit]
      simp only [Option.bind_eq_bind, Option.bind_some,
        hErase]
      rfl

/- Another order is cancelled as if the order were not
there. -/
theorem cancel?_without
    (h : Floor.IsOrderly ⟨b, []⟩)
    (hOther : id' ≠ id) :
    (b.without id).cancel? id' =
      (b.cancel? id').map fun (o, b') =>
        (o, b'.without id) := by
  rw [cancel?_eq_without (isOrderly_without h id),
    cancel?_eq_without h, get?_without b hOther,
    Option.map_map, without_comm]
  rfl

------------------------------------------------------------
-- Trades
------------------------------------------------------------

/- A release that spares the order releases the same others if
the order is not there. -/
theorem release_without
    (hRanked : b.IsRanked)
    (hSpared : id ∉ b.release.1.map Order.id) :
    (b.without id).release =
      (b.release.1, b.release.2.without id) := by
  have hLast : (b.without id).lastPrice = b.lastPrice := rfl
  unfold release at hSpared ⊢
  rw [hLast]
  cases hPrice : b.lastPrice with
  | none => rfl
  | some last =>
      rw [hPrice] at hSpared
      dsimp only at hSpared ⊢
      rw [List.map_append, List.mem_append, not_or]
        at hSpared
      rcases hSpared with ⟨hBids, hAsks⟩
      have hBuy : b.stopBids.IsRanked := hRanked .buy .stop
      have hSell : b.stopAsks.IsRanked :=
        hRanked .sell .stop
      unfold without
      dsimp only
      rw [hBuy.triggered_without hBids,
        hSell.triggered_without hAsks,
        hBuy.release_without hBids,
        hSell.release_without hAsks]

theorem releaseAfter_without
    {p : Pass}
    (hRanked : b.IsRanked)
    (hSpared : id ∉ (b.releaseAfter p).1.map Order.id) :
    (b.without id).releaseAfter p =
      ((b.releaseAfter p).1,
        (b.releaseAfter p).2.without id) := by
  unfold releaseAfter at hSpared ⊢
  split
  · rfl
  · rename_i hTrades
    rw [if_neg hTrades] at hSpared
    exact release_without hRanked hSpared

theorem settle_without
    (b : Book)
    (side : Side)
    (m : Matching)
    (id : UInt64) :
    (b.without id).settle side (m.without id) =
      (b.settle side m).without id := by
  have hLadder :
      (Ladder.ofPriority (m.without id).makers :
          Ladder side .price Order) =
        (Ladder.ofPriority m.makers).without id := by
    unfold Ladder.ofPriority Ladder.without Matching.without
    dsimp only
    rw [List.filter_reverse]
  unfold settle
  rw [hLadder, ← withLadder_without]
  unfold Matching.trades Matching.without
  dsimp only
  split <;> rfl

/- A taker ends as if the order were not there. -/
theorem finish?_without
    {taker : Order}
    (hRanked : b.IsRanked)
    (hFresh : taker.id ∉ b.allOrders.map Order.id)
    (hOther : taker.id ≠ id) :
    (b.without id).finish? taker =
      (b.finish? taker).map fun (ending, b') =>
        (ending, b'.without id) := by
  unfold finish?
  split
  · rfl
  · rw [Option.map_map]
    congr 1
    funext remaining
    dsimp only [Function.comp]
    split
    · rfl
    · rw [place_without hRanked hFresh hOther]
      cases b.place .price taker <;> rfl

end Book

end Matchbook
