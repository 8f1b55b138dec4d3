import Matchbook.Proofs.Book.Orders
import Matchbook.Proofs.Ladder.Stops
import Mathlib.Data.List.Nodup

/-
  The waiting and the active orders of a book, and which of
  the waiting ones a release takes out: exactly those whose
  stop price the last trade has reached.

  Key definitions include:
    * `Order.IsReachedBy`
    * `Book.waiting`
    * `Book.active`

  The main statements are:
    * `Ladder.IsRanked.not_triggers_of_mem_release`
    * `Book.locate?_eq_some_iff`
    * `Book.waiting_release_perm`
    * `Book.IsRanked.mem_release_iff`
    * `Book.IsRanked.not_isReachedBy_of_release`
-/

------------------------------------------------------------
-- Stop prices
------------------------------------------------------------

namespace Matchbook

/- Whether a trade at a price releases an order that waits
for its stop price. -/
def Order.IsReachedBy (o : Order) (price : Decimal) : Prop :=
  ∃ stop, o.stopPrice = some stop ∧
    o.side.Triggers stop price

instance (o : Order) (price : Decimal) :
    Decidable (o.IsReachedBy price) :=
  decidable_of_iff
    (o.stopPrice.any fun stop =>
      o.side.Triggers stop price)
    (by simp [Order.IsReachedBy, Option.any_eq_true])

theorem Entry.IsRanked.stopPrice_eq
    {side : Side}
    {e : Entry Order}
    (h : e.IsRanked side .stop) :
    e.item.stopPrice = some e.key.price := by
  rcases Policy.rank_eq_ok_iff.1 h.rank_eq with
    ⟨stop, hStop, hKey⟩
  rw [hKey]
  exact hStop

theorem Entry.IsRanked.isReachedBy_iff
    {side : Side}
    {e : Entry Order}
    {price : Decimal}
    (h : e.IsRanked side .stop) :
    e.item.IsReachedBy price ↔
      side.Triggers e.key.price price := by
  unfold Order.IsReachedBy
  rw [h.stopPrice_eq, h.side_eq]
  constructor
  · rintro ⟨stop, hStop, hReached⟩
    cases hStop
    exact hReached
  · intro hReached
    exact ⟨_, rfl, hReached⟩

------------------------------------------------------------
-- Ladders of waiting orders
------------------------------------------------------------

namespace Ladder

variable {side : Side} {l : Ladder side .stop Order}
variable {last : Decimal}

/- A release leaves no entry that the trade reaches. -/
theorem IsRanked.not_triggers_of_mem_release
    (h : l.IsRanked)
    {e : Entry Order}
    (he : e ∈ (l.release last).ascending) :
    ¬ side.Triggers e.key.price last := by
  unfold release at he
  rw [h.isSorted.dropWhile_isTriggered] at he
  simpa [isTriggered] using (List.mem_filter.1 he).2

theorem IsRanked.isReachedBy_of_mem_triggered
    (h : l.IsRanked)
    {o : Order}
    (ho : o ∈ l.triggered last) :
    o.IsReachedBy last := by
  rcases List.mem_map.1 ho with ⟨e, he, rfl⟩
  have hTake := List.mem_reverse.1 he
  have hMem : e ∈ l.ascending :=
    (List.takeWhile_prefix _).subset hTake
  rw [(h.ranked_of_mem hMem).isReachedBy_iff]
  simpa [isTriggered] using List.mem_takeWhile_imp hTake

theorem IsRanked.not_isReachedBy_of_mem_release
    (h : l.IsRanked)
    {o : Order}
    (ho :
      o ∈ (l.release last).byPriority.map Entry.item) :
    ¬ o.IsReachedBy last := by
  rcases List.mem_map.1 ho with ⟨e, he, rfl⟩
  have hLeft : e ∈ (l.release last).ascending :=
    List.mem_reverse.1 he
  have hMem := (sublist_release l last).subset hLeft
  rw [(h.ranked_of_mem hMem).isReachedBy_iff]
  exact h.not_triggers_of_mem_release hLeft

end Ladder

------------------------------------------------------------
-- Waiting and active orders
------------------------------------------------------------

namespace Book

/- The orders that wait for their stop price. -/
def waiting (b : Book) : List Order :=
  b.orders .buy .stop ++ b.orders .sell .stop

/- The orders that takers can meet. -/
def active (b : Book) : List Order :=
  b.orders .buy .price ++ b.orders .sell .price

theorem allOrders_eq_append (b : Book) :
    b.allOrders = b.active ++ b.waiting := by
  simp only [allOrders, active, waiting, List.append_assoc]

theorem length_waiting (b : Book) :
    b.waiting.length = b.stopCount := by
  simp only [waiting, orders, List.length_append,
    List.length_map, Ladder.length_byPriority, stopCount]
  rfl

variable {b b' : Book}
variable {side : Side}
variable {o : Order}

theorem mem_waiting_of_mem_orders
    (ho : o ∈ b.orders side .stop) :
    o ∈ b.waiting := by
  cases side with
  | buy => exact List.mem_append_left _ ho
  | sell => exact List.mem_append_right _ ho

------------------------------------------------------------
-- Finding orders
------------------------------------------------------------

/- All orders, each with the policy of its ladder. -/
def shelved (b : Book) : List (Order × Policy) :=
  b.active.map (·, .price) ++ b.waiting.map (·, .stop)

theorem map_fst_shelved (b : Book) :
    b.shelved.map Prod.fst = b.allOrders := by
  unfold shelved
  rw [allOrders_eq_append, List.map_append, List.map_map,
    List.map_map]
  exact congrArg₂ _ (List.map_id _) (List.map_id _)

theorem locate?_eq_find?
    (b : Book)
    (id : UInt64) :
    b.locate? id = b.shelved.find? (·.1.id == id) := by
  simp only [locate?, shelved, active, waiting,
    List.map_append, List.find?_append, List.find?_map,
    Option.orElse_eq_orElse, Option.orElse_eq_or,
    Option.or_assoc]
  rfl

/- In a book without repeated ids an order is found where it
is. -/
theorem locate?_eq_some_iff
    {id : UInt64}
    {policy : Policy}
    (hNodup : (b.allOrders.map Order.id).Nodup) :
    b.locate? id = some (o, policy) ↔
      (o, policy) ∈ b.shelved ∧ o.id = id := by
  rw [locate?_eq_find?]
  constructor
  · intro hFind
    refine ⟨List.mem_of_find?_eq_some hFind, ?_⟩
    simpa using List.find?_some hFind
  · rintro ⟨hMem, rfl⟩
    rw [← map_fst_shelved, List.map_map] at hNodup
    cases hFind :
        b.shelved.find? (·.1.id == o.id) with
    | none =>
        have hNone := List.find?_eq_none.1 hFind _ hMem
        simp at hNone
    | some found =>
        have hFound := List.mem_of_find?_eq_some hFind
        have hId : found.1.id = o.id := by
          simpa using List.find?_some hFind
        rw [List.inj_on_of_nodup_map hNodup hFound hMem hId]

theorem locate?_eq_none_iff
    {id : UInt64} :
    b.locate? id = none ↔ b.contains id = false := by
  rw [contains, Option.isSome_eq_false_iff,
    Option.isNone_iff_eq_none]

------------------------------------------------------------
-- Operations
------------------------------------------------------------

theorem waiting_settle
    (b : Book)
    (side : Side)
    (m : Matching) :
    (b.settle side m).waiting = b.waiting := by
  have hSame :
      ∀ side', (b.settle side m).orders side' .stop =
        b.orders side' .stop := by
    intro side'
    rw [orders, ladder_settle,
      ladder_withLadder_of_ne b _ (by simp)]
    rfl
  unfold waiting
  rw [hSame, hSame]

theorem waiting_place_price
    (h : b.place .price o = .ok b') :
    b'.waiting = b.waiting := by
  unfold waiting
  rw [orders_place_of_ne (by simp) h,
    orders_place_of_ne (by simp) h]

theorem active_place_stop
    (h : b.place .stop o = .ok b') :
    b'.active = b.active := by
  unfold active
  rw [orders_place_of_ne (by simp) h,
    orders_place_of_ne (by simp) h]

/- A new order joins the waiting ones. -/
theorem waiting_place_stop_perm
    (hRanked : b.IsRanked)
    (hFresh : o.id ∉ b.allOrders.map Order.id)
    (h : b.place .stop o = .ok b') :
    b'.waiting.Perm (o :: b.waiting) := by
  have hAll := allOrders_place_perm hRanked hFresh h
  rw [allOrders_eq_append, allOrders_eq_append,
    active_place_stop h] at hAll
  exact
    (List.perm_append_left_iff b.active).1
      (hAll.trans List.perm_middle.symm)

/- A cancellation leaves only orders that waited before. -/
theorem waiting_cancel?_subset
    {id : UInt64}
    (h : b.cancel? id = some (o, b')) :
    b'.waiting ⊆ b.waiting := by
  rcases cancel?_eq_some h with ⟨_, _, l, hSub, rfl⟩
  exact
    ((orders_withLadder_sublist hSub .buy .stop).append
      (orders_withLadder_sublist hSub .sell .stop)).subset

/- A release moves waiting orders out of the book. -/
theorem waiting_release_perm (b : Book) :
    (b.release.2.waiting ++ b.release.1).Perm
      b.waiting := by
  have hAll := b.allOrders_release_perm
  have hActive : b.release.2.active = b.active := by
    unfold active
    rw [orders_release_price, orders_release_price]
  rw [allOrders_eq_append, allOrders_eq_append, hActive,
    List.append_assoc] at hAll
  exact (List.perm_append_left_iff b.active).1 hAll

/- Every order that is released is reached by the last
trade. -/
theorem IsRanked.isReachedBy_of_mem_release
    (h : b.IsRanked)
    {last : Decimal}
    (hLast : b.lastPrice = some last)
    (ho : o ∈ b.release.1) :
    o.IsReachedBy last := by
  unfold release at ho
  rw [hLast] at ho
  rcases List.mem_append.1 ho with hBuy | hSell
  · exact
      (h .buy .stop).isReachedBy_of_mem_triggered hBuy
  · exact
      (h .sell .stop).isReachedBy_of_mem_triggered hSell

/- No order that the last trade reaches is left waiting. -/
theorem IsRanked.not_isReachedBy_of_release
    (h : b.IsRanked)
    {last : Decimal}
    (hLast : b.lastPrice = some last)
    (ho : o ∈ b.release.2.waiting) :
    ¬ o.IsReachedBy last := by
  unfold release at ho
  rw [hLast] at ho
  rcases List.mem_append.1 ho with hBuy | hSell
  · exact
      (h .buy .stop).not_isReachedBy_of_mem_release hBuy
  · exact
      (h .sell .stop).not_isReachedBy_of_mem_release hSell

/- The last trade releases what it reaches, and nothing
else. -/
theorem IsRanked.mem_release_iff
    (h : b.IsRanked)
    {last : Decimal}
    (hLast : b.lastPrice = some last) :
    o ∈ b.release.1 ↔
      o ∈ b.waiting ∧ o.IsReachedBy last := by
  have hPerm := b.waiting_release_perm
  constructor
  · intro ho
    exact
      ⟨hPerm.mem_iff.1 (List.mem_append_right _ ho),
        h.isReachedBy_of_mem_release hLast ho⟩
  · rintro ⟨hWaiting, hReached⟩
    rcases List.mem_append.1 (hPerm.mem_iff.2 hWaiting) with
      hLeft | hGone
    · exact
        absurd hReached
          (h.not_isReachedBy_of_release hLast hLeft)
    · exact hGone

end Book

end Matchbook
