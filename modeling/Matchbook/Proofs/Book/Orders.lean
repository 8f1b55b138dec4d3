import Matchbook.Engine.Pass
import Matchbook.Proofs.Ladder
import Mathlib.Data.List.Perm.Subperm

/-
  The orders of a book, and what each operation on the book
  does to them.

  Key definitions include:
    * `Book.others`
    * `Book.IsRanked`
    * `Book.door`

  The main statements are:
    * `Book.contains_eq_false_iff`
    * `Book.allOrders_place_perm`
    * `Book.allOrders_release_perm`
    * `Book.allOrders_cancel?_subperm`
-/

------------------------------------------------------------
-- One ladder and the others
------------------------------------------------------------

namespace Matchbook

namespace Book

/- The orders that are not on the ladder of a side and a
policy. -/
def others
    (b : Book) :
    Side → Policy → List Order
  | .buy, .price =>
      b.orders .sell .price ++ b.orders .buy .stop ++
        b.orders .sell .stop
  | .sell, .price =>
      b.orders .buy .price ++ b.orders .buy .stop ++
        b.orders .sell .stop
  | .buy, .stop =>
      b.orders .buy .price ++ b.orders .sell .price ++
        b.orders .sell .stop
  | .sell, .stop =>
      b.orders .buy .price ++ b.orders .sell .price ++
        b.orders .buy .stop

theorem allOrders_perm
    (b : Book)
    (side : Side)
    (policy : Policy) :
    b.allOrders.Perm
      (b.orders side policy ++ b.others side policy) := by
  rw [List.perm_iff_count]
  intro o
  cases side <;> cases policy <;>
    simp only [allOrders, others, List.count_append] <;>
    omega

variable {side : Side} {policy : Policy}

theorem others_withLadder
    (b : Book)
    (l : Ladder side policy Order) :
    (b.withLadder l).others side policy =
      b.others side policy := by
  cases side <;> cases policy <;> rfl

theorem orders_withLadder
    (b : Book)
    (l : Ladder side policy Order) :
    (b.withLadder l).orders side policy =
      l.byPriority.map Entry.item := by
  rw [orders, ladder_withLadder_self]

theorem allOrders_withLadder_perm
    (b : Book)
    (l : Ladder side policy Order) :
    (b.withLadder l).allOrders.Perm
      (l.byPriority.map Entry.item ++
        b.others side policy) := by
  have h := (b.withLadder l).allOrders_perm side policy
  rw [orders_withLadder, others_withLadder] at h
  exact h

theorem mem_allOrders_of_mem_orders
    {b : Book}
    {o : Order}
    (ho : o ∈ b.orders side policy) :
    o ∈ b.allOrders :=
  (b.allOrders_perm side policy).mem_iff.2
    (List.mem_append_left _ ho)

------------------------------------------------------------
-- Ids
------------------------------------------------------------

private theorem isNone_find?_iff
    (os : List Order)
    (policy : Policy)
    (id : UInt64) :
    ((os.find? (·.id == id)).map (·, policy)) = none ↔
      id ∉ os.map Order.id := by
  rw [Option.map_eq_none_iff, List.find?_eq_none,
    List.mem_map]
  constructor
  · rintro h ⟨o, ho, rfl⟩
    exact h o ho (beq_self_eq_true _)
  · intro h o ho hId
    exact h ⟨o, ho, eq_of_beq hId⟩

theorem contains_eq_false_iff
    {b : Book}
    {id : UInt64} :
    b.contains id = false ↔
      id ∉ b.allOrders.map Order.id := by
  rw [contains, Option.isSome_eq_false_iff,
    Option.isNone_iff_eq_none, locate?]
  simp only [Option.orElse_eq_orElse,
    Option.orElse_eq_or, Option.or_eq_none_iff,
    isNone_find?_iff, allOrders, List.map_append,
    List.mem_append, not_or, and_assoc]

------------------------------------------------------------
-- Ranked books
------------------------------------------------------------

/- A book whose ladders are all ranked. -/
def IsRanked (b : Book) : Prop :=
  ∀ side policy, (b.ladder side policy).IsRanked

theorem isRanked_new (symbol : String) :
    (new symbol).IsRanked := by
  intro side policy
  cases side <;> cases policy <;>
    exact Ladder.isRanked_empty

theorem IsRanked.withLadder
    {b : Book}
    (h : b.IsRanked)
    {l : Ladder side policy Order}
    (hLadder : l.IsRanked) :
    (b.withLadder l).IsRanked := by
  intro side' policy'
  by_cases hSame : (side, policy) = (side', policy')
  · cases hSame
    rw [ladder_withLadder_self]
    exact hLadder
  · rw [ladder_withLadder_of_ne b l hSame]
    exact h side' policy'

------------------------------------------------------------
-- Insertion
------------------------------------------------------------

theorem place_eq_ok
    {b b' : Book}
    {o : Order}
    (h : b.place policy o = .ok b') :
    ∃ l, (b.ladder o.side policy).insert o.key o = .ok l ∧
      b' = b.withLadder l := by
  unfold place at h
  cases hInsert : (b.ladder o.side policy).insert o.key o with
  | error v =>
      rw [hInsert] at h
      cases h
  | ok l =>
      rw [hInsert] at h
      cases h
      exact ⟨l, rfl, rfl⟩

section Place

variable {b b' : Book} {o : Order}

private theorem fresh_of_not_mem
    (hFresh : o.id ∉ b.allOrders.map Order.id) :
    ∀ e ∈ (b.ladder o.side policy).ascending,
      e.item.id ≠ o.id := by
  intro e he hId
  have hMem : e.item ∈ b.orders o.side policy :=
    List.mem_map_of_mem (List.mem_reverse.2 he)
  apply hFresh
  rw [← hId]
  apply List.mem_map_of_mem
  exact mem_allOrders_of_mem_orders hMem

theorem isRanked_place
    (hRanked : b.IsRanked)
    (hFresh : o.id ∉ b.allOrders.map Order.id)
    (h : b.place policy o = .ok b') :
    b'.IsRanked := by
  rcases place_eq_ok h with ⟨l, hInsert, rfl⟩
  exact
    hRanked.withLadder
      (Ladder.isRanked_insert (hRanked o.side policy)
        (fresh_of_not_mem hFresh) hInsert)

/- A new order joins its ladder; the others stay. -/
theorem orders_place_perm
    (hRanked : b.IsRanked)
    (hFresh : o.id ∉ b.allOrders.map Order.id)
    (h : b.place policy o = .ok b') :
    (b'.orders o.side policy).Perm
      (o :: b.orders o.side policy) := by
  rcases place_eq_ok h with ⟨l, hInsert, rfl⟩
  rcases
      Ladder.byPriority_insert_perm
        (hRanked o.side policy)
        (fresh_of_not_mem hFresh) hInsert with
    ⟨key, hPerm⟩
  rw [orders_withLadder]
  exact hPerm.map Entry.item

theorem others_place
    (h : b.place policy o = .ok b') :
    b'.others o.side policy = b.others o.side policy := by
  rcases place_eq_ok h with ⟨l, _, rfl⟩
  exact others_withLadder b l

/- The other ladders stay as they are. -/
theorem orders_place_of_ne
    {side' : Side}
    {policy' : Policy}
    (hOther : (o.side, policy) ≠ (side', policy'))
    (h : b.place policy o = .ok b') :
    b'.orders side' policy' = b.orders side' policy' := by
  rcases place_eq_ok h with ⟨l, _, rfl⟩
  rw [orders, ladder_withLadder_of_ne b l hOther]
  rfl

/- Only an order with a price of its own is placed by
price. -/
theorem exists_price_of_place
    (h : b.place .price o = .ok b') :
    ∃ price, o.price = some price := by
  rcases place_eq_ok h with ⟨l, hInsert, _⟩
  rcases Ladder.insert_eq_ok hInsert with ⟨key, hKey, _⟩
  rcases Policy.rank_eq_ok_iff.1 hKey.rank_eq with
    ⟨price, hPrice, _⟩
  exact ⟨price, hPrice⟩

theorem allOrders_place_perm
    (hRanked : b.IsRanked)
    (hFresh : o.id ∉ b.allOrders.map Order.id)
    (h : b.place policy o = .ok b') :
    b'.allOrders.Perm (o :: b.allOrders) := by
  have hOrders := orders_place_perm hRanked hFresh h
  have hAfter := b'.allOrders_perm o.side policy
  rw [others_place h] at hAfter
  exact
    hAfter.trans
      ((hOrders.append_right _).trans
        ((b.allOrders_perm o.side policy).symm.cons o))

end Place

------------------------------------------------------------
-- Removal
------------------------------------------------------------

section Cancel

variable {b b' : Book} {o : Order} {id : UInt64}

theorem cancel?_eq_some
    (h : b.cancel? id = some (o, b')) :
    ∃ side policy,
      ∃ l : Ladder side policy Order,
        l.ascending.Sublist
            (b.ladder side policy).ascending ∧
          b' = b.withLadder l := by
  unfold cancel? at h
  rcases Option.bind_eq_some_iff.1 h with
    ⟨⟨found, policy⟩, _, hErase⟩
  rcases Option.bind_eq_some_iff.1 hErase with
    ⟨⟨item, l⟩, hLadder, hSome⟩
  cases hSome
  exact
    ⟨_, _, l, Ladder.sublist_of_erase? hLadder, rfl⟩

theorem isRanked_cancel?
    (hRanked : b.IsRanked)
    (h : b.cancel? id = some (o, b')) :
    b'.IsRanked := by
  rcases cancel?_eq_some h with
    ⟨side, policy, l, hSub, rfl⟩
  exact
    hRanked.withLadder
      ((hRanked side policy).of_sublist hSub)

theorem orders_withLadder_sublist
    {l : Ladder side policy Order}
    (hSub :
      l.ascending.Sublist
        (b.ladder side policy).ascending)
    (side' : Side)
    (policy' : Policy) :
    ((b.withLadder l).orders side' policy').Sublist
      (b.orders side' policy') := by
  by_cases hSame : (side, policy) = (side', policy')
  · cases hSame
    rw [orders_withLadder]
    exact hSub.reverse.map _
  · rw [orders, ladder_withLadder_of_ne b l hSame]
    exact List.Sublist.refl _

/- A cancellation leaves no order that was not there. -/
theorem allOrders_cancel?_subperm
    (h : b.cancel? id = some (o, b')) :
    b'.allOrders.Subperm b.allOrders := by
  rcases cancel?_eq_some h with
    ⟨side, policy, l, hSub, rfl⟩
  apply List.Sublist.subperm
  simp only [allOrders]
  exact
    (((orders_withLadder_sublist hSub _ _).append
      (orders_withLadder_sublist hSub _ _)).append
      (orders_withLadder_sublist hSub _ _)).append
      (orders_withLadder_sublist hSub _ _)

end Cancel

------------------------------------------------------------
-- Release
------------------------------------------------------------

theorem isRanked_release
    {b : Book}
    (hRanked : b.IsRanked) :
    b.release.2.IsRanked := by
  unfold release
  split
  · exact hRanked
  · rename_i last _
    have hBids :
        (b.stopBids.release last).IsRanked :=
      (hRanked .buy .stop).of_sublist
        (Ladder.sublist_release _ last)
    have hAsks :
        (b.stopAsks.release last).IsRanked :=
      (hRanked .sell .stop).of_sublist
        (Ladder.sublist_release _ last)
    exact
      (hRanked.withLadder hBids).withLadder
        (b := b.withLadder (b.stopBids.release last)) hAsks

/- A release moves waiting orders out of the book. -/
theorem allOrders_release_perm (b : Book) :
    (b.release.2.allOrders ++ b.release.1).Perm
      b.allOrders := by
  unfold release
  split
  · simp
  · rename_i last _
    have hBids :=
      b.stopBids.items_release_append_triggered last
    have hAsks :=
      b.stopAsks.items_release_append_triggered last
    rw [List.perm_iff_count]
    intro o
    simp only [allOrders, orders, ladder,
      List.count_append, ← hBids, ← hAsks]
    omega

theorem orders_release_price
    (b : Book)
    (side : Side) :
    b.release.2.orders side .price =
      b.orders side .price := by
  unfold release
  split
  · rfl
  · cases side <;> rfl

------------------------------------------------------------
-- Trades
------------------------------------------------------------

theorem ladder_settle
    (b : Book)
    (side side' : Side)
    (policy : Policy)
    (m : Matching) :
    (b.settle side m).ladder side' policy =
      (b.withLadder
          (Ladder.ofPriority m.makers :
            Ladder side .price Order)).ladder
        side' policy := by
  unfold settle
  dsimp only
  split
  · rfl
  · cases side' <;> cases policy <;> rfl

theorem orders_settle
    (b : Book)
    (side : Side)
    (m : Matching) :
    (b.settle side m).orders side .price =
      m.makers.map Entry.item := by
  rw [orders, ladder_settle, ladder_withLadder_self,
    Ladder.byPriority_ofPriority]

theorem allOrders_settle_perm
    (b : Book)
    (side : Side)
    (m : Matching) :
    (b.settle side m).allOrders.Perm
      (m.makers.map Entry.item ++
        b.others side .price) := by
  have h :=
    b.allOrders_withLadder_perm
      (Ladder.ofPriority m.makers :
        Ladder side .price Order)
  rw [Ladder.byPriority_ofPriority] at h
  have hSame :
      (b.settle side m).allOrders =
        (b.withLadder
          (Ladder.ofPriority m.makers :
            Ladder side .price Order)).allOrders := by
    simp only [allOrders, orders, ladder_settle]
  rw [hSame]
  exact h

theorem IsRanked.settle
    {b : Book}
    (h : b.IsRanked)
    {side : Side}
    {m : Matching}
    (hMakers : RankedEntries side .price m.makers) :
    (b.settle side m).IsRanked := by
  intro side' policy
  rw [ladder_settle]
  have hLadder :
      (Ladder.ofPriority m.makers :
        Ladder side .price Order).IsRanked := by
    rw [Ladder.IsRanked, Ladder.byPriority_ofPriority]
    exact hMakers
  exact h.withLadder hLadder side' policy

------------------------------------------------------------
-- Doors
------------------------------------------------------------

/- The symbol of a book, and whether it is halted.  No order
changes them. -/
def door (b : Book) : String × Bool :=
  (b.symbol, b.halted)

theorem door_withLadder
    (b : Book)
    (l : Ladder side policy Order) :
    (b.withLadder l).door = b.door := by
  cases side <;> cases policy <;> rfl

theorem door_settle
    (b : Book)
    (side : Side)
    (m : Matching) :
    (b.settle side m).door = b.door := by
  have hDoor :=
    b.door_withLadder
      (Ladder.ofPriority m.makers :
        Ladder side .price Order)
  unfold settle
  dsimp only
  split
  · exact hDoor
  · exact hDoor

theorem door_place
    {b b' : Book}
    {o : Order}
    (h : b.place policy o = .ok b') :
    b'.door = b.door := by
  rcases place_eq_ok h with ⟨l, _, rfl⟩
  exact door_withLadder b l

theorem door_cancel?
    {b b' : Book}
    {o : Order}
    {id : UInt64}
    (h : b.cancel? id = some (o, b')) :
    b'.door = b.door := by
  rcases cancel?_eq_some h with ⟨_, _, l, _, rfl⟩
  exact door_withLadder b l

theorem door_release (b : Book) :
    b.release.2.door = b.door := by
  unfold release
  split <;> rfl

end Book

end Matchbook
