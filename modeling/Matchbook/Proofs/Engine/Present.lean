import Matchbook.Proofs.Engine.Floor
import Matchbook.Proofs.Engine.Makers

/-
  The orders that are present on a floor, wherever they are.
  An order comes in once, is filled by deals with other orders
  and may leave; it never comes twice.

  Key definitions include:
    * `Floor.orders`
    * `Present`

  The main statements are:
    * `Floor.Reached.isRanked`
    * `Floor.Reached.present`
    * `Present.nodup`
-/

------------------------------------------------------------
-- Present orders
------------------------------------------------------------

namespace Matchbook

/- The orders that are present after the events of a log, in
any order. -/
inductive Present : List Event → List Order → Prop
  | nobody : Present [] []
  | enter
      {log : List Event}
      {os : List Order}
      {o : Order}
      (h : Present log os)
      (hNew : o.id ∉ os.map Order.id) :
      Present (log ++ [.entry o]) (o :: os)
  | deal
      {log : List Event}
      {os : List Order}
      {d : Deal}
      {maker taker : Order}
      (h : Present log (maker :: taker :: os))
      (hStruck : d.IsStruck maker taker) :
      Present (log ++ [.deal d]) (d.maker :: d.taker :: os)
  | activate
      {log : List Event}
      {os : List Order}
      {o : Order}
      (h : Present log (o :: os)) :
      Present log (o.activate :: os)
  | fewer
      {log : List Event}
      {os os' : List Order}
      (h : Present log os)
      (hSub : os'.Subperm os) :
      Present log os'

namespace Present

variable {log : List Event} {os : List Order}

/- No two present orders have the same id. -/
theorem nodup
    (h : Present log os) :
    (os.map Order.id).Nodup := by
  induction h with
  | nobody => exact List.nodup_nil
  | enter _ hNew ih => exact List.nodup_cons.2 ⟨hNew, ih⟩
  | deal _ hStruck ih =>
      simp only [List.map_cons] at ih ⊢
      rw [hStruck.maker_with_filled,
        hStruck.taker_with_filled]
      exact ih
  | activate _ ih => exact ih
  | fewer _ hSub ih =>
      rcases hSub with ⟨os'', hPerm, hSublist⟩
      exact
        (hPerm.map Order.id).nodup_iff.1
          (ih.sublist (hSublist.map Order.id))

end Present

------------------------------------------------------------
-- Orders of a floor
------------------------------------------------------------

namespace Floor

/- All orders of a floor, those of the book first. -/
def orders (f : Floor) : List Order :=
  f.book.allOrders ++ f.inFlight

variable {symbol : String} {log : List Event}

/- The orders of a floor with the maker and the taker of its
next trade in front. -/
theorem orders_perm_of_byPriority
    {b : Book}
    {side : Side}
    {taker : Order}
    {queue : List Order}
    {e : Entry Order}
    {rest : List (Entry Order)}
    (hMakers :
      (b.ladder side .price).byPriority = e :: rest) :
    (orders ⟨b, taker :: queue⟩).Perm
      (e.item :: taker ::
        (rest.map Entry.item ++ b.others side .price ++
          queue)) := by
  have hAll := b.allOrders_perm side .price
  rw [Book.orders, hMakers, List.map_cons] at hAll
  refine (hAll.append_right (taker :: queue)).trans ?_
  simp only [List.cons_append]
  refine List.Perm.cons _ ?_
  exact List.perm_middle

/- After a trade the maker is gone if it is filled. -/
theorem orders_settle_subperm
    {b : Book}
    {side : Side}
    {queue : List Order}
    {e : Entry Order}
    {rest : List (Entry Order)}
    (d : Deal) :
    (orders
      ⟨b.settle side
          ⟨[d], Matching.remaining e.key d.maker rest,
            d.taker, none⟩,
        d.taker :: queue⟩).Subperm
      (d.maker :: d.taker ::
        (rest.map Entry.item ++ b.others side .price ++
          queue)) := by
  have hAll :=
    b.allOrders_settle_perm side
      ⟨[d], Matching.remaining e.key d.maker rest,
        d.taker, none⟩
  refine
    (hAll.append_right (d.taker :: queue)).subperm.trans ?_
  have hMakers :
      ((Matching.remaining e.key d.maker rest).map
          Entry.item).Sublist
        (d.maker :: rest.map Entry.item) := by
    unfold Matching.remaining
    split
    · exact List.sublist_cons_self _ _
    · exact List.Sublist.refl _
  refine
    ((hMakers.append_right _).append_right _).subperm.trans
      ?_
  refine List.Perm.subperm ?_
  simp only [List.cons_append]
  refine List.Perm.cons _ ?_
  exact List.perm_middle

/- The orders before and after a deal: the maker and the
taker, and the others as they are. -/
theorem exists_orders_of_deal
    {b : Book}
    {side : Side}
    {e : Entry Order}
    {rest : List (Entry Order)}
    (hMakers :
      (b.ladder side .price).byPriority = e :: rest)
    (taker : Order)
    (queue : List Order)
    (d : Deal) :
    ∃ others,
      (orders ⟨b, taker :: queue⟩).Perm
          (e.item :: taker :: others) ∧
        (orders
          ⟨b.settle side
              ⟨[d], Matching.remaining e.key d.maker rest,
                d.taker, none⟩,
            d.taker :: queue⟩).Subperm
          (d.maker :: d.taker :: others) :=
  ⟨_, orders_perm_of_byPriority hMakers,
    orders_settle_subperm d⟩

/- Without an order in flight the floor has fewer orders. -/
theorem orders_retire_subperm
    (b : Book)
    (o : Order)
    (queue : List Order) :
    (orders ⟨b, queue⟩).Subperm (orders ⟨b, o :: queue⟩) :=
  ((List.sublist_cons_self _ _).append_left _).subperm

/- A release takes no order off the floor. -/
theorem orders_release_perm
    (b : Book)
    (queue : List Order) :
    (orders ⟨b.release.2, queue ++ b.release.1⟩).Perm
      (orders ⟨b, queue⟩) := by
  have hMoved :=
    b.allOrders_release_perm.append_right queue
  rw [List.append_assoc] at hMoved
  exact
    (List.perm_append_comm.append_left
      b.release.2.allOrders).trans hMoved

/- Without repeated ids an order in flight is not in the
book. -/
theorem fresh_of_nodup
    {b : Book}
    {o : Order}
    {queue : List Order}
    (hNodup :
      ((orders ⟨b, o :: queue⟩).map Order.id).Nodup) :
    o.id ∉ b.allOrders.map Order.id := by
  unfold orders at hNodup
  rw [List.map_append, List.map_cons] at hNodup
  intro hMem
  exact
    List.disjoint_of_nodup_append hNodup hMem
      (List.mem_cons_self ..)

theorem fresh_of_present
    {b : Book}
    {o : Order}
    {queue : List Order}
    (h : Present log (orders ⟨b, o :: queue⟩)) :
    o.id ∉ b.allOrders.map Order.id :=
  fresh_of_nodup h.nodup

/- To place an order takes it out of flight. -/
theorem orders_of_place_perm
    {b b' : Book}
    {policy : Policy}
    {o : Order}
    (hRanked : b.IsRanked)
    (hFresh : o.id ∉ b.allOrders.map Order.id)
    (hPlace : b.place policy o = .ok b')
    (queue : List Order) :
    (orders ⟨b', queue⟩).Perm (orders ⟨b, o :: queue⟩) := by
  have hPerm :=
    Book.allOrders_place_perm hRanked hFresh hPlace
  exact
    (hPerm.append_right queue).trans List.perm_middle.symm

private theorem isRanked_and_present_place
    {b b' : Book}
    {policy : Policy}
    {o : Order}
    {queue : List Order}
    (hRanked : b.IsRanked)
    (hPresent : Present log (orders ⟨b, o :: queue⟩))
    (hPlace : b.place policy o = .ok b') :
    b'.IsRanked ∧ Present log (orders ⟨b', queue⟩) := by
  have hFresh := fresh_of_present hPresent
  have hPerm :=
    orders_of_place_perm hRanked hFresh hPlace queue
  exact
    ⟨Book.isRanked_place hRanked hFresh hPlace,
      hPresent.fewer hPerm.subperm⟩

/-
  The ladders of a floor are ranked and its orders present.
  Both go together: an order is only placed at its rank if no
  present order has its id.
-/
private theorem Reached.isRanked_and_present
    {f : Floor}
    (h : Reached symbol log f) :
    f.book.IsRanked ∧ Present log f.orders := by
  induction h with
  | start =>
      exact ⟨Book.isRanked_new symbol, Present.nobody⟩
  | @enter log b o _ _ hNew ih =>
      rcases ih with ⟨hRanked, hPresent⟩
      refine ⟨hRanked, ?_⟩
      simp only [orders, List.append_nil] at hPresent
      refine
        (hPresent.enter
          (Book.contains_eq_false_iff.1 hNew)).fewer ?_
      exact List.perm_append_comm.subperm
  | activate _ ih =>
      rcases ih with ⟨hRanked, hPresent⟩
      refine ⟨hRanked, ?_⟩
      refine
        (hPresent.fewer
          List.perm_middle.symm.subperm).activate.fewer ?_
      exact List.perm_middle.subperm
  | trade _ _ hMakers hMeet ih =>
      rcases ih with ⟨hRanked, hPresent⟩
      have hStruck := (Deal.isStruck_of_meet? hMeet).1
      refine ⟨?_, ?_⟩
      · apply hRanked.settle
        apply hStruck.rankedEntries_remaining
        rw [← hMakers]
        exact hRanked _ .price
      · rcases exists_orders_of_deal hMakers _ _ _ with
          ⟨others, hBefore, hAfter⟩
        have hFront :=
          hPresent.fewer hBefore.symm.subperm
        exact (hFront.deal hStruck).fewer hAfter
  | retire _ _ ih =>
      rcases ih with ⟨hRanked, hPresent⟩
      exact
        ⟨hRanked,
          hPresent.fewer (orders_retire_subperm _ _ _)⟩
  | rest _ _ _ hPlace ih =>
      exact isRanked_and_present_place ih.1 ih.2 hPlace
  | park _ hPlace ih =>
      exact isRanked_and_present_place ih.1 ih.2 hPlace
  | @release log b queue _ ih =>
      rcases ih with ⟨hRanked, hPresent⟩
      exact
        ⟨Book.isRanked_release hRanked,
          hPresent.fewer
            (orders_release_perm b queue).subperm⟩
  | cancel _ hCancel ih =>
      rcases ih with ⟨hRanked, hPresent⟩
      refine
        ⟨Book.isRanked_cancel? hRanked hCancel,
          hPresent.fewer ?_⟩
      simp only [orders, List.append_nil]
      exact Book.allOrders_cancel?_subperm hCancel
  | @halt log b queue _ ih =>
      rcases ih with ⟨hRanked, hPresent⟩
      refine ⟨hRanked, hPresent.fewer ?_⟩
      exact
        ((List.nil_sublist queue).append_left
          b.allOrders).subperm

theorem Reached.isRanked
    {f : Floor}
    (h : Reached symbol log f) :
    f.book.IsRanked :=
  h.isRanked_and_present.1

theorem Reached.present
    {f : Floor}
    (h : Reached symbol log f) :
    Present log f.orders :=
  h.isRanked_and_present.2

end Floor

end Matchbook
