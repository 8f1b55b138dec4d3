import Matchbook.Proofs.Book.Waiting

/-
  The shelves of a book: all its orders, each with the policy
  of its ladder, and how a change of one ladder changes them.

  Key definitions include:
    * `Book.shelf`
    * `Book.otherShelves`

  The main statements are:
    * `Book.shelved_split_perm`
    * `Book.shelved_place_perm`
    * `Book.length_shelved`
-/

------------------------------------------------------------
-- One shelf and the others
------------------------------------------------------------

namespace Matchbook

namespace Book

/- The orders of a ladder with its policy. -/
def shelf
    (b : Book)
    (side : Side)
    (policy : Policy) : List (Order × Policy) :=
  (b.orders side policy).map (·, policy)

/- The shelves of the other ladders. -/
def otherShelves
    (b : Book) :
    Side → Policy → List (Order × Policy)
  | .buy, .price =>
      b.shelf .sell .price ++ b.shelf .buy .stop ++
        b.shelf .sell .stop
  | .sell, .price =>
      b.shelf .buy .price ++ b.shelf .buy .stop ++
        b.shelf .sell .stop
  | .buy, .stop =>
      b.shelf .buy .price ++ b.shelf .sell .price ++
        b.shelf .sell .stop
  | .sell, .stop =>
      b.shelf .buy .price ++ b.shelf .sell .price ++
        b.shelf .buy .stop

theorem shelved_eq_append (b : Book) :
    b.shelved =
      b.shelf .buy .price ++ b.shelf .sell .price ++
        (b.shelf .buy .stop ++ b.shelf .sell .stop) := by
  simp only [shelved, active, waiting, shelf,
    List.map_append]

theorem shelved_perm
    (b : Book)
    (side : Side)
    (policy : Policy) :
    b.shelved.Perm
      (b.shelf side policy ++
        b.otherShelves side policy) := by
  rw [List.perm_iff_count]
  intro x
  rw [shelved_eq_append]
  cases side <;> cases policy <;>
    simp only [otherShelves, List.count_append] <;>
    omega

variable {b b' : Book}
variable {side : Side} {policy : Policy}
variable {o : Order}

theorem otherShelves_withLadder
    (b : Book)
    (l : Ladder side policy Order) :
    (b.withLadder l).otherShelves side policy =
      b.otherShelves side policy := by
  cases side <;> cases policy <;> rfl

theorem withLadder_withLadder
    (b : Book)
    (l l' : Ladder side policy Order) :
    (b.withLadder l).withLadder l' = b.withLadder l' := by
  cases side <;> cases policy <;> rfl

theorem withLadder_ladder
    (b : Book)
    (side : Side)
    (policy : Policy) :
    b.withLadder (b.ladder side policy) = b := by
  cases side <;> cases policy <;> rfl

theorem shelved_withLadder_perm
    (b : Book)
    (l : Ladder side policy Order) :
    (b.withLadder l).shelved.Perm
      (l.ascending.map (fun e => (e.item, policy)) ++
        b.otherShelves side policy) := by
  have hPerm := (b.withLadder l).shelved_perm side policy
  rw [otherShelves_withLadder, shelf, orders_withLadder,
    List.map_map] at hPerm
  exact
    hPerm.trans
      (((List.reverse_perm l.ascending).map _).append_right
        _)

/- An entry of a ladder is on a shelf, and the other orders
are on the shelves without it. -/
theorem shelved_split_perm
    {low high : List (Entry Order)}
    {e : Entry Order}
    (hSplit :
      (b.ladder side policy).ascending =
        low ++ e :: high) :
    b.shelved.Perm
      ((e.item, policy) ::
        (b.withLadder
          (⟨low ++ high⟩ :
            Ladder side policy Order)).shelved) := by
  have hWhole :=
    b.shelved_withLadder_perm (b.ladder side policy)
  have hRest :=
    b.shelved_withLadder_perm
      (⟨low ++ high⟩ : Ladder side policy Order)
  rw [withLadder_ladder, hSplit] at hWhole
  have hEntries :
      ((low ++ e :: high).map
          fun e => (e.item, policy)).Perm
        ((e.item, policy) ::
          (low ++ high).map fun e => (e.item, policy)) :=
    List.perm_middle.map _
  exact
    hWhole.trans
      ((hEntries.append_right _).trans
        (hRest.symm.cons _))

/- An order that is placed joins its shelf. -/
theorem shelved_place_perm
    (hRanked : b.IsRanked)
    (hFresh : o.id ∉ b.allOrders.map Order.id)
    (h : b.place policy o = .ok b') :
    b'.shelved.Perm ((o, policy) :: b.shelved) := by
  have hShelf :=
    (orders_place_perm hRanked hFresh h).map (·, policy)
  have hOthers :
      b'.otherShelves o.side policy =
        b.otherShelves o.side policy := by
    rcases place_eq_ok h with ⟨l, _, rfl⟩
    exact otherShelves_withLadder b l
  have hAfter := b'.shelved_perm o.side policy
  rw [hOthers] at hAfter
  exact
    hAfter.trans
      ((hShelf.append_right _).trans
        ((b.shelved_perm o.side policy).symm.cons _))

theorem length_shelved (b : Book) :
    b.shelved.length = b.orderCount := by
  rw [shelved_eq_append]
  simp only [shelf, orders, List.length_append,
    List.length_map, Ladder.length_byPriority, orderCount,
    stopCount]
  rfl

------------------------------------------------------------
-- Shelved orders
------------------------------------------------------------

theorem mem_shelf_iff :
    (o, policy) ∈ b.shelf side policy ↔
      ∃ e ∈ (b.ladder side policy).ascending,
        e.item = o := by
  unfold shelf orders Ladder.byPriority
  constructor
  · intro hMem
    rcases List.mem_map.1 hMem with ⟨o', ho', hEq⟩
    cases hEq
    rcases List.mem_map.1 ho' with ⟨e, he, rfl⟩
    exact ⟨e, List.mem_reverse.1 he, rfl⟩
  · rintro ⟨e, he, rfl⟩
    exact
      List.mem_map_of_mem
        (List.mem_map_of_mem (List.mem_reverse.2 he))

theorem mem_shelved_of_mem_ladder
    {e : Entry Order}
    (he : e ∈ (b.ladder side policy).ascending) :
    (e.item, policy) ∈ b.shelved :=
  (b.shelved_perm side policy).mem_iff.2
    (List.mem_append_left _ (mem_shelf_iff.2 ⟨e, he, rfl⟩))

/- In a ranked book a shelved order is on the ladder of its
side. -/
theorem IsRanked.exists_entry
    (h : b.IsRanked)
    (hMem : (o, policy) ∈ b.shelved) :
    ∃ e ∈ (b.ladder o.side policy).ascending,
      e.item = o := by
  have hSome :
      ∃ side, (o, policy) ∈ b.shelf side policy := by
    have hOrders :
        o ∈ b.orders .buy policy ∨
          o ∈ b.orders .sell policy := by
      rw [shelved_eq_append] at hMem
      cases policy <;> simpa [shelf] using hMem
    rcases hOrders with hBuy | hSell
    · exact ⟨.buy, List.mem_map_of_mem hBuy⟩
    · exact ⟨.sell, List.mem_map_of_mem hSell⟩
  rcases hSome with ⟨side, hShelf⟩
  rcases mem_shelf_iff.1 hShelf with ⟨e, he, rfl⟩
  have hSide :=
    ((h side policy).ranked_of_mem he).side_eq
  rw [hSide]
  exact ⟨e, he, rfl⟩

/- No ladder has an id twice. -/
theorem nodup_ladder
    (h : (b.shelved.map fun x => x.1.id).Nodup)
    (side : Side)
    (policy : Policy) :
    ((b.ladder side policy).ascending.map
      fun e => e.item.id).Nodup := by
  have hPerm :=
    b.shelved_withLadder_perm (b.ladder side policy)
  rw [withLadder_ladder] at hPerm
  have hAll := (hPerm.map fun x => x.1.id).nodup_iff.1 h
  rw [List.map_append, List.map_map] at hAll
  exact hAll.of_append_left

end Book

end Matchbook
