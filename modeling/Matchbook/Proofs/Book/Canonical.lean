import Matchbook.Proofs.Book.Orders

/-
  Ranked books have no memory of how their orders came: each
  ladder is told by its orders alone, in whatever order they
  are listed.  So two orders that are placed one after the
  other may as well be placed the other way around.

  Key definitions include:
    * `Order.entry?`
    * `Book.margin`
    * `Order.landing`

  The main statements are:
    * `RankedEntries.eq_of_perm`
    * `Book.IsRanked.eq_of_perm`
    * `Book.place_comm`
-/

------------------------------------------------------------
-- Ranked entries
------------------------------------------------------------

namespace Matchbook

/- The entry of an order under its rank, if it has one. -/
def Order.entry?
    (policy : Policy)
    (o : Order) : Option (Entry Order) :=
  (policy.rank o.key).toOption.map (⟨·, o⟩)

section Entries

variable {side : Side} {policy : Policy}
variable {es fs : List (Entry Order)}

theorem Entry.IsRanked.entry?_eq
    {e : Entry Order}
    (h : e.IsRanked side policy) :
    e.item.entry? policy = some e := by
  unfold Order.entry?
  rw [h.rank_eq]
  rfl

/- The orders of ranked entries tell the entries. -/
theorem RankedEntries.filterMap_entry?
    (h : RankedEntries side policy es) :
    (es.map Entry.item).filterMap (Order.entry? policy) =
      es := by
  rw [List.filterMap_map]
  have hEntries :
      es.filterMap (Order.entry? policy ∘ Entry.item) =
        es.filterMap some :=
    List.filterMap_congr fun e he =>
      (h.ranked e he).entry?_eq
  rw [hEntries, List.filterMap_some]

/- Ranked entries are told by their orders. -/
theorem RankedEntries.eq_of_perm
    (h : RankedEntries side policy es)
    (h' : RankedEntries side policy fs)
    (hPerm :
      (es.map Entry.item).Perm (fs.map Entry.item)) :
    es = fs := by
  have hEntries := hPerm.filterMap (Order.entry? policy)
  rw [h.filterMap_entry?, h'.filterMap_entry?] at hEntries
  refine
    hEntries.eq_of_pairwise ?_ h.sorted h'.sorted
  intro a b ha hb hOver hUnder
  have hSide : a.key.side = b.key.side :=
    (h.ranked a ha).key_side.trans
      (h'.ranked b hb).key_side.symm
  exact absurd hUnder (hOver.asymm hSide)

theorem Ladder.IsRanked.eq_of_perm
    {l l' : Ladder side policy Order}
    (h : l.IsRanked)
    (h' : l'.IsRanked)
    (hPerm :
      (l.byPriority.map Entry.item).Perm
        (l'.byPriority.map Entry.item)) :
    l = l' := by
  rw [← l.ofPriority_byPriority, ← l'.ofPriority_byPriority,
    RankedEntries.eq_of_perm h h' hPerm]

end Entries

------------------------------------------------------------
-- Ranked books
------------------------------------------------------------

/- What an order that is placed adds to a ladder. -/
def Order.landing
    (o : Order)
    (policy : Policy)
    (side : Side)
    (policy' : Policy) : List Order :=
  if (o.side, policy) = (side, policy') then [o] else []

namespace Book

/- What a book holds beside its ladders. -/
def margin
    (b : Book) : String × Option Decimal × UInt64 × Bool :=
  (b.symbol, b.lastPrice, b.nextTradeId, b.halted)

variable {b b' b'' : Book}
variable {o u : Order}
variable {policy policy' : Policy}

theorem margin_withLadder
    {side : Side}
    (b : Book)
    (l : Ladder side policy Order) :
    (b.withLadder l).margin = b.margin := by
  cases side <;> cases policy <;> rfl

theorem margin_place
    (h : b.place policy o = .ok b') :
    b'.margin = b.margin := by
  rcases place_eq_ok h with ⟨l, _, rfl⟩
  exact margin_withLadder b l

/- A book is its ladders and what it holds beside them. -/
theorem eq_of_ladders
    (hMargin : b.margin = b'.margin)
    (hLadders :
      ∀ side policy,
        b.ladder side policy = b'.ladder side policy) :
    b = b' := by
  have hBids := hLadders .buy .price
  have hAsks := hLadders .sell .price
  have hStopBids := hLadders .buy .stop
  have hStopAsks := hLadders .sell .stop
  cases b
  cases b'
  simp_all [margin, ladder]

/- Ranked books are told by their orders. -/
theorem IsRanked.eq_of_perm
    (h : b.IsRanked)
    (h' : b'.IsRanked)
    (hMargin : b.margin = b'.margin)
    (hPerm :
      ∀ side policy,
        (b.orders side policy).Perm
          (b'.orders side policy)) :
    b = b' :=
  eq_of_ladders hMargin fun side policy =>
    (h side policy).eq_of_perm (h' side policy)
      (hPerm side policy)

------------------------------------------------------------
-- Placing
------------------------------------------------------------

/- An order is placed if it has a rank, whatever else is in
the book. -/
theorem place_eq_map
    (b : Book)
    (policy : Policy)
    (o : Order) :
    b.place policy o =
      (policy.rank o.key).map fun key =>
        b.withLadder
          ((b.ladder o.side policy).place key o) := by
  have hSide : o.key.side = o.side := rfl
  unfold place Ladder.insert
  rw [hSide, if_neg (not_not_intro rfl)]
  cases policy.rank o.key <;> rfl

theorem exists_place_of_place
    (b'' : Book)
    (h : b.place policy o = .ok b') :
    ∃ b₁, b''.place policy o = .ok b₁ := by
  rw [place_eq_map] at h ⊢
  cases hRank : policy.rank o.key with
  | error v =>
      rw [hRank] at h
      cases h
  | ok key => exact ⟨_, rfl⟩

theorem orders_place_perm_append
    (hRanked : b.IsRanked)
    (hFresh : o.id ∉ b.allOrders.map Order.id)
    (h : b.place policy o = .ok b')
    (side : Side)
    (policy' : Policy) :
    (b'.orders side policy').Perm
      (o.landing policy side policy' ++
        b.orders side policy') := by
  unfold Order.landing
  split
  · rename_i hSame
    cases hSame
    exact orders_place_perm hRanked hFresh h
  · rename_i hOther
    rw [orders_place_of_ne hOther h]
    exact List.Perm.refl _

/- The ids that are new after an order is placed are those
that were new before, but its own. -/
theorem fresh_place_iff
    {id : UInt64}
    (hRanked : b.IsRanked)
    (hFresh : o.id ∉ b.allOrders.map Order.id)
    (h : b.place policy o = .ok b') :
    id ∉ b'.allOrders.map Order.id ↔
      id ≠ o.id ∧ id ∉ b.allOrders.map Order.id := by
  have hIds :=
    (allOrders_place_perm hRanked hFresh h).map Order.id
  rw [hIds.mem_iff, List.map_cons, List.mem_cons, not_or]

/- Two new orders may be placed in either order. -/
theorem place_comm
    (hRanked : b.IsRanked)
    (hFirst : o.id ∉ b.allOrders.map Order.id)
    (hSecond : u.id ∉ b'.allOrders.map Order.id)
    (h : b.place policy o = .ok b')
    (h' : b'.place policy' u = .ok b'') :
    ∃ b₁, b.place policy' u = .ok b₁ ∧
      b₁.place policy o = .ok b'' := by
  rcases (fresh_place_iff hRanked hFirst h).1 hSecond with
    ⟨hApart, hSecond'⟩
  rcases exists_place_of_place b h' with ⟨b₁, h₁⟩
  rcases exists_place_of_place b₁ h with ⟨b₂, h₂⟩
  have hRanked' := isRanked_place hRanked hFirst h
  have hRanked₁ := isRanked_place hRanked hSecond' h₁
  have hFirst₁ : o.id ∉ b₁.allOrders.map Order.id :=
    (fresh_place_iff hRanked hSecond' h₁).2
      ⟨hApart.symm, hFirst⟩
  refine ⟨b₁, h₁, ?_⟩
  rw [h₂]
  congr 1
  refine
    (isRanked_place hRanked₁ hFirst₁ h₂).eq_of_perm
      (isRanked_place hRanked' hSecond h') ?_ ?_
  · rw [margin_place h₂, margin_place h₁, margin_place h',
      margin_place h]
  · intro side policy''
    have hLeft :=
      (orders_place_perm_append hRanked₁ hFirst₁ h₂ side
          policy'').trans
        ((orders_place_perm_append hRanked hSecond' h₁ side
          policy'').append_left _)
    have hRight :=
      (orders_place_perm_append hRanked' hSecond h' side
          policy'').trans
        ((orders_place_perm_append hRanked hFirst h side
          policy'').append_left _)
    have hSwap :=
      List.perm_append_comm_assoc
        (o.landing policy side policy'')
        (u.landing policy' side policy'')
        (b.orders side policy'')
    exact hLeft.trans (hSwap.trans hRight.symm)

end Book

end Matchbook
