import Matchbook.Proofs.Engine.Orderly
import Matchbook.Proofs.Store.Index
import Matchbook.Proofs.Store.Ladder

/-
  Stores as representations of books.

  A store represents a book if its ladders rank the slots of
  the orders that the ladders of the book rank.  Insertion,
  removal and change of an order go the same way in the two of
  them, and an order that is taken out is found where its key
  says.

  Key definitions include:
    * `Store.Represents`
    * `Store.Spares`

  The main statements are:
    * `Store.Represents.contains_eq`
    * `Store.Represents.insert_cases`
    * `Store.Represents.removeSlot?`
    * `Store.Represents.update`
    * `Store.Represents.cancel?_cases`
-/

------------------------------------------------------------
-- Representations
------------------------------------------------------------

namespace Matchbook

namespace Store

section Ladders

variable {σ : Type}
variable {side : Side} {policy : Policy}

theorem ladder_withLadder_self
    (s : Store σ)
    (l : Ladder side policy Nat) :
    (s.withLadder l).ladder side policy = l := by
  cases side <;> cases policy <;> rfl

theorem ladder_withLadder_of_ne
    (s : Store σ)
    (l : Ladder side policy Nat)
    {side' : Side}
    {policy' : Policy}
    (h : (side, policy) ≠ (side', policy')) :
    (s.withLadder l).ladder side' policy' =
      s.ladder side' policy' := by
  cases side <;> cases policy <;>
    cases side' <;> cases policy' <;>
    first | rfl | exact absurd rfl h

end Ladders

variable {σ : Type} [Slots σ]

structure Represents (s : Store σ) (b : Book) : Prop where
  symbol_eq : s.symbol = b.symbol
  lastPrice_eq : s.lastPrice = b.lastPrice
  nextTradeId_eq : s.nextTradeId = b.nextTradeId
  halted_eq : s.halted = b.halted
  ladder_eq :
    ∀ side policy,
      (s.ladder side policy).map (Slots.get? s.slots) =
        (b.ladder side policy).map some
  indexes : Indexes s.slots s.index b.shelved

/- What a change of some slots of one ladder leaves as it
is. -/
structure Spares
    (s : Store σ)
    (side : Side)
    (policy : Policy)
    (slots : List Nat)
    (s' : Store σ) : Prop where
  slots_eq :
    ∀ j, j ∉ slots →
      Slots.get? s'.slots j = Slots.get? s.slots j
  ladder_eq :
    ∀ side' policy', (side, policy) ≠ (side', policy') →
      s'.ladder side' policy' = s.ladder side' policy'

namespace Represents

variable {s : Store σ}
variable {b b' : Book}
variable {o o' : Order}
variable {side : Side} {policy : Policy}
variable {k : Nat}
variable {id : UInt64}

/- Every shelved order is in some slot. -/
theorem exists_slot
    (h : s.Represents b)
    (hRanked : b.IsRanked)
    (hMem : (o, policy) ∈ b.shelved) :
    ∃ k, Slots.get? s.slots k = some o := by
  rcases hRanked.exists_entry hMem with ⟨e, he, rfl⟩
  rcases
      Ladder.exists_slot_of_map_eq
        (h.ladder_eq e.item.side policy) he with
    ⟨e', _, _, hk⟩
  exact ⟨e'.item, hk⟩

/- The index knows the ids of the book. -/
theorem contains_eq
    (h : s.Represents b)
    (hRanked : b.IsRanked)
    (id : UInt64) :
    s.contains id = b.contains id := by
  have hFound : s.contains id = true ↔ b.contains id = true := by
    rw [← Bool.not_eq_false (b.contains id),
      Book.contains_eq_false_iff, not_not]
    unfold contains
    rw [Std.HashMap.contains_eq_isSome_getElem?,
      Option.isSome_iff_exists, ← Book.map_fst_shelved]
    constructor
    · rintro ⟨place, hIndex⟩
      rcases h.indexes.indexed id place hIndex with
        ⟨o, _, rfl, hMem⟩
      exact
        List.mem_map_of_mem
          (List.mem_map_of_mem (f := Prod.fst) hMem)
    · intro hId
      rcases List.mem_map.1 hId with ⟨o, ho, rfl⟩
      rcases List.mem_map.1 ho with
        ⟨⟨o', policy⟩, hMem, rfl⟩
      rcases h.exists_slot hRanked hMem with ⟨k, hk⟩
      exact ⟨_, h.indexes.index_eq hk hMem⟩
  cases hBook : b.contains id <;>
    cases hStore : s.contains id <;>
    simp_all

------------------------------------------------------------
-- Ladders and slots
------------------------------------------------------------

/-
  A store with another ladder, other slots and another index
  represents a book with another ladder.  The slots of the
  other ladders must hold what they have held.
-/
theorem withLadder
    {l : Ladder side policy Nat}
    {l' : Ladder side policy Order}
    {slots : σ}
    {index : Std.HashMap UInt64 Place}
    (h : s.Represents b)
    (hOthers :
      ∀ side' policy',
        (side, policy) ≠ (side', policy') →
          (s.ladder side' policy').map (Slots.get? slots) =
            (b.ladder side' policy').map some)
    (hLadder : l.map (Slots.get? slots) = l'.map some)
    (hIndexes :
      Indexes slots index (b.withLadder l').shelved) :
    ({ s.withLadder l with
        slots := slots
        index := index } : Store σ).Represents
      (b.withLadder l') where
  symbol_eq := by
    have hSame := h.symbol_eq
    cases side <;> cases policy <;> exact hSame
  lastPrice_eq := by
    have hSame := h.lastPrice_eq
    cases side <;> cases policy <;> exact hSame
  nextTradeId_eq := by
    have hSame := h.nextTradeId_eq
    cases side <;> cases policy <;> exact hSame
  halted_eq := by
    have hSame := h.halted_eq
    cases side <;> cases policy <;> exact hSame
  ladder_eq := by
    intro side' policy'
    have hStore :
        ({ s.withLadder l with
            slots := slots
            index := index } : Store σ).ladder side'
              policy' =
          (s.withLadder l).ladder side' policy' := by
      cases side' <;> cases policy' <;> rfl
    rw [hStore]
    by_cases hSame : (side, policy) = (side', policy')
    · cases hSame
      rw [ladder_withLadder_self,
        Book.ladder_withLadder_self]
      exact hLadder
    · rw [ladder_withLadder_of_ne s l hSame,
        Book.ladder_withLadder_of_ne b l' hSame]
      exact hOthers side' policy' hSame
  indexes := hIndexes

------------------------------------------------------------
-- Insertion
------------------------------------------------------------

/- An order of the right symbol with a new id is refused only
for want of a rank. -/
theorem insert_eq
    {queue : List Order}
    (h : s.Represents b)
    (hOrderly : Floor.IsOrderly ⟨b, o :: queue⟩) :
    s.insert policy o =
      match policy.rank o.key with
      | .error cause => (.error (.violation cause), s)
      | .ok rank =>
          (.ok (),
            { s.withLadder
                ((s.ladder o.side policy).place rank
                  (Slots.vacant s.slots)) with
              slots := Slots.insert s.slots o
              index :=
                s.index.insert o.id
                  ⟨Slots.vacant s.slots, policy⟩ }) := by
  have hSymbol : o.symbol = s.symbol :=
    hOrderly.inFlight_symbol_eq.trans h.symbol_eq.symm
  have hNew : s.index.contains o.id = false := by
    have hFresh :=
      Book.contains_eq_false_iff.2 hOrderly.fresh
    rw [← h.contains_eq hOrderly.isRanked] at hFresh
    exact hFresh
  unfold Store.insert
  rw [if_neg (not_not_intro hSymbol),
    if_neg (by simp [hNew])]
  dsimp only
  have hSide : o.key.side = o.side := rfl
  rw [Ladder.insert_of_side hSide]
  cases policy.rank o.key <;> rfl

theorem place_eq_map
    (b : Book)
    (policy : Policy)
    (o : Order) :
    b.place policy o =
      (policy.rank o.key).map fun rank =>
        b.withLadder
          ((b.ladder o.side policy).place rank o) := by
  have hSide : o.key.side = o.side := rfl
  unfold Book.place
  rw [Ladder.insert_of_side hSide]
  cases policy.rank o.key <;> rfl

/- What is refused by a book is refused by the store, which
stays as it is. -/
theorem insert_of_place_eq_error
    {queue : List Order}
    {cause : Violation}
    (h : s.Represents b)
    (hOrderly : Floor.IsOrderly ⟨b, o :: queue⟩)
    (hPlace : b.place policy o = .error cause) :
    s.insert policy o = (.error (.violation cause), s) := by
  rw [place_eq_map] at hPlace
  rw [h.insert_eq hOrderly]
  cases hRank : policy.rank o.key with
  | ok rank =>
      rw [hRank] at hPlace
      cases hPlace
  | error cause' =>
      rw [hRank] at hPlace
      cases hPlace
      rfl

variable [LawfulSlots σ]

/- What is placed in a book is inserted into the store. -/
theorem insert
    {queue : List Order}
    (h : s.Represents b)
    (hOrderly : Floor.IsOrderly ⟨b, o :: queue⟩)
    (hPlace : b.place policy o = .ok b') :
    ∃ s', s.insert policy o = (.ok (), s') ∧
      s'.Represents b' := by
  have hShelved :=
    Book.shelved_place_perm hOrderly.isRanked hOrderly.fresh
      hPlace
  have hFresh : o.id ∉ b.shelved.map fun x => x.1.id := by
    have hNew := hOrderly.fresh
    rw [← Book.map_fst_shelved, List.map_map] at hNew
    exact hNew
  rw [place_eq_map] at hPlace
  rw [h.insert_eq hOrderly]
  cases hRank : policy.rank o.key with
  | error cause =>
      rw [hRank] at hPlace
      cases hPlace
  | ok rank =>
      rw [hRank] at hPlace
      cases hPlace
      refine ⟨_, rfl, ?_⟩
      have hHeld :
          ∀ side policy,
            (s.ladder side policy).map
                (Slots.get? (Slots.insert s.slots o)) =
              (b.ladder side policy).map some := by
        intro side policy
        refine
          Ladder.map_eq_of_off (k := Slots.vacant s.slots)
            (h.ladder_eq side policy) ?_ ?_
        · intro e _
          rw [LawfulSlots.get?_vacant]
          exact (Option.some_ne_none _).symm
        · intro j hj
          rw [LawfulSlots.get?_insert, if_neg hj]
      refine
        h.withLadder (fun side' policy' _ => hHeld side' policy')
          ?_ ?_
      · rw [Ladder.map_place, Ladder.map_place, hHeld,
          LawfulSlots.get?_insert, if_pos rfl]
      · exact
          (h.indexes.insert hFresh).perm hShelved.symm

------------------------------------------------------------
-- Changes of one slot
------------------------------------------------------------

section Change

omit [LawfulSlots σ]

variable {low high : List (Entry Order)}
variable {e : Entry Order}

/- The order of an entry is not in another entry of its
ladder. -/
theorem off_of_split
    (h : s.Represents b)
    (hk : Slots.get? s.slots k = some e.item)
    (hSplit :
      (b.ladder side policy).ascending =
        low ++ e :: high) :
    ∀ e' ∈ low ++ high,
      Slots.get? s.slots k ≠ some e'.item := by
  intro e' he' hHeld
  rw [hk] at hHeld
  have hNodup := Book.nodup_ladder h.indexes.nodup side policy
  have hPerm : (low ++ e :: high).Perm (e :: (low ++ high)) :=
    List.perm_middle
  rw [hSplit, (hPerm.map fun e => e.item.id).nodup_iff,
    List.map_cons, List.nodup_cons] at hNodup
  apply hNodup.1
  rw [Option.some.inj hHeld]
  exact List.mem_map_of_mem (f := fun e => e.item.id) he'

/- The order of an entry is not on another ladder. -/
theorem off_of_ne
    (h : s.Represents b)
    (hRanked : b.IsRanked)
    (hk : Slots.get? s.slots k = some e.item)
    (he : e ∈ (b.ladder side policy).ascending)
    {side' : Side}
    {policy' : Policy}
    (hNe : (side, policy) ≠ (side', policy')) :
    ∀ e' ∈ (b.ladder side' policy').ascending,
      Slots.get? s.slots k ≠ some e'.item := by
  intro e' he' hHeld
  rw [hk] at hHeld
  have hItem := Option.some.inj hHeld
  have hSide := ((hRanked side policy).ranked_of_mem he).side_eq
  have hSide' :=
    ((hRanked side' policy').ranked_of_mem he').side_eq
  have hPolicy : policy = policy' :=
    congrArg Prod.snd
      (h.indexes.shelved_eq
        (Book.mem_shelved_of_mem_ladder he)
        (Book.mem_shelved_of_mem_ladder he')
        (congrArg Order.id hItem))
  apply hNe
  rw [← hSide, ← hSide', hItem, hPolicy]

end Change

/-
  An order that is in a slot can be taken out: the key of the
  stored order finds its entry, and the entry has the slot.
-/
theorem removeSlot?
    {low high : List (Entry Order)}
    {e : Entry Order}
    (h : s.Represents b)
    (hRanked : b.IsRanked)
    (hk : Slots.get? s.slots k = some e.item)
    (hSplit :
      (b.ladder side policy).ascending =
        low ++ e :: high) :
    ∃ s', s.removeSlot? ⟨k, policy⟩ = some (e.item, s') ∧
      s'.Represents
        (b.withLadder
          (⟨low ++ high⟩ : Ladder side policy Order)) ∧
      s.Spares side policy [k] s' := by
  have he : e ∈ (b.ladder side policy).ascending := by
    rw [hSplit]
    simp
  have hSide := ((hRanked side policy).ranked_of_mem he).side_eq
  subst hSide
  have hErase :=
    (hRanked e.item.side policy).erase?_eq
      (Book.nodup_ladder h.indexes.nodup e.item.side policy)
      hSplit
  have hBoth :=
    Ladder.map_erase? (Slots.get? s.slots)
      (s.ladder e.item.side policy) e.item.key
  rw [h.ladder_eq, ← Ladder.map_erase?, hErase,
    Option.map_some] at hBoth
  rcases Option.map_eq_some_iff.1 hBoth with
    ⟨⟨k', l⟩, hFound, hEq⟩
  rcases Prod.mk.inj hEq with ⟨hk', hLadder⟩
  have hSlot : k' = k := h.indexes.slot_eq hk' hk rfl
  subst hSlot
  have hPerm := Book.shelved_split_perm hSplit
  have hSlots :
      ∀ j, j ≠ k' →
        Slots.get? (Slots.erase s.slots k') j =
          Slots.get? s.slots j := by
    intro j hj
    rw [LawfulSlots.get?_erase, if_neg hj]
  refine
    ⟨{ s.withLadder l with
        slots := Slots.erase s.slots k'
        index := s.index.erase e.item.id }, ?_, ?_, ?_⟩
  · unfold Store.removeSlot?
    simp [hk, hFound, Option.filter_some]
  · refine
      h.withLadder ?_ ?_ ((h.indexes.perm hPerm).erase hk)
    · intro side' policy' hNe
      exact
        Ladder.map_eq_of_off (k := k')
          (h.ladder_eq side' policy')
          (h.off_of_ne hRanked hk he hNe) hSlots
    · exact
        Ladder.map_eq_of_off (k := k') hLadder
          (h.off_of_split hk hSplit) hSlots
  · constructor
    · intro j hj
      exact hSlots j (by simpa using hj)
    · intro side' policy' hNe
      rw [← ladder_withLadder_of_ne s l hNe]
      cases side' <;> cases policy' <;> rfl

/-
  An order that is in a slot may change, as long as it keeps
  its id: its entry has the slot, and no other one has it.
-/
theorem update
    {low high : List (Entry Order)}
    {e : Entry Order}
    (h : s.Represents b)
    (hRanked : b.IsRanked)
    (hk : Slots.get? s.slots k = some e.item)
    (hSplit :
      (b.ladder side policy).ascending =
        low ++ e :: high)
    (hId : o.id = e.item.id) :
    (s.update k o).Represents
      (b.withLadder
        (⟨low ++ ⟨e.key, o⟩ :: high⟩ :
          Ladder side policy Order)) := by
  have he : e ∈ (b.ladder side policy).ascending := by
    rw [hSplit]
    simp
  have hSlots :
      ∀ j, j ≠ k →
        Slots.get? (Slots.update s.slots k o) j =
          Slots.get? s.slots j := by
    intro j hj
    rw [LawfulSlots.get?_update hk, if_neg hj]
  have hSelf :
      Slots.get? (Slots.update s.slots k o) k = some o := by
    rw [LawfulSlots.get?_update hk, if_pos rfl]
  have hIndexes :
      Indexes (Slots.update s.slots k o) s.index
        (b.withLadder
          (⟨low ++ ⟨e.key, o⟩ :: high⟩ :
            Ladder side policy Order)).shelved := by
    have hPerm := Book.shelved_split_perm hSplit
    have hSplit' :=
      congrArg Ladder.ascending
        (Book.ladder_withLadder_self b
          (⟨low ++ ⟨e.key, o⟩ :: high⟩ :
            Ladder side policy Order))
    have hPerm' := Book.shelved_split_perm hSplit'
    rw [Book.withLadder_withLadder] at hPerm'
    exact
      ((h.indexes.perm hPerm).update hk hId).perm hPerm'.symm
  have hLadder :
      (s.ladder side policy).map
          (Slots.get? (Slots.update s.slots k o)) =
        (⟨low ++ ⟨e.key, o⟩ :: high⟩ :
          Ladder side policy Order).map some := by
    have hOld := h.ladder_eq side policy
    have hWhole :
        b.ladder side policy = ⟨low ++ e :: high⟩ :=
      congrArg Ladder.mk hSplit
    rw [hWhole] at hOld
    refine
      Ladder.map_eq_of_change hOld ?_
        (h.off_of_split hk hSplit) hSlots hSelf
    exact fun j hj => h.indexes.slot_eq hj hk rfl
  have hSame :
      s.update k o =
        { s.withLadder (s.ladder side policy) with
          slots := Slots.update s.slots k o
          index := s.index } := by
    cases side <;> cases policy <;> rfl
  rw [hSame]
  refine h.withLadder ?_ hLadder hIndexes
  intro side' policy' hNe
  exact
    Ladder.map_eq_of_off (k := k) (h.ladder_eq side' policy')
      (h.off_of_ne hRanked hk he hNe) hSlots

/- Whatever a cancellation finds in the book, it finds in the
store. -/
theorem cancel?_cases
    (h : s.Represents b)
    (hRanked : b.IsRanked)
    (id : UInt64) :
    (b.cancel? id = none ∧ s.cancel? id = some (none, s)) ∨
      ∃ o b' s', b.cancel? id = some (o, b') ∧
        s.cancel? id = some (some o, s') ∧
          s'.Represents b' := by
  have hNodup : (b.allOrders.map Order.id).Nodup := by
    rw [← Book.map_fst_shelved, List.map_map]
    exact h.indexes.nodup
  cases hIndex : s.index[id]? with
  | none =>
      left
      have hNone : s.contains id = false := by
        unfold contains
        rw [Std.HashMap.contains_eq_isSome_getElem?, hIndex]
        rfl
      rw [h.contains_eq hRanked] at hNone
      unfold Book.cancel? Store.cancel?
      rw [Book.locate?_eq_none_iff.2 hNone, hIndex]
      exact ⟨rfl, rfl⟩
  | some place =>
      right
      rcases h.indexes.indexed id place hIndex with
        ⟨o, hk, hId, hMem⟩
      rcases hRanked.exists_entry hMem with ⟨e, he, rfl⟩
      rcases List.append_of_mem he with ⟨low, high, hSplit⟩
      have hErase :=
        (hRanked e.item.side place.policy).erase?_eq
          (Book.nodup_ladder h.indexes.nodup e.item.side
            place.policy) hSplit
      have hLocate :=
        (Book.locate?_eq_some_iff hNodup).2 ⟨hMem, hId⟩
      rcases h.removeSlot? hRanked hk hSplit with
        ⟨s', hRemove, hAfter, _⟩
      refine ⟨e.item, _, s', ?_, ?_, hAfter⟩
      · unfold Book.cancel?
        rw [hLocate]
        change
          ((b.ladder e.item.side place.policy).erase?
            e.item.key).bind _ = _
        rw [hErase]
        rfl
      · unfold Store.cancel?
        rw [hIndex]
        dsimp only
        rw [hRemove]
        rfl

/- A book and its store refuse the same orders, for the same
reasons, and a refusal changes neither of them. -/
theorem insert_cases
    (h : s.Represents b)
    (hOrderly : Floor.IsOrderly ⟨b, []⟩)
    (policy : Policy)
    (o : Order) :
    (∃ refusal, b.insert policy o = .error refusal ∧
        s.insert policy o = (.error refusal, s)) ∨
      ∃ b' s', b.insert policy o = .ok b' ∧
        s.insert policy o = (.ok (), s') ∧ s'.Represents b' ∧
          Floor.IsOrderly ⟨b', []⟩ := by
  have hContains :
      s.index.contains o.id = b.contains o.id :=
    h.contains_eq hOrderly.isRanked o.id
  by_cases hSymbol : o.symbol = b.symbol
  · cases hHeld : b.contains o.id with
    | true =>
        left
        refine
          ⟨.duplicateOrder b.symbol o.id, ?_, ?_⟩
        · unfold Book.insert
          rw [if_neg (not_not_intro hSymbol), if_pos hHeld]
        · unfold Store.insert
          rw [h.symbol_eq, if_neg (not_not_intro hSymbol),
            hContains, if_pos hHeld]
    | false =>
        have hEnter := hOrderly.enter hSymbol hHeld
        have hInsert :
            b.insert policy o =
              (b.place policy o).mapError .violation := by
          unfold Book.insert
          rw [if_neg (not_not_intro hSymbol),
            if_neg (by simp [hHeld])]
        rw [hInsert]
        cases hPlace : b.place policy o with
        | error cause =>
            left
            exact
              ⟨.violation cause, rfl,
                h.insert_of_place_eq_error hEnter hPlace⟩
        | ok b' =>
            right
            rcases h.insert hEnter hPlace with
              ⟨s', hStored, hAfter⟩
            exact
              ⟨b', s', rfl, hStored, hAfter,
                hEnter.place hPlace⟩
  · left
    refine ⟨.violation (b.misrouted o), ?_, ?_⟩
    · unfold Book.insert
      rw [if_pos hSymbol]
    · unfold Store.insert
      rw [h.symbol_eq, if_pos hSymbol]
      rfl

end Represents

end Store

end Matchbook
