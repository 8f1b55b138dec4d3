import Matchbook.Proofs.Engine.Course
import Matchbook.Proofs.Engine.Plain
import Matchbook.Proofs.Store.Calls

/-
  Agreement of slots, index and ladders.

  After any calls, whether they come from an engine or go past
  it and whether they are refused or not, the index of a store
  has the ids of its entries and no other ones, and every
  entry stands for the stored order that its key comes from.

  Key definitions include:
    * `Store.Stands`
    * `Store.Agrees`
    * `Store.IsPlain`

  The main statements are:
    * `Store.Represents.agrees`
    * `Clerk.exists_agrees`
-/

------------------------------------------------------------
-- Agreement
------------------------------------------------------------

namespace Matchbook

namespace Store

variable {σ : Type} [Slots σ]

/- The entries of all four ladders. -/
def entries (s : Store σ) : List (Entry Nat) :=
  (s.ladder .buy .price).ascending ++
      (s.ladder .sell .price).ascending ++
    ((s.ladder .buy .stop).ascending ++
      (s.ladder .sell .stop).ascending)

/- Whether an entry of a ladder stands for an order: its slot
holds the order, a lookup of its id finds the order and the
kind of the ladder, and its key comes from the order. -/
structure Stands
    (s : Store σ)
    (side : Side)
    (policy : Policy)
    (e : Entry Nat)
    (o : Order) : Prop where
  stored : Slots.get? s.slots e.item = some o
  id_eq : o.id = e.key.id
  get?_eq : s.get? e.key.id = some o
  isPendingStop_iff :
    s.isPendingStop e.key.id = true ↔ policy = .stop
  rank_eq : policy.rank o.key = .ok e.key
  side_eq : o.side = side
  price_isSome : policy = .price → o.price.isSome
  stopPrice_isSome : policy = .stop → o.stopPrice.isSome

/- Whether the slots, the index and the ladders of a store
agree about the orders in it. -/
structure Agrees (s : Store σ) : Prop where
  orderCount_eq :
    s.orderCount = s.bidCount + s.askCount + s.stopCount
  contains_iff :
    ∀ id, s.contains id = true ↔
      (s.entries.map fun e => e.key.id).count id = 1
  nodup : (s.entries.map fun e => e.key.id).Nodup
  stands :
    ∀ side policy, ∀ e ∈ (s.ladder side policy).ascending,
      ∃ o, s.Stands side policy e o
  entered :
    ∀ k o, Slots.get? s.slots k = some o →
      ∃ policy,
        ∃ e ∈ (s.ladder o.side policy).ascending, e.item = k

/- Whether all active orders of a store are plain. -/
def IsPlain (s : Store σ) : Prop :=
  ∀ side, ∀ e ∈ (s.ladder side .price).ascending,
    ∀ o, Slots.get? s.slots e.item = some o → o.IsPlain

namespace Represents

variable {s : Store σ}
variable {b : Book}
variable {side : Side} {policy : Policy}
variable {e : Entry Nat}

/- A ladder of slots has the ids of the orders. -/
theorem map_id_ladder_perm
    (h : s.Represents b)
    (hRanked : b.IsRanked)
    (side : Side)
    (policy : Policy) :
    ((s.ladder side policy).ascending.map
        fun e => e.key.id).Perm
      ((b.shelf side policy).map fun x => x.1.id) := by
  have hKeys :
      (s.ladder side policy).ascending.map
          (fun e => e.key.id) =
        (b.ladder side policy).ascending.map
          fun e => e.key.id := by
    rw [← Ladder.ids_map (Slots.get? s.slots),
      h.ladder_eq, Ladder.ids_map]
  have hIds :
      (b.ladder side policy).ascending.map
          (fun e => e.key.id) =
        (b.ladder side policy).ascending.map
          fun e => e.item.id := by
    refine List.map_congr_left fun e he => ?_
    exact ((hRanked side policy).ranked_of_mem he).key_id
  rw [hKeys, hIds, Book.shelf, Book.orders,
    Ladder.byPriority, List.map_map, List.map_map]
  exact (List.reverse_perm _).symm.map _

theorem map_id_entries_perm
    (h : s.Represents b)
    (hRanked : b.IsRanked) :
    (s.entries.map fun e => e.key.id).Perm
      (b.shelved.map fun x => x.1.id) := by
  have hPart := h.map_id_ladder_perm hRanked
  rw [Book.shelved_eq_append]
  simp only [entries, List.map_append]
  exact
    ((hPart .buy .price).append (hPart .sell .price)).append
      ((hPart .buy .stop).append (hPart .sell .stop))

theorem orderCount_eq
    (h : s.Represents b) :
    s.orderCount = b.orderCount := by
  unfold orderCount
  rw [h.indexes.size_eq, Book.length_shelved]

/- Every entry stands for the order in its slot. -/
theorem exists_stands
    (h : s.Represents b)
    (hRanked : b.IsRanked)
    (he : e ∈ (s.ladder side policy).ascending) :
    ∃ e' ∈ (b.ladder side policy).ascending,
      s.Stands side policy e e'.item := by
  rcases
      Ladder.exists_of_map_eq (h.ladder_eq side policy) he with
    ⟨e', he', hKey, hk⟩
  have hRank := (hRanked side policy).ranked_of_mem he'
  have hId : e'.item.id = e.key.id := by
    rw [← hKey, hRank.key_id]
  have hIndex :=
    h.indexes.index_eq hk (Book.mem_shelved_of_mem_ladder he')
  rw [hId] at hIndex
  have hRankEq : policy.rank e'.item.key = .ok e.key := by
    rw [hRank.rank_eq, hKey]
  rcases Policy.rank_eq_ok_iff.1 hRankEq with
    ⟨price, hPrice, _⟩
  refine ⟨e', he', hk, hId, ?_, ?_, hRankEq, hRank.side_eq,
    ?_, ?_⟩
  · unfold Store.get?
    rw [hIndex]
    exact hk
  · unfold Store.isPendingStop
    rw [hIndex]
    exact decide_eq_true_iff
  · rintro rfl
    exact Option.isSome_iff_exists.2 ⟨price, hPrice⟩
  · rintro rfl
    exact Option.isSome_iff_exists.2 ⟨price, hPrice⟩

/- The slots, the index and the ladders of a representation
agree. -/
theorem agrees
    (h : s.Represents b)
    (hRanked : b.IsRanked) :
    s.Agrees where
  orderCount_eq := by
    have hLength :=
      (h.map_id_entries_perm hRanked).length_eq
    rw [List.length_map, List.length_map,
      ← h.indexes.size_eq] at hLength
    unfold orderCount
    rw [← hLength]
    simp only [entries, List.length_append]
    rfl
  contains_iff := by
    intro id
    rw [h.contains_eq hRanked,
      ← Bool.not_eq_false (b.contains id),
      Book.contains_eq_false_iff, not_not,
      ← Book.map_fst_shelved, List.map_map]
    have hPerm := h.map_id_entries_perm hRanked
    rw [hPerm.count_eq]
    constructor
    · exact List.count_eq_one_of_mem h.indexes.nodup
    · intro hOne
      exact
        List.count_pos_iff.1
          (Nat.lt_of_lt_of_eq Nat.one_pos hOne.symm)
  nodup :=
    (h.map_id_entries_perm hRanked).nodup_iff.2
      h.indexes.nodup
  stands := by
    intro side policy e he
    rcases h.exists_stands hRanked he with ⟨e', _, hStands⟩
    exact ⟨e'.item, hStands⟩
  entered := by
    intro k o hk
    rcases h.indexes.stored k o hk with ⟨policy, hMem, _⟩
    rcases hRanked.exists_entry hMem with ⟨e', he', rfl⟩
    rcases
        Ladder.exists_slot_of_map_eq
          (h.ladder_eq e'.item.side policy) he' with
      ⟨e, he, _, hk'⟩
    exact
      ⟨policy, e, he, h.indexes.slot_eq hk' hk rfl⟩

/- The stored orders are as plain as those of the book. -/
theorem isPlain
    (h : s.Represents b)
    (hPlain : b.IsPlain) :
    s.IsPlain := by
  intro side e he o hk
  rcases
      Ladder.exists_of_map_eq (h.ladder_eq side .price) he with
    ⟨e', he', _, hk'⟩
  rw [hk] at hk'
  rw [Option.some.inj hk']
  exact hPlain side e' he'

end Represents

end Store

------------------------------------------------------------
-- Runs
------------------------------------------------------------

/- An engine that nobody goes past keeps its book plain. -/
theorem Engine.isPlain_run?
    {e e' : Engine}
    {calls : List Call}
    (h : e.book.IsPlain)
    (hCalls : ∀ call ∈ calls, call.IsOfEngine)
    (hRun : e.run? calls = some e') :
    e'.book.IsPlain := by
  unfold run? at hRun
  induction calls generalizing e with
  | nil =>
      cases hRun
      exact h
  | cons call calls ih =>
      rw [List.foldlM_cons] at hRun
      rcases Option.bind_eq_some_iff.1 hRun with
        ⟨e₁, hCall, hRest⟩
      have hFirst := hCalls call (List.mem_cons_self ..)
      refine
        ih ?_
          (fun call hMem =>
            hCalls call (List.mem_cons_of_mem _ hMem))
          hRest
      cases call with
      | place => exact hFirst.elim
      | remove => exact hFirst.elim
      | submit o now =>
          rcases Option.map_eq_some_iff.1 hCall with
            ⟨⟨answer, e₂⟩, hSubmit, rfl⟩
          exact isPlain_submit? h hSubmit
      | cancel id =>
          cases hCall
          exact isPlain_cancel h id

/-
  Whatever calls an engine goes through, a clerk goes through
  them with it, and then its slots, its index and its ladders
  agree.  If no call has gone past the engine, the active
  orders are plain.
-/
theorem Clerk.exists_agrees
    {σ : Type}
    [Slots σ]
    [LawfulSlots σ]
    {symbol : String}
    {calls : List Call}
    {e : Engine}
    (h : (Engine.new symbol).run? calls = some e) :
    ∃ c : Clerk σ,
      (Clerk.new symbol).run? calls = some c ∧
        c.Represents e ∧ c.store.Agrees ∧
          ((∀ call ∈ calls, call.IsOfEngine) →
            c.store.IsPlain) := by
  have hRel :=
    (represents_new (σ := σ) symbol).rel_run? calls
  rw [h] at hRel
  rcases exists_of_rel hRel with ⟨c, hRun, hHolds⟩
  refine
    ⟨c, hRun, hHolds,
      hHolds.store.agrees hHolds.isOrderly.isRanked, ?_⟩
  intro hCalls
  exact
    hHolds.store.isPlain
      (Engine.isPlain_run? (Book.isPlain_new symbol) hCalls h)

/- A seller, a buyer that waits for 100 and one that trades at
100 and so releases it; then a buyer and a seller that stay,
an id that is taken and one that is gone. -/
def plainCalls : List Call :=
  [.submit
      (.ordinary 1 .sell (some (.ofParts 100 0))
        (.ofParts 2 0)) (.ofNanos 0),
    .submit
      (.ordinaryStop 2 .buy (.ofParts 100 0) (.ofParts 3 0))
      (.ofNanos 0),
    .submit
      (.ordinary 3 .buy (some (.ofParts 100 0))
        (.ofParts 1 0)) (.ofNanos 0),
    .submit
      (.ordinary 4 .buy (some (.ofParts 98 0))
        (.ofParts 1 0)) (.ofNanos 0),
    .submit
      (.ordinaryStop 5 .sell (.ofParts 97 0) (.ofParts 1 0))
      (.ofNanos 0),
    .submit
      (.ordinary 4 .buy (some (.ofParts 99 0))
        (.ofParts 1 0)) (.ofNanos 0),
    .cancel 1]

/- After them an order that must trade at once is put to rest,
one without a stop price is refused and one is taken out. -/
def mixedCalls : List Call :=
  plainCalls ++
    [.place .price
        { Order.ordinary 6 .buy (some (.ofParts 99 0))
            (.ofParts 1 0) with
          immediateOrCancel := true },
      .place .stop
        (.ordinary 7 .sell (some (.ofParts 99 0))
          (.ofParts 1 0)),
      .remove 5]

/- Both runs leave two orders in the slots. -/
theorem Clerk.exists_agrees_of_mixed :
    (∃ c : Clerk Shelf,
      (Clerk.new "BTC-USDT").run? plainCalls = some c ∧
        c.store.orderCount = 2 ∧ c.store.Agrees ∧
          c.store.IsPlain) ∧
      ∃ c : Clerk Shelf,
        (Clerk.new "BTC-USDT").run? mixedCalls = some c ∧
          c.store.orderCount = 2 ∧ c.store.Agrees := by
  have hPlain :
      ((Engine.new "BTC-USDT").run? plainCalls).map
          (·.book.orderCount) = some 2 := by
    decide +kernel
  have hMixed :
      ((Engine.new "BTC-USDT").run? mixedCalls).map
          (·.book.orderCount) = some 2 := by
    decide +kernel
  rcases Option.map_eq_some_iff.1 hPlain with
    ⟨e, hRun, hCount⟩
  rcases Option.map_eq_some_iff.1 hMixed with
    ⟨e', hRun', hCount'⟩
  constructor
  · rcases exists_agrees (σ := Shelf) hRun with
      ⟨c, hStored, hHolds, hAgrees, hClean⟩
    exact
      ⟨c, hStored,
        hHolds.store.orderCount_eq.trans hCount, hAgrees,
        hClean (by decide)⟩
  · rcases exists_agrees (σ := Shelf) hRun' with
      ⟨c, hStored, hHolds, hAgrees, _⟩
    exact
      ⟨c, hStored,
        hHolds.store.orderCount_eq.trans hCount', hAgrees⟩

end Matchbook
