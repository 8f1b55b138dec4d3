import Matchbook.Proofs.Ladder.Stops
import Matchbook.Proofs.Policy

/-
  Ladders as sorted maps.

  After any insertions and removals, refused ones included, a
  ladder lists exactly the pairs of a key and an item that
  were inserted and not since removed, strictly by rank.  All
  it takes is that an id stands for one key throughout.

  Key definitions include:
    * `Edit`
    * `Ladder.edits`
    * `Ladder.Takes`
    * `Ladder.pairsAfter`
    * `Ladder.Lists`
    * `Ladder.IsSortedMapOf`

  The main statements are:
    * `Ladder.Lists.edit`
    * `Ladder.Lists.edits`
    * `Ladder.isSortedMapOf_edits`
-/

------------------------------------------------------------
-- Edits
------------------------------------------------------------

namespace Matchbook

/- An insertion or a removal. -/
inductive Edit (α : Type) where
  | insert (key : OrderKey) (item : α)
  | erase (key : OrderKey)
deriving DecidableEq

namespace Edit

variable {α : Type}

/- The key that an edit is about. -/
def key : Edit α → OrderKey
  | insert key _ => key
  | erase key => key

/- An id stands for one key throughout. -/
def OneKeyEach (xs : List (Edit α)) : Prop :=
  ∀ x ∈ xs, ∀ y ∈ xs, x.key.id = y.key.id → x.key = y.key

instance (xs : List (Edit α)) : Decidable (OneKeyEach xs) :=
  inferInstanceAs (Decidable (∀ x ∈ xs, _))

end Edit

namespace Ladder

variable {side : Side} {policy : Policy} {α : Type}

/- The ladder after an edit.  It stays as it is if it refuses
the key or does not hold it. -/
def edit
    (l : Ladder side policy α) :
    Edit α → Ladder side policy α
  | .insert key item => (l.insert key item).toOption.getD l
  | .erase key => ((l.erase? key).map Prod.snd).getD l

/- The ladder after edits. -/
def edits
    (l : Ladder side policy α)
    (xs : List (Edit α)) : Ladder side policy α :=
  xs.foldl edit l

------------------------------------------------------------
-- What has been inserted and not removed
------------------------------------------------------------

/- Whether a ladder takes a key: one of its side with the
price that it ranks by. -/
def Takes
    (side : Side)
    (policy : Policy)
    (key : OrderKey) : Prop :=
  key.side = side ∧ (policy.sortPrice key).isSome

instance
    (side : Side)
    (policy : Policy)
    (key : OrderKey) :
    Decidable (Takes side policy key) :=
  inferInstanceAs (Decidable (_ ∧ _))

/- The pairs of other keys. -/
def others
    (key : OrderKey)
    (pairs : List (OrderKey × α)) : List (OrderKey × α) :=
  pairs.filter fun p => p.1 ≠ key

/- The pairs after an edit. -/
def pairsAfter
    (side : Side)
    (policy : Policy)
    (pairs : List (OrderKey × α)) :
    Edit α → List (OrderKey × α)
  | .insert key item =>
      if Takes side policy key then
        (key, item) :: others key pairs
      else
        pairs
  | .erase key => others key pairs

/- The pairs that edits leave of none. -/
def livePairs
    (side : Side)
    (policy : Policy)
    (xs : List (Edit α)) : List (OrderKey × α) :=
  xs.foldl (pairsAfter side policy) []

variable {key : OrderKey} {a : α}
variable {pairs : List (OrderKey × α)}

/- A ladder takes the keys that fit it and refuses all
others. -/
theorem exists_insert_eq_ok_iff
    (l : Ladder side policy α) :
    (∃ l', l.insert key a = .ok l') ↔
      Takes side policy key := by
  unfold insert Takes Policy.rank
  by_cases hSide : key.side = side
  · rw [if_neg (not_not_intro hSide)]
    cases policy.sortPrice key <;>
      simp [hSide, bind, Except.bind, pure, Except.pure]
  · simp [hSide]

theorem insert_eq_place
    (l : Ladder side policy α)
    {rank : RankedKey}
    (hSide : key.side = side)
    (hRank : policy.rank key = .ok rank) :
    l.insert key a = .ok (l.place rank a) := by
  unfold insert
  rw [if_neg (not_not_intro hSide), hRank]
  rfl

theorem others_eq_self
    (h : ∀ p ∈ pairs, p.1 ≠ key) :
    others key pairs = pairs :=
  List.filter_eq_self.2 fun p hp =>
    decide_eq_true (h p hp)

theorem nodup_keys_others
    (h : (pairs.map Prod.fst).Nodup) :
    ((others key pairs).map Prod.fst).Nodup :=
  h.sublist (List.filter_sublist.map _)

theorem nodup_keys_cons_others
    (h : (pairs.map Prod.fst).Nodup) :
    (((key, a) :: others key pairs).map Prod.fst).Nodup := by
  refine List.nodup_cons.2 ⟨?_, nodup_keys_others h⟩
  rintro hMem
  rcases List.mem_map.1 hMem with ⟨p, hp, hKey⟩
  exact
    of_decide_eq_true (List.mem_filter.1 hp).2 hKey

/- Where no key repeats the other pairs are all but one. -/
theorem perm_cons_others
    (hNodup : (pairs.map Prod.fst).Nodup)
    (hMem : (key, a) ∈ pairs) :
    pairs.Perm ((key, a) :: others key pairs) := by
  induction pairs with
  | nil => cases hMem
  | cons p rest ih =>
      rcases List.nodup_cons.1 hNodup with ⟨hFirst, hRest⟩
      have hNew : ∀ q ∈ rest, q.1 ≠ p.1 := by
        intro q hq hEq
        rw [← hEq] at hFirst
        exact hFirst (List.mem_map_of_mem hq)
      rcases List.mem_cons.1 hMem with rfl | hLater
      · -- No key repeats, so none of the rest goes with it.
        have hOthers :
            others key ((key, a) :: rest) = rest := by
          unfold others
          rw [List.filter_cons_of_neg (by simp)]
          exact others_eq_self hNew
        rw [hOthers]
      · have hNe : p.1 ≠ key :=
          (hNew (key, a) hLater).symm
        have hOthers :
            others key (p :: rest) = p :: others key rest :=
          List.filter_cons_of_pos (decide_eq_true hNe)
        rw [hOthers]
        exact
          ((ih hRest hLater).cons p).trans (.swap ..)

theorem mem_pairsAfter_cases
    {x : Edit α}
    {p : OrderKey × α}
    (h : p ∈ pairsAfter side policy pairs x) :
    p ∈ pairs ∨ p.1 = x.key := by
  cases x with
  | insert key item =>
      unfold pairsAfter at h
      dsimp only at h
      split at h
      · rcases List.mem_cons.1 h with rfl | hOther
        · exact Or.inr rfl
        · exact Or.inl (List.mem_filter.1 hOther).1
      · exact Or.inl h
  | erase key => exact Or.inl (List.mem_filter.1 h).1

------------------------------------------------------------
-- Ladders that list pairs
------------------------------------------------------------

/- An entry as its rank and its item. -/
def listing
    (e : Entry α) : Except Violation RankedKey × α :=
  (.ok e.key, e.item)

/- A pair as the rank of its key, if it has one, and its
item. -/
def pairListing
    (policy : Policy)
    (p : OrderKey × α) : Except Violation RankedKey × α :=
  (policy.rank p.1, p.2)

/-
  A sorted ladder without repeated ids whose entries are the
  given pairs, each under the rank of its key.
-/
structure Lists
    (l : Ladder side policy α)
    (pairs : List (OrderKey × α)) : Prop where
  isSorted : l.IsSorted
  nodup : (l.ascending.map fun e => e.key.id).Nodup
  nodup_keys : (pairs.map Prod.fst).Nodup
  entries :
    (l.ascending.map listing).Perm
      (pairs.map (pairListing policy))

theorem lists_empty :
    (empty : Ladder side policy α).Lists [] where
  isSorted := isSorted_empty
  nodup := List.Pairwise.nil
  nodup_keys := List.Pairwise.nil
  entries := List.Perm.nil

namespace Lists

variable {l : Ladder side policy α}

/- A key with an id of its own is new to the ladder. -/
theorem fresh
    (h : l.Lists pairs)
    (hNew : ∀ p ∈ pairs, p.1.id ≠ key.id) :
    ∀ e ∈ l.ascending, e.key.id ≠ key.id := by
  intro e he
  have hEntry : listing e ∈ pairs.map (pairListing policy) :=
    h.entries.mem_iff.1 (List.mem_map_of_mem he)
  rcases List.mem_map.1 hEntry with ⟨p, hp, hEq⟩
  rcases Policy.rank_eq_ok_iff.1 (Prod.mk.inj hEq).1 with
    ⟨_, _, hKey⟩
  rw [hKey]
  exact hNew p hp

/- The entry of a listed pair, and the others around it. -/
theorem exists_cut
    (h : l.Lists pairs)
    (hMem : (key, a) ∈ pairs) :
    ∃ low e high, l.ascending = low ++ e :: high ∧
      policy.rank key = .ok e.key ∧ e.item = a ∧
      ((low ++ high).map listing).Perm
        ((others key pairs).map (pairListing policy)) := by
  have hPair :
      pairListing policy (key, a) ∈
        l.ascending.map listing :=
    h.entries.mem_iff.2 (List.mem_map_of_mem hMem)
  rcases List.mem_map.1 hPair with ⟨e, he, hEq⟩
  rcases Prod.mk.inj hEq with ⟨hRank, hItem⟩
  rcases List.append_of_mem he with ⟨low, high, hSplit⟩
  refine
    ⟨low, e, high, hSplit, hRank.symm, hItem, ?_⟩
  have hLadder :
      (l.ascending.map listing).Perm
        (listing e :: (low ++ high).map listing) := by
    rw [hSplit]
    exact List.perm_middle.map _
  have hPairs :
      (pairs.map (pairListing policy)).Perm
        (listing e ::
          (others key pairs).map (pairListing policy)) := by
    rw [hEq]
    exact (perm_cons_others h.nodup_keys hMem).map _
  exact
    (hLadder.symm.trans (h.entries.trans hPairs)).cons_inv

------------------------------------------------------------
-- One edit
------------------------------------------------------------

/- A key that is listed takes a new item where it stands. -/
theorem place_held
    (h : l.Lists pairs)
    {b : α}
    (hMem : (key, b) ∈ pairs)
    {rank : RankedKey}
    (hRank : policy.rank key = .ok rank) :
    (l.place rank a).Lists
      ((key, a) :: others key pairs) := by
  rcases h.exists_cut hMem with
    ⟨low, e, high, hSplit, hKey, _, hOthers⟩
  obtain rfl := Except.ok.inj (hKey.symm.trans hRank)
  -- The entry keeps its rank, so order and ids stay as they
  -- are.
  have hKeys :
      (low ++ ⟨e.key, a⟩ :: high).map Entry.key =
        l.ascending.map Entry.key := by
    rw [hSplit, List.map_append, List.map_append]
    rfl
  rw [h.isSorted.place_of_held h.nodup hSplit]
  constructor
  · exact h.isSorted.of_keys_eq hKeys
  · have hIds := congrArg (List.map RankedKey.id) hKeys
    rw [List.map_map, List.map_map] at hIds
    exact hIds ▸ h.nodup
  · exact nodup_keys_cons_others h.nodup_keys
  · rw [List.map_cons, pairListing, hRank]
    exact (List.perm_middle.map _).trans (hOthers.cons _)

/- A key that is new is listed with its item. -/
theorem place_fresh
    (h : l.Lists pairs)
    (hNew : ∀ p ∈ pairs, p.1.id ≠ key.id)
    (hSide : key.side = side)
    {rank : RankedKey}
    (hRank : policy.rank key = .ok rank) :
    (l.place rank a).Lists
      ((key, a) :: others key pairs) := by
  have hFresh := h.fresh hNew
  rcases Policy.rank_eq_ok_iff.1 hRank with ⟨_, _, hKey⟩
  have hId : key.id = rank.id := by rw [hKey]
  have hSideRank : rank.side = side := by
    rw [hKey]
    exact hSide
  rw [hId] at hFresh
  have hPlace := place_perm_of_fresh (a := a) hFresh
  constructor
  · exact isSorted_place_of_fresh h.isSorted hSideRank hFresh
  · rw [(hPlace.map fun e => e.key.id).nodup_iff]
    refine List.nodup_cons.2 ⟨?_, h.nodup⟩
    rintro hMem
    rcases List.mem_map.1 hMem with ⟨e, he, hEq⟩
    exact hFresh e he hEq
  · exact nodup_keys_cons_others h.nodup_keys
  · rw [others_eq_self fun p hp hEq =>
        hNew p hp (congrArg OrderKey.id hEq),
      List.map_cons, pairListing, hRank]
    exact (hPlace.map _).trans (h.entries.cons _)

/- A key that is listed is taken out, with its item as the
answer. -/
theorem erase_held
    (h : l.Lists pairs)
    (hMem : (key, a) ∈ pairs) :
    ∃ l', l.erase? key = some (a, l') ∧
      l'.Lists (others key pairs) := by
  rcases h.exists_cut hMem with
    ⟨low, e, high, hSplit, hRank, rfl, hOthers⟩
  have hSub : (low ++ high).Sublist l.ascending := by
    rw [hSplit]
    exact
      (List.Sublist.refl _).append
        (List.sublist_cons_self _ _)
  exact
    ⟨⟨low ++ high⟩,
      h.isSorted.erase?_of_held h.nodup hSplit hRank,
      h.isSorted.of_sublist hSub,
      h.nodup.sublist (hSub.map _),
      nodup_keys_others h.nodup_keys, hOthers⟩

/- Either a pair of the key is listed, or its id is new. -/
theorem exists_mem_or_new
    (hOne : ∀ p ∈ pairs, p.1.id = key.id → p.1 = key) :
    (∃ b, (key, b) ∈ pairs) ∨
      ∀ p ∈ pairs, p.1.id ≠ key.id := by
  by_cases hHeld : ∃ p ∈ pairs, p.1 = key
  · rcases hHeld with ⟨⟨_, b⟩, hp, rfl⟩
    exact Or.inl ⟨b, hp⟩
  · right
    intro p hp hId
    exact hHeld ⟨p, hp, hOne p hp hId⟩

/- An edit does to the ladder what it does to the pairs. -/
theorem edit
    (h : l.Lists pairs)
    (x : Edit α)
    (hOne :
      ∀ p ∈ pairs, p.1.id = x.key.id → p.1 = x.key) :
    (l.edit x).Lists (pairsAfter side policy pairs x) := by
  cases x with
  | insert key item =>
      unfold Ladder.edit pairsAfter
      dsimp only
      by_cases hTakes : Takes side policy key
      · rcases Policy.exists_rank hTakes.2 with
          ⟨rank, hRank, _⟩
        rw [if_pos hTakes,
          insert_eq_place l hTakes.1 hRank]
        -- A key that is not listed comes with a new id, since an
        -- id stands for one key.
        rcases exists_mem_or_new hOne with ⟨b, hHeld⟩ | hNew
        · exact h.place_held hHeld hRank
        · exact h.place_fresh hNew hTakes.1 hRank
      · rw [if_neg hTakes]
        cases hInsert : l.insert key item with
        | error v => exact h
        | ok l' =>
            exact
              absurd
                ((exists_insert_eq_ok_iff l).1 ⟨l', hInsert⟩)
                hTakes
  | erase key =>
      unfold Ladder.edit pairsAfter
      change ∀ p ∈ pairs, p.1.id = key.id → p.1 = key at hOne
      dsimp only
      rcases exists_mem_or_new hOne with ⟨b, hHeld⟩ | hNew
      · rcases h.erase_held hHeld with ⟨l', hErase, hLists⟩
        rw [hErase]
        exact hLists
      · rw [erase?_of_fresh (h.fresh hNew),
          others_eq_self fun p hp hEq =>
            hNew p hp (congrArg OrderKey.id hEq)]
        exact h

------------------------------------------------------------
-- All edits
------------------------------------------------------------

/- Edits do to the ladder what they do to the pairs. -/
theorem edits
    (keys : Set OrderKey)
    (hOne : ∀ k ∈ keys, ∀ k' ∈ keys, k.id = k'.id → k = k')
    (xs : List (Edit α))
    (hEdits : ∀ x ∈ xs, x.key ∈ keys)
    (h : l.Lists pairs)
    (hPairs : ∀ p ∈ pairs, p.1 ∈ keys) :
    (l.edits xs).Lists
        (xs.foldl (pairsAfter side policy) pairs) ∧
      ∀ p ∈ xs.foldl (pairsAfter side policy) pairs,
        p.1 ∈ keys := by
  induction xs generalizing l pairs with
  | nil => exact ⟨h, hPairs⟩
  | cons x rest ih =>
      have hx := hEdits x (List.mem_cons_self ..)
      apply ih
      · intro y hy
        exact hEdits y (List.mem_cons_of_mem _ hy)
      · apply h.edit x
        intro p hp
        exact hOne p.1 (hPairs p hp) x.key hx
      · intro p hp
        rcases mem_pairsAfter_cases hp with hOld | hNew
        · exact hPairs p hOld
        · rw [hNew]
          exact hx

end Lists

/- After edits with one key to an id a ladder lists what was
inserted and not since removed. -/
theorem lists_edits
    (side : Side)
    (policy : Policy)
    {xs : List (Edit α)}
    (hOne : Edit.OneKeyEach xs) :
    ((empty : Ladder side policy α).edits xs).Lists
        (livePairs side policy xs) ∧
      ∀ p ∈ livePairs side policy xs,
        ∃ x ∈ xs, x.key = p.1 := by
  refine
    lists_empty.edits {k | ∃ x ∈ xs, x.key = k} ?_ xs ?_ ?_
  · rintro _ ⟨x, hx, rfl⟩ _ ⟨y, hy, rfl⟩
    exact hOne x hx y hy
  · intro x hx
    exact ⟨x, hx, rfl⟩
  · intro p hp
    cases hp

/-
  A ladder as the sorted map of pairs of keys and items: it
  lists the pairs and no others, each once, strictly by rank,
  and the best entry is the first of them.
-/
structure IsSortedMapOf
    (l : Ladder side policy α)
    (pairs : List (OrderKey × α)) : Prop where
  nodup_keys : (pairs.map Prod.fst).Nodup
  entries :
    (l.byPriority.map listing).Perm
      (pairs.map (pairListing policy))
  size_eq : l.size = pairs.length
  sorted :
    l.byPriority.Pairwise fun a b => a.key.Outranks b.key
  best?_eq : l.best? = l.byPriority.head?
  best :
    ∀ e, l.best? = some e →
      ∀ e' ∈ l.byPriority, e' = e ∨ e.key.Outranks e'.key

theorem Lists.isSortedMapOf
    {l : Ladder side policy α}
    (h : l.Lists pairs) :
    l.IsSortedMapOf pairs where
  nodup_keys := h.nodup_keys
  entries :=
    ((List.reverse_perm _).map _).trans h.entries
  size_eq := by
    have hLength := h.entries.length_eq
    rwa [List.length_map, List.length_map] at hLength
  sorted := h.isSorted.sorted
  best?_eq := l.best?_eq_head?
  best := by
    intro e hBest e' he'
    have hSorted := h.isSorted.sorted
    rw [best?_eq_head?] at hBest
    rcases List.head?_eq_some_iff.1 hBest with ⟨rest, hList⟩
    rw [hList] at he' hSorted
    rcases List.mem_cons.1 he' with rfl | hRest
    · exact Or.inl rfl
    · exact
        Or.inr (List.rel_of_pairwise_cons hSorted hRest)

/- A removal answers the item of the pair of its key. -/
theorem Lists.erase?_eq
    {l : Ladder side policy α}
    (h : l.Lists pairs)
    (hOne : ∀ p ∈ pairs, p.1.id = key.id → p.1 = key) :
    (l.erase? key).map Prod.fst =
      (pairs.find? (·.1 = key)).map Prod.snd := by
  cases hFind : pairs.find? (·.1 = key) with
  | none =>
      have hAbsent : ∀ p ∈ pairs, p.1 ≠ key := by
        simpa using List.find?_eq_none.1 hFind
      rw [erase?_of_fresh]
      · rfl
      · apply h.fresh
        intro p hp hId
        exact hAbsent p hp (hOne p hp hId)
  | some p =>
      have hKey : p.1 = key := by
        simpa using List.find?_some hFind
      have hMem := List.mem_of_find?_eq_some hFind
      subst hKey
      rcases h.erase_held hMem with ⟨l', hErase, _⟩
      rw [hErase]
      rfl

/-
  Edits with one key to an id make a ladder the sorted map of
  the pairs that were inserted and not since removed.  A key
  that does not fit is refused, and a removal answers the item
  of its key, if there is one.
-/
theorem isSortedMapOf_edits
    (xs : List (Edit α))
    (hOne : Edit.OneKeyEach xs) :
    ((empty : Ladder side policy α).edits xs).IsSortedMapOf
        (livePairs side policy xs) ∧
      (∀ key,
        (∀ x ∈ xs, x.key.id = key.id → x.key = key) →
          (((empty : Ladder side policy α).edits xs).erase?
              key).map Prod.fst =
            ((livePairs side policy xs).find?
              (·.1 = key)).map Prod.snd) ∧
      ∀ key item,
        (∃ l',
            ((empty : Ladder side policy α).edits xs).insert
              key item = .ok l') ↔
          Takes side policy key := by
  rcases lists_edits side policy hOne with ⟨hLists, hPairs⟩
  refine ⟨hLists.isSortedMapOf, ?_, ?_⟩
  · intro key hFits
    apply hLists.erase?_eq
    intro p hp
    rcases hPairs p hp with ⟨x, hx, hEq⟩
    rw [← hEq]
    exact hFits x hx
  · intro key item
    exact exists_insert_eq_ok_iff _

/- An ask of an id at a price. -/
def askAt
    (id : UInt64)
    (m : Int)
    (s : Nat) : OrderKey :=
  ⟨id, .sell, Decimal.ofParts? m s, none, .ofNanos 5⟩

/- Two asks tied at 1, one of them with a second item, a bid
and an ask without a price that are refused, and the best ask
taken out. -/
def mixedEdits : List (Edit Nat) :=
  [.insert (askAt 5 10 1) 50, .insert (askAt 1 100 2) 10,
    .insert ⟨2, .buy, Decimal.ofParts? 1 0, none, .ofNanos 0⟩
      20,
    .insert ⟨3, .sell, none, none, .ofNanos 0⟩ 30,
    .insert (askAt 4 99 2) 40, .insert (askAt 1 100 2) 11,
    .insert (askAt 6 2 0) 60, .erase (askAt 4 99 2),
    .erase (askAt 4 99 2)]

/- The tie goes to the lower id, which has its second item. -/
theorem isSortedMapOf_of_mixedEdits :
    Edit.OneKeyEach mixedEdits ∧
      ((empty : Ladder .sell .price Nat).edits
          mixedEdits).IsSortedMapOf
        (livePairs .sell .price mixedEdits) ∧
      ((empty : Ladder .sell .price Nat).edits
          mixedEdits).byPriority.map
        (fun e => (e.key.id, e.item)) =
          [(1, 11), (5, 50), (6, 60)] :=
  have hOne : Edit.OneKeyEach mixedEdits := by
    decide +kernel
  ⟨hOne, (isSortedMapOf_edits mixedEdits hOne).1,
    by decide +kernel⟩

section Stops

variable {l : Ladder side .stop α}

------------------------------------------------------------
-- Waiting entries
------------------------------------------------------------

/- Whether a trade at a price reaches the stop price of a
key. -/
def reaches
    (side : Side)
    (last : Decimal)
    (key : OrderKey) : Bool :=
  key.stopPrice.any fun stop => side.Triggers stop last

/- The price reaches entries as it reaches the keys they were
inserted under. -/
theorem Lists.filter_isTriggered_perm
    {pairs : List (OrderKey × α)}
    (h : l.Lists pairs)
    (last : Decimal) :
    ((l.ascending.filter (isTriggered side last)).map
        Entry.item).Perm
      ((pairs.filter fun p => reaches side last p.1).map
        Prod.snd) := by
  let isReached (x : Except Violation RankedKey × α) : Bool :=
    x.1.toOption.any fun r => side.Triggers r.price last
  have hPair (p : OrderKey × α) :
      isReached (pairListing .stop p) =
        reaches side last p.1 := by
    change
      ((Policy.stop.rank p.1).toOption.any fun r =>
          decide (side.Triggers r.price last)) =
        p.1.stopPrice.any fun stop => side.Triggers stop last
    unfold Policy.rank Policy.sortPrice
    cases p.1.stopPrice <;> rfl
  have hFiltered :=
    (h.entries.filter isReached).map Prod.snd
  rw [List.filter_map, List.filter_map, List.map_map,
    List.map_map] at hFiltered
  have hReached :
      isReached ∘ pairListing .stop =
        fun p : OrderKey × α => reaches side last p.1 :=
    funext hPair
  rw [hReached] at hFiltered
  exact hFiltered

/-
  After any edits with one key to an id the released items are
  those of all the waiting entries that the price reaches,
  best first, and no such entry stands before one that the
  price does not reach.
-/
theorem triggered_edits
    (xs : List (Edit α))
    (hOne : Edit.OneKeyEach xs)
    (last : Decimal) :
    let l := (empty : Ladder side .stop α).edits xs
    l.triggered last =
        (l.byPriority.filter fun e =>
          side.Triggers e.key.price last).map Entry.item ∧
      (l.byPriority.Pairwise fun a b =>
        a.key.Outranks b.key) ∧
      (l.triggered last).Perm
        (((livePairs side .stop xs).filter fun p =>
          reaches side last p.1).map Prod.snd) ∧
      l.byPriority.Pairwise fun a b =>
        side.Triggers a.key.price last →
          side.Triggers b.key.price last := by
  intro l
  have hLists := (lists_edits side .stop hOne).1
  have hSorted := hLists.isSorted
  have hEq := hSorted.triggered_eq last
  refine ⟨hEq, hSorted.sorted, ?_, ?_⟩
  · rw [hEq]
    unfold byPriority
    rw [List.filter_reverse, List.map_reverse]
    exact
      (List.reverse_perm _).trans
        (hLists.filter_isTriggered_perm last)
  · refine
      List.pairwise_reverse.2
        ((hSorted.pairwise_isTriggered last).imp ?_)
    intro a b hReached
    simpa [isTriggered] using hReached

end Stops

/- A seller of an id that waits for a stop price. -/
def sellerBelow
    (id : UInt64)
    (m : Int)
    (s : Nat) : OrderKey :=
  ⟨id, .sell, none, Decimal.ofParts? m s, .ofNanos 5⟩

/- Sellers that wait for 99, 101 and, in two spellings, for
100, and one that waits for 102 and is taken out again. -/
def waitingSellers : List (Edit Nat) :=
  [.insert (sellerBelow 1 99 0) 10,
    .insert (sellerBelow 4 100 0) 40,
    .insert (sellerBelow 5 102 0) 50,
    .insert (sellerBelow 3 1000 1) 30,
    .insert (sellerBelow 2 101 0) 20,
    .erase (sellerBelow 5 102 0)]

/- A last price of 100. -/
def lastHundred : Decimal :=
  (Decimal.ofParts? 100 0).getD 0

/- A trade at 100 releases all that still wait but the one
below it, the lowest stop price first. -/
theorem triggered_edits_of_waitingSellers :
    Edit.OneKeyEach waitingSellers ∧
      (let l :=
        (empty : Ladder .sell .stop Nat).edits waitingSellers
      l.triggered lastHundred = [30, 40, 20] ∧
        l.triggered lastHundred =
          (l.byPriority.filter fun e =>
            Side.sell.Triggers e.key.price lastHundred).map
              Entry.item) :=
  have hOne : Edit.OneKeyEach waitingSellers := by
    decide +kernel
  ⟨hOne, by decide +kernel,
    (triggered_edits waitingSellers hOne lastHundred).1⟩

end Ladder

end Matchbook
