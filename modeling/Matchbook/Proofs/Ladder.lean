import Matchbook.Ladder
import Matchbook.Proofs.Ranking
import Mathlib.Data.List.TakeWhile
import Mathlib.Tactic.ByContra

/-
  Ladders whose entries stand in the order of their rank.

  Of any items a ladder is sorted if its keys are of its side
  and outrank each other in turn; a ladder of orders is ranked
  if it is sorted and every order stands under its own rank.

  Key definitions include:
    * `Ladder.IsSorted`
    * `Entry.IsRanked`
    * `RankedEntries`
    * `Ladder.IsRanked`

  The main statements are:
    * `Ladder.isSorted_place_of_fresh`
    * `Ladder.IsSorted.below_eq`
    * `Ladder.IsSorted.notBelow_eq`
    * `Ladder.isRanked_insert`
    * `Ladder.byPriority_insert_perm`
    * `Ladder.items_release_append_triggered`
-/

------------------------------------------------------------
-- Ranks of orders
------------------------------------------------------------

namespace Matchbook

/- The parts of a rank. -/
theorem Policy.rank_eq_ok_iff
    {p : Policy}
    {k : OrderKey}
    {r : RankedKey} :
    p.rank k = .ok r ↔
      ∃ q, p.sortPrice k = some q ∧
        r = ⟨k.side, q, k.createdAt, k.id⟩ := by
  unfold Policy.rank
  cases p.sortPrice k with
  | none => simp
  | some q => simp [eq_comm]

namespace RankedKey

/- Keys are equal in rank only if their ids are. -/
theorem compare_eq_eq_iff
    {a b : RankedKey} :
    a.compare b = .eq ↔ a.id = b.id := by
  constructor
  · intro h
    by_contra hId
    unfold compare at h
    rw [if_neg hId, Ordering.then_eq_eq,
      Ordering.then_eq_eq] at h
    exact hId (Std.compare_eq_iff_eq.1 h.2.2).symm
  · exact compare_eq_eq_of_id_eq

end RankedKey

------------------------------------------------------------
-- Sorted ladders
------------------------------------------------------------

namespace Ladder

variable {side : Side} {policy : Policy} {α : Type}
variable {l l' : Ladder side policy α}
variable {key : RankedKey} {a : α}

/- A ladder whose keys are of its side and stand in the order
of their rank. -/
structure IsSorted (l : Ladder side policy α) : Prop where
  side_eq : ∀ e ∈ l.ascending, e.key.side = side
  sorted :
    l.byPriority.Pairwise fun a b => a.key.Outranks b.key

theorem isSorted_empty :
    (empty : Ladder side policy α).IsSorted where
  side_eq := by
    intro e he
    cases he
  sorted := List.Pairwise.nil

theorem IsSorted.pairwise_ascending
    (h : l.IsSorted) :
    l.ascending.Pairwise fun a b => b.key.Outranks a.key :=
  List.pairwise_reverse.1 h.sorted

/- Fewer entries in the same order are sorted as well. -/
theorem IsSorted.of_sublist
    (h : l.IsSorted)
    (hSub : l'.ascending.Sublist l.ascending) :
    l'.IsSorted where
  side_eq := by
    intro e he
    exact h.side_eq e (hSub.subset he)
  sorted := h.sorted.sublist hSub.reverse

/- Only the keys count. -/
theorem IsSorted.of_keys_eq
    (h : l.IsSorted)
    (hKeys :
      l'.ascending.map Entry.key =
        l.ascending.map Entry.key) :
    l'.IsSorted where
  side_eq := by
    intro e he
    have hMem : e.key ∈ l.ascending.map Entry.key := by
      rw [← hKeys]
      exact List.mem_map_of_mem he
    rcases List.mem_map.1 hMem with ⟨e', he', hEq⟩
    rw [← hEq]
    exact h.side_eq e' he'
  sorted := by
    have hSorted :
        (l.ascending.map Entry.key).Pairwise fun a b =>
          b.Outranks a :=
      List.pairwise_map.2 h.pairwise_ascending
    rw [← hKeys, List.pairwise_map] at hSorted
    exact List.pairwise_reverse.2 hSorted

theorem below_append_notBelow
    (l : Ladder side policy α)
    (key : RankedKey) :
    l.below key ++ l.notBelow key = l.ascending :=
  List.takeWhile_append_dropWhile

------------------------------------------------------------
-- Keys that are new to a ladder
------------------------------------------------------------

/- A key with a new id goes between the entries below it and
the others. -/
theorem place_of_fresh
    (hFresh : ∀ e ∈ l.ascending, e.key.id ≠ key.id) :
    l.place key a =
      ⟨l.below key ++ ⟨key, a⟩ :: l.notBelow key⟩ := by
  unfold place
  split
  · rename_i hNil
    rw [hNil]
  · rename_i e rest hCons
    have hMem : e ∈ l.ascending := by
      apply (List.dropWhile_suffix (isBelow key)).subset
      change e ∈ l.notBelow key
      rw [hCons]
      exact List.mem_cons_self ..
    have hId : key.compare e.key ≠ .eq := by
      intro hEq
      exact
        hFresh e hMem
          (RankedKey.compare_eq_eq_iff.1 hEq).symm
    rw [if_neg hId, hCons]

/- What is taken as below a new key is outranked by it. -/
theorem outranks_of_mem_below
    (hFresh : ∀ e ∈ l.ascending, e.key.id ≠ key.id)
    {e : Entry α}
    (he : e ∈ l.below key) :
    key.Outranks e.key := by
  have hMem : e ∈ l.ascending :=
    (List.takeWhile_prefix (isBelow key)).subset he
  have hBelow := List.mem_takeWhile_imp he
  exact
    (RankedKey.compare_eq_gt_iff
      (hFresh e hMem).symm).1 (eq_of_beq hBelow)

/- The first entry that is not below a new key outranks it. -/
theorem IsSorted.outranks_of_notBelow_eq_cons
    (h : l.IsSorted)
    (hSide : key.side = side)
    (hFresh : ∀ e ∈ l.ascending, e.key.id ≠ key.id)
    {first : Entry α}
    {rest : List (Entry α)}
    (hCons : l.notBelow key = first :: rest) :
    first.key.Outranks key := by
  have hMem : first ∈ l.ascending := by
    apply (List.dropWhile_suffix (isBelow key)).subset
    change first ∈ l.notBelow key
    rw [hCons]
    exact List.mem_cons_self ..
  have hNot : isBelow key first = false := by
    have hHead :=
      List.head?_dropWhile_not (isBelow key) l.ascending
    have hDrop :
        l.ascending.dropWhile (isBelow key) =
          first :: rest :=
      hCons
    rw [hDrop] at hHead
    exact hHead
  have hId := hFresh first hMem
  rcases
      RankedKey.outranks_total
        ((h.side_eq first hMem).trans hSide.symm) hId with
    hOver | hUnder
  · exact hOver
  · have hGt :=
      (RankedKey.compare_eq_gt_iff hId.symm).2 hUnder
    simp [isBelow, hGt] at hNot

/- What is not taken as below a new key outranks it: the first
such entry does, and the others outrank that one. -/
theorem IsSorted.outranks_of_mem_notBelow
    (h : l.IsSorted)
    (hSide : key.side = side)
    (hFresh : ∀ e ∈ l.ascending, e.key.id ≠ key.id)
    {e : Entry α}
    (he : e ∈ l.notBelow key) :
    e.key.Outranks key := by
  have hSuffix :
      (l.notBelow key).Sublist l.ascending :=
    (List.dropWhile_suffix _).sublist
  have hSorted :
      (l.notBelow key).Pairwise fun a b =>
        b.key.Outranks a.key :=
    h.pairwise_ascending.sublist hSuffix
  have hSideE := h.side_eq e (hSuffix.subset he)
  cases hEntries : l.notBelow key with
  | nil =>
      rw [hEntries] at he
      cases he
  | cons first rest =>
      have hFirst :=
        h.outranks_of_notBelow_eq_cons hSide hFresh hEntries
      rw [hEntries] at he hSorted hSuffix
      rcases List.mem_cons.1 he with rfl | hRest
      · exact hFirst
      · have hOver := List.rel_of_pairwise_cons hSorted hRest
        have hSideFirst :=
          h.side_eq first
            (hSuffix.subset (List.mem_cons_self ..))
        exact
          hOver.trans (hSideE.trans hSideFirst.symm) hFirst

/- A new key takes its place among the sorted ones. -/
theorem isSorted_place_of_fresh
    (h : l.IsSorted)
    (hSide : key.side = side)
    (hFresh : ∀ e ∈ l.ascending, e.key.id ≠ key.id) :
    (l.place key a).IsSorted := by
  have hSplit := below_append_notBelow l key
  rw [place_of_fresh hFresh]
  constructor
  · intro e he
    rcases List.mem_append.1 he with hBelow | hOthers
    · apply h.side_eq
      rw [← hSplit]
      exact List.mem_append_left _ hBelow
    · rcases List.mem_cons.1 hOthers with rfl | hAbove
      · exact hSide
      · apply h.side_eq
        rw [← hSplit]
        exact List.mem_append_right _ hAbove
  · have hSorted := h.pairwise_ascending
    rw [← hSplit, List.pairwise_append] at hSorted
    rcases hSorted with ⟨hBelow, hAbove, hAcross⟩
    rw [byPriority, List.pairwise_reverse,
      List.pairwise_append]
    refine ⟨hBelow, ?_, ?_⟩
    · refine List.pairwise_cons.2 ⟨?_, hAbove⟩
      intro e he
      exact h.outranks_of_mem_notBelow hSide hFresh he
    · intro a ha b hb
      rcases List.mem_cons.1 hb with rfl | hb
      · exact outranks_of_mem_below hFresh ha
      · exact hAcross a ha b hb

/- A new key is added and no other entry. -/
theorem place_perm_of_fresh
    (hFresh : ∀ e ∈ l.ascending, e.key.id ≠ key.id) :
    (l.place key a).ascending.Perm
      (⟨key, a⟩ :: l.ascending) := by
  rw [place_of_fresh hFresh,
    ← below_append_notBelow l key]
  exact List.perm_middle

/- A key with a new id finds nothing to take out. -/
theorem erase?_of_fresh
    {key : OrderKey}
    (hFresh : ∀ e ∈ l.ascending, e.key.id ≠ key.id) :
    l.erase? key = none := by
  unfold erase?
  split
  · rfl
  · rename_i rank hRank
    rcases Policy.rank_eq_ok_iff.1 hRank with ⟨_, _, rfl⟩
    split
    · rfl
    · rename_i e rest hCons
      have hMem : e ∈ l.ascending := by
        rw [← below_append_notBelow l, hCons]
        simp
      refine if_neg fun hEq => hFresh e hMem ?_
      exact (RankedKey.compare_eq_eq_iff.1 hEq).symm

------------------------------------------------------------
-- Keys that a ladder holds
------------------------------------------------------------

section Held

variable {low high : List (Entry α)} {e : Entry α}

/- All entries before one of a sorted ladder without repeated
ids are below its key, and it is the first one that is not. -/
theorem IsSorted.isBelow_of_mem_low
    (h : l.IsSorted)
    (hNodup : (l.ascending.map fun e => e.key.id).Nodup)
    (hSplit : l.ascending = low ++ e :: high) :
    ∀ x ∈ low, isBelow e.key x = true := by
  have hSorted := h.pairwise_ascending
  rw [hSplit] at hSorted hNodup
  intro x hx
  have hOver : e.key.Outranks x.key :=
    (List.pairwise_append.1 hSorted).2.2 x hx e
      (List.mem_cons_self ..)
  have hId : e.key.id ≠ x.key.id := by
    rw [List.map_append, List.nodup_append] at hNodup
    intro hEq
    exact
      hNodup.2.2 x.key.id
        (List.mem_map_of_mem (f := fun e => e.key.id) hx)
        e.key.id (by simp) hEq.symm
  unfold isBelow
  rw [(RankedKey.compare_eq_gt_iff hId).2 hOver]
  rfl

theorem isBelow_self (e : Entry α) :
    isBelow e.key e = false := by
  unfold isBelow
  rw [RankedKey.compare_eq_eq_of_id_eq rfl]
  rfl

theorem IsSorted.below_eq
    (h : l.IsSorted)
    (hNodup : (l.ascending.map fun e => e.key.id).Nodup)
    (hSplit : l.ascending = low ++ e :: high) :
    l.below e.key = low := by
  unfold below
  rw [hSplit,
    List.takeWhile_append_of_pos
      (h.isBelow_of_mem_low hNodup hSplit),
    List.takeWhile_cons_of_neg (by simp [isBelow_self]),
    List.append_nil]

theorem IsSorted.notBelow_eq
    (h : l.IsSorted)
    (hNodup : (l.ascending.map fun e => e.key.id).Nodup)
    (hSplit : l.ascending = low ++ e :: high) :
    l.notBelow e.key = e :: high := by
  unfold notBelow
  rw [hSplit,
    List.dropWhile_append_of_pos
      (h.isBelow_of_mem_low hNodup hSplit),
    List.dropWhile_cons_of_neg (by simp [isBelow_self])]

/- A key that is there takes a new item where it stands. -/
theorem IsSorted.place_of_held
    (h : l.IsSorted)
    (hNodup : (l.ascending.map fun e => e.key.id).Nodup)
    (hSplit : l.ascending = low ++ e :: high) :
    l.place e.key a = ⟨low ++ ⟨e.key, a⟩ :: high⟩ := by
  unfold place
  rw [h.notBelow_eq hNodup hSplit]
  dsimp only
  rw [if_pos (RankedKey.compare_eq_eq_of_id_eq rfl),
    h.below_eq hNodup hSplit]

/- A key that is there is taken out with its item. -/
theorem IsSorted.erase?_of_held
    (h : l.IsSorted)
    (hNodup : (l.ascending.map fun e => e.key.id).Nodup)
    (hSplit : l.ascending = low ++ e :: high)
    {key : OrderKey}
    (hRank : policy.rank key = .ok e.key) :
    l.erase? key = some (e.item, ⟨low ++ high⟩) := by
  unfold erase?
  rw [hRank]
  dsimp only
  rw [h.notBelow_eq hNodup hSplit]
  dsimp only
  rw [if_pos (RankedKey.compare_eq_eq_of_id_eq rfl),
    h.below_eq hNodup hSplit]

end Held

end Ladder

------------------------------------------------------------
-- Ranked entries
------------------------------------------------------------

/- An order of a side under its own rank. -/
structure Entry.IsRanked
    (side : Side)
    (policy : Policy)
    (e : Entry Order) : Prop where
  side_eq : e.item.side = side
  rank_eq : policy.rank e.item.key = .ok e.key

namespace Entry.IsRanked

variable {side : Side} {policy : Policy}
variable {e : Entry Order}

theorem key_side
    (h : e.IsRanked side policy) :
    e.key.side = side := by
  rcases Policy.rank_eq_ok_iff.1 h.rank_eq with
    ⟨q, _, hKey⟩
  rw [hKey]
  exact h.side_eq

theorem key_id
    (h : e.IsRanked side policy) :
    e.key.id = e.item.id := by
  rcases Policy.rank_eq_ok_iff.1 h.rank_eq with
    ⟨q, _, hKey⟩
  rw [hKey]
  rfl

end Entry.IsRanked

/- Entries of one side under their ranks, best first. -/
structure RankedEntries
    (side : Side)
    (policy : Policy)
    (es : List (Entry Order)) : Prop where
  ranked : ∀ e ∈ es, e.IsRanked side policy
  sorted : es.Pairwise fun a b => a.key.Outranks b.key

theorem RankedEntries.sublist
    {side : Side}
    {policy : Policy}
    {es fs : List (Entry Order)}
    (h : RankedEntries side policy es)
    (hSub : fs.Sublist es) :
    RankedEntries side policy fs where
  ranked := by
    intro e he
    exact h.ranked e (hSub.subset he)
  sorted := h.sorted.sublist hSub

namespace Ladder

variable {side : Side} {policy : Policy}
variable {l l' : Ladder side policy Order}

/- A ladder whose entries stand in the order of their
rank. -/
def IsRanked (l : Ladder side policy Order) : Prop :=
  RankedEntries side policy l.byPriority

theorem isRanked_empty :
    (empty : Ladder side policy Order).IsRanked where
  ranked := by
    intro e he
    cases he
  sorted := List.Pairwise.nil

/- Fewer entries in the same order are ranked as well. -/
theorem IsRanked.of_sublist
    (h : l.IsRanked)
    (hSub : l'.ascending.Sublist l.ascending) :
    l'.IsRanked :=
  RankedEntries.sublist h hSub.reverse

theorem IsRanked.ranked_of_mem
    (h : l.IsRanked)
    {e : Entry Order}
    (he : e ∈ l.ascending) :
    e.IsRanked side policy :=
  h.ranked e (List.mem_reverse.2 he)

theorem IsRanked.isSorted
    (h : l.IsRanked) :
    l.IsSorted where
  side_eq := by
    intro e he
    exact (h.ranked_of_mem he).key_side
  sorted := h.sorted

------------------------------------------------------------
-- Insertion
------------------------------------------------------------

/- Nothing but the placed order is new on a ladder. -/
theorem item_mem_of_mem_place
    {key : RankedKey}
    {o : Order}
    {e : Entry Order}
    (he : e ∈ (l.place key o).ascending) :
    e.item = o ∨ e ∈ l.ascending := by
  rw [← below_append_notBelow l key]
  unfold place at he
  cases hRest : l.notBelow key with
  | nil =>
      rw [hRest] at he
      rcases List.mem_append.1 he with hBelow | hNew
      · exact Or.inr (List.mem_append_left _ hBelow)
      · rw [List.mem_singleton.1 hNew]
        exact Or.inl rfl
  | cons first rest =>
      rw [hRest] at he
      dsimp only at he
      split at he
      · simp only [List.mem_append, List.mem_cons] at he ⊢
        rcases he with hBelow | rfl | hAbove
        · exact Or.inr (Or.inl hBelow)
        · exact Or.inl rfl
        · exact Or.inr (Or.inr (Or.inr hAbove))
      · simp only [List.mem_append, List.mem_cons] at he ⊢
        rcases he with hBelow | rfl | hAbove
        · exact Or.inr (Or.inl hBelow)
        · exact Or.inl rfl
        · exact Or.inr (Or.inr hAbove)

/- An order of the side of a ladder is inserted under its
rank; no other order is. -/
theorem insert_eq_ok
    {o : Order}
    (h : l.insert o.key o = .ok l') :
    ∃ key,
      (⟨key, o⟩ : Entry Order).IsRanked side policy ∧
        l' = l.place key o := by
  unfold insert at h
  split at h
  · cases h
  rename_i hSide
  cases hRank : policy.rank o.key with
  | error v =>
      rw [hRank] at h
      cases h
  | ok key =>
      rw [hRank] at h
      cases h
      exact ⟨key, ⟨not_not.1 hSide, hRank⟩, rfl⟩

section Insert

variable {o : Order}

private theorem key_id_ne_of_fresh
    (hRanked : l.IsRanked)
    (hFresh : ∀ e ∈ l.ascending, e.item.id ≠ o.id)
    {key : RankedKey}
    (hKey : (⟨key, o⟩ : Entry Order).IsRanked side policy) :
    ∀ e ∈ l.ascending, e.key.id ≠ key.id := by
  intro e he hId
  apply hFresh e he
  rw [← (hRanked.ranked_of_mem he).key_id, hId]
  exact hKey.key_id

/- A new order takes its place among the ranked ones. -/
theorem isRanked_insert
    (hRanked : l.IsRanked)
    (hFresh : ∀ e ∈ l.ascending, e.item.id ≠ o.id)
    (h : l.insert o.key o = .ok l') :
    l'.IsRanked := by
  rcases insert_eq_ok h with ⟨key, hKey, rfl⟩
  have hIds := key_id_ne_of_fresh hRanked hFresh hKey
  refine ⟨?_, ?_⟩
  · intro e he
    rw [byPriority, List.mem_reverse,
      (place_perm_of_fresh hIds).mem_iff] at he
    rcases List.mem_cons.1 he with rfl | hOld
    · exact hKey
    · exact hRanked.ranked_of_mem hOld
  · exact
      (isSorted_place_of_fresh hRanked.isSorted
        hKey.key_side hIds).sorted

/- Insertion adds the order and nothing else. -/
theorem byPriority_insert_perm
    (hRanked : l.IsRanked)
    (hFresh : ∀ e ∈ l.ascending, e.item.id ≠ o.id)
    (h : l.insert o.key o = .ok l') :
    ∃ key,
      l'.byPriority.Perm (⟨key, o⟩ :: l.byPriority) := by
  rcases insert_eq_ok h with ⟨key, hKey, rfl⟩
  refine ⟨key, ?_⟩
  have hPlace :=
    place_perm_of_fresh (a := o)
      (key_id_ne_of_fresh hRanked hFresh hKey)
  exact
    (List.reverse_perm _).trans
      (hPlace.trans ((List.reverse_perm _).symm.cons _))

end Insert

------------------------------------------------------------
-- Removal and release
------------------------------------------------------------

/- Removal takes out entries and moves none. -/
theorem sublist_of_erase?
    {key : OrderKey}
    {o : Order}
    (h : l.erase? key = some (o, l')) :
    l'.ascending.Sublist l.ascending := by
  unfold erase? at h
  split at h
  · cases h
  rename_i rank _
  split at h
  · cases h
  rename_i e rest hCons
  split at h
  · cases h
    rw [← below_append_notBelow l rank, hCons]
    exact
      (List.Sublist.refl _).append
        (List.sublist_cons_self _ _)
  · cases h

theorem sublist_release
    (l : Ladder side policy Order)
    (last : Decimal) :
    (l.release last).ascending.Sublist l.ascending :=
  (List.dropWhile_suffix _).sublist

/- The released orders are the end of the ladder. -/
theorem items_release_append_triggered
    (l : Ladder side policy Order)
    (last : Decimal) :
    (l.release last).byPriority.map Entry.item ++
        l.triggered last =
      l.byPriority.map Entry.item := by
  simp only [release, triggered, byPriority]
  rw [← List.map_append, ← List.reverse_append,
    List.takeWhile_append_dropWhile]

end Ladder

end Matchbook
