import Matchbook.Decimal.Text
import Matchbook.Proofs.Ladder

/-
  The comparison of keys under a policy.

  Keys compare as their ranks do.  Among keys of one side that
  have the price they rank by, with one key to an id, this is
  a strict total order: the better price first, of equal
  prices the earlier time, of equal times the lower id.  A
  comparison fails in both directions or in neither.

  Key definitions include:
    * `Policy.Precedes`
    * `Policy.Ranks`
    * `Policy.OrdersStrictly`
    * `Policy.Refuses`

  The main statements are:
    * `RankedKey.compare_swap`
    * `Policy.compare_eq_ok`
    * `Policy.refuses_iff`
    * `Policy.ordersStrictly_and_refuses_iff`
-/

------------------------------------------------------------
-- Ranks
------------------------------------------------------------

namespace Matchbook

namespace RankedKey

theorem compare_self (a : RankedKey) :
    a.compare a = .eq :=
  compare_eq_eq_of_id_eq rfl

/- The other way round the comparison of two keys of one side
is turned. -/
theorem compare_swap
    {a b : RankedKey}
    (hSide : a.side = b.side) :
    b.compare a = (a.compare b).swap := by
  have hPrice :
      b.side.comparePrices b.price a.price =
        (a.side.comparePrices a.price b.price).swap := by
    rw [hSide]
    cases b.side with
    | buy => exact (Int.compare_swap _ _).symm
    | sell => exact (Int.compare_swap _ _).symm
  have hTime :
      Ord.compare a.createdAt b.createdAt =
        (Ord.compare b.createdAt a.createdAt).swap := by
    rw [Timestamp.compare_eq_then,
      Timestamp.compare_eq_then, Ordering.swap_then,
      Int.compare_swap, Nat.compare_swap]
  have hId :
      Ord.compare a.id b.id =
        (Ord.compare b.id a.id).swap :=
    Std.OrientedOrd.eq_swap
  unfold compare
  by_cases hEq : a.id = b.id
  · rw [if_pos hEq, if_pos hEq.symm]
    rfl
  · rw [if_neg hEq, if_neg (Ne.symm hEq), Ordering.swap_then,
      Ordering.swap_then, hPrice, hTime, hId]

end RankedKey

namespace Policy

variable {p : Policy} {a b c : OrderKey}

/- A key with the price it ranks by has a rank. -/
theorem exists_rank
    (h : (p.sortPrice a).isSome) :
    ∃ r, p.rank a = .ok r ∧ r.side = a.side ∧
      r.id = a.id := by
  rcases Option.isSome_iff_exists.1 h with ⟨q, hPrice⟩
  exact
    ⟨_, rank_eq_ok_iff.2 ⟨q, hPrice, rfl⟩, rfl, rfl⟩

/- Keys of one side compare as their ranks do: keys of one id
are equal both ways. -/
theorem compare_eq_ok
    {ra rb : RankedKey}
    (hSide : a.side = b.side)
    (hA : p.rank a = .ok ra)
    (hB : p.rank b = .ok rb) :
    p.compare a b = .ok (ra.compare rb) := by
  rcases rank_eq_ok_iff.1 hA with ⟨_, _, rfl⟩
  rcases rank_eq_ok_iff.1 hB with ⟨_, _, rfl⟩
  unfold compare
  rw [if_neg (not_not_intro hSide)]
  by_cases hId : a.id = b.id
  · rw [if_pos hId, RankedKey.compare_eq_eq_of_id_eq hId]
  · rw [if_neg hId, hA, hB]
    rfl

------------------------------------------------------------
-- Comparisons that fail
------------------------------------------------------------

/- The comparison of two keys fails. -/
def Refuses (p : Policy) (a b : OrderKey) : Prop :=
  ∃ v, p.compare a b = .error v

/- Keys do not compare if they are of different sides, or if
they have different ids and one lacks its price. -/
theorem refuses_iff :
    p.Refuses a b ↔
      a.side ≠ b.side ∨
        a.id ≠ b.id ∧
          (p.sortPrice a = none ∨ p.sortPrice b = none) := by
  unfold Refuses compare
  by_cases hSide : a.side = b.side
  · rw [if_neg (not_not_intro hSide)]
    by_cases hId : a.id = b.id
    · simp [hSide, hId]
    · rw [if_neg hId]
      cases hA : p.sortPrice a <;>
        cases hB : p.sortPrice b <;>
        simp [rank, hA, hB, hSide, hId, bind, Except.bind,
          pure, Except.pure]
  · simp [hSide]

------------------------------------------------------------
-- The order of the keys of one side
------------------------------------------------------------

/- The higher rank of two keys of one side, in plain
words. -/
def Precedes (p : Policy) (a b : OrderKey) : Prop :=
  ∃ q r, p.sortPrice a = some q ∧ p.sortPrice b = some r ∧
    (a.side.IsBetter q r ∨
      Decimal.Same q r ∧
        (a.createdAt.IsBefore b.createdAt ∨
          a.createdAt = b.createdAt ∧ a.id < b.id))

/- Keys that have a rank precede each other as their ranks
do. -/
theorem precedes_iff_outranks
    {ra rb : RankedKey}
    (hA : p.rank a = .ok ra)
    (hB : p.rank b = .ok rb) :
    p.Precedes a b ↔ ra.Outranks rb := by
  rcases rank_eq_ok_iff.1 hA with ⟨q, hPriceA, rfl⟩
  rcases rank_eq_ok_iff.1 hB with ⟨r, hPriceB, rfl⟩
  unfold Precedes RankedKey.Outranks
  simp [hPriceA, hPriceB]

/- Keys of one side with the price they rank by, one key to
an id. -/
structure Ranks
    (p : Policy)
    (side : Side)
    (keys : Set OrderKey) : Prop where
  side_eq : ∀ k ∈ keys, k.side = side
  hasPrice : ∀ k ∈ keys, (p.sortPrice k).isSome
  eq_of_id_eq :
    ∀ a ∈ keys, ∀ b ∈ keys, a.id = b.id → a = b

/-
  The comparison puts keys into a strict total order.  It
  goes by their ranks, turns with its arguments, leaves no two
  ids equal and can be chained.
-/
structure OrdersStrictly
    (p : Policy)
    (keys : Set OrderKey) : Prop where
  eq_rank :
    ∀ a ∈ keys, ∀ b ∈ keys, ∃ ra rb,
      p.rank a = .ok ra ∧ p.rank b = .ok rb ∧
        p.compare a b = .ok (ra.compare rb)
  swap :
    ∀ a ∈ keys, ∀ b ∈ keys,
      p.compare b a = (p.compare a b).map Ordering.swap
  eq_iff :
    ∀ a ∈ keys, ∀ b ∈ keys,
      p.compare a b = .ok .eq ↔ a.id = b.id
  gt_iff :
    ∀ a ∈ keys, ∀ b ∈ keys,
      p.compare a b = .ok .gt ↔ p.Precedes a b
  gt_trans :
    ∀ a ∈ keys, ∀ b ∈ keys, ∀ c ∈ keys,
      p.compare a b = .ok .gt → p.compare b c = .ok .gt →
        p.compare a c = .ok .gt
  not_lt_trans :
    ∀ a ∈ keys, ∀ b ∈ keys, ∀ c ∈ keys,
      p.compare a b ≠ .ok .lt → p.compare b c ≠ .ok .lt →
        p.compare a c ≠ .ok .lt

namespace Ranks

variable {side : Side} {keys : Set OrderKey}

theorem compare_eq_rank
    (h : p.Ranks side keys)
    (ha : a ∈ keys)
    (hb : b ∈ keys) :
    ∃ ra rb, p.rank a = .ok ra ∧ p.rank b = .ok rb ∧
      ra.side = rb.side ∧ ra.id = a.id ∧ rb.id = b.id ∧
      p.compare a b = .ok (ra.compare rb) := by
  rcases exists_rank (h.hasPrice a ha) with
    ⟨ra, hA, hSideA, hIdA⟩
  rcases exists_rank (h.hasPrice b hb) with
    ⟨rb, hB, hSideB, hIdB⟩
  have hSide : a.side = b.side := by
    rw [h.side_eq a ha, h.side_eq b hb]
  exact
    ⟨ra, rb, hA, hB, by rw [hSideA, hSideB, hSide], hIdA,
      hIdB, compare_eq_ok hSide hA hB⟩

theorem compare_eq_eq_iff
    (h : p.Ranks side keys)
    (ha : a ∈ keys)
    (hb : b ∈ keys) :
    p.compare a b = .ok .eq ↔ a.id = b.id := by
  rcases h.compare_eq_rank ha hb with
    ⟨ra, rb, _, _, _, hIdA, hIdB, hCompare⟩
  rw [hCompare, Except.ok.injEq,
    RankedKey.compare_eq_eq_iff, hIdA, hIdB]

/- Keys of one id are one key, which does not precede
itself; all others compare by their ranks. -/
theorem compare_eq_gt_iff
    (h : p.Ranks side keys)
    (ha : a ∈ keys)
    (hb : b ∈ keys) :
    p.compare a b = .ok .gt ↔ p.Precedes a b := by
  rcases h.compare_eq_rank ha hb with
    ⟨ra, rb, hA, hB, _, hIdA, hIdB, hCompare⟩
  rw [precedes_iff_outranks hA hB, hCompare,
    Except.ok.injEq]
  -- The comparison looks at the ids first, the ranks do not.
  by_cases hId : a.id = b.id
  · obtain rfl := h.eq_of_id_eq a ha b hb hId
    obtain rfl := Except.ok.inj (hA.symm.trans hB)
    rw [RankedKey.compare_self]
    exact
      iff_of_false (by decide)
        (RankedKey.not_outranks_self ra)
  · exact RankedKey.compare_eq_gt_iff (by rwa [hIdA, hIdB])

theorem compare_swap
    (h : p.Ranks side keys)
    (ha : a ∈ keys)
    (hb : b ∈ keys) :
    p.compare b a = (p.compare a b).map Ordering.swap := by
  rcases h.compare_eq_rank ha hb with
    ⟨ra, rb, hA, hB, hSide, _, _, hCompare⟩
  have hSides : b.side = a.side := by
    rw [h.side_eq a ha, h.side_eq b hb]
  rw [hCompare, compare_eq_ok hSides hB hA,
    RankedKey.compare_swap hSide]
  rfl

/- What does not compare as less is the same key or precedes
the other one. -/
theorem compare_ne_lt_iff
    (h : p.Ranks side keys)
    (ha : a ∈ keys)
    (hb : b ∈ keys) :
    p.compare a b ≠ .ok .lt ↔ a = b ∨ p.Precedes a b := by
  have hEq : a = b ↔ p.compare a b = .ok .eq := by
    rw [h.compare_eq_eq_iff ha hb]
    exact ⟨congrArg OrderKey.id, h.eq_of_id_eq a ha b hb⟩
  rw [hEq, ← h.compare_eq_gt_iff ha hb]
  rcases h.compare_eq_rank ha hb with
    ⟨ra, rb, _, _, _, _, _, hCompare⟩
  rw [hCompare]
  cases ra.compare rb <;> simp

theorem precedes_trans
    (h : p.Ranks side keys)
    (ha : a ∈ keys)
    (hb : b ∈ keys)
    (hc : c ∈ keys)
    (hab : p.Precedes a b)
    (hbc : p.Precedes b c) :
    p.Precedes a c := by
  rcases h.compare_eq_rank ha hb with
    ⟨ra, rb, hA, hB, hSide, _⟩
  rcases exists_rank (h.hasPrice c hc) with ⟨rc, hC, _⟩
  rw [precedes_iff_outranks hA hB] at hab
  rw [precedes_iff_outranks hB hC] at hbc
  rw [precedes_iff_outranks hA hC]
  exact hab.trans hSide hbc

theorem ordersStrictly
    (h : p.Ranks side keys) :
    p.OrdersStrictly keys where
  eq_rank := by
    intro a ha b hb
    rcases h.compare_eq_rank ha hb with
      ⟨ra, rb, hA, hB, _, _, _, hCompare⟩
    exact ⟨ra, rb, hA, hB, hCompare⟩
  swap _ ha _ hb := h.compare_swap ha hb
  eq_iff _ ha _ hb := h.compare_eq_eq_iff ha hb
  gt_iff _ ha _ hb := h.compare_eq_gt_iff ha hb
  gt_trans := by
    intro a ha b hb c hc
    rw [h.compare_eq_gt_iff ha hb, h.compare_eq_gt_iff hb hc,
      h.compare_eq_gt_iff ha hc]
    exact h.precedes_trans ha hb hc
  not_lt_trans := by
    intro a ha b hb c hc
    rw [h.compare_ne_lt_iff ha hb, h.compare_ne_lt_iff hb hc,
      h.compare_ne_lt_iff ha hc]
    rintro (rfl | hab) (rfl | hbc)
    · exact Or.inl rfl
    · exact Or.inr hbc
    · exact Or.inr hab
    · exact Or.inr (h.precedes_trans ha hb hc hab hbc)

end Ranks

/-
  What the comparison of keys is: a strict total order of the
  keys of one side that have a rank, one key to an id, and a
  refusal in both directions for keys that do not compare.
-/
theorem ordersStrictly_and_refuses_iff (p : Policy) :
    (∀ side keys, p.Ranks side keys → p.OrdersStrictly keys) ∧
      ∀ a b,
        (p.Refuses a b ↔ p.Refuses b a) ∧
          (p.Refuses a b ↔
            a.side ≠ b.side ∨
              a.id ≠ b.id ∧
                (p.sortPrice a = none ∨
                  p.sortPrice b = none)) := by
  refine ⟨fun _ _ h => h.ordersStrictly, ?_⟩
  intro a b
  refine ⟨?_, refuses_iff⟩
  rw [refuses_iff, refuses_iff, ne_comm (a := a.side),
    ne_comm (a := a.id), or_comm (a := p.sortPrice a = none)]

/- An ask at 0.99 and three spellings of 1, two of them of
one time, from the highest rank to the lowest. -/
def tiedAsks : List OrderKey :=
  [⟨4, .sell, Decimal.ofParts? 99 2, none, .ofNanos 9⟩,
    ⟨2, .sell, Decimal.ofParts? 100 2, none, .ofNanos 5⟩,
    ⟨3, .sell, Decimal.ofParts? 10 1, none, .ofNanos 5⟩,
    ⟨1, .sell, Decimal.ofParts? 1 0, none, .ofNanos 7⟩]

/- The cheapest ask comes first, then the earlier ones, by
their ids. -/
theorem ordersStrictly_of_tiedAsks :
    price.Ranks .sell {k | k ∈ tiedAsks} ∧
      price.OrdersStrictly {k | k ∈ tiedAsks} ∧
      tiedAsks.Pairwise fun a b =>
        (price.compare a b).toOption = some .gt := by
  have hSide : ∀ k ∈ tiedAsks, k.side = .sell := by
    decide +kernel
  have hPrice :
      ∀ k ∈ tiedAsks, (price.sortPrice k).isSome := by
    decide +kernel
  have hId :
      ∀ a ∈ tiedAsks, ∀ b ∈ tiedAsks,
        a.id = b.id → a = b := by
    decide +kernel
  have hRanks : price.Ranks .sell {k | k ∈ tiedAsks} :=
    ⟨hSide, hPrice, hId⟩
  exact
    ⟨hRanks,
      (ordersStrictly_and_refuses_iff price).1 _ _ hRanks,
      by decide +kernel⟩

end Policy

end Matchbook
