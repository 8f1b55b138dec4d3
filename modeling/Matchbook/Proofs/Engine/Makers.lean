import Matchbook.Proofs.Engine.Matching
import Matchbook.Proofs.Reach
import Mathlib.Data.List.Destutter

/-
  The makers in the course of a matching: they trade in the
  order of their rank, each one until it is filled.

  Key definitions include:
    * `Matching.Leaves`
    * `Matching.Uses`

  The main statements are:
    * `Matching.Runs.exists_uses`
    * `Matching.Runs.prices_sorted`
    * `Matching.Runs.isApartFrom`
-/

------------------------------------------------------------
-- Repeats
------------------------------------------------------------

namespace Matchbook

section Repeats

variable {α : Type} [DecidableEq α]

private theorem head?_destutter'
    (a : α)
    (l : List α) :
    (l.destutter' (· ≠ ·) a).head? = some a := by
  induction l with
  | nil => rfl
  | cons b l ih =>
      by_cases hEq : a ≠ b
      · rw [List.destutter'_cons_pos _ hEq]
        rfl
      · rw [List.destutter'_cons_neg _ hEq]
        exact ih

theorem head?_destutter
    (l : List α) :
    (l.destutter (· ≠ ·)).head? = l.head? := by
  cases l with
  | nil => rfl
  | cons a l => exact head?_destutter' a l

/- One more element in front is dropped if it repeats. -/
theorem destutter_cons
    (a : α)
    (l : List α) :
    (a :: l).destutter (· ≠ ·) =
      if l.head? = some a then
        l.destutter (· ≠ ·)
      else
        a :: l.destutter (· ≠ ·) := by
  cases l with
  | nil => rfl
  | cons b l =>
      rw [List.destutter_cons', List.destutter_cons']
      by_cases hEq : a = b
      · subst hEq
        rw [List.destutter'_cons_neg _ (not_not.2 rfl),
          List.head?_cons, if_pos rfl]
      · rw [List.destutter'_cons_pos _ hEq,
          List.head?_cons, if_neg]
        exact fun hHead => hEq (Option.some.inj hHead).symm

end Repeats

------------------------------------------------------------
-- Ranks
------------------------------------------------------------

/- After a trade every maker is one that was there before, but
for its filled quantity. -/
theorem Deal.IsStruck.with_filled_of_mem_remaining
    {e e' : Entry Order}
    {rest : List (Entry Order)}
    {d : Deal}
    {taker : Order}
    (hStruck : d.IsStruck e.item taker)
    (he' : e' ∈ Matching.remaining e.key d.maker rest) :
    ∃ e'' ∈ e :: rest,
      e'.item = { e''.item with filled := e'.item.filled } := by
  unfold Matching.remaining at he'
  split at he'
  · exact ⟨e', List.mem_cons_of_mem _ he', rfl⟩
  · rcases List.mem_cons.1 he' with rfl | hRest
    · exact
        ⟨e, List.mem_cons_self .., hStruck.maker_with_filled⟩
    · exact ⟨e', List.mem_cons_of_mem _ hRest, rfl⟩

/- In particular it has the price of one. -/
theorem Deal.IsStruck.exists_of_mem_remaining
    {e e' : Entry Order}
    {rest : List (Entry Order)}
    {d : Deal}
    {taker : Order}
    (hStruck : d.IsStruck e.item taker)
    (he' : e' ∈ Matching.remaining e.key d.maker rest) :
    ∃ e'' ∈ e :: rest, e'.item.price = e''.item.price := by
  rcases hStruck.with_filled_of_mem_remaining he' with
    ⟨e'', he'', hSame⟩
  refine ⟨e'', he'', ?_⟩
  rw [hSame]

/- A maker that has traded is ranked as it was. -/
theorem Deal.IsStruck.rankedEntries_cons
    {side : Side}
    {e : Entry Order}
    {rest : List (Entry Order)}
    {d : Deal}
    {taker : Order}
    (hStruck : d.IsStruck e.item taker)
    (h : RankedEntries side .price (e :: rest)) :
    RankedEntries side .price (⟨e.key, d.maker⟩ :: rest) := by
  have hHead := h.ranked e (List.mem_cons_self ..)
  constructor
  · intro e' he'
    rcases List.mem_cons.1 he' with rfl | hRest
    · constructor
      · rw [hStruck.maker_with_filled]
        exact hHead.side_eq
      · rw [hStruck.maker_with_filled]
        exact hHead.rank_eq
    · exact h.ranked e' (List.mem_cons_of_mem _ hRest)
  · rcases List.pairwise_cons.1 h.sorted with
      ⟨hFirst, hRest⟩
    exact List.pairwise_cons.2 ⟨hFirst, hRest⟩

/- After a trade the makers that are left are ranked as they
were. -/
theorem Deal.IsStruck.rankedEntries_remaining
    {side : Side}
    {e : Entry Order}
    {rest : List (Entry Order)}
    {d : Deal}
    {taker : Order}
    (hStruck : d.IsStruck e.item taker)
    (h : RankedEntries side .price (e :: rest)) :
    RankedEntries side .price
      (Matching.remaining e.key d.maker rest) := by
  unfold Matching.remaining
  split
  · exact h.sublist (List.sublist_cons_self _ _)
  · exact hStruck.rankedEntries_cons h

namespace Matching

variable {now : Timestamp}
variable {id : UInt64}
variable {makers : List (Entry Order)}
variable {taker : Order}
variable {m : Matching}
variable {side : Side}

theorem Runs.rankedEntries
    (h : Runs now id makers taker m)
    (hRanked : RankedEntries side .price makers) :
    RankedEntries side .price m.makers := by
  induction h with
  | filled => exact hRanked
  | empty => exact hRanked
  | apart => exact hRanked
  | broken => exact hRanked
  | traded _ hMeet _ ih =>
      apply ih
      exact
        (Deal.isStruck_of_meet?
          hMeet).1.rankedEntries_remaining hRanked

/- A taker that stops short of filled has reached all that it
can reach. -/
theorem Runs.isApartFrom
    (h : Runs now id makers taker m)
    (hRanked : RankedEntries side .price makers)
    (hIntact : m.violation = none)
    (hOpen : ¬ m.taker.IsFilled) :
    ∀ e ∈ m.makers, e.item.IsApartFrom m.taker := by
  have hLeft := h.rankedEntries hRanked
  intro e he
  cases h.isStopped with
  | filled hFilled => exact absurd hFilled hOpen
  | empty _ hNone =>
      rw [hNone] at he
      cases he
  | apart _ hMakers hApart =>
      rw [hMakers] at he hLeft
      exact hLeft.isApartFrom_of_head hApart e he
  | broken _ _ _ hBroken =>
      rw [hIntact] at hBroken
      cases hBroken

------------------------------------------------------------
-- Prices
------------------------------------------------------------

/- The price of a trade is the price of a maker. -/
theorem Runs.exists_maker_of_trade
    (h : Runs now id makers taker m)
    {t : Trade}
    (ht : t ∈ m.trades) :
    ∃ e ∈ makers, e.item.price = some t.price := by
  induction h with
  | filled => cases ht
  | empty => cases ht
  | apart => cases ht
  | broken => cases ht
  | @traded _ e rest _ d _ _ hMeet _ ih =>
      have hStruck := (Deal.isStruck_of_meet? hMeet).1
      rcases List.mem_cons.1 ht with rfl | ht
      · exact ⟨e, List.mem_cons_self .., hStruck.price_eq⟩
      rcases ih ht with ⟨e', he', hPrice⟩
      rcases hStruck.exists_of_mem_remaining he' with
        ⟨e'', he'', hSame⟩
      exact ⟨e'', he'', hSame.symm.trans hPrice⟩

/- No maker has a better price than the first one. -/
theorem isNoWorse_of_head
    {e e' : Entry Order}
    {rest : List (Entry Order)}
    (hRanked : RankedEntries side .price (e :: rest))
    (he' : e' ∈ e :: rest) :
    side.IsNoWorse e.key.price e'.key.price := by
  rcases List.mem_cons.1 he' with rfl | hRest
  · exact Or.inr rfl
  · rw [← (hRanked.ranked e
      (List.mem_cons_self ..)).key_side]
    exact
      ((List.pairwise_cons.1 hRanked.sorted).1 e'
        hRest).isNoWorse

/- Prices get worse for the taker, if they change at all. -/
theorem Runs.prices_sorted
    (h : Runs now id makers taker m)
    (hRanked : RankedEntries side .price makers) :
    (m.trades.map Trade.price).Pairwise side.IsNoWorse := by
  induction h with
  | filled => exact List.Pairwise.nil
  | empty => exact List.Pairwise.nil
  | apart => exact List.Pairwise.nil
  | broken => exact List.Pairwise.nil
  | @traded id e rest taker d m hOpen hMeet hRest ih =>
      have hStruck := (Deal.isStruck_of_meet? hMeet).1
      have hNext := hStruck.rankedEntries_remaining hRanked
      refine List.pairwise_cons.2 ⟨?_, ih hNext⟩
      intro price hPrice
      rcases List.mem_map.1 hPrice with ⟨t, ht, rfl⟩
      have hAll := Runs.traded hOpen hMeet hRest
      rcases
          hAll.exists_maker_of_trade
            (List.mem_cons_of_mem _ ht) with
        ⟨e', he', hPrice'⟩
      have hFirst :=
        (hRanked.ranked e (List.mem_cons_self ..)).price_eq
      rw [hStruck.price_eq] at hFirst
      rw [(hRanked.ranked e' he').price_eq] at hPrice'
      rw [Option.some.inj hFirst, ← Option.some.inj hPrice']
      exact isNoWorse_of_head hRanked he'

------------------------------------------------------------
-- Makers that have traded
------------------------------------------------------------

/- What may be left of the makers that have traded: nothing,
or the last one with a larger part of it filled. -/
def Leaves (used kept : List (Entry Order)) : Prop :=
  kept = [] ∨
    ∃ earlier e f,
      used = earlier ++ [e] ∧
        kept = [⟨e.key, { e.item with filled := f }⟩]

/- A matching in which exactly the makers `used` trade, one
after the other; those behind them stay as they are. -/
structure Uses
    (makers used : List (Entry Order))
    (m : Matching) : Prop where
  ids_eq :
    (m.trades.map Trade.makerOrderId).destutter (· ≠ ·) =
      used.map fun e => e.item.id
  makers_eq :
    ∃ kept behind,
      makers = used ++ behind ∧
        m.makers = kept ++ behind ∧ Leaves used kept

theorem uses_nil
    (makers : List (Entry Order))
    (taker : Order)
    (violation : Option Violation) :
    Uses makers [] ⟨[], makers, taker, violation⟩ where
  ids_eq := rfl
  makers_eq := ⟨[], makers, rfl, rfl, Or.inl rfl⟩

/- The first maker is filled, the others follow. -/
theorem Uses.cons_filled
    {e : Entry Order}
    {rest used : List (Entry Order)}
    {d : Deal}
    (h : Uses rest used m)
    (hId : d.trade.makerOrderId = e.item.id)
    (hNew : e.item.id ∉ rest.map fun e' => e'.item.id) :
    Uses (e :: rest) (e :: used) (m.after d) := by
  rcases h.makers_eq with
    ⟨kept, behind, hMakers, hLeft, hKept⟩
  constructor
  · change
      (d.trade.makerOrderId ::
        m.trades.map Trade.makerOrderId).destutter
          (· ≠ ·) = _
    rw [destutter_cons, hId, ← head?_destutter, h.ids_eq,
      if_neg]
    · rfl
    · intro hHead
      apply hNew
      rw [hMakers, List.map_append]
      apply List.mem_append_left
      exact List.mem_of_head? hHead
  · refine ⟨kept, behind, by rw [hMakers]; rfl, hLeft, ?_⟩
    rcases hKept with hNone | ⟨earlier, last, f, hUsed, hLast⟩
    · exact Or.inl hNone
    · refine Or.inr ⟨e :: earlier, last, f, ?_, hLast⟩
      rw [hUsed]
      rfl

/- The first maker is not filled: the taker stops, or they go
on to trade with each other. -/
theorem Uses.cons_open
    {e : Entry Order}
    {rest used : List (Entry Order)}
    {d : Deal}
    (h : Uses (⟨e.key, d.maker⟩ :: rest) used m)
    (hId : d.trade.makerOrderId = e.item.id)
    (hMaker :
      d.maker = { e.item with filled := d.maker.filled }) :
    ∃ used', Uses (e :: rest) used' (m.after d) := by
  have hSame : d.maker.id = e.item.id := by rw [hMaker]
  rcases h.makers_eq with
    ⟨kept, behind, hMakers, hLeft, hKept⟩
  have hIds : (m.after d).trades.map Trade.makerOrderId =
      e.item.id :: m.trades.map Trade.makerOrderId := by
    rw [← hId]
    rfl
  cases used with
  | nil =>
      have hNone : kept = [] := by
        rcases hKept with hNone | ⟨earlier, _, _, hEq, _⟩
        · exact hNone
        · simp at hEq
      rw [hNone, ← hMakers] at hLeft
      refine ⟨[e], ?_, ?_⟩
      · rw [hIds, destutter_cons, ← head?_destutter,
          h.ids_eq]
        rfl
      · refine
          ⟨[⟨e.key, d.maker⟩], rest, rfl, hLeft,
            Or.inr ⟨[], e, d.maker.filled, rfl, ?_⟩⟩
        rw [← hMaker]
  | cons first used =>
      rcases List.cons_eq_cons.1 hMakers with
        ⟨rfl, hRest⟩
      refine ⟨e :: used, ?_, ?_⟩
      · rw [hIds, destutter_cons, ← head?_destutter,
          h.ids_eq, if_pos]
        · rw [List.map_cons, List.map_cons, hSame]
        · rw [List.map_cons, hSame]
          rfl
      · refine
          ⟨kept, behind, by rw [hRest]; rfl, hLeft, ?_⟩
        rcases hKept with
          hNone | ⟨earlier, last, f, hUsed, hLast⟩
        · exact Or.inl hNone
        right
        cases earlier with
        | nil =>
            rcases List.cons_eq_cons.1 hUsed with
              ⟨rfl, rfl⟩
            refine ⟨[], e, f, rfl, ?_⟩
            rw [hLast, hMaker]
        | cons _ earlier =>
            rcases List.cons_eq_cons.1 hUsed with
              ⟨_, rfl⟩
            exact ⟨e :: earlier, last, f, rfl, hLast⟩

/- Only the first makers trade, in their order and each one
without a break. -/
theorem Runs.exists_uses
    (h : Runs now id makers taker m)
    (hNodup : (makers.map fun e => e.item.id).Nodup) :
    ∃ used, Uses makers used m := by
  induction h with
  | filled => exact ⟨[], uses_nil _ _ _⟩
  | empty => exact ⟨[], uses_nil _ _ _⟩
  | apart => exact ⟨[], uses_nil _ _ _⟩
  | broken => exact ⟨[], uses_nil _ _ _⟩
  | @traded id e rest taker d m hOpen hMeet hRest ih =>
      have hStruck := (Deal.isStruck_of_meet? hMeet).1
      rw [List.map_cons, List.nodup_cons] at hNodup
      unfold remaining at ih
      split at ih
      · rcases ih hNodup.2 with ⟨used, hUses⟩
        exact
          ⟨e :: used,
            hUses.cons_filled hStruck.makerOrderId_eq
              hNodup.1⟩
      · have hSame : d.maker.id = e.item.id := by
          rw [hStruck.maker_with_filled]
        rw [List.map_cons, List.nodup_cons] at ih
        rw [hSame] at ih
        rcases ih hNodup with ⟨used, hUses⟩
        exact
          hUses.cons_open hStruck.makerOrderId_eq
            hStruck.maker_with_filled

end Matching

end Matchbook
