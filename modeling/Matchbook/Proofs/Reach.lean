import Matchbook.Proofs.Ladder
import Matchbook.Proofs.Meeting

/-
  How far a taker reaches down a ladder: a taker that accepts
  a price accepts every better one, so that the orders out of
  its reach are at the end.

  The main statements are:
    * `Order.Accepts.of_better`
    * `RankedEntries.isApartFrom_of_head`
-/

------------------------------------------------------------
-- Prices
------------------------------------------------------------

namespace Matchbook

/- A price that is no worse for a side. -/
def Side.IsNoWorse (s : Side) (p q : Decimal) : Prop :=
  s.IsBetter p q ∨ Decimal.Same p q

theorem Side.IsNoWorse.le_of_sell
    {p q : Decimal}
    (h : Side.sell.IsNoWorse p q) :
    p ≤ q := by
  rcases h with hBetter | hSame
  · exact Int.le_of_lt hBetter
  · exact Int.le_of_eq hSame

theorem Side.IsNoWorse.ge_of_buy
    {p q : Decimal}
    (h : Side.buy.IsNoWorse p q) :
    p ≥ q := by
  rcases h with hBetter | hSame
  · exact Int.le_of_lt hBetter
  · exact Int.le_of_eq hSame.symm

theorem Order.accepts_of_isMarket
    {taker : Order}
    (h : taker.isMarket)
    (price : Decimal) :
    taker.Accepts price := by
  have hNone : taker.price = none := by
    simpa [isMarket] using h
  unfold Accepts
  rw [hNone]
  trivial

/- What is no worse for the makers is no less welcome to the
taker. -/
theorem Order.Accepts.of_better
    {taker : Order}
    {p q : Decimal}
    (h : taker.Accepts q)
    (hBetter : taker.side.opposite.IsNoWorse p q) :
    taker.Accepts p := by
  unfold Accepts at *
  cases hPrice : taker.price with
  | none => trivial
  | some limit =>
      cases hSide : taker.side with
      | buy =>
          simp only [hPrice, hSide] at h
          rw [hSide] at hBetter
          change p.units < q.units ∨ p.units = q.units
            at hBetter
          change q.units ≤ limit.units at h
          change p.units ≤ limit.units
          omega
      | sell =>
          simp only [hPrice, hSide] at h
          rw [hSide] at hBetter
          change q.units < p.units ∨ p.units = q.units
            at hBetter
          change limit.units ≤ q.units at h
          change limit.units ≤ p.units
          omega

/- A higher rank comes with a price that is no worse. -/
theorem RankedKey.Outranks.isNoWorse
    {a b : RankedKey}
    (h : a.Outranks b) :
    a.side.IsNoWorse a.price b.price :=
  h.imp_right And.left

------------------------------------------------------------
-- Ladders
------------------------------------------------------------

theorem Entry.IsRanked.price_eq
    {side : Side}
    {e : Entry Order}
    (h : e.IsRanked side .price) :
    e.item.price = some e.key.price := by
  rcases Policy.rank_eq_ok_iff.1 h.rank_eq with
    ⟨price, hPrice, hKey⟩
  rw [hKey]
  exact hPrice

/- A taker that does not reach the best maker reaches none. -/
theorem RankedEntries.isApartFrom_of_head
    {side : Side}
    {e : Entry Order}
    {rest : List (Entry Order)}
    {taker : Order}
    (h : RankedEntries side .price (e :: rest))
    (hApart : e.item.IsApartFrom taker) :
    ∀ e' ∈ e :: rest, e'.item.IsApartFrom taker := by
  intro e' he'
  have hHead := h.ranked e (List.mem_cons_self ..)
  have hEntry := h.ranked e' he'
  rcases hApart with ⟨hSide, price, hPrice, hFar⟩
  rw [hHead.price_eq] at hPrice
  cases hPrice
  rw [hHead.side_eq] at hSide
  refine ⟨hEntry.side_eq ▸ hSide, e'.key.price,
    hEntry.price_eq, ?_⟩
  intro hNear
  apply hFar
  rcases List.mem_cons.1 he' with rfl | hRest
  · exact hNear
  · have hOver :=
      (List.pairwise_cons.1 h.sorted).1 e' hRest
    apply hNear.of_better
    have hOpposite :=
      Side.ne_iff_eq_opposite.1 (Ne.symm hSide)
    rw [← hOpposite, ← hHead.key_side]
    exact hOver.isNoWorse

end Matchbook
