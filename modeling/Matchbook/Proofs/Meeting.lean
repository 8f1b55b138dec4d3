import Matchbook.Meeting
import Matchbook.Proofs.Decimal.Exact

/-
  The outcomes of a meeting, each with exactly what it takes.

  Key definitions include:
    * `Order.IsApartFrom`
    * `Deal.IsStruck`
    * `Deal.IsGain`
    * `Order.IsStuckWith`
    * `Order.CanTradeWith`

  The main statements are:
    * `Order.meet?_eq_apart_iff`
    * `Deal.isStruck_of_meet?`
    * `Deal.IsStruck.isGain`
    * `Order.meet?_eq_broken_iff`
    * `Order.not_isStuckWith_iff`
-/

------------------------------------------------------------
-- Orders out of reach
------------------------------------------------------------

namespace Matchbook

namespace Order

/- A maker whose price the taker does not accept. -/
def IsApartFrom (maker taker : Order) : Prop :=
  maker.side ≠ taker.side ∧
    ∃ price, maker.price = some price ∧
      ¬ taker.Accepts price

theorem exchange?_ne_apart
    {maker taker : Order}
    {id : UInt64}
    {price quantity : Decimal}
    {now : Timestamp} :
    exchange? maker taker id price quantity now ≠
      some .apart := by
  unfold exchange?
  intro h
  split at h
  · cases h
  · split at h <;> cases h

theorem meet?_eq_apart_iff
    {maker taker : Order}
    {id : UInt64}
    {now : Timestamp} :
    maker.meet? taker id now = some .apart ↔
      maker.IsApartFrom taker := by
  unfold meet? IsApartFrom
  constructor
  · intro h
    split at h
    · cases h
    rename_i hSide
    split at h
    · cases h
    rename_i price hPrice
    split at h
    · rcases Option.bind_eq_some_iff.1 h with
        ⟨makerOpen, _, h⟩
      split at h
      · cases h
      rcases Option.bind_eq_some_iff.1 h with
        ⟨takerOpen, _, h⟩
      split at h
      · cases h
      · exact absurd h exchange?_ne_apart
    · rename_i hAccepts
      exact ⟨hSide, price, hPrice, hAccepts⟩
  · rintro ⟨hSide, price, hPrice, hAccepts⟩
    simp only [if_neg hSide, hPrice, if_neg hAccepts]

------------------------------------------------------------
-- Fills
------------------------------------------------------------

/- A positive fill never lowers the filled quantity. -/
theorem filled_le_fill?
    {o o' : Order}
    {amount : Decimal}
    (h : o.fill? amount = some o')
    (hPos : 0 < amount.units) :
    o.filled ≤ o'.filled := by
  rcases fill?_eq_some h with ⟨f, hf, rfl⟩
  exact Decimal.le_add? hf hPos

/- To fill what is open always raises it. -/
theorem filled_lt_fill?
    {o o' : Order}
    {stillOpen amount : Decimal}
    (hPending : o.pending? = some stillOpen)
    (hSame : Decimal.Same amount stillOpen)
    (h : o.fill? amount = some o')
    (hPos : 0 < stillOpen.units) :
    o.filled < o'.filled := by
  rcases fill?_eq_some h with ⟨f, hf, rfl⟩
  exact Decimal.lt_add?_of_same_sub? hPending hSame hf hPos

end Order

------------------------------------------------------------
-- Deals
------------------------------------------------------------

/-
  A deal between a maker and a taker as they were before it:
  the lesser of what is open of both, at the price of the
  maker.
-/
structure Deal.IsStruck
    (d : Deal)
    (maker taker : Order) : Prop where
  side_ne : maker.side ≠ taker.side
  price_eq : maker.price = some d.trade.price
  accepts : taker.Accepts d.trade.price
  quantity_eq :
    ∃ makerOpen takerOpen,
      maker.pending? = some makerOpen ∧
      taker.pending? = some takerOpen ∧
      0 < makerOpen.units ∧ 0 < takerOpen.units ∧
      d.trade.quantity = Decimal.least makerOpen takerOpen
  total_eq :
    d.trade.price.product? d.trade.quantity =
      some d.trade.total
  maker_eq : maker.fill? d.trade.quantity = some d.maker
  taker_eq : taker.fill? d.trade.quantity = some d.taker
  makerOrderId_eq : d.trade.makerOrderId = maker.id
  takerOrderId_eq : d.trade.takerOrderId = taker.id

namespace Deal

theorem isStruck_of_meet?
    {d : Deal}
    {maker taker : Order}
    {id : UInt64}
    {now : Timestamp}
    (h :
      maker.meet? taker id now =
        some (.traded d.trade d.maker d.taker)) :
    d.IsStruck maker taker ∧ d.trade.id = id := by
  rcases d with ⟨t, maker', taker'⟩
  rcases Order.meet?_eq_traded h with
    ⟨price, makerOpen, takerOpen, hSide, hPrice, hAccepts,
      hMaker, hMakerPos, hTaker, hTakerPos, hExchange⟩
  rcases Order.exchange?_eq_traded hExchange with
    ⟨total, hTotal, hFillMaker, hFillTaker, hTrade⟩
  dsimp only at hTrade
  subst hTrade
  refine ⟨?_, rfl⟩
  exact
    { side_ne := hSide
      price_eq := hPrice
      accepts := hAccepts
      quantity_eq :=
        ⟨makerOpen, takerOpen, hMaker, hTaker, hMakerPos,
          hTakerPos, rfl⟩
      total_eq := hTotal
      maker_eq := hFillMaker
      taker_eq := hFillTaker
      makerOrderId_eq := rfl
      takerOrderId_eq := rfl }

namespace IsStruck

variable {d : Deal} {maker taker : Order}

theorem quantity_pos
    (h : d.IsStruck maker taker) :
    0 < d.trade.quantity.units := by
  rcases h.quantity_eq with
    ⟨makerOpen, takerOpen, _, _, hMaker, hTaker, hLeast⟩
  rw [hLeast, Decimal.units_least]
  omega

/- A deal is no larger than what is open of the maker. -/
theorem quantity_le_maker
    (h : d.IsStruck maker taker) :
    ∃ makerOpen, maker.pending? = some makerOpen ∧
      d.trade.quantity.units ≤ makerOpen.units := by
  rcases h.quantity_eq with
    ⟨makerOpen, takerOpen, hMaker, _, _, _, hLeast⟩
  refine ⟨makerOpen, hMaker, ?_⟩
  rw [hLeast, Decimal.units_least]
  omega

/- A deal is no larger than what is open of the taker. -/
theorem quantity_le_taker
    (h : d.IsStruck maker taker) :
    ∃ takerOpen, taker.pending? = some takerOpen ∧
      d.trade.quantity.units ≤ takerOpen.units := by
  rcases h.quantity_eq with
    ⟨makerOpen, takerOpen, _, hTaker, _, _, hLeast⟩
  refine ⟨takerOpen, hTaker, ?_⟩
  rw [hLeast, Decimal.units_least]
  omega

/- The filled quantity is all that a deal changes. -/
theorem maker_with_filled
    (h : d.IsStruck maker taker) :
    d.maker = { maker with filled := d.maker.filled } := by
  rcases Order.fill?_eq_some h.maker_eq with ⟨f, _, hEq⟩
  rw [hEq]

theorem taker_with_filled
    (h : d.IsStruck maker taker) :
    d.taker = { taker with filled := d.taker.filled } := by
  rcases Order.fill?_eq_some h.taker_eq with ⟨f, _, hEq⟩
  rw [hEq]

end IsStruck

/-
  What a deal does to the filled quantities, rounded or not:
  nobody loses, and whoever has the least open gains.
-/
structure IsGain
    (d : Deal)
    (maker taker : Order) : Prop where
  maker_le : maker.filled ≤ d.maker.filled
  taker_le : taker.filled ≤ d.taker.filled
  maker_lt :
    ∀ makerOpen takerOpen,
      maker.pending? = some makerOpen →
        taker.pending? = some takerOpen →
          makerOpen ≤ takerOpen →
            maker.filled < d.maker.filled
  taker_lt :
    ∀ makerOpen takerOpen,
      maker.pending? = some makerOpen →
        taker.pending? = some takerOpen →
          takerOpen ≤ makerOpen →
            taker.filled < d.taker.filled

theorem IsStruck.isGain
    {d : Deal}
    {maker taker : Order}
    (h : d.IsStruck maker taker) :
    d.IsGain maker taker := by
  rcases h.quantity_eq with
    ⟨makerOpen, takerOpen, hMaker, hTaker, hMakerPos,
      hTakerPos, hLeast⟩
  have hUnits := Decimal.units_least makerOpen takerOpen
  rw [← hLeast] at hUnits
  refine
    { maker_le := Order.filled_le_fill? h.maker_eq
        h.quantity_pos
      taker_le := Order.filled_le_fill? h.taker_eq
        h.quantity_pos
      maker_lt := ?_
      taker_lt := ?_ }
  · intro mine yours hMine hYours hLe
    rw [hMaker] at hMine
    rw [hTaker] at hYours
    cases hMine
    cases hYours
    have hSame :
        Decimal.Same d.trade.quantity makerOpen := by
      have hLess := Decimal.le_iff_units.1 hLe
      rw [Decimal.same_iff_units]
      omega
    exact
      Order.filled_lt_fill? hMaker hSame h.maker_eq
        hMakerPos
  · intro mine yours hMine hYours hLe
    rw [hMaker] at hMine
    rw [hTaker] at hYours
    cases hMine
    cases hYours
    have hSame :
        Decimal.Same d.trade.quantity takerOpen := by
      have hLess := Decimal.le_iff_units.1 hLe
      rw [Decimal.same_iff_units]
      omega
    exact
      Order.filled_lt_fill? hTaker hSame h.taker_eq
        hTakerPos

end Deal

------------------------------------------------------------
-- Broken contracts
------------------------------------------------------------

namespace Order

/-
  A maker and a taker that should trade and cannot: nothing is
  open of one of them, or the digits of the total do not fit.
-/
def IsStuckWith (maker taker : Order) : Prop :=
  ∃ price makerOpen,
    maker.price = some price ∧ taker.Accepts price ∧
    maker.pending? = some makerOpen ∧
    (makerOpen ≤ 0 ∨
      ∃ takerOpen, taker.pending? = some takerOpen ∧
        (takerOpen ≤ 0 ∨
          price.product?
            (Decimal.least makerOpen takerOpen) = none))

theorem exchange?_eq_broken_iff
    {maker taker : Order}
    {id : UInt64}
    {price quantity : Decimal}
    {now : Timestamp} :
    (∃ cause,
      exchange? maker taker id price quantity now =
        some (.broken cause)) ↔
      price.product? quantity = none := by
  unfold exchange?
  constructor
  · rintro ⟨cause, h⟩
    split at h
    · rename_i hNone
      exact hNone
    · split at h <;> cases h
  · intro hNone
    rw [hNone]
    exact ⟨_, rfl⟩

/- Between a priced maker and a taker of the other side there
are no broken contracts but these. -/
theorem meet?_eq_broken_iff
    {maker taker : Order}
    {id : UInt64}
    {now : Timestamp}
    (hSide : maker.side ≠ taker.side)
    (hPriced : maker.price.isSome) :
    (∃ cause,
      maker.meet? taker id now = some (.broken cause)) ↔
      maker.IsStuckWith taker := by
  rcases Option.isSome_iff_exists.1 hPriced with
    ⟨price, hPrice⟩
  unfold meet? IsStuckWith
  simp only [if_neg hSide, hPrice]
  constructor
  · rintro ⟨cause, h⟩
    split at h
    · rename_i hAccepts
      rcases Option.bind_eq_some_iff.1 h with
        ⟨makerOpen, hMaker, h⟩
      refine ⟨price, makerOpen, rfl, hAccepts, hMaker, ?_⟩
      split at h
      · rename_i hNothing
        exact Or.inl hNothing
      right
      rcases Option.bind_eq_some_iff.1 h with
        ⟨takerOpen, hTaker, h⟩
      refine ⟨takerOpen, hTaker, ?_⟩
      split at h
      · rename_i hNothing
        exact Or.inl hNothing
      · exact Or.inr (exchange?_eq_broken_iff.1 ⟨_, h⟩)
    · cases h
  · rintro ⟨price', makerOpen, hEq, hAccepts, hMaker, hWhy⟩
    cases hEq
    rw [if_pos hAccepts, hMaker, Option.bind_some]
    by_cases hNothing : makerOpen ≤ 0
    · rw [if_pos hNothing]
      exact ⟨_, rfl⟩
    rcases hWhy with hWhy | ⟨takerOpen, hTaker, hWhy⟩
    · exact absurd hWhy hNothing
    rw [if_neg hNothing, hTaker, Option.bind_some]
    by_cases hNothing' : takerOpen ≤ 0
    · rw [if_pos hNothing']
      exact ⟨_, rfl⟩
    rw [if_neg hNothing']
    rcases hWhy with hWhy | hWhy
    · exact absurd hWhy hNothing'
    · exact exchange?_eq_broken_iff.2 hWhy

------------------------------------------------------------
-- Orders that can trade
------------------------------------------------------------

/-
  A maker and a taker that can trade, if the taker accepts the
  price: neither is filled up, and all digits of the price and
  the lesser open quantity fit into one product.
-/
def CanTradeWith (maker taker : Order) : Prop :=
  ∀ price makerOpen,
    maker.price = some price → taker.Accepts price →
      maker.pending? = some makerOpen →
        maker.filled < maker.quantity ∧
          ∀ takerOpen, taker.pending? = some takerOpen →
            taker.filled < taker.quantity ∧
              price.FitsProduct
                (Decimal.least makerOpen takerOpen)

/- Something is pending of an order exactly as long as it is
not filled up. -/
theorem pending_le_zero_iff
    {o : Order}
    {pending : Decimal}
    (h : o.pending? = some pending) :
    pending ≤ 0 ↔ ¬ o.filled < o.quantity := by
  have hSign := Decimal.units_sub?_pos_iff h
  rw [Decimal.le_iff_units, Decimal.lt_iff_units,
    Decimal.units_zero]
  omega

theorem not_isStuckWith_iff
    {maker taker : Order}
    (hPrice : ∀ p, maker.price = some p → 0 < p) :
    ¬ maker.IsStuckWith taker ↔
      maker.CanTradeWith taker := by
  constructor
  · intro hFree price makerOpen hEq hAccepts hMaker
    have hMakerOpen : ¬ makerOpen ≤ 0 := by
      intro hNothing
      exact
        hFree
          ⟨price, makerOpen, hEq, hAccepts, hMaker,
            Or.inl hNothing⟩
    refine
      ⟨not_not.1 (mt (pending_le_zero_iff hMaker).2
        hMakerOpen), ?_⟩
    intro takerOpen hTaker
    have hTakerOpen : ¬ takerOpen ≤ 0 := by
      intro hNothing
      exact
        hFree
          ⟨price, makerOpen, hEq, hAccepts, hMaker,
            Or.inr ⟨takerOpen, hTaker, Or.inl hNothing⟩⟩
    refine
      ⟨not_not.1 (mt (pending_le_zero_iff hTaker).2
        hTakerOpen), ?_⟩
    by_contra hDigits
    apply hFree
    refine
      ⟨price, makerOpen, hEq, hAccepts, hMaker,
        Or.inr ⟨takerOpen, hTaker, Or.inr ?_⟩⟩
    rw [Decimal.product?_eq_none_iff]
    refine ⟨⟨?_, ?_⟩, hDigits⟩
    · rw [← Decimal.units_eq_zero_iff]
      have hPos := Decimal.lt_iff_units.1 (hPrice price hEq)
      rw [Decimal.units_zero] at hPos
      omega
    · rw [← Decimal.units_eq_zero_iff, Decimal.units_least]
      rw [Decimal.le_iff_units, Decimal.units_zero]
        at hMakerOpen hTakerOpen
      omega
  · rintro hCan
      ⟨price, makerOpen, hEq, hAccepts, hMaker, hWhy⟩
    rcases hCan price makerOpen hEq hAccepts hMaker with
      ⟨hMakerOpen, hRest⟩
    rcases hWhy with hNothing | ⟨takerOpen, hTaker, hWhy⟩
    · exact (pending_le_zero_iff hMaker).1 hNothing hMakerOpen
    rcases hRest takerOpen hTaker with ⟨hTakerOpen, hFits⟩
    rcases hWhy with hNothing | hNone
    · exact (pending_le_zero_iff hTaker).1 hNothing hTakerOpen
    · exact (Decimal.product?_eq_none_iff.1 hNone).2 hFits

end Order

end Matchbook
