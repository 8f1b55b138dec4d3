import Matchbook.Order.Basic
import Matchbook.Trade
import Matchbook.Violation

/-
  The meeting of a resting order, the maker, with an incoming
  order, the taker.

  A market taker accepts every price, a limit taker every
  price that is no worse than its own.  If the taker accepts
  the price of the maker, both are filled by the lesser of
  their pending quantities at that price.

  Key definitions include:
    * `Order.Accepts`
    * `Deal`
    * `Meeting`
    * `Order.meet?`

  The main statements are:
    * `Order.gap_meet?_lt`
-/

------------------------------------------------------------
-- Prices
------------------------------------------------------------

namespace Matchbook

namespace Order

/- Whether a taker trades at a maker's price. -/
def Accepts (taker : Order) (price : Decimal) : Prop :=
  match taker.price, taker.side with
  | none, _ => True
  | some limit, .buy => price ≤ limit
  | some limit, .sell => limit ≤ price

instance (taker : Order) (price : Decimal) :
    Decidable (taker.Accepts price) := by
  unfold Accepts
  split <;> infer_instance

end Order

------------------------------------------------------------
-- Meetings
------------------------------------------------------------

/- A trade with both orders as it leaves them. -/
structure Deal where
  trade : Trade
  maker : Order
  taker : Order
deriving DecidableEq

/- What comes of a meeting. -/
inductive Meeting where
  | broken (cause : Violation)
  | apart
  | traded (trade : Trade) (maker taker : Order)
deriving DecidableEq

namespace Order

/- The trade of a quantity at the price of the maker. -/
def trade
    (maker taker : Order)
    (id : UInt64)
    (price quantity total : Decimal)
    (now : Timestamp) : Trade where
  id := id
  symbol := maker.symbol
  price := price
  quantity := quantity
  total := total
  takerSide := taker.side
  makerOrderId := maker.id
  takerOrderId := taker.id
  makerMemberId := maker.memberId
  takerMemberId := taker.memberId
  createdAt := now

/-
  Trade a quantity at a price.  Both orders are filled by it;
  neither is touched if the total is not exact.
-/
def exchange?
    (maker taker : Order)
    (id : UInt64)
    (price quantity : Decimal)
    (now : Timestamp) : Option Meeting :=
  match price.product? quantity with
  | none =>
      some
        (.broken
          (.totalOutOfRange maker.id taker.id
            price quantity))
  | some total =>
      match maker.fill? quantity, taker.fill? quantity with
      | some maker', some taker' =>
          some
            (.traded
              (trade maker taker id price quantity
                total now)
              maker' taker')
      | _, _ => none

/-
  Let a maker and a taker meet.  `none` if a quantity is out
  of range.
-/
def meet?
    (maker taker : Order)
    (id : UInt64)
    (now : Timestamp) : Option Meeting :=
  if maker.side = taker.side then
    some
      (.broken
        (.sameSideMatch maker.side maker.id taker.id))
  else
    match maker.price with
    | none =>
        some (.broken (.makerWithoutPrice maker.id))
    | some price =>
        if taker.Accepts price then
          maker.pending?.bind fun makerOpen =>
            if makerOpen ≤ 0 then
              some (.broken (.exhaustedOrder maker.id))
            else
              taker.pending?.bind fun takerOpen =>
                if takerOpen ≤ 0 then
                  some
                    (.broken (.exhaustedOrder taker.id))
                else
                  exchange? maker taker id price
                    (Decimal.least makerOpen takerOpen)
                    now
        else
          some .apart

------------------------------------------------------------
-- What a trade does
------------------------------------------------------------

/- The parts of an exchange that ends in a trade. -/
theorem exchange?_eq_traded
    {maker taker maker' taker' : Order}
    {id : UInt64}
    {price quantity : Decimal}
    {now : Timestamp}
    {t : Trade}
    (h :
      exchange? maker taker id price quantity now =
        some (.traded t maker' taker')) :
    ∃ total,
      price.product? quantity = some total ∧
      maker.fill? quantity = some maker' ∧
      taker.fill? quantity = some taker' ∧
      t = trade maker taker id price quantity total
        now := by
  unfold exchange? at h
  split at h
  · cases h
  · rename_i total hTotal
    split at h
    · rename_i m k hm hk
      cases h
      exact ⟨total, hTotal, hm, hk, rfl⟩
    · cases h

/- A meeting that ends in a trade: what had to hold, and what
was exchanged. -/
theorem meet?_eq_traded
    {maker taker maker' taker' : Order}
    {id : UInt64}
    {now : Timestamp}
    {t : Trade}
    (h :
      maker.meet? taker id now =
        some (.traded t maker' taker')) :
    ∃ price makerOpen takerOpen,
      maker.side ≠ taker.side ∧
      maker.price = some price ∧
      taker.Accepts price ∧
      maker.pending? = some makerOpen ∧
      0 < makerOpen.units ∧
      taker.pending? = some takerOpen ∧
      0 < takerOpen.units ∧
      exchange? maker taker id price
          (Decimal.least makerOpen takerOpen) now =
        some (.traded t maker' taker') := by
  unfold meet? at h
  split at h
  · cases h
  rename_i hSide
  split at h
  · cases h
  rename_i price hPrice
  split at h
  · rename_i hAccepts
    obtain ⟨makerOpen, hMaker, h⟩ :=
      Option.bind_eq_some_iff.1 h
    split at h
    · cases h
    rename_i hMakerPos
    obtain ⟨takerOpen, hTaker, h⟩ :=
      Option.bind_eq_some_iff.1 h
    split at h
    · cases h
    rename_i hTakerPos
    refine
      ⟨price, makerOpen, takerOpen, hSide, hPrice,
        hAccepts, hMaker, ?_, hTaker, ?_, h⟩
    · have := mt Decimal.le_iff_units.2 hMakerPos
      rw [Decimal.units_zero] at this
      omega
    · have := mt Decimal.le_iff_units.2 hTakerPos
      rw [Decimal.units_zero] at this
      omega
  · cases h

/- Every trade brings the two orders closer to filled. -/
theorem gap_meet?_lt
    {maker taker maker' taker' : Order}
    {id : UInt64}
    {now : Timestamp}
    {t : Trade}
    (h :
      maker.meet? taker id now =
        some (.traded t maker' taker')) :
    maker'.gap + taker'.gap < maker.gap + taker.gap := by
  obtain
    ⟨price, makerOpen, takerOpen, _, _, _, hMaker,
      hMakerPos, hTaker, hTakerPos, hExchange⟩ :=
    meet?_eq_traded h
  obtain ⟨_, _, hFillMaker, hFillTaker, _⟩ :=
    exchange?_eq_traded hExchange
  have hUnits := Decimal.units_least makerOpen takerOpen
  have hPos :
      0 < (Decimal.least makerOpen takerOpen).units := by
    omega
  have hMakerLe := gap_fill?_le hFillMaker hPos
  have hTakerLe := gap_fill?_le hFillTaker hPos
  by_cases hLess : takerOpen < makerOpen
  · have hEq :
        Decimal.least makerOpen takerOpen = takerOpen :=
      if_pos hLess
    rw [hEq] at hFillTaker
    have := gap_fill?_lt hTaker hFillTaker hTakerPos
    omega
  · have hEq :
        Decimal.least makerOpen takerOpen = makerOpen :=
      if_neg hLess
    rw [hEq] at hFillMaker
    have := gap_fill?_lt hMaker hFillMaker hMakerPos
    omega

end Order

end Matchbook
