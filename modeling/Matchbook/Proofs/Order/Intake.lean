import Matchbook.Order.Intake

/-
  What an order is known to be once it has passed intake.

  Key definitions include:
    * `Order.IsSound`

  The main statements are:
    * `Order.defect?_eq_none_iff`
-/

------------------------------------------------------------
-- Sound orders
------------------------------------------------------------

namespace Matchbook

namespace Order

/- An order without defects. -/
structure IsSound (o : Order) : Prop where
  symbol_ne : o.symbol ≠ ""
  quantity_pos : 0 < o.quantity
  filled_plain : o.filled.negative = false
  filled_le : o.filled ≤ o.quantity
  price_pos : ∀ p, o.price = some p → 0 < p
  stopPrice_pos : ∀ p, o.stopPrice = some p → 0 < p
  quantity_places : o.quantity.scale ≤ maxPlaces
  price_places :
    ∀ p, o.price = some p → p.scale ≤ maxPlaces
  stopPrice_places :
    ∀ p, o.stopPrice = some p → p.scale ≤ maxPlaces
  notional :
    ∀ p, o.price = some p →
      p.product? o.quantity ≠ none

theorem defectIf_eq_none_iff
    {p : Prop}
    [Decidable p]
    {d : OrderDefect} :
    defectIf p d = none ↔ ¬ p := by
  unfold defectIf
  split <;> simp_all

theorem priceDefect?_eq_none_iff
    {o : Order}
    {price : Option Decimal} :
    o.priceDefect? price = none ↔
      ∀ p, price = some p → 0 < p := by
  simp only [priceDefect?, Option.bind_eq_none_iff,
    defectIf_eq_none_iff, Decimal.le_iff_units,
    Decimal.lt_iff_units, Int.not_le]

theorem placesDefect?_eq_none_iff
    {o : Order}
    {field : PlacedField}
    {value : Option Decimal} :
    o.placesDefect? field value = none ↔
      ∀ v, value = some v → v.scale ≤ maxPlaces := by
  simp only [placesDefect?, Option.bind_eq_none_iff,
    defectIf_eq_none_iff, Nat.not_lt]

theorem defect?_eq_none_iff
    {o : Order} :
    o.defect? = none ↔ o.IsSound := by
  simp only [defect?, Option.orElse_eq_orElse,
    Option.orElse_eq_or, Option.or_eq_none_iff,
    defectIf_eq_none_iff, priceDefect?_eq_none_iff,
    placesDefect?_eq_none_iff, Option.bind_eq_none_iff,
    not_or, Decimal.le_iff_units, Decimal.lt_iff_units,
    Int.not_le, Int.not_lt, Bool.not_eq_true]
  constructor
  · rintro ⟨hSymbol, hQuantity, ⟨hPlain, hFilled⟩, hPrice,
      hStop, hPlaces, hPricePlaces, hStopPlaces, hNotional⟩
    exact
      { symbol_ne := hSymbol
        quantity_pos := hQuantity
        filled_plain := hPlain
        filled_le := hFilled
        price_pos := hPrice
        stopPrice_pos := hStop
        quantity_places := hPlaces _ rfl
        price_places := hPricePlaces
        stopPrice_places := hStopPlaces
        notional := hNotional }
  · intro h
    refine
      ⟨h.symbol_ne, h.quantity_pos,
        ⟨h.filled_plain, h.filled_le⟩, h.price_pos,
        h.stopPrice_pos, ?_, h.price_places,
        h.stopPrice_places, h.notional⟩
    rintro v ⟨⟩
    exact h.quantity_places

namespace IsSound

variable {o : Order}

/- What is filled is never below zero. -/
theorem filled_nonneg
    (h : o.IsSound) :
    0 ≤ o.filled := by
  rw [Decimal.le_iff_units, Decimal.units_zero,
    Decimal.units, Decimal.mantissa, h.filled_plain]
  exact
    Int.mul_nonneg (Int.natCast_nonneg _)
      (Int.natCast_nonneg _)

end IsSound

end Order

end Matchbook
