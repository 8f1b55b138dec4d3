import Matchbook.Decimal.Arithmetic
import Mathlib.Tactic.ByContra

/-
  When sums of amounts are exact.

  A sum is rounded only where it has to be: if the exact sum
  is an amount at all, then the sum is that amount.  A rounded
  difference still has the sign of the exact one.

  Key definitions include:
    * `Decimal.IsAmount`
    * `Decimal.FitsProduct`

  The main statements are:
    * `Decimal.exists_add?_of_isAmount`
    * `Decimal.exists_sub?_of_isAmount`
    * `Decimal.units_sub?_pos_iff`
    * `Decimal.product?_eq_none_iff`
-/

------------------------------------------------------------
-- Amounts among the whole numbers
------------------------------------------------------------

namespace Matchbook

namespace Decimal

/- Whether some amount has exactly this number of units. -/
def IsAmount (n : Int) : Prop :=
  ∃ d : Decimal, d.units = n

/- An amount of a scale is within the largest mantissa of
every coarser grid. -/
theorem natAbs_units_lt
    (d : Decimal)
    {s : Nat}
    (hScale : s ≤ d.scale) :
    d.units.natAbs < grid s * 2 ^ 96 := by
  have hBounds := units_bounds d hScale
  have hPos := grid_pos s
  rw [Int.mul_sub] at hBounds
  omega

/- A whole number of steps that reaches too far for its
scale needs an amount of a smaller scale. -/
theorem scale_lt_of_atScale?_eq_none
    {d : Decimal}
    {s : Nat}
    {hs : s ≤ 28}
    (hDvd : (grid s : Int) ∣ d.units)
    (hNone : atScale? d.units s hs = none) :
    d.scale < s := by
  by_contra hScale
  have hLess := natAbs_units_lt d (Nat.le_of_not_lt hScale)
  have hFull := atScale?_eq_none hNone
  have hRound := roundHalfEven_of_dvd (grid_pos s) hDvd
  have hAbs :
      grid s * (roundHalfEven d.units (grid s)).natAbs =
        d.units.natAbs := by
    rw [← hRound, Int.natAbs_mul, Int.natAbs_natCast,
      hRound]
  have hMul :
      grid s * 2 ^ 96 ≤
        grid s *
          (roundHalfEven d.units (grid s)).natAbs :=
    Nat.mul_le_mul_left _ hFull
  omega

/-
  Units that some amount has are not rounded.  By induction
  on the requested scale: where the mantissa does not fit, the
  amount has fewer fraction digits than requested, so that the
  next coarser grid divides it as well.
-/
theorem exists_ofUnits?_of_dvd
    (d : Decimal)
    {s : Nat}
    (hs : s ≤ 28)
    (hDvd : (grid s : Int) ∣ d.units) :
    ∃ c, ofUnits? d.units s hs = some c ∧
      c.units = d.units := by
  induction s with
  | zero =>
      cases hAt : atScale? d.units 0 hs with
      | none =>
          have hScale :=
            scale_lt_of_atScale?_eq_none hDvd hAt
          omega
      | some c =>
          have hOf : ofUnits? d.units 0 hs = some c := hAt
          refine ⟨c, hOf, ?_⟩
          exact
            units_ofUnits?_of_dvd hOf
              (atScale?_eq_some hAt).1 hDvd
  | succ s ih =>
      cases hAt : atScale? d.units (s + 1) hs with
      | none =>
          have hScale :=
            scale_lt_of_atScale?_eq_none hDvd hAt
          rcases
              ih (Nat.le_of_succ_le hs)
                (grid_dvd_units d
                  (Nat.le_of_lt_succ hScale)) with
            ⟨c, hOf, hUnits⟩
          refine ⟨c, ?_, hUnits⟩
          simp only [ofUnits?, hAt, hOf]
      | some c =>
          have hOf :
              ofUnits? d.units (s + 1) hs = some c := by
            simp only [ofUnits?, hAt]
          refine ⟨c, hOf, ?_⟩
          exact
            units_ofUnits?_of_dvd hOf
              (atScale?_eq_some hAt).1 hDvd

------------------------------------------------------------
-- Exact sums and differences
------------------------------------------------------------

/- A sum that is an amount is the sum. -/
theorem exists_add?_of_isAmount
    {a b : Decimal}
    (h : IsAmount (a.units + b.units)) :
    ∃ c, add? a b = some c ∧
      c.units = a.units + b.units := by
  by_cases ha : a.IsZero
  · have hUnits := units_eq_zero_iff.2 ha
    exact ⟨b, by rw [add?, if_pos ha], by omega⟩
  by_cases hb : b.IsZero
  · have hUnits := units_eq_zero_iff.2 hb
    refine ⟨a, ?_, by omega⟩
    rw [add?, if_neg ha, if_pos hb]
  rcases h with ⟨d, hd⟩
  have hDvd :
      (grid (max a.scale b.scale) : Int) ∣ d.units := by
    rw [hd]
    exact
      Int.dvd_add
        (grid_dvd_units a (Nat.le_max_left _ _))
        (grid_dvd_units b (Nat.le_max_right _ _))
  rcases
      exists_ofUnits?_of_dvd d
        (Nat.max_le.2 ⟨a.scale_le, b.scale_le⟩) hDvd with
    ⟨c, hOf, hUnits⟩
  rw [hd] at hOf hUnits
  refine ⟨c, ?_, hUnits⟩
  rw [add?, if_neg ha, if_neg hb]
  exact hOf

/- A difference that is an amount is the difference. -/
theorem exists_sub?_of_isAmount
    {a b : Decimal}
    (h : IsAmount (a.units - b.units)) :
    ∃ c, sub? a b = some c ∧
      c.units = a.units - b.units := by
  have hSum : IsAmount (a.units + b.negate.units) := by
    rw [units_negate]
    exact h
  rcases exists_add?_of_isAmount hSum with
    ⟨c, hAdd, hUnits⟩
  rw [units_negate] at hUnits
  exact ⟨c, hAdd, hUnits⟩

/- Rounding does not change the sign of a difference. -/
theorem units_sub?_pos_iff
    {a b c : Decimal}
    (h : sub? a b = some c) :
    0 < c.units ↔ b.units < a.units := by
  constructor
  · exact lt_of_sub?_pos h
  intro hLess
  by_cases hExact : c.units = a.units + b.negate.units
  · rw [units_negate] at hExact
    omega
  · rcases units_add?_of_rounded h hExact with
      ⟨d, hd, _, _, _, _, hLow, _, hFull⟩
    rw [units_negate] at hLow hFull
    rw [Int.mul_sub] at hFull
    omega

/- Only the difference of equal amounts is zero. -/
theorem units_sub?_eq_zero_iff
    {a b c : Decimal}
    (h : sub? a b = some c) :
    c.units = 0 ↔ a.units = b.units := by
  by_cases hExact : c.units = a.units + b.negate.units
  · rw [units_negate] at hExact
    omega
  · rcases units_add?_of_rounded h hExact with
      ⟨d, hd, _, _, _, _, hLow, hHigh, hFull⟩
    rw [units_negate] at hLow hHigh hFull
    rw [Int.mul_sub] at hFull
    omega

------------------------------------------------------------
-- Exact products
------------------------------------------------------------

/- Whether all digits of the product of two amounts fit. -/
def FitsProduct (a b : Decimal) : Prop :=
  (a.mantissa * b.mantissa).natAbs < 2 ^ 96 ∧
    a.scale + b.scale ≤ 28

instance (a b : Decimal) : Decidable (FitsProduct a b) :=
  inferInstanceAs (Decidable (_ ∧ _))

/- A product is missing exactly when no factor is zero and
its digits do not fit. -/
theorem product?_eq_none_iff
    {a b : Decimal} :
    product? a b = none ↔
      (¬ a.IsZero ∧ ¬ b.IsZero) ∧ ¬ FitsProduct a b := by
  unfold product? FitsProduct
  constructor
  · intro h
    split at h
    · cases h
    rename_i hZero
    split at h
    · cases h
    rename_i hFits
    exact ⟨not_or.mp hZero, hFits⟩
  · rintro ⟨hZero, hFits⟩
    rw [if_neg (not_or.mpr hZero), dif_neg hFits]

end Decimal

end Matchbook
