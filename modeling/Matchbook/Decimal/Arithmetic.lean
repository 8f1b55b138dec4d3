import Matchbook.Decimal.Rounding

/-
  Sums, differences and exact products of amounts.

  A sum has the larger of the two scales as long as its
  mantissa fits and is rounded to fewer fraction digits
  otherwise.  A sum that is out of range is `none`.  The
  product is never rounded: it exists only if all its digits
  fit.

  Key definitions include:
    * `Decimal.add?`
    * `Decimal.sub?`
    * `Decimal.product?`

  The main statements are:
    * `Decimal.units_add?_of_scale_eq`
    * `Decimal.le_add?`
    * `Decimal.lt_add?_of_same_sub?`
-/

------------------------------------------------------------
-- Operations
------------------------------------------------------------

namespace Matchbook

namespace Decimal

/-
  The sum of two amounts.  A zero adds nothing and leaves the
  other amount spelled as it is; of two zeros the second one
  is the sum.
-/
def add? (a b : Decimal) : Option Decimal :=
  if a.IsZero then
    some b
  else if b.IsZero then
    some a
  else
    ofUnits? (a.units + b.units) (max a.scale b.scale)
      (Nat.max_le.2 ⟨a.scale_le, b.scale_le⟩)

/- The difference of two amounts; of two zeros the second one
as it is. -/
def sub? (a b : Decimal) : Option Decimal :=
  add? a b.negate

/-
  The exact product of two amounts, at the sum of their
  scales; plain zero if a factor is zero.  `none` when the
  digits of the product do not all fit.
-/
def product? (a b : Decimal) : Option Decimal :=
  if a.IsZero ∨ b.IsZero then
    some 0
  else if h :
      (a.mantissa * b.mantissa).natAbs < 2 ^ 96 ∧
        a.scale + b.scale ≤ 28 then
    some
      (ofMantissa (a.mantissa * b.mantissa)
        (a.scale + b.scale) h.1 h.2)
  else
    none

------------------------------------------------------------
-- Exact sums
------------------------------------------------------------

/-
  A sum is exact, or it has fewer fraction digits than one of
  its terms and one more digit would not have fitted.
-/
theorem units_add?
    {a b c : Decimal}
    (h : add? a b = some c) :
    c.units = a.units + b.units ∨
      (ofUnits? (a.units + b.units)
          (max a.scale b.scale)
          (Nat.max_le.2 ⟨a.scale_le, b.scale_le⟩) =
            some c ∧
        c.scale < max a.scale b.scale ∧
        2 ^ 96 ≤
          (roundHalfEven (a.units + b.units)
            (grid (c.scale + 1))).natAbs) := by
  unfold add? at h
  split at h
  · rename_i hz
    cases h
    left
    have := units_eq_zero_iff.2 hz
    omega
  · split at h
    · rename_i hz
      cases h
      left
      have := units_eq_zero_iff.2 hz
      omega
    · rcases (ofUnits?_eq_some h).2 with hs | hs
      · left
        apply units_ofUnits?_of_dvd h hs
        exact
          Int.dvd_add
            (grid_dvd_units a (Nat.le_max_left _ _))
            (grid_dvd_units b (Nat.le_max_right _ _))
      · exact Or.inr ⟨h, hs⟩

/- A sum that keeps the larger scale is exact. -/
theorem units_add?_of_scale_eq
    {a b c : Decimal}
    (h : add? a b = some c)
    (hScale : c.scale = max a.scale b.scale) :
    c.units = a.units + b.units := by
  rcases units_add? h with hc | ⟨_, hlt, _⟩
  · exact hc
  · omega

/-
  A rounded sum is far from zero, and within half a step of
  the exact one.
-/
theorem units_add?_of_rounded
    {a b c : Decimal}
    (h : add? a b = some c)
    (hne : c.units ≠ a.units + b.units) :
    ∃ d : Int,
      0 < d ∧
      d ≤ 10 ^ 27 ∧
      (grid (c.scale + 1) : Int) = d ∧
      c.scale < max a.scale b.scale ∧
      c.units =
        10 * d *
          roundHalfEven (a.units + b.units)
            (grid c.scale) ∧
      2 * (a.units + b.units) - 10 * d ≤ 2 * c.units ∧
      2 * c.units ≤ 2 * (a.units + b.units) + 10 * d ∧
      (d * (2 ^ 97 - 1) ≤ 2 * (a.units + b.units) ∨
        2 * (a.units + b.units) ≤
          -(d * (2 ^ 97 - 1))) := by
  rcases units_add? h with hc | ⟨hOf, hlt, hFull⟩
  · exact absurd hc hne
  have hs : c.scale < 28 := by
    have ha := a.scale_le
    have hb := b.scale_le
    omega
  have hTen : (grid c.scale : Int) =
      10 * grid (c.scale + 1) := by
    exact_mod_cast grid_eq_ten_mul hs
  have hPos := grid_pos (c.scale + 1)
  have hLe : grid (c.scale + 1) ≤ 10 ^ 27 :=
    Nat.pow_le_pow_right (by decide) (by omega)
  have hErr :=
    two_mul_roundHalfEven_error
      (a.units + b.units) (grid_pos c.scale)
  have hUnits := units_of_ofUnits? hOf
  rw [← hUnits, hTen] at hErr
  rw [hTen] at hUnits
  exact
    ⟨grid (c.scale + 1), by omega, by omega, rfl, hlt,
      hUnits, by omega, by omega,
      full_of_roundHalfEven hPos hFull⟩

------------------------------------------------------------
-- Sums grow
------------------------------------------------------------

/- No amount is beyond what its own grid can hold. -/
theorem units_bounds
    (a : Decimal)
    {s : Nat}
    (h : s ≤ a.scale) :
    -((grid s : Int) * (2 ^ 96 - 1)) ≤ a.units ∧
      a.units ≤ (grid s : Int) * (2 ^ 96 - 1) := by
  have hm := a.mantissa_lt
  have hg : (grid a.scale : Int) ≤ grid s :=
    Int.ofNat_le.2
      (Nat.le_of_dvd (grid_pos s) (grid_dvd h))
  have hPos : (0 : Int) ≤ grid a.scale :=
    Int.natCast_nonneg _
  have hMul :
      (grid a.scale : Int) * (2 ^ 96 - 1) ≤
        grid s * (2 ^ 96 - 1) :=
    Int.mul_le_mul_of_nonneg_right hg (by decide)
  have hUpper :
      (grid a.scale : Int) * a.mantissa ≤
        grid a.scale * (2 ^ 96 - 1) :=
    Int.mul_le_mul_of_nonneg_left (by omega) hPos
  have hLower :
      (grid a.scale : Int) * -(2 ^ 96 - 1) ≤
        grid a.scale * a.mantissa :=
    Int.mul_le_mul_of_nonneg_left (by omega) hPos
  rw [Int.mul_neg] at hLower
  rw [units, Int.mul_comm a.mantissa]
  omega

/- Adding a positive amount never lowers the sum. -/
theorem le_add?
    {a b c : Decimal}
    (h : add? a b = some c)
    (hb : 0 < b.units) :
    a.units ≤ c.units := by
  by_cases hne : c.units = a.units + b.units
  · omega
  obtain
    ⟨d, hd, _, hGrid, _, hUnits, hLow, _, hFull⟩ :=
    units_add?_of_rounded h hne
  rcases units_add? h with hc | ⟨hOf, hlt, _⟩
  · exact absurd hc hne
  have hs : c.scale < 28 := by
    have ha := a.scale_le
    have hb := b.scale_le
    omega
  by_cases hScale : a.scale ≤ c.scale
  · obtain ⟨k, hk⟩ := grid_dvd_units a hScale
    have hRound :
        k ≤ roundHalfEven (a.units + b.units)
          (grid c.scale) :=
      le_roundHalfEven (grid_pos c.scale) (by omega)
    rw [hk, units_of_ofUnits? hOf]
    exact
      Int.mul_le_mul_of_nonneg_left hRound
        (Int.natCast_nonneg _)
  · have hBounds :=
      units_bounds a (s := c.scale + 1) (by omega)
    rw [hGrid] at hBounds
    rcases hFull with hFull | hFull
    · generalize
        roundHalfEven (a.units + b.units)
          (grid c.scale) = r at hUnits
      have hTen : c.units = d * (10 * r) := by
        rw [hUnits, Int.mul_comm 10 d, Int.mul_assoc]
      have hTwenty :
          2 * (d * (10 * r)) = d * (20 * r) := by
        rw [Int.mul_left_comm]
        congr 1
        omega
      have hStep : d * (2 ^ 97 - 11) ≤ d * (20 * r) := by
        rw [Int.mul_sub] at hFull ⊢
        omega
      have hRound := Int.le_of_mul_le_mul_left hStep hd
      have hTop : d * (2 ^ 96 - 1) ≤ d * (10 * r) :=
        Int.mul_le_mul_of_nonneg_left (by omega)
          (Int.le_of_lt hd)
      omega
    · rw [Int.mul_sub] at hFull hBounds
      omega

/-
  What is still open is added in full or as a very large
  amount: adding `q - a` to `a` always gains something,
  however it is spelled.
-/
theorem lt_add?_of_same_sub?
    {q a b b' c : Decimal}
    (hSub : sub? q a = some b)
    (hSame : Same b' b)
    (hAdd : add? a b' = some c)
    (hb : 0 < b.units) :
    a.units < c.units := by
  rw [same_iff_units] at hSame
  by_cases hExact : b.units = q.units + a.negate.units
  · rw [units_negate] at hExact
    by_cases hne : c.units = a.units + b'.units
    · omega
    obtain
      ⟨d, hd, _, hGrid, hlt, hUnits, hLow, _, hFull⟩ :=
      units_add?_of_rounded hAdd hne
    have hSum : a.units + b'.units = q.units := by omega
    rw [hSum] at hFull hUnits hne
    exfalso
    by_cases hScale : c.scale < q.scale
    · have hBounds :=
        units_bounds q (s := c.scale + 1) (by omega)
      rw [hGrid] at hBounds
      rw [Int.mul_sub] at hBounds hFull
      omega
    · apply hne
      rw [hUnits, ← hGrid]
      have hs : c.scale < 28 := by
        have ha := a.scale_le
        have hb := b'.scale_le
        omega
      have hTen : (10 : Int) * grid (c.scale + 1) =
          grid c.scale := by
        exact_mod_cast (grid_eq_ten_mul hs).symm
      rw [hTen]
      exact
        roundHalfEven_of_dvd (grid_pos c.scale)
          (grid_dvd_units q (by omega))
  · obtain ⟨d, hd, _, _, _, _, hLow, hUp, hFull⟩ :=
      units_add?_of_rounded hSub hExact
    have hLarge : 2 * 10 ^ 28 < 2 * b.units := by
      rw [Int.mul_sub] at hFull
      omega
    by_cases hne : c.units = a.units + b'.units
    · omega
    obtain ⟨e, _, heLe, _, _, _, hLow', _, _⟩ :=
      units_add?_of_rounded hAdd hne
    omega

theorem lt_add?_of_sub?
    {q a b c : Decimal}
    (hSub : sub? q a = some b)
    (hAdd : add? a b = some c)
    (hb : 0 < b.units) :
    a.units < c.units :=
  lt_add?_of_same_sub? hSub rfl hAdd hb

/- A positive difference means a larger first amount. -/
theorem lt_of_sub?_pos
    {q a b : Decimal}
    (hSub : sub? q a = some b)
    (hb : 0 < b.units) :
    a.units < q.units := by
  by_cases hExact : b.units = q.units + a.negate.units
  · rw [units_negate] at hExact
    omega
  · obtain ⟨d, hd, _, _, _, _, hLow, hUp, hFull⟩ :=
      units_add?_of_rounded hSub hExact
    rw [units_negate] at hLow hUp hFull
    rw [Int.mul_sub] at hFull
    omega

end Decimal

end Matchbook
