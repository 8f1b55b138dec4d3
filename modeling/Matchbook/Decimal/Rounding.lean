import Matchbook.Decimal.Basic

/-
  Rounding to the decimal grid.

  A result that needs more than 96 bits keeps as many
  fraction digits as fit and is rounded to the nearest
  amount with that many, a half going to the even neighbour.

  A magnitude that is cut to fewer digits is rounded to the
  nearest, a half going up.

  Key definitions include:
    * `roundHalfEven`
    * `roundHalfUp`
    * `Decimal.ofUnits?`

  The main statements are:
    * `two_mul_roundHalfEven_error`
    * `two_mul_roundHalfUp_error`
    * `Decimal.ofUnits?_eq_some`
-/

------------------------------------------------------------
-- Nearest whole numbers
------------------------------------------------------------

namespace Matchbook

/-
  The whole number nearest to `n / d`; of two equally near
  ones the even one.
-/
def roundHalfEven (n : Int) (d : Nat) : Int :=
  let low := n / d
  let rest := n % d
  if (d : Int) < 2 * rest ∨
      (2 * rest = d ∧ low % 2 = 1) then
    low + 1
  else
    low

/- Both candidates, with what is left over. -/
private theorem roundHalfEven_cases
    (n : Int)
    {d : Nat}
    (hd : 0 < d) :
    ∃ low rest : Int,
      n = d * low + rest ∧
      0 ≤ rest ∧
      rest < d ∧
      ((roundHalfEven n d = low + 1 ∧
          (d : Int) ≤ 2 * rest) ∨
        (roundHalfEven n d = low ∧
          2 * rest ≤ d)) := by
  have hd' : (0 : Int) < d := by omega
  refine ⟨n / d, n % d, ?_, ?_, ?_, ?_⟩
  · exact (Int.mul_ediv_add_emod n d).symm
  · exact Int.emod_nonneg n (by omega)
  · exact Int.emod_lt_of_pos n hd'
  · unfold roundHalfEven
    dsimp only
    split
    · exact Or.inl ⟨rfl, by omega⟩
    · exact Or.inr ⟨rfl, by omega⟩

/- The rounding error is at most half a step. -/
theorem two_mul_roundHalfEven_error
    (n : Int)
    {d : Nat}
    (hd : 0 < d) :
    2 * n - d ≤ 2 * (d * roundHalfEven n d) ∧
      2 * (d * roundHalfEven n d) ≤ 2 * n + d := by
  obtain ⟨low, rest, hn, h0, hlt, h | h⟩ :=
    roundHalfEven_cases n hd
  · rw [h.1, Int.mul_add, Int.mul_one]
    omega
  · rw [h.1]
    omega

/- A whole number of steps is its own rounding. -/
theorem roundHalfEven_of_dvd
    {n : Int}
    {d : Nat}
    (hd : 0 < d)
    (h : (d : Int) ∣ n) :
    d * roundHalfEven n d = n := by
  unfold roundHalfEven
  have hr : n % d = 0 := Int.emod_eq_zero_of_dvd h
  have hn := Int.mul_ediv_add_emod n d
  dsimp only
  rw [hr] at hn ⊢
  rw [if_neg (by omega)]
  omega

/- Rounding does not reach past a whole number of steps. -/
theorem le_roundHalfEven
    {n k : Int}
    {d : Nat}
    (hd : 0 < d)
    (h : d * k ≤ n) :
    k ≤ roundHalfEven n d := by
  obtain ⟨low, rest, hn, h0, hlt, hr⟩ :=
    roundHalfEven_cases n hd
  have hk : k < low + 1 := by
    apply Int.lt_of_mul_lt_mul_left
      (a := (d : Int)) _ (by omega)
    rw [Int.mul_add, Int.mul_one]
    omega
  omega

/- The number nearest to `n / d`; of two equally near ones
the larger. -/
def roundHalfUp (n d : Nat) : Nat :=
  (2 * n + d) / (2 * d)

/- The rounding error is at most half a step, and less than
that upwards. -/
theorem two_mul_roundHalfUp_error
    (n : Nat)
    {d : Nat}
    (hd : 0 < d) :
    2 * n < 2 * (d * roundHalfUp n d) + d ∧
      2 * (d * roundHalfUp n d) ≤ 2 * n + d := by
  have hDiv := Nat.div_add_mod (2 * n + d) (2 * d)
  have hMod :=
    Nat.mod_lt (2 * n + d) (y := 2 * d) (by omega)
  rw [Nat.mul_assoc] at hDiv
  unfold roundHalfUp
  omega

------------------------------------------------------------
-- The largest scale that fits
------------------------------------------------------------

namespace Decimal

/- `n` units rounded to the scale `s`, if that fits. -/
def atScale?
    (n : Int)
    (s : Nat)
    (hs : s ≤ 28) : Option Decimal :=
  let m := roundHalfEven n (grid s)
  if hm : m.natAbs < 2 ^ 96 then
    some (ofMantissa m s hm hs)
  else
    none

/-
  `n` units as an amount: at the scale `s` or, where the
  mantissa would not fit, rounded once at the largest smaller
  scale at which it does.  `none` when `n` units are out of
  range even without fraction digits.
-/
def ofUnits?
    (n : Int) :
    (s : Nat) → s ≤ 28 → Option Decimal
  | 0, hs => atScale? n 0 hs
  | s + 1, hs =>
      match atScale? n (s + 1) hs with
      | some a => some a
      | none => ofUnits? n s (Nat.le_of_succ_le hs)

theorem atScale?_eq_some
    {n : Int}
    {s : Nat}
    {hs : s ≤ 28}
    {a : Decimal}
    (h : atScale? n s hs = some a) :
    a.scale = s ∧
      a.mantissa = roundHalfEven n (grid s) := by
  unfold atScale? at h
  dsimp only at h
  split at h
  · cases h
    exact ⟨rfl, mantissa_ofMantissa ..⟩
  · cases h

theorem atScale?_eq_none
    {n : Int}
    {s : Nat}
    {hs : s ≤ 28}
    (h : atScale? n s hs = none) :
    2 ^ 96 ≤ (roundHalfEven n (grid s)).natAbs := by
  unfold atScale? at h
  dsimp only at h
  split at h
  · cases h
  · omega

/-
  The result is the nearest amount at its scale, and one more
  fraction digit would not have fitted.
-/
theorem ofUnits?_eq_some
    {n : Int}
    {s : Nat}
    {hs : s ≤ 28}
    {a : Decimal}
    (h : ofUnits? n s hs = some a) :
    a.mantissa = roundHalfEven n (grid a.scale) ∧
      (a.scale = s ∨
        a.scale < s ∧
          2 ^ 96 ≤
            (roundHalfEven n
              (grid (a.scale + 1))).natAbs) := by
  induction s with
  | zero =>
      have := atScale?_eq_some h
      exact ⟨by rw [this.1]; exact this.2, Or.inl this.1⟩
  | succ s ih =>
      unfold ofUnits? at h
      split at h
      · rename_i b hb
        cases h
        have := atScale?_eq_some hb
        exact
          ⟨by rw [this.1]; exact this.2, Or.inl this.1⟩
      · rename_i hNone
        have hFull := atScale?_eq_none hNone
        obtain ⟨hm, hScale | hScale⟩ := ih h
        · refine ⟨hm, Or.inr ⟨by omega, ?_⟩⟩
          rw [hScale]
          exact hFull
        · exact ⟨hm, Or.inr ⟨by omega, hScale.2⟩⟩

/- The units of a result are a whole number of its steps. -/
theorem units_of_ofUnits?
    {n : Int}
    {s : Nat}
    {hs : s ≤ 28}
    {a : Decimal}
    (h : ofUnits? n s hs = some a) :
    a.units =
      grid a.scale * roundHalfEven n (grid a.scale) := by
  rw [units, (ofUnits?_eq_some h).1, Int.mul_comm]

/- What fits the requested scale exactly is not rounded. -/
theorem units_ofUnits?_of_dvd
    {n : Int}
    {s : Nat}
    {hs : s ≤ 28}
    {a : Decimal}
    (h : ofUnits? n s hs = some a)
    (hScale : a.scale = s)
    (hDvd : (grid s : Int) ∣ n) :
    a.units = n := by
  rw [units_of_ofUnits? h, hScale]
  exact roundHalfEven_of_dvd (grid_pos s) hDvd

/-
  A number of units at which one more digit does not fit is
  beyond every amount with one more digit.
-/
theorem full_of_roundHalfEven
    {n : Int}
    {d : Nat}
    (hd : 0 < d)
    (h : 2 ^ 96 ≤ (roundHalfEven n d).natAbs) :
    (d : Int) * (2 ^ 97 - 1) ≤ 2 * n ∨
      2 * n ≤ -(d * (2 ^ 97 - 1)) := by
  have hErr := two_mul_roundHalfEven_error n hd
  have hd' : (0 : Int) < d := by omega
  rcases Int.le_total 0 (roundHalfEven n d) with hr | hr
  · left
    have hr' : (2 : Int) ^ 96 ≤ roundHalfEven n d := by
      omega
    have := Int.mul_le_mul_of_nonneg_left hr'
      (Int.le_of_lt hd')
    omega
  · right
    have hr' : roundHalfEven n d ≤ -(2 : Int) ^ 96 := by
      omega
    have := Int.mul_le_mul_of_nonneg_left hr'
      (Int.le_of_lt hd')
    omega

end Decimal

end Matchbook
