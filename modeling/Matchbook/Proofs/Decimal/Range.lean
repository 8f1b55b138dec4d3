import Matchbook.Decimal.Arithmetic

/-
  The range of sums.

  A sum is out of range if it is at least half a unit beyond
  the largest whole number that fits, for then it is rounded
  beyond it, too.  The difference of two amounts that are not
  negative is never out of range.

  Key definitions include:
    * `Decimal.HasSum`
    * `Decimal.HasSums`

  The main statements are:
    * `Decimal.add?_eq_none_iff`
    * `Decimal.exists_sub?_of_nonneg`
    * `Decimal.foldlM_add?_eq_none_iff`
-/

------------------------------------------------------------
-- Halves
------------------------------------------------------------

namespace Matchbook

/- A half below an even number is rounded up to it. -/
theorem le_roundHalfEven_of_half
    {n k : Int}
    {d : Nat}
    (hd : 0 < d)
    (hEven : k % 2 = 0)
    (h : d * (2 * k - 1) ≤ 2 * n) :
    k ≤ roundHalfEven n d := by
  have hd' : (0 : Int) < d := by omega
  have hDiv := Int.mul_ediv_add_emod n d
  have hRest := Int.emod_lt_of_pos n hd'
  have hLow : 2 * k - 1 < 2 * (n / d) + 2 := by
    apply Int.lt_of_mul_lt_mul_left (a := (d : Int)) _
      (by omega)
    rw [Int.mul_add, Int.mul_left_comm]
    omega
  unfold roundHalfEven
  dsimp only
  by_cases hReached : k ≤ n / d
  · split <;> omega
  · have hBelow : n / d = k - 1 := by omega
    rw [hBelow, Int.mul_sub] at hDiv
    rw [Int.mul_sub, Int.mul_left_comm] at h
    rw [hBelow]
    split <;> omega

/- A half above an even number is rounded down to it. -/
theorem roundHalfEven_le_of_half
    {n k : Int}
    {d : Nat}
    (hd : 0 < d)
    (hEven : k % 2 = 0)
    (h : 2 * n ≤ d * (2 * k + 1)) :
    roundHalfEven n d ≤ k := by
  have hd' : (0 : Int) < d := by omega
  have hDiv := Int.mul_ediv_add_emod n d
  have hRest := Int.emod_nonneg n (Int.ne_of_gt hd')
  have hLow : 2 * (n / d) < 2 * k + 2 := by
    apply Int.lt_of_mul_lt_mul_left (a := (d : Int)) _
      (by omega)
    rw [Int.mul_add, Int.mul_left_comm]
    rw [Int.mul_add] at h
    omega
  unfold roundHalfEven
  dsimp only
  by_cases hBelow : n / d < k
  · split <;> omega
  · have hReached : n / d = k := by omega
    rw [hReached] at hDiv ⊢
    rw [Int.mul_add, Int.mul_left_comm] at h
    split <;> omega

namespace Decimal

/- A number of units is out of reach of a grid exactly from
half a step beyond the largest mantissa on. -/
theorem full_iff
    {n : Int}
    {d : Nat}
    (hd : 0 < d) :
    2 ^ 96 ≤ (roundHalfEven n d).natAbs ↔
      d * (2 ^ 97 - 1) ≤ 2 * n.natAbs := by
  have hCast :
      ((d * (2 ^ 97 - 1) : Nat) : Int) =
        (d : Int) * (2 ^ 97 - 1) :=
    Int.natCast_mul d (2 ^ 97 - 1)
  constructor
  · intro h
    have hFull := full_of_roundHalfEven hd h
    omega
  · intro h
    rcases Int.le_total 0 n with hn | hn
    · have hHalf :=
        le_roundHalfEven_of_half (n := n) (k := 2 ^ 96) hd
          (by decide) (by omega)
      omega
    · have hHalf :=
        roundHalfEven_le_of_half (n := n) (k := -2 ^ 96) hd
          (by decide)
          (by
            have hTurn :
                (d : Int) * (2 * -2 ^ 96 + 1) =
                  -(d * (2 ^ 97 - 1)) := by
              rw [← Int.mul_neg]
              congr 1
            omega)
      omega

theorem atScale?_eq_none_iff
    {n : Int}
    {s : Nat}
    (hs : s ≤ 28) :
    atScale? n s hs = none ↔
      grid s * (2 ^ 97 - 1) ≤ 2 * n.natAbs := by
  rw [← full_iff (grid_pos s)]
  constructor
  · exact atScale?_eq_none
  · intro hFull
    unfold atScale?
    exact dif_neg (Nat.not_lt.2 hFull)

/- Fraction digits are no obstacle: a number of units that is
in range without them is in range.  By induction on the
scale; what is out of reach of the coarsest grid is out of
reach of all. -/
theorem ofUnits?_eq_none_iff
    {n : Int}
    {s : Nat}
    {hs : s ≤ 28} :
    ofUnits? n s hs = none ↔
      grid 0 * (2 ^ 97 - 1) ≤ 2 * n.natAbs := by
  induction s with
  | zero => exact atScale?_eq_none_iff hs
  | succ s ih =>
      unfold ofUnits?
      cases hAt : atScale? n (s + 1) hs with
      | none => exact ih
      | some a =>
          refine iff_of_false (Option.some_ne_none a) ?_
          intro hFull
          have hFiner :
              grid (s + 1) * (2 ^ 97 - 1) ≤
                grid 0 * (2 ^ 97 - 1) :=
            Nat.mul_le_mul_right _ (grid_le (s + 1))
          have hNone :=
            (atScale?_eq_none_iff hs).2
              (Nat.le_trans hFiner hFull)
          rw [hAt] at hNone
          cases hNone

------------------------------------------------------------
-- Sums
------------------------------------------------------------

/- Whether the sum of two amounts is in range: it stays below
the last half before `2 ^ 96`, in units of `10 ^ -28`. -/
def HasSum (a b : Decimal) : Prop :=
  2 * (a.units + b.units).natAbs < 10 ^ 28 * (2 ^ 97 - 1)

instance (a b : Decimal) : Decidable (HasSum a b) :=
  inferInstanceAs (Decidable (_ < _))

/- Amounts themselves are in range. -/
theorem natAbs_units_le
    (a : Decimal) :
    a.units.natAbs ≤ 10 ^ 28 * (2 ^ 96 - 1) := by
  have hBounds := units_bounds a (Nat.zero_le _)
  have hGrid : (grid 0 : Int) = 10 ^ 28 := rfl
  rw [hGrid] at hBounds
  omega

/- A sum of amounts is missing exactly when it is out of
range. -/
theorem add?_eq_none_iff
    {a b : Decimal} :
    add? a b = none ↔ ¬ HasSum a b := by
  have hGrid : grid 0 = 10 ^ 28 := rfl
  have ha := natAbs_units_le a
  have hb := natAbs_units_le b
  unfold HasSum
  by_cases hZero : a.IsZero
  · have hUnits := units_eq_zero_iff.2 hZero
    rw [add?, if_pos hZero]
    exact iff_of_false (Option.some_ne_none b) (by omega)
  by_cases hZero' : b.IsZero
  · have hUnits := units_eq_zero_iff.2 hZero'
    rw [add?, if_neg hZero, if_pos hZero']
    exact iff_of_false (Option.some_ne_none a) (by omega)
  rw [add?, if_neg hZero, if_neg hZero',
    ofUnits?_eq_none_iff, hGrid]
  omega

theorem exists_add?_iff
    {a b : Decimal} :
    (∃ c, add? a b = some c) ↔ HasSum a b := by
  rw [← Option.ne_none_iff_exists', Ne, add?_eq_none_iff,
    Decidable.not_not]

/- The difference of two amounts that are not negative is
always in range. -/
theorem exists_sub?_of_nonneg
    {a b : Decimal}
    (ha : 0 ≤ a)
    (hb : 0 ≤ b) :
    ∃ c, sub? a b = some c := by
  have hRange := natAbs_units_le a
  have hRange' := natAbs_units_le b
  rw [le_iff_units, units_zero] at ha hb
  apply exists_add?_iff.2
  unfold HasSum
  rw [units_negate]
  omega

/- Whether some amounts can be added to a sum, one after the
other. -/
def HasSums (sum : Decimal) : List Decimal → Prop
  | [] => True
  | a :: rest =>
      HasSum sum a ∧
        ∀ sum', add? sum a = some sum' → HasSums sum' rest

/- By induction on the amounts. -/
theorem foldlM_add?_eq_none_iff
    {sum : Decimal}
    {amounts : List Decimal} :
    amounts.foldlM add? sum = none ↔
      ¬ HasSums sum amounts := by
  induction amounts generalizing sum with
  | nil =>
      exact
        iff_of_false (Option.some_ne_none sum)
          (not_not_intro trivial)
  | cons a rest ih =>
      rw [List.foldlM_cons]
      unfold HasSums
      cases hAdd : add? sum a with
      | none =>
          have hOut := add?_eq_none_iff.1 hAdd
          exact iff_of_true rfl fun hSums => hOut hSums.1
      | some sum' =>
          have hIn := exists_add?_iff.1 ⟨sum', hAdd⟩
          change rest.foldlM add? sum' = none ↔ _
          rw [ih]
          constructor
          · intro hOut hSums
            exact hOut (hSums.2 sum' rfl)
          · intro hOut hSums
            apply hOut
            refine ⟨hIn, ?_⟩
            rintro _ ⟨⟩
            exact hSums

end Decimal

end Matchbook
