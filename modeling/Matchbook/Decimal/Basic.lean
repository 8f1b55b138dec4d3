import Matchbook.Text.Digits

/-
  Decimal amounts: a signed whole number of at most 96 bits
  divided by a power of ten of at most 28.

  The scale belongs to the spelling of an amount (`1.50` is
  not spelled like `1.5`), and so does the sign of a zero.
  The comparison goes by value.
  Every amount is a whole number of units of `10 ^ -28`, so
  all comparisons are comparisons of whole numbers.

  Key definitions include:
    * `Decimal`
    * `Decimal.mantissa`
    * `Decimal.ofMantissa`
    * `Decimal.units`
    * `Decimal.value`
    * `Decimal.Same`
    * `Decimal.negate`
    * `Decimal.least`
-/

------------------------------------------------------------
-- Amounts
------------------------------------------------------------

namespace Matchbook

/-
  The amount `± magnitude / 10 ^ scale`.  A zero keeps its
  scale, and it keeps a minus that it came with.
-/
structure Decimal where
  negative : Bool
  magnitude : Nat
  scale : Nat
  magnitude_lt : magnitude < 2 ^ 96
  scale_le : scale ≤ 28
deriving DecidableEq

namespace Decimal

/- Two amounts are spelled alike when all parts agree. -/
theorem ext_parts
    {a b : Decimal}
    (hn : a.negative = b.negative)
    (hm : a.magnitude = b.magnitude)
    (hs : a.scale = b.scale) :
    a = b := by
  cases a
  cases b
  simp_all

/- The amount in units of its own scale. -/
def mantissa (a : Decimal) : Int :=
  if a.negative then -a.magnitude else a.magnitude

theorem natAbs_mantissa
    (a : Decimal) :
    a.mantissa.natAbs = a.magnitude := by
  unfold mantissa
  split <;> omega

theorem mantissa_lt
    (a : Decimal) :
    a.mantissa.natAbs < 2 ^ 96 := by
  rw [natAbs_mantissa]
  exact a.magnitude_lt

/- The amount of `m` units of the scale `s`.  A zero comes
without a minus. -/
def ofMantissa
    (m : Int)
    (s : Nat)
    (hm : m.natAbs < 2 ^ 96)
    (hs : s ≤ 28) : Decimal where
  negative := decide (m < 0)
  magnitude := m.natAbs
  scale := s
  magnitude_lt := hm
  scale_le := hs

@[simp] theorem mantissa_ofMantissa
    (m : Int)
    (s : Nat)
    (hm : m.natAbs < 2 ^ 96)
    (hs : s ≤ 28) :
    (ofMantissa m s hm hs).mantissa = m := by
  simp only [mantissa, ofMantissa, decide_eq_true_eq]
  split <;> omega

@[simp] theorem scale_ofMantissa
    (m : Int)
    (s : Nat)
    (hm : m.natAbs < 2 ^ 96)
    (hs : s ≤ 28) :
    (ofMantissa m s hm hs).scale = s :=
  rfl

/- The number of units of `10 ^ -28` in one unit of the
scale `s`. -/
def grid (s : Nat) : Nat :=
  10 ^ (28 - s)

theorem grid_pos (s : Nat) : 0 < grid s :=
  Nat.pow_pos (by decide)

/- One step down the scales is ten times as coarse. -/
theorem grid_eq_ten_mul
    {s : Nat}
    (h : s < 28) :
    grid s = 10 * grid (s + 1) := by
  have hs : 28 - s = (28 - (s + 1)) + 1 := by omega
  simp only [grid]
  rw [hs, Nat.pow_succ, Nat.mul_comm]

/- A coarse grid is made of whole steps of a finer one. -/
theorem grid_dvd
    {s t : Nat}
    (h : s ≤ t) :
    grid t ∣ grid s :=
  Nat.pow_dvd_pow 10 (by omega)

theorem grid_le (s : Nat) : grid s ≤ 10 ^ 28 :=
  Nat.pow_le_pow_right (by decide) (by omega)

/- The amount in units of `10 ^ -28`. -/
def units (a : Decimal) : Int :=
  a.mantissa * grid a.scale

/- The amount as a rational number. -/
def value (a : Decimal) : Rat :=
  mkRat a.mantissa (10 ^ a.scale)

/- A whole number of units of every finer grid. -/
theorem grid_dvd_units
    (a : Decimal)
    {s : Nat}
    (h : a.scale ≤ s) :
    (grid s : Int) ∣ a.units :=
  Int.dvd_trans
    (Int.natCast_dvd_natCast.2 (grid_dvd h))
    (Int.dvd_mul_left _ _)

------------------------------------------------------------
-- Comparison by value
------------------------------------------------------------

instance : LT Decimal := ⟨fun a b => a.units < b.units⟩

instance : LE Decimal := ⟨fun a b => a.units ≤ b.units⟩

instance (a b : Decimal) : Decidable (a < b) :=
  inferInstanceAs (Decidable (a.units < b.units))

instance (a b : Decimal) : Decidable (a ≤ b) :=
  inferInstanceAs (Decidable (a.units ≤ b.units))

instance : Ord Decimal :=
  ⟨fun a b => compare a.units b.units⟩

/- Equal by value, whatever the scales. -/
def Same (a b : Decimal) : Prop :=
  a.units = b.units

instance (a b : Decimal) : Decidable (Same a b) :=
  inferInstanceAs (Decidable (a.units = b.units))

theorem lt_iff_units
    {a b : Decimal} :
    a < b ↔ a.units < b.units :=
  Iff.rfl

theorem le_iff_units
    {a b : Decimal} :
    a ≤ b ↔ a.units ≤ b.units :=
  Iff.rfl

theorem same_iff_units
    {a b : Decimal} :
    Same a b ↔ a.units = b.units :=
  Iff.rfl

------------------------------------------------------------
-- Zero, sign and the lesser of two
------------------------------------------------------------

/- Zero without fraction digits and without a minus. -/
def zero : Decimal :=
  ofMantissa 0 0 (by decide) (by decide)

instance : OfNat Decimal 0 := ⟨zero⟩

/- Whether the amount is zero at any scale. -/
def IsZero (a : Decimal) : Prop :=
  a.magnitude = 0

instance (a : Decimal) : Decidable a.IsZero :=
  inferInstanceAs (Decidable (a.magnitude = 0))

theorem mantissa_eq_zero_iff
    {a : Decimal} :
    a.mantissa = 0 ↔ a.IsZero := by
  rw [← Int.natAbs_eq_zero, natAbs_mantissa]
  rfl

@[simp] theorem units_zero : (0 : Decimal).units = 0 := rfl

theorem units_eq_zero_iff
    {a : Decimal} :
    a.units = 0 ↔ a.IsZero := by
  have hg : (grid a.scale : Int) ≠ 0 :=
    Int.natCast_ne_zero.mpr
      (Nat.ne_of_gt (grid_pos a.scale))
  unfold units
  rw [Int.mul_eq_zero, ← mantissa_eq_zero_iff]
  exact or_iff_left hg

/- The amount with its sign turned, at the same scale.  A
zero stays as it is. -/
def negate (a : Decimal) : Decimal :=
  { a with
    negative :=
      if a.IsZero then a.negative else !a.negative }

@[simp] theorem mantissa_negate
    (a : Decimal) :
    a.negate.mantissa = -a.mantissa := by
  by_cases hz : a.IsZero
  · have hm : a.magnitude = 0 := hz
    simp [negate, mantissa, hz, hm]
  · cases hn : a.negative <;>
      simp [negate, mantissa, hz, hn]

@[simp] theorem units_negate
    (a : Decimal) :
    a.negate.units = -a.units := by
  rw [units, mantissa_negate, Int.neg_mul]
  rfl

@[simp] theorem scale_negate
    (a : Decimal) :
    a.negate.scale = a.scale :=
  rfl

/- The lesser of two amounts; the first when they are equal
by value. -/
def least (a b : Decimal) : Decimal :=
  if b < a then b else a

theorem units_least
    (a b : Decimal) :
    (least a b).units = min a.units b.units := by
  unfold least
  split
  · rename_i h
    have := lt_iff_units.1 h
    omega
  · rename_i h
    have := mt lt_iff_units.2 h
    omega

end Decimal

end Matchbook
