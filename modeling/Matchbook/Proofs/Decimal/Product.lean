import Matchbook.Proofs.Decimal.Exact
import Mathlib.Data.Rat.Lemmas

/-
  Products of amounts by a multiplication that rounds without
  telling so.

  A multiplication keeps all digits of a product if they fit
  and otherwise drops some of them.  Whether it has dropped
  any is seen from the scale of the result: only an exact
  product has the sum of the scales of its factors.

  Key definitions include:
    * `Decimal.IsRoundedProduct`
    * `Decimal.Multiplication`
    * `Decimal.Multiplication.nearest`
    * `Decimal.Multiplication.checked?`
    * `Decimal.IsExactProduct`

  The main statements are:
    * `Decimal.Multiplication.checked?_eq_product?`
    * `Decimal.isExactProduct_of_product?`
-/

------------------------------------------------------------
-- Multiplications
------------------------------------------------------------

namespace Matchbook

namespace Decimal

variable {a b c : Decimal}

theorem roundHalfEven_one (n : Int) :
    roundHalfEven n 1 = n := by
  have hRound :=
    roundHalfEven_of_dvd (n := n) (d := 1) (by decide)
      (Int.one_dvd n)
  rw [Int.natCast_one, Int.one_mul] at hRound
  exact hRound

/- The mantissa of the product at some scale: the nearest one
if digits are dropped, and of two equally near ones the even
one. -/
def productMantissa
    (a b : Decimal)
    (s : Nat) : Int :=
  roundHalfEven (a.mantissa * b.mantissa)
    (10 ^ (a.scale + b.scale - s))

/- Whether an amount is the product of two others, maybe
rounded to fewer digits. -/
def IsRoundedProduct (a b c : Decimal) : Prop :=
  c.scale ≤ a.scale + b.scale ∧
    c.mantissa = productMantissa a b c.scale

theorem productMantissa_add_scale
    (a b : Decimal) :
    productMantissa a b (a.scale + b.scale) =
      a.mantissa * b.mantissa := by
  unfold productMantissa
  rw [Nat.sub_self, Nat.pow_zero, roundHalfEven_one]

/-
  A multiplication of amounts other than zero: it rounds what
  it has to, and nothing else.  It has no result if the
  product is out of range.
-/
structure Multiplication where
  result? : Decimal → Decimal → Option Decimal
  exact :
    ∀ a b, ¬ a.IsZero → ¬ b.IsZero → FitsProduct a b →
      ∃ c, result? a b = some c ∧
        c.scale = a.scale + b.scale
  rounded :
    ∀ a b c, ¬ a.IsZero → ¬ b.IsZero →
      result? a b = some c → IsRoundedProduct a b c

------------------------------------------------------------
-- Rounding to the nearest
------------------------------------------------------------

/- The product at one scale, if its mantissa fits. -/
def productAt?
    (a b : Decimal)
    (s : Nat)
    (hs : s ≤ 28) : Option Decimal :=
  if hm : (productMantissa a b s).natAbs < 2 ^ 96 then
    some (ofMantissa (productMantissa a b s) s hm hs)
  else
    none

/- The product at the largest scale up to `s` at which its
mantissa fits. -/
def productUpTo?
    (a b : Decimal) :
    (s : Nat) → s ≤ 28 → Option Decimal
  | 0, hs => productAt? a b 0 hs
  | s + 1, hs =>
      match productAt? a b (s + 1) hs with
      | some c => some c
      | none => productUpTo? a b s (Nat.le_of_succ_le hs)

theorem productAt?_eq_some
    {s : Nat}
    {hs : s ≤ 28}
    (h : productAt? a b s hs = some c) :
    c.scale = s ∧ c.mantissa = productMantissa a b s := by
  unfold productAt? at h
  split at h
  · cases h
    exact ⟨rfl, mantissa_ofMantissa ..⟩
  · cases h

theorem productUpTo?_succ
    {s : Nat}
    {hs : s + 1 ≤ 28} :
    productUpTo? a b (s + 1) hs =
      match productAt? a b (s + 1) hs with
      | some c => some c
      | none => productUpTo? a b s (Nat.le_of_succ_le hs) :=
  rfl

theorem productUpTo?_eq_some
    {s : Nat}
    {hs : s ≤ 28}
    (h : productUpTo? a b s hs = some c) :
    c.scale ≤ s ∧
      c.mantissa = productMantissa a b c.scale := by
  induction s with
  | zero =>
      rcases productAt?_eq_some h with ⟨hScale, hMantissa⟩
      rw [hScale]
      exact ⟨Nat.le_refl 0, hMantissa⟩
  | succ s ih =>
      rw [productUpTo?_succ] at h
      split at h
      · rename_i d hAt
        cases h
        rcases productAt?_eq_some hAt with
          ⟨hScale, hMantissa⟩
        rw [hScale]
        exact ⟨Nat.le_refl _, hMantissa⟩
      · rcases ih h with ⟨hScale, hMantissa⟩
        exact ⟨Nat.le_succ_of_le hScale, hMantissa⟩

theorem productUpTo?_of_fits
    {s : Nat}
    {hs : s ≤ 28}
    (hFits : (productMantissa a b s).natAbs < 2 ^ 96) :
    productUpTo? a b s hs =
      some
        (ofMantissa (productMantissa a b s) s hFits hs) := by
  have hAt :
      productAt? a b s hs =
        some
          (ofMantissa (productMantissa a b s) s hFits
            hs) := by
    unfold productAt?
    rw [dif_pos hFits]
  cases s with
  | zero => exact hAt
  | succ s =>
      rw [productUpTo?_succ, hAt]

namespace Multiplication

/- The multiplication that keeps as many fraction digits as
fit. -/
def nearest : Multiplication where
  result? a b :=
    productUpTo? a b (min (a.scale + b.scale) 28)
      (Nat.min_le_right ..)
  exact := by
    intro a b _ _ hFits
    have hMin :
        min (a.scale + b.scale) 28 = a.scale + b.scale :=
      Nat.min_eq_left hFits.2
    have hMantissa :
        (productMantissa a b
          (min (a.scale + b.scale) 28)).natAbs < 2 ^ 96 := by
      rw [hMin, productMantissa_add_scale]
      exact hFits.1
    exact ⟨_, productUpTo?_of_fits hMantissa, hMin⟩
  rounded := by
    intro a b c _ _ h
    rcases productUpTo?_eq_some h with ⟨hScale, hMantissa⟩
    exact
      ⟨Nat.le_trans hScale (Nat.min_le_left ..), hMantissa⟩

/-
  The product of two amounts by a multiplication that may have
  rounded it: plain zero if a factor is zero, and a result
  only if it has the sum of the scales.
-/
def checked?
    (times : Multiplication)
    (a b : Decimal) : Option Decimal :=
  if a.IsZero ∨ b.IsZero then
    some 0
  else
    (times.result? a b).filter
      (·.scale = a.scale + b.scale)

end Multiplication

------------------------------------------------------------
-- Checked products
------------------------------------------------------------

/- An amount other than zero is told by its mantissa and its
scale. -/
theorem eq_ofMantissa
    {m : Int}
    {s : Nat}
    {hm : m.natAbs < 2 ^ 96}
    {hs : s ≤ 28}
    (hNe : m ≠ 0)
    (hMantissa : c.mantissa = m)
    (hScale : c.scale = s) :
    c = ofMantissa m s hm hs := by
  have hMagnitude := natAbs_mantissa c
  rw [hMantissa] at hMagnitude
  refine ext_parts ?_ hMagnitude.symm hScale
  unfold mantissa at hMantissa
  unfold ofMantissa
  dsimp only
  cases hSign : c.negative with
  | false =>
      rw [hSign, if_neg Bool.false_ne_true] at hMantissa
      exact (decide_eq_false (by omega)).symm
  | true =>
      rw [hSign, if_pos rfl] at hMantissa
      exact (decide_eq_true (by omega)).symm

/- A rounded product of full scale is the exact one. -/
theorem IsRoundedProduct.eq_ofMantissa
    (h : IsRoundedProduct a b c)
    (ha : ¬ a.IsZero)
    (hb : ¬ b.IsZero)
    (hScale : c.scale = a.scale + b.scale)
    (hFits : FitsProduct a b) :
    c =
      ofMantissa (a.mantissa * b.mantissa)
        (a.scale + b.scale) hFits.1 hFits.2 := by
  have hMantissa := h.2
  rw [hScale, productMantissa_add_scale] at hMantissa
  refine Decimal.eq_ofMantissa ?_ hMantissa hScale
  rw [Int.mul_ne_zero_iff, Ne, Ne, mantissa_eq_zero_iff,
    mantissa_eq_zero_iff]
  exact ⟨ha, hb⟩

/- Its digits fit, since they are there. -/
theorem IsRoundedProduct.fitsProduct
    (h : IsRoundedProduct a b c)
    (hScale : c.scale = a.scale + b.scale) :
    FitsProduct a b := by
  have hMantissa := h.2
  rw [hScale, productMantissa_add_scale] at hMantissa
  unfold FitsProduct
  rw [← hMantissa, ← hScale]
  exact ⟨c.mantissa_lt, c.scale_le⟩

/-
  Whatever multiplication is used, its checked product is the
  exact one: a result of full scale has not been rounded, and
  a product whose digits fit has full scale.
-/
theorem Multiplication.checked?_eq_product?
    (times : Multiplication)
    (a b : Decimal) :
    times.checked? a b = product? a b := by
  unfold checked? product?
  by_cases hZero : a.IsZero ∨ b.IsZero
  · rw [if_pos hZero, if_pos hZero]
  rw [if_neg hZero, if_neg hZero]
  rcases not_or.1 hZero with ⟨ha, hb⟩
  by_cases hFits : FitsProduct a b
  · rcases times.exact a b ha hb hFits with
      ⟨c, hResult, hScale⟩
    have hRounded := times.rounded a b c ha hb hResult
    have hExact :=
      hRounded.eq_ofMantissa ha hb hScale hFits
    unfold FitsProduct at hFits
    rw [hResult, Option.filter_some,
      if_pos (decide_eq_true hScale), dif_pos hFits, hExact]
  · have hNone := hFits
    unfold FitsProduct at hNone
    rw [dif_neg hNone, Option.filter_eq_none_iff]
    intro c hResult hScale
    have hRounded := times.rounded a b c ha hb hResult
    exact
      hFits
        (hRounded.fitsProduct (of_decide_eq_true hScale))

------------------------------------------------------------
-- Exact products
------------------------------------------------------------

/-
  Whether an amount is the product of two others as it is:
  plain zero if a factor is zero, and otherwise the product of
  their values with all the fraction digits of both.
-/
def IsExactProduct (a b c : Decimal) : Prop :=
  c.value = a.value * b.value ∧
    if a.IsZero ∨ b.IsZero then
      c = 0
    else
      c.scale = a.scale + b.scale

theorem value_of_isZero
    (h : a.IsZero) :
    a.value = 0 := by
  unfold value
  rw [mantissa_eq_zero_iff.2 h, Rat.zero_mkRat]

theorem isExactProduct_of_product?
    (h : product? a b = some c) :
    IsExactProduct a b c := by
  unfold product? at h
  unfold IsExactProduct
  split at h
  · rename_i hZero
    cases h
    rw [if_pos hZero]
    refine ⟨?_, rfl⟩
    have hNil : (0 : Decimal).value = 0 :=
      value_of_isZero rfl
    rw [hNil]
    rcases hZero with ha | hb
    · rw [value_of_isZero ha, Rat.zero_mul]
    · rw [value_of_isZero hb, Rat.mul_zero]
  · rename_i hZero
    split at h
    · cases h
      rw [if_neg hZero]
      refine ⟨?_, scale_ofMantissa ..⟩
      unfold value
      rw [mantissa_ofMantissa, scale_ofMantissa,
        Rat.mkRat_mul_mkRat, ← Nat.pow_add]
    · cases h

end Decimal

end Matchbook
