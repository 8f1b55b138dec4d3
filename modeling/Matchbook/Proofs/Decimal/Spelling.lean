import Matchbook.Proofs.Decimal.Product
import Matchbook.Proofs.Engine.Run
import Matchbook.Proofs.Order.Intake
import Mathlib.Tactic.Ring

/-
  What a checked product depends on besides the values of its
  factors.

  The product is looked for at the sum of the scales and
  nowhere else.  So it is missed where it is an amount only
  after zeros at the end of its digits have been dropped, be
  they trailing zeros of the factors or digits that cancel
  each other as in two halves.

  Key definitions include:
    * `Decimal.HasProduct`
    * `Decimal.FitsShortened`
    * `Decimal.IsToldByDigits`
    * `Decimal.Multiplication.Tells`
    * `Order.ComesToTrade`

  The main statements are:
    * `Decimal.hasProduct_iff`
    * `Decimal.hasProduct_congr`
    * `Decimal.isSome_product?_iff`
    * `Decimal.Multiplication.tells_iff`
-/

------------------------------------------------------------
-- Products that are amounts
------------------------------------------------------------

namespace Matchbook

namespace Decimal

variable {a b c a' b' : Decimal}

/- Whether some amount has exactly the product of two
values. -/
def HasProduct (a b : Decimal) : Prop :=
  ∃ c : Decimal, c.value = a.value * b.value

/-
  Whether the digits of a product fit once the last `k` of
  them, all zeros, are dropped.
-/
def FitsShortened (a b : Decimal) (k : Nat) : Prop :=
  k ≤ a.scale + b.scale ∧
    a.scale + b.scale ≤ 28 + k ∧
    (10 ^ k : Int) ∣ a.mantissa * b.mantissa ∧
    (a.mantissa * b.mantissa).natAbs < 10 ^ k * 2 ^ 96

instance (a b : Decimal) (k : Nat) :
    Decidable (FitsShortened a b k) :=
  inferInstanceAs (Decidable (_ ∧ _))

theorem fitsShortened_zero_iff :
    FitsShortened a b 0 ↔ FitsProduct a b := by
  unfold FitsShortened FitsProduct
  simp only [Nat.zero_le, Nat.add_zero, Int.pow_zero,
    Int.one_dvd, Nat.pow_zero, Nat.one_mul, true_and]
  exact and_comm

/- The product of two values is that of the mantissas at the
sum of the scales. -/
theorem value_mul_value
    (a b : Decimal) :
    a.value * b.value =
      mkRat (a.mantissa * b.mantissa)
        (10 ^ (a.scale + b.scale)) := by
  unfold value
  rw [Rat.mkRat_mul_mkRat, ← Nat.pow_add]

theorem value_eq_mul_iff :
    c.value = a.value * b.value ↔
      c.mantissa * (10 ^ (a.scale + b.scale) : Nat) =
        a.mantissa * b.mantissa * (10 ^ c.scale : Nat) := by
  rw [value_mul_value, value]
  exact
    Rat.mkRat_eq_iff (Nat.pos_iff_ne_zero.1 (Nat.pow_pos
      (by decide)))
      (Nat.pos_iff_ne_zero.1 (Nat.pow_pos (by decide)))

theorem pow_ten_ne_zero (n : Nat) :
    ((10 ^ n : Nat) : Int) ≠ 0 := by
  exact_mod_cast
    Nat.pos_iff_ne_zero.1 (Nat.pow_pos (by decide))

/- An amount of fewer fraction digits than the factors have
together is what is left when zeros are dropped. -/
theorem fitsShortened_of_scale_le
    (h : c.value = a.value * b.value)
    (hScale : c.scale ≤ a.scale + b.scale) :
    FitsShortened a b (a.scale + b.scale - c.scale) := by
  rcases Nat.exists_eq_add_of_le hScale with ⟨k, hk⟩
  have hPlaces := c.scale_le
  have hEq := value_eq_mul_iff.1 h
  have hProduct :
      a.mantissa * b.mantissa =
        c.mantissa * (10 ^ k : Nat) := by
    apply
      Int.eq_of_mul_eq_mul_right (pow_ten_ne_zero c.scale)
    rw [← hEq, hk, Nat.pow_add, Int.natCast_mul]
    ring
  rw [hk, Nat.add_sub_cancel_left]
  refine ⟨by omega, by omega, ?_, ?_⟩
  · rw [hProduct]
    exact ⟨c.mantissa, by push_cast; ring⟩
  · rw [hProduct, Int.natAbs_mul, Int.natAbs_natCast,
      Nat.mul_comm]
    exact
      Nat.mul_lt_mul_of_pos_left c.mantissa_lt
        (Nat.pow_pos (by decide))

/- An amount of more fraction digits shows that there is room
for those of the product. -/
theorem fitsProduct_of_le_scale
    (h : c.value = a.value * b.value)
    (hScale : a.scale + b.scale ≤ c.scale) :
    FitsProduct a b := by
  rcases Nat.exists_eq_add_of_le hScale with ⟨k, hk⟩
  have hEq := value_eq_mul_iff.1 h
  have hMantissa :
      c.mantissa =
        a.mantissa * b.mantissa * (10 ^ k : Nat) := by
    apply
      Int.eq_of_mul_eq_mul_right
        (pow_ten_ne_zero (a.scale + b.scale))
    rw [hEq, hk, Nat.pow_add, Int.natCast_mul]
    ring
  have hLess := c.mantissa_lt
  rw [hMantissa, Int.natAbs_mul, Int.natAbs_natCast] at hLess
  refine ⟨?_, Nat.le_trans hScale c.scale_le⟩
  exact
    Nat.lt_of_le_of_lt
      (Nat.le_mul_of_pos_right _
        (Nat.pow_pos (by decide)))
      hLess

theorem FitsShortened.hasProduct
    {k : Nat}
    (h : FitsShortened a b k) :
    HasProduct a b := by
  rcases h with ⟨hDrop, hPlaces, ⟨m, hm⟩, hLess⟩
  rcases Nat.exists_eq_add_of_le hDrop with ⟨s, hs⟩
  have hAbs : m.natAbs < 2 ^ 96 := by
    rw [hm, Int.natAbs_mul, Int.natAbs_pow] at hLess
    exact Nat.lt_of_mul_lt_mul_left hLess
  refine ⟨ofMantissa m s hAbs (by omega), ?_⟩
  rw [value_eq_mul_iff, mantissa_ofMantissa,
    scale_ofMantissa, hm, hs]
  push_cast
  ring

/-
  A product is an amount exactly when its digits fit, maybe
  after zeros at their end are dropped: the scale of the
  amount tells how many.
-/
theorem hasProduct_iff :
    HasProduct a b ↔ ∃ k, FitsShortened a b k := by
  constructor
  · rintro ⟨c, hValue⟩
    rcases Nat.le_total c.scale (a.scale + b.scale) with
      hLe | hGe
    · exact ⟨_, fitsShortened_of_scale_le hValue hLe⟩
    · exact
        ⟨0, fitsShortened_zero_iff.2
          (fitsProduct_of_le_scale hValue hGe)⟩
  · rintro ⟨k, hFits⟩
    exact hFits.hasProduct

------------------------------------------------------------
-- Values and spellings
------------------------------------------------------------

/- A value counts units. -/
theorem value_eq_mkRat_units
    (a : Decimal) :
    a.value = mkRat a.units (10 ^ 28) := by
  have hScale :
      10 ^ a.scale * 10 ^ (28 - a.scale) = 10 ^ 28 := by
    rw [← Nat.pow_add, Nat.add_sub_cancel' a.scale_le]
  unfold value units grid
  rw [← hScale, Rat.mkRat_mul_right]
  exact Nat.pos_iff_ne_zero.1 (Nat.pow_pos (by decide))

theorem value_eq_value_iff :
    a.value = b.value ↔ Same a b := by
  have hNe : 10 ^ 28 ≠ 0 := by decide
  rw [value_eq_mkRat_units, value_eq_mkRat_units,
    Rat.mkRat_eq_iff hNe hNe]
  exact
    ⟨Int.eq_of_mul_eq_mul_right (pow_ten_ne_zero 28),
      fun h => by rw [h]⟩

/- Whether the product of two values is an amount does not
depend on how they are spelled. -/
theorem hasProduct_congr
    (ha : Same a a')
    (hb : Same b b') :
    HasProduct a b ↔ HasProduct a' b' := by
  unfold HasProduct
  rw [value_eq_value_iff.2 ha, value_eq_value_iff.2 hb]

------------------------------------------------------------
-- Checked products
------------------------------------------------------------

/- Whether the spelling of two factors tells if their product
is an amount: it fits as it is, or not at all. -/
def IsToldByDigits (a b : Decimal) : Prop :=
  a.IsZero ∨ b.IsZero ∨ FitsProduct a b ∨
    ∀ k, k ≤ a.scale + b.scale → ¬ FitsShortened a b k

instance (a b : Decimal) : Decidable (IsToldByDigits a b) :=
  decidable_of_iff
    (a.IsZero ∨ b.IsZero ∨ FitsProduct a b ∨
      ∀ k, k < a.scale + b.scale + 1 →
        ¬ FitsShortened a b k)
    (by simp only [IsToldByDigits, Nat.lt_succ_iff])

theorem isSome_product?_iff :
    (product? a b).isSome ↔
      a.IsZero ∨ b.IsZero ∨ FitsProduct a b := by
  rw [← not_iff_not, Option.not_isSome_iff_eq_none,
    product?_eq_none_iff]
  tauto

theorem hasProduct_of_isSome
    (h : (product? a b).isSome) :
    HasProduct a b := by
  rcases Option.isSome_iff_exists.1 h with ⟨c, hc⟩
  exact ⟨c, (isExactProduct_of_product? hc).1⟩

/- A product is there exactly if it is an amount, where the
digits of the factors tell so. -/
theorem isSome_product?_iff_hasProduct :
    ((product? a b).isSome ↔ HasProduct a b) ↔
      IsToldByDigits a b := by
  have hNone :
      (∀ k, k ≤ a.scale + b.scale →
        ¬ FitsShortened a b k) ↔ ¬ HasProduct a b := by
    rw [hasProduct_iff, not_exists]
    exact
      ⟨fun h k hFits => h k hFits.1 hFits,
        fun h k _ => h k⟩
  have hSome := isSome_product?_iff (a := a) (b := b)
  have hFound := hasProduct_of_isSome (a := a) (b := b)
  unfold IsToldByDigits
  rw [hNone]
  tauto

namespace Multiplication

/-
  Whether a checked product is there exactly when the product
  of the values is an amount, and is that amount.
-/
structure Tells
    (times : Multiplication)
    (a b : Decimal) : Prop where
  isSome_iff : (times.checked? a b).isSome ↔ HasProduct a b
  value_eq :
    ∀ c, times.checked? a b = some c →
      c.value = a.value * b.value

theorem tells_iff_isToldByDigits
    {times : Multiplication} :
    times.Tells a b ↔ IsToldByDigits a b := by
  rw [← isSome_product?_iff_hasProduct]
  constructor
  · intro h
    rw [← times.checked?_eq_product?]
    exact h.isSome_iff
  · intro h
    constructor
    · rw [times.checked?_eq_product?]
      exact h
    · intro c hc
      rw [times.checked?_eq_product?] at hc
      exact (isExactProduct_of_product? hc).1

/- Products that are told are the same by value for factors
that are. -/
theorem Tells.units_eq
    {times : Multiplication}
    (h : times.Tells a b)
    (h' : times.Tells a' b')
    (ha : Same a a')
    (hb : Same b b') :
    (times.checked? a b).map units =
      (times.checked? a' b').map units := by
  have hSome :
      (times.checked? a b).isSome ↔
        (times.checked? a' b').isSome := by
    rw [h.isSome_iff, h'.isSome_iff, hasProduct_congr ha hb]
  cases hc : times.checked? a b with
  | none =>
      rw [hc] at hSome
      cases hc' : times.checked? a' b' with
      | none => rfl
      | some c' =>
          rw [hc'] at hSome
          cases hSome.2 rfl
  | some c =>
      rw [hc] at hSome
      rcases Option.isSome_iff_exists.1 (hSome.1 rfl) with
        ⟨c', hc'⟩
      rw [hc', Option.map_some, Option.map_some]
      have hValue :=
        (h.value_eq c hc).trans
          ((congrArg₂ (· * ·) (value_eq_value_iff.2 ha)
            (value_eq_value_iff.2 hb)).trans
              (h'.value_eq c' hc').symm)
      rw [value_eq_value_iff.1 hValue]

end Multiplication

end Decimal

------------------------------------------------------------
-- Notionals and totals
------------------------------------------------------------

namespace Order

variable {o maker taker : Order}
variable {price quantity : Decimal}

/- Whether nothing is wrong with an order, except maybe that
its price times its quantity is out of range. -/
def IsElseSound (o : Order) (price : Decimal) : Prop :=
  ∀ d, o.defect? = some d →
    d = .notionalOutOfRange o.id price o.quantity

theorem defectIf_eq_some_iff
    {p : Prop}
    [Decidable p]
    {d d' : OrderDefect} :
    defectIf p d = some d' ↔ p ∧ d = d' := by
  unfold defectIf
  split <;> simp_all

/- No other check reports a notional. -/
theorem product?_of_defect?_eq_notional
    (hPrice : o.price = some price)
    (h :
      o.defect? =
        some
          (.notionalOutOfRange o.id price o.quantity)) :
    price.product? o.quantity = none := by
  simp only [defect?, priceDefect?, placesDefect?,
    Option.orElse_eq_orElse, Option.orElse_eq_or,
    Option.or_eq_some_iff, Option.bind_eq_some_iff,
    defectIf_eq_some_iff, reduceCtorEq, and_false,
    exists_false, false_or, hPrice] at h
  rcases h.2.2.2.2.2.2.2.2 with ⟨p, hp, hNone, _⟩
  rw [Option.some.inj hp]
  exact hNone

/- Intake refuses a notional exactly when there is no checked
product. -/
theorem defect?_eq_notional_iff
    (hPrice : o.price = some price)
    (hElse : o.IsElseSound price) :
    o.defect? =
        some
          (.notionalOutOfRange o.id price o.quantity) ↔
      price.product? o.quantity = none := by
  refine ⟨product?_of_defect?_eq_notional hPrice, ?_⟩
  intro hNone
  cases hDefect : o.defect? with
  | none =>
      have hSound := defect?_eq_none_iff.1 hDefect
      exact absurd hNone (hSound.notional price hPrice)
  | some d => rw [hElse d hDefect]

/- Whether a maker and a taker that meet come to trade a
quantity at a price. -/
structure ComesToTrade
    (maker taker : Order)
    (price quantity : Decimal) : Prop where
  side_ne : maker.side ≠ taker.side
  price_eq : maker.price = some price
  accepts : taker.Accepts price
  quantity_eq :
    ∃ makerOpen takerOpen,
      maker.pending? = some makerOpen ∧ ¬ makerOpen ≤ 0 ∧
        taker.pending? = some takerOpen ∧ ¬ takerOpen ≤ 0 ∧
          quantity = Decimal.least makerOpen takerOpen

/- A trade breaks off for its total exactly when there is no
checked product. -/
theorem ComesToTrade.meet?_eq_totalOutOfRange_iff
    {id : UInt64}
    {now : Timestamp}
    (h : maker.ComesToTrade taker price quantity) :
    maker.meet? taker id now =
        some
          (.broken
            (.totalOutOfRange maker.id taker.id price
              quantity)) ↔
      price.product? quantity = none := by
  rcases h.quantity_eq with
    ⟨makerOpen, takerOpen, hMaker, hMakerOpen, hTaker,
      hTakerOpen, rfl⟩
  unfold meet? exchange?
  rw [if_neg h.side_ne, h.price_eq]
  simp only [if_pos h.accepts, hMaker, Option.bind_some,
    if_neg hMakerOpen, hTaker, if_neg hTakerOpen]
  cases
      price.product?
        (Decimal.least makerOpen takerOpen) with
  | none => simp
  | some total =>
      simp only [reduceCtorEq, iff_false]
      split <;> simp

end Order

namespace Decimal

variable {a b : Decimal}

theorem product?_eq_none_iff_not_hasProduct
    (h : IsToldByDigits a b) :
    product? a b = none ↔ ¬ HasProduct a b := by
  rw [← isSome_product?_iff_hasProduct.2 h,
    Option.not_isSome_iff_eq_none]

/-
  A checked product is there exactly when it is an amount if
  the digits of the factors tell so, and otherwise it is
  missed.  Where they tell, neither the product nor a verdict
  of intake or of a meeting of orders depends on how the
  values are spelled.
-/
theorem Multiplication.tells_iff
    (times : Multiplication)
    (a b : Decimal) :
    (times.Tells a b ↔ IsToldByDigits a b) ∧
      (IsToldByDigits a b →
        (∀ a' b', Same a a' → Same b b' →
          IsToldByDigits a' b' →
            (times.checked? a b).map units =
              (times.checked? a' b').map units) ∧
        (∀ o : Order, o.price = some a → o.quantity = b →
          o.IsElseSound a →
            (o.defect? =
                some (.notionalOutOfRange o.id a b) ↔
              ¬ HasProduct a b)) ∧
        ∀ (maker taker : Order) (id : UInt64)
          (now : Timestamp),
          maker.ComesToTrade taker a b →
            (maker.meet? taker id now =
                some
                  (.broken
                    (.totalOutOfRange maker.id taker.id
                      a b)) ↔
              ¬ HasProduct a b)) := by
  refine ⟨tells_iff_isToldByDigits, ?_⟩
  intro hTold
  have hNone := product?_eq_none_iff_not_hasProduct hTold
  refine ⟨?_, ?_, ?_⟩
  · intro a' b' ha hb hTold'
    exact
      (tells_iff_isToldByDigits.2 hTold).units_eq
        (tells_iff_isToldByDigits.2 hTold') ha hb
  · rintro o hPrice rfl hElse
    rw [Order.defect?_eq_notional_iff hPrice hElse]
    exact hNone
  · intro maker taker id now hTrade
    rw [hTrade.meet?_eq_totalOutOfRange_iff]
    exact hNone

/- Two halves are told, although two digits cancel. -/
theorem Multiplication.tells_iff_of_halves :
    IsToldByDigits (ofParts 2 0) (ofParts 5 1) ∧
      nearest.Tells (ofParts 2 0) (ofParts 5 1) :=
  have hTold :
      IsToldByDigits (ofParts 2 0) (ofParts 5 1) := by
    decide +kernel
  ⟨hTold, (tells_iff nearest _ _).1.2 hTold⟩

/- The same two values with trailing zeros: 20 times one half
is missed, although it is 10. -/
theorem Multiplication.not_tells_of_trailing_zeros :
    Same (ofParts (2 * 10 ^ 15) 14) (ofParts 20 0) ∧
      Same (ofParts (5 * 10 ^ 13) 14) (ofParts 5 1) ∧
      (ofParts 10 0).value =
        (ofParts (2 * 10 ^ 15) 14).value *
          (ofParts (5 * 10 ^ 13) 14).value ∧
      nearest.checked? (ofParts 20 0) (ofParts 5 1) =
        some (ofParts 100 1) ∧
      nearest.checked? (ofParts (2 * 10 ^ 15) 14)
        (ofParts (5 * 10 ^ 13) 14) = none := by
  decide +kernel

end Decimal

end Matchbook
