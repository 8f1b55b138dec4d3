import Matchbook.Decimal.Text
import Mathlib.Data.List.TakeWhile
import Mathlib.Tactic.Ring

/-
  What the written form of an amount tells.

  The written form tells an amount with its scale, and the
  shortest spelling tells its value: amounts are equal by
  value exactly when they are spelled alike once the zeros at
  the end of their fractions are dropped.

  Key definitions include:
    * `Decimal.IsShort`

  The main statements are:
    * `Decimal.toText_injective`
    * `Decimal.normalize_eq_iff`
    * `Decimal.mem_toChars_cases`
-/

------------------------------------------------------------
-- Digits
------------------------------------------------------------

namespace Matchbook

theorem Digits.valueOf_toDigits (n : Nat) :
    valueOf (Nat.toDigits 10 n) = n :=
  Nat.ofDigitChars_toDigits (by decide) (by decide)

theorem Digits.all_isDigit_toDigits (n : Nat) :
    ∀ c ∈ Nat.toDigits 10 n, c.isDigit :=
  fun _ hc =>
    Nat.isDigit_of_mem_toDigits (by decide) (by decide) hc

namespace Decimal

/- The digits before the point. -/
theorem takeWhile_magnitudeChars (m s : Nat) :
    (magnitudeChars m s).takeWhile Char.isDigit =
      Nat.toDigits 10 (m / 10 ^ s) := by
  unfold magnitudeChars
  split
  · rename_i hWhole
    rw [hWhole, Nat.pow_zero, Nat.div_one,
      List.takeWhile_eq_self_iff]
    exact Digits.all_isDigit_toDigits m
  · rw [List.takeWhile_append_of_pos
        (Digits.all_isDigit_toDigits _),
      List.takeWhile_cons_of_neg (by decide),
      List.append_nil]

/- The point and the digits after it. -/
theorem dropWhile_magnitudeChars (m s : Nat) :
    (magnitudeChars m s).dropWhile Char.isDigit =
      if s = 0 then
        []
      else
        '.' :: Digits.padded s (m % 10 ^ s) := by
  unfold magnitudeChars
  split
  · rw [List.dropWhile_eq_nil_iff]
    exact Digits.all_isDigit_toDigits m
  · rw [List.dropWhile_append_of_pos
        (Digits.all_isDigit_toDigits _),
      List.dropWhile_cons_of_neg (by decide)]

/- The number of digits after the point tells the scale. -/
theorem magnitudeChars_inj
    {m n s t : Nat}
    (h : magnitudeChars m s = magnitudeChars n t) :
    m = n ∧ s = t := by
  have hWhole := congrArg (List.takeWhile Char.isDigit) h
  have hRest := congrArg (List.dropWhile Char.isDigit) h
  rw [takeWhile_magnitudeChars, takeWhile_magnitudeChars]
    at hWhole
  rw [dropWhile_magnitudeChars, dropWhile_magnitudeChars]
    at hRest
  have hDiv : m / 10 ^ s = n / 10 ^ t := by
    have hValue := congrArg Digits.valueOf hWhole
    rwa [Digits.valueOf_toDigits, Digits.valueOf_toDigits]
      at hValue
  have hScale : s = t := by
    have hLength := congrArg List.length hRest
    by_cases hs : s = 0 <;> by_cases ht : t = 0 <;>
      simp [hs, ht] at hLength ⊢
    exact hLength
  subst hScale
  refine ⟨?_, rfl⟩
  by_cases hs : s = 0
  · simpa [hs] using hDiv
  · rw [if_neg hs, if_neg hs] at hRest
    have hMod : m % 10 ^ s = n % 10 ^ s := by
      have hValue :=
        congrArg Digits.valueOf (List.cons_eq_cons.1 hRest).2
      have hPos : 0 < 10 ^ s := Nat.pow_pos (by decide)
      rwa [Digits.valueOf_padded (Nat.mod_lt m hPos),
        Digits.valueOf_padded (Nat.mod_lt n hPos)] at hValue
    rw [← Nat.div_add_mod m (10 ^ s), hDiv, hMod,
      Nat.div_add_mod]

/- An amount begins with a digit, but for its sign. -/
theorem exists_magnitudeChars_eq_cons (m s : Nat) :
    ∃ c rest, magnitudeChars m s = c :: rest ∧
      c.isDigit := by
  have hTake := takeWhile_magnitudeChars m s
  cases hChars : magnitudeChars m s with
  | nil =>
      rw [hChars] at hTake
      exact absurd hTake.symm Nat.toDigits_ne_nil
  | cons c rest =>
      refine ⟨c, rest, rfl, ?_⟩
      by_contra hNot
      rw [hChars, List.takeWhile_cons_of_neg hNot] at hTake
      exact Nat.toDigits_ne_nil hTake.symm

/- No amount is a sign alone. -/
theorem exists_toChars_eq (a : Decimal) :
    ∃ c rest, c.isDigit ∧
      (a.toChars = c :: rest ∨ a.toChars = '-' :: c :: rest) := by
  rcases
      exists_magnitudeChars_eq_cons a.magnitude a.scale with
    ⟨c, rest, hChars, hDigit⟩
  refine ⟨c, rest, hDigit, ?_⟩
  unfold toChars
  rw [hChars]
  split
  · exact Or.inr rfl
  · exact Or.inl rfl

theorem toChars_injective :
    Function.Injective toChars := by
  intro a b h
  rcases
      exists_magnitudeChars_eq_cons a.magnitude a.scale with
    ⟨c, cs, hA, hDigitA⟩
  rcases
      exists_magnitudeChars_eq_cons b.magnitude b.scale with
    ⟨d, ds, hB, hDigitB⟩
  have hSign :
      a.negative = b.negative ∧
        magnitudeChars a.magnitude a.scale =
          magnitudeChars b.magnitude b.scale := by
    unfold toChars at h
    cases hNegA : a.negative <;>
      cases hNegB : b.negative <;>
      simp only [hNegA, hNegB, Bool.false_eq_true, if_true,
        if_false] at h
    · exact ⟨rfl, h⟩
    · have hMinus : c = '-' :=
        (List.cons_eq_cons.1 (hA.symm.trans h)).1
      rw [hMinus] at hDigitA
      exact absurd hDigitA (by decide)
    · have hMinus : d = '-' :=
        (List.cons_eq_cons.1 (hB.symm.trans h.symm)).1
      rw [hMinus] at hDigitB
      exact absurd hDigitB (by decide)
    · exact ⟨rfl, (List.cons_eq_cons.1 h).2⟩
  rcases magnitudeChars_inj hSign.2 with ⟨hMagnitude, hScale⟩
  exact ext_parts hSign.1 hMagnitude hScale

theorem toText_injective :
    Function.Injective toText :=
  fun _ _ h => toChars_injective (String.ofList_injective h)

/- The characters that amounts are written with. -/
theorem mem_toChars_cases
    {a : Decimal}
    {c : Char}
    (hc : c ∈ a.toChars) :
    c.isDigit ∨ c = '.' ∨ c = '-' := by
  have hMagnitude :
      ∀ c ∈ magnitudeChars a.magnitude a.scale,
        c.isDigit ∨ c = '.' := by
    intro c hc
    unfold magnitudeChars at hc
    split at hc
    · exact Or.inl (Digits.all_isDigit_toDigits _ c hc)
    · rcases List.mem_append.1 hc with hWhole | hRest
      · exact Or.inl (Digits.all_isDigit_toDigits _ c hWhole)
      · rcases List.mem_cons.1 hRest with hPoint | hDigit
        · exact Or.inr hPoint
        · exact Or.inl (Digits.isDigit_of_mem_padded hDigit)
  unfold toChars at hc
  split at hc
  · rcases List.mem_cons.1 hc with hSign | hOther
    · exact Or.inr (Or.inr hSign)
    · exact (hMagnitude c hOther).imp_right Or.inl
  · exact (hMagnitude c hc).imp_right Or.inl

------------------------------------------------------------
-- The shortest spelling
------------------------------------------------------------

/- Whether an amount has no zeros at the end of its fraction,
and no minus if it is zero. -/
structure IsShort (a : Decimal) : Prop where
  last_ne_zero : a.scale ≠ 0 → a.mantissa % 10 ≠ 0
  negative_iff : a.negative = true ↔ a.mantissa < 0

theorem stripZeros_zero
    {m : Int}
    (hm : m.natAbs < 2 ^ 96)
    (hs : 0 ≤ 28) :
    stripZeros m hm 0 hs = ofMantissa m 0 hm hs :=
  rfl

theorem stripZeros_succ
    {m : Int}
    (hm : m.natAbs < 2 ^ 96)
    (hTenth : (m / 10).natAbs < 2 ^ 96)
    {s : Nat}
    (hs : s + 1 ≤ 28)
    (hLess : s ≤ 28) :
    stripZeros m hm (s + 1) hs =
      if m % 10 = 0 then
        stripZeros (m / 10) hTenth s hLess
      else
        ofMantissa m (s + 1) hm hs :=
  rfl

theorem isShort_stripZeros
    {m : Int}
    (hm : m.natAbs < 2 ^ 96)
    {s : Nat}
    (hs : s ≤ 28) :
    (stripZeros m hm s hs).IsShort := by
  induction s generalizing m with
  | zero =>
      rw [stripZeros_zero]
      constructor
      · intro hScale
        exact absurd rfl hScale
      · rw [mantissa_ofMantissa]
        exact decide_eq_true_iff
  | succ s ih =>
      rw [stripZeros_succ hm (by omega) hs (by omega)]
      split
      · exact ih _ _
      · rename_i hLast
        constructor
        · intro _
          rwa [mantissa_ofMantissa]
        · rw [mantissa_ofMantissa]
          exact decide_eq_true_iff

theorem units_stripZeros
    {m : Int}
    (hm : m.natAbs < 2 ^ 96)
    {s : Nat}
    (hs : s ≤ 28) :
    (stripZeros m hm s hs).units = m * grid s := by
  induction s generalizing m with
  | zero =>
      rw [stripZeros_zero]
      unfold units
      rw [mantissa_ofMantissa, scale_ofMantissa]
  | succ s ih =>
      rw [stripZeros_succ hm (by omega) hs (by omega)]
      split
      · rename_i hLast
        rw [ih, grid_eq_ten_mul (by omega)]
        have hTens : m = m / 10 * 10 := by omega
        rw [Nat.cast_mul, ← Int.mul_assoc]
        exact congrArg (· * _) hTens.symm
      · unfold units
        rw [mantissa_ofMantissa, scale_ofMantissa]

theorem isShort_normalize (a : Decimal) :
    a.normalize.IsShort :=
  isShort_stripZeros _ _

@[simp] theorem units_normalize (a : Decimal) :
    a.normalize.units = a.units :=
  units_stripZeros _ _

/- Of two short spellings of a value none has fewer places: it
would leave a zero at the end of the other one. -/
theorem IsShort.scale_le
    {a b : Decimal}
    (hb : b.IsShort)
    (hSame : Same a b) :
    b.scale ≤ a.scale := by
  by_contra hMore
  apply hb.last_ne_zero (by omega)
  have hGrid :
      (grid a.scale : Int) =
        10 * 10 ^ (b.scale - a.scale - 1) *
          grid b.scale := by
    have hle := b.scale_le
    have hSplit :
        28 - a.scale =
          (b.scale - a.scale - 1) + 1 + (28 - b.scale) := by
      omega
    unfold grid
    rw [hSplit]
    push_cast
    ring
  have hPos : (grid b.scale : Int) ≠ 0 :=
    Int.natCast_ne_zero.2 (Nat.ne_of_gt (grid_pos _))
  have hUnits :
      b.mantissa * grid b.scale =
        a.mantissa *
            (10 * 10 ^ (b.scale - a.scale - 1)) *
          grid b.scale := by
    rw [Int.mul_assoc, ← hGrid]
    exact hSame.symm
  rw [Int.eq_of_mul_eq_mul_right hPos hUnits,
    ← Int.mul_assoc, Int.mul_comm a.mantissa, Int.mul_assoc]
  exact Int.mul_emod_right _ _

/- Amounts of one scale are told apart by their digits. -/
theorem mantissa_eq_of_same
    {a b : Decimal}
    (hScale : a.scale = b.scale)
    (hSame : Same a b) :
    a.mantissa = b.mantissa := by
  have hPos : (grid b.scale : Int) ≠ 0 :=
    Int.natCast_ne_zero.2 (Nat.ne_of_gt (grid_pos _))
  have hUnits : a.units = b.units := hSame
  unfold units at hUnits
  rw [hScale] at hUnits
  exact Int.eq_of_mul_eq_mul_right hPos hUnits

/- A value has one short spelling. -/
theorem IsShort.eq_of_same
    {a b : Decimal}
    (ha : a.IsShort)
    (hb : b.IsShort)
    (hSame : Same a b) :
    a = b := by
  have hScale : a.scale = b.scale :=
    Nat.le_antisymm (ha.scale_le hSame.symm)
      (hb.scale_le hSame)
  have hMantissa : a.mantissa = b.mantissa :=
    mantissa_eq_of_same hScale hSame
  refine ext_parts ?_ ?_ hScale
  · rw [Bool.eq_iff_iff, ha.negative_iff, hb.negative_iff,
      hMantissa]
  · rw [← natAbs_mantissa, ← natAbs_mantissa, hMantissa]

/- Amounts have the same shortest spelling exactly if they are
equal by value. -/
theorem normalize_eq_iff
    {a b : Decimal} :
    a.normalize = b.normalize ↔ Same a b := by
  constructor
  · intro hEq
    have hUnits := congrArg units hEq
    rwa [units_normalize, units_normalize] at hUnits
  · intro hSame
    refine
      a.isShort_normalize.eq_of_same b.isShort_normalize ?_
    rw [same_iff_units, units_normalize, units_normalize]
    exact hSame

/- Zeros at the end of a fraction do not count, nor does the
minus of a zero. -/
example :
    (Decimal.ofParts? 150 2).map (toText ∘ normalize) =
        some "1.5" ∧
      (Decimal.ofParts? 0 3).map (toText ∘ normalize) =
        some "0" := by
  decide +kernel

end Decimal

end Matchbook
