import Matchbook.Decimal.Arithmetic
import Matchbook.Proofs.Decimal.Text

/-
  Amounts read back as they are written.

  The digits of an amount never fill a magnitude beyond its
  bounds, so reading them back rounds nothing: the amount
  comes back with its digits and its scale.  The minus of a
  zero is all that a reader drops.

  Key definitions include:
    * `Decimal.HasProperSign`
    * `Decimal.IsReading`

  The main statements are:
    * `Decimal.readUnsigned?_magnitudeChars`
    * `Decimal.exists_ofAnyText?_toText`
-/

------------------------------------------------------------
-- Unsigned amounts
------------------------------------------------------------

namespace Matchbook

/- More digits never make a number smaller. -/
theorem Digits.le_ofDigitChars
    (cs : List Char)
    (m : Nat) :
    m ≤ Nat.ofDigitChars 10 cs m := by
  induction cs generalizing m with
  | nil => exact Nat.le_refl m
  | cons c cs ih =>
      rw [Nat.ofDigitChars_cons]
      exact Nat.le_trans (by omega) (ih _)

namespace Decimal

/- Digits in front that fit, before or after the point. -/
theorem readMagnitude?_digits
    {ds : List Char}
    {m : Nat}
    (s : Nat)
    (point digits : Bool)
    (rest : List Char)
    (hDigits : ∀ c ∈ ds, c.isDigit)
    (hFits : Nat.ofDigitChars 10 ds m < 2 ^ 96)
    (hPlaces : point → s + ds.length ≤ 28) :
    readMagnitude? m s point digits (ds ++ rest) =
      readMagnitude? (Nat.ofDigitChars 10 ds m)
        (if point then s + ds.length else s) point
        (digits || !ds.isEmpty) rest := by
  induction ds generalizing m s digits with
  | nil => simp
  | cons d ds ih =>
      have hDigit : d.isDigit :=
        hDigits d (List.mem_cons_self ..)
      have hNext :
          Nat.ofDigitChars 10 ds
              (10 * m + Digits.digitValue d) < 2 ^ 96 := by
        rwa [Nat.ofDigitChars_cons] at hFits
      have hMagnitude :
          10 * m + Digits.digitValue d < 2 ^ 96 :=
        Nat.lt_of_le_of_lt (Digits.le_ofDigitChars ds _) hNext
      -- The digits so far are a smaller number than all of
      -- them, so none meets a full magnitude.
      have hRoom :
          ¬ ((point ∧ s = 28) ∨
            2 ^ 96 ≤ 10 * m + Digits.digitValue d) := by
        rintro (⟨hPoint, hFull⟩ | hMore)
        · have hLength := hPlaces hPoint
          rw [List.length_cons] at hLength
          omega
        · omega
      have hRest :
          point →
            (if point then s + 1 else s) + ds.length ≤ 28 := by
        intro hPoint
        have hLength := hPlaces hPoint
        rw [List.length_cons] at hLength
        rw [if_pos hPoint]
        omega
      rw [List.cons_append, readMagnitude?, if_pos hDigit]
      dsimp only
      rw [if_neg hRoom, ih _ true ?_ hNext hRest]
      · rw [Nat.ofDigitChars_cons, List.length_cons]
        cases point with
        | true =>
            have hSum :
                s + 1 + ds.length = s + (ds.length + 1) := by
              omega
            simp [Digits.digitValue, hSum]
        | false => simp [Digits.digitValue]
      · intro c hc
        exact hDigits c (List.mem_cons_of_mem _ hc)

/- The digits before the point, from the first character
on. -/
theorem readUnsigned?_toDigits
    {n : Nat}
    (h : n < 2 ^ 96)
    (rest : List Char) :
    readUnsigned? (Nat.toDigits 10 n ++ rest) =
      readMagnitude? n 0 false true rest := by
  have hValue :
      Nat.ofDigitChars 10 (Nat.toDigits 10 n) 0 = n :=
    Digits.valueOf_toDigits n
  have hSome : (!(Nat.toDigits 10 n).isEmpty) = true := by
    simp [Nat.toDigits_ne_nil]
  unfold readUnsigned?
  rw [readMagnitude?_digits 0 false false rest
      (Digits.all_isDigit_toDigits n) (by rwa [hValue])
      (fun hPoint => by cases hPoint),
    hValue, hSome]
  rfl

/- The digits of an amount read back. -/
theorem readUnsigned?_magnitudeChars
    {m s : Nat}
    (hm : m < 2 ^ 96)
    (hs : s ≤ 28) :
    readUnsigned? (magnitudeChars m s) = some (m, s) := by
  unfold magnitudeChars
  split
  · rename_i hZero
    have hRead := readUnsigned?_toDigits hm []
    rw [List.append_nil] at hRead
    rw [hRead, hZero]
    rfl
  · have hLess : m % 10 ^ s < 10 ^ s :=
      Nat.mod_lt m (Nat.pow_pos (by decide))
    have hValue :
        Nat.ofDigitChars 10 (Digits.padded s (m % 10 ^ s))
          (m / 10 ^ s) = m := by
      have hFraction :
          Nat.ofDigitChars 10 (Digits.padded s (m % 10 ^ s)) 0 =
            m % 10 ^ s :=
        Digits.valueOf_padded hLess
      rw [Nat.ofDigitChars_eq_ofDigitChars_zero, hFraction,
        Digits.length_padded, Nat.div_add_mod]
    have hPoint (rest : List Char) :
        readMagnitude? (m / 10 ^ s) 0 false true
            ('.' :: rest) =
          readMagnitude? (m / 10 ^ s) 0 true true rest := by
      rw [readMagnitude?, if_neg (by decide),
        if_pos (by decide)]
    have hFraction :=
      readMagnitude?_digits 0 true true []
        (fun c hc => Digits.isDigit_of_mem_padded hc)
        (by rwa [hValue])
        (fun _ => by simpa using hs)
    rw [List.append_nil, hValue] at hFraction
    rw [readUnsigned?_toDigits
        (Nat.lt_of_le_of_lt (Nat.div_le_self ..) hm),
      hPoint, hFraction]
    simp [readMagnitude?]

------------------------------------------------------------
-- Signed amounts
------------------------------------------------------------

/- No zero comes with a minus. -/
def HasProperSign (a : Decimal) : Prop :=
  a.negative → ¬ a.IsZero

instance (a : Decimal) : Decidable a.HasProperSign :=
  inferInstanceAs (Decidable (_ → _))

/-
  What an amount reads back as: the same value at the same
  scale, and the very same amount unless it is a zero that
  came with a minus.
-/
structure IsReading (a b : Decimal) : Prop where
  same : Same a b
  scale_eq : b.scale = a.scale
  eq_of_sign : a.HasProperSign → b = a

/- The minus of a zero is all that the signed digits do not
tell. -/
theorem isReading_ofMantissa (a : Decimal) :
    a.IsReading
      (ofMantissa a.mantissa a.scale a.mantissa_lt
        a.scale_le) := by
  refine ⟨?_, rfl, ?_⟩
  · rw [same_iff_units]
    unfold units
    rw [mantissa_ofMantissa, scale_ofMantissa]
  · intro hSign
    refine ext_parts ?_ a.natAbs_mantissa rfl
    change decide (a.mantissa < 0) = a.negative
    unfold mantissa
    cases hNegative : a.negative with
    | true =>
        have hNonzero : a.magnitude ≠ 0 := hSign hNegative
        simp only [if_true, decide_eq_true_eq]
        omega
    | false => simp

theorem eq_of_rel
    {x y : Option Decimal}
    (h : Option.Rel IsReading x y)
    (hSigns : ∀ a ∈ x.toList, a.HasProperSign) :
    y = x := by
  cases h with
  | none => rfl
  | some hReading =>
      rw [hReading.eq_of_sign (hSigns _ (by simp))]

theorem IsReading.mantissa_eq
    {a b : Decimal}
    (h : a.IsReading b) :
    b.mantissa = a.mantissa :=
  (mantissa_eq_of_same h.scale_eq.symm h.same).symm

theorem IsReading.isZero_iff
    {a b : Decimal}
    (h : a.IsReading b) :
    b.IsZero ↔ a.IsZero := by
  rw [← mantissa_eq_zero_iff, h.mantissa_eq,
    mantissa_eq_zero_iff]

/- Products do not see a minus of a zero. -/
theorem IsReading.product?_eq
    {a a' b b' : Decimal}
    (ha : a.IsReading a')
    (hb : b.IsReading b') :
    a'.product? b' = a.product? b := by
  unfold product?
  simp only [ha.isZero_iff, hb.isZero_iff, ha.mantissa_eq,
    hb.mantissa_eq, ha.scale_eq, hb.scale_eq]

/- An amount reads back from its characters. -/
theorem ofChars?_toChars (a : Decimal) :
    ofChars? a.toChars =
      some
        (ofMantissa a.mantissa a.scale a.mantissa_lt
          a.scale_le) := by
  have hRead :=
    readUnsigned?_magnitudeChars a.magnitude_lt a.scale_le
  have hParts :
      ofParts? a.mantissa a.scale =
        some
          (ofMantissa a.mantissa a.scale a.mantissa_lt
            a.scale_le) :=
    dif_pos ⟨a.mantissa_lt, a.scale_le⟩
  rw [← hParts]
  unfold toChars mantissa
  cases a.negative with
  | true =>
      simp only [if_true, ofChars?, hRead]
      rfl
  | false =>
      rcases
          exists_magnitudeChars_eq_cons a.magnitude a.scale with
        ⟨c, rest, hChars, hDigit⟩
      simp only [Bool.false_eq_true, if_false]
      rw [hChars] at hRead ⊢
      unfold ofChars?
      split
      · rename_i hSign
        cases hSign
        exact absurd hDigit (by decide)
      · rename_i hSign
        cases hSign
        exact absurd hDigit (by decide)
      · rw [hRead]
        rfl

/- An amount reads back from its text. -/
theorem exists_ofAnyText?_toText (a : Decimal) :
    ∃ b, ofAnyText? a.toText = some b ∧ a.IsReading b := by
  refine ⟨_, ?_, a.isReading_ofMantissa⟩
  unfold ofAnyText? ofText? toText
  rw [String.toList_ofList, ofChars?_toChars]

end Decimal

end Matchbook
