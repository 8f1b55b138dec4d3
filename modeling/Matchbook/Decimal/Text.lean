import Matchbook.Decimal.Rounding
import Matchbook.Text.Digits

/-
  The written form of decimal amounts.

  An amount of scale `s` is written with exactly `s` digits
  after the point and no point if `s` is zero.  A reader takes
  more spellings: a sign, a missing whole or fraction part and
  separators between the digits.  Fraction digits beyond what
  an amount holds are rounded away, a half going up.  Only in
  scientific notation a zero can come with a minus.

  Key definitions include:
    * `Decimal.toChars`
    * `Decimal.toText`
    * `Decimal.ofChars?`
    * `Decimal.ofText?`
    * `Decimal.ofScientific?`
    * `Decimal.normalize`
-/

------------------------------------------------------------
-- Writing
------------------------------------------------------------

namespace Matchbook

namespace Decimal

/- The magnitude of an amount, digit by digit. -/
def magnitudeChars (m s : Nat) : List Char :=
  if s = 0 then
    Nat.toDigits 10 m
  else
    Nat.toDigits 10 (m / 10 ^ s) ++
      '.' :: Digits.padded s (m % 10 ^ s)

/- The written form, character by character. -/
def toChars (a : Decimal) : List Char :=
  if a.negative then
    '-' :: magnitudeChars a.magnitude a.scale
  else
    magnitudeChars a.magnitude a.scale

/- The written form. -/
def toText (a : Decimal) : String :=
  String.ofList a.toChars

------------------------------------------------------------
-- Reading
------------------------------------------------------------

/- The amount of `m` units of the scale `s`, if both are in
range. -/
def ofParts? (m : Int) (s : Nat) : Option Decimal :=
  if h : m.natAbs < 2 ^ 96 ∧ s ≤ 28 then
    some (ofMantissa m s h.1 h.2)
  else
    none

/- The amount with the same sign and other parts, if they are
in range. -/
def withParts?
    (a : Decimal)
    (m s : Nat) : Option Decimal :=
  if h : m < 2 ^ 96 ∧ s ≤ 28 then
    some ⟨a.negative, m, s, h.1, h.2⟩
  else
    none

/-
  Round a full magnitude by the first digit that no longer
  fits: five and above go up.  A carry out of the top gives
  up one more fraction digit.
-/
def roundOff?
    (m s digit : Nat) : Option (Nat × Nat) :=
  if digit < 5 then
    some (m, s)
  else if m + 1 < 2 ^ 96 then
    some (m + 1, s)
  else if s = 0 then
    none
  else
    some ((m + 1 + 4) / 10, s - 1)

/- What may follow once the magnitude is full. -/
def isTail (c : Char) : Bool :=
  c.isDigit || c = '_'

/- The smallest number that counts as long. -/
def longNumber : Nat :=
  2 ^ 64 / 10 - 255

/-
  Whether a separator closes a magnitude like a digit that is
  rounded down.  It does behind the last fraction digit,
  unless the digits before that one make a long number.
-/
def closesAtSeparator (m s : Nat) (point : Bool) : Bool :=
  point && s == 28 && m / 10 < longNumber

/-
  Read an unsigned amount: magnitude and scale so far,
  whether the point has been passed, whether a digit has been
  seen.
-/
def readMagnitude?
    (m s : Nat)
    (point digits : Bool) :
    List Char → Option (Nat × Nat)
  | [] => if digits then some (m, s) else none
  | c :: rest =>
      if c.isDigit then
        let m' := 10 * m + Digits.digitValue c
        if (point ∧ s = 28) ∨ 2 ^ 96 ≤ m' then
          if point ∧ rest.all isTail then
            roundOff? m s (Digits.digitValue c)
          else
            none
        else
          readMagnitude? m' (if point then s + 1 else s)
            point true rest
      else if c = '.' ∧ ¬point then
        readMagnitude? m s true digits rest
      else if c = '_' ∧ digits then
        if closesAtSeparator m s point then
          if rest.all isTail then some (m, s) else none
        else
          readMagnitude? m s point digits rest
      else
        none

/- Read an unsigned amount from its first character on. -/
def readUnsigned?
    (cs : List Char) : Option (Nat × Nat) :=
  readMagnitude? 0 0 false false cs

/- Read an amount in positional notation. -/
def ofChars? : List Char → Option Decimal
  | '-' :: cs => do
      let (m, s) ← readUnsigned? cs
      ofParts? (-m) s
  | '+' :: cs => do
      let (m, s) ← readUnsigned? cs
      ofParts? m s
  | cs => do
      let (m, s) ← readUnsigned? cs
      ofParts? m s

/- Read an amount in positional notation. -/
def ofText? (text : String) : Option Decimal :=
  ofChars? text.toList

------------------------------------------------------------
-- Scientific notation
------------------------------------------------------------

/- Whether a character opens the exponent. -/
def opensExponent (c : Char) : Bool :=
  c = 'e' || c = 'E'

/- Read an exponent below `2 ^ 32` with an optional plus. -/
def readExponent? (cs : List Char) : Option Nat := do
  let n ←
    match cs with
    | '+' :: ds => Digits.read? ds
    | ds => Digits.read? ds
  if n < 2 ^ 32 then some n else none

/-
  Move the point of an amount to the left by at most 28
  places.  The digits stay and the scale grows; digits beyond
  the last place are rounded away, a half going up.  The sign
  stays even where no other digit than zero does.
-/
def pointLeft? (a : Decimal) (n : Nat) : Option Decimal :=
  if 28 < n then
    none
  else if a.scale + n ≤ 28 then
    a.withParts? a.magnitude (a.scale + n)
  else
    a.withParts?
      (roundHalfUp a.magnitude
        (10 ^ (a.scale + n - 28))) 28

/-
  Move the point of an amount to the right.  As long as there
  are fraction digits to pass the digits stay; beyond them
  the result is a whole number.
-/
def pointRight?
    (a : Decimal)
    (n : Nat) : Option Decimal :=
  if n ≤ a.scale then
    a.withParts? a.magnitude (a.scale - n)
  else if n ≤ 28 then
    ofParts? (a.mantissa * 10 ^ (n - a.scale)) 0
  else
    none

/-
  Read an amount in scientific notation: an amount in
  positional notation, a mark and a whole exponent.
-/
def ofScientific? (text : String) : Option Decimal := do
  let cs := text.toList
  let a ← ofChars? (cs.takeWhile (!opensExponent ·))
  match cs.dropWhile (!opensExponent ·) with
  | [] => none
  | _ :: '-' :: ds => pointLeft? a (← readExponent? ds)
  | _ :: ds => pointRight? a (← readExponent? ds)

/- Read an amount in either notation. -/
def ofAnyText? (text : String) : Option Decimal :=
  match ofText? text with
  | some a => some a
  | none => ofScientific? text

------------------------------------------------------------
-- The shortest spelling
------------------------------------------------------------

/- Drop zeros from the end of the fraction. -/
def stripZeros
    (m : Int)
    (hm : m.natAbs < 2 ^ 96) :
    (s : Nat) → s ≤ 28 → Decimal
  | 0, hs => ofMantissa m 0 hm hs
  | s + 1, hs =>
      if m % 10 = 0 then
        stripZeros (m / 10) (by omega) s (by omega)
      else
        ofMantissa m (s + 1) hm hs

/- The amount without zeros at the end of its fraction, and
without a minus if it is zero. -/
def normalize (a : Decimal) : Decimal :=
  stripZeros a.mantissa a.mantissa_lt a.scale a.scale_le

end Decimal

end Matchbook
