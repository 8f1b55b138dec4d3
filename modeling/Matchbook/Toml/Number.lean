import Matchbook.Toml.Basic
import Matchbook.Toml.Layout

/-
  Numbers of TOML.

  Integers fit 64 bits with a sign.  A number with a point or
  an exponent must not be too large for binary64, but may be
  too small for it, or less than its least one.

  Key definitions include:
    * `Toml.digitRun`
    * `Toml.integer?`
    * `Toml.isTooLarge`
    * `Toml.readInteger`
    * `Toml.readFloat`
-/

------------------------------------------------------------
-- Digits
------------------------------------------------------------

namespace Matchbook

namespace Toml

open Scan

/- Digits, at least one, with single underscores between
them. -/
def digitRun (p : Char → Bool) : Scan (List Char) := do
  let runs ← separated '_' (runWhere p)
  if runs.isEmpty then failure
  return runs.flatten

/- A sign, if there is one: whether it is a minus. -/
def readSign : Scan Bool := do
  match ← peek with
  | some '-' =>
      expect '-'
      return true
  | some '+' =>
      expect '+'
      return false
  | _ => return false

/- Decimal digits without a zero in front of others. -/
def wholeDigits : Scan (List Char) := do
  let ds ← digitRun Char.isDigit
  if ds.head? = some '0' ∧ ds.length ≠ 1 then failure
  return ds

------------------------------------------------------------
-- Integers
------------------------------------------------------------

/- An integer of 64 bits. -/
def integer? (n : Int) : Option Toml :=
  if -2 ^ 63 ≤ n ∧ n < 2 ^ 63 then
    some (.integer n)
  else
    none

/- Digits of a base, after the mark of the base. -/
def readIn (mark : Char) (base : Nat) : Scan Toml := do
  literal ['0', mark]
  let ds ← digitRun (Digits.isDigitIn base)
  integer? (Digits.valueIn base ds)

/- A decimal integer. -/
def readDecimal : Scan Toml := do
  let negative ← readSign
  let n : Int := Digits.valueOf (← wholeDigits)
  integer? (if negative then -n else n)

def readInteger : Scan Toml :=
  readIn 'x' 16 <|> readIn 'o' 8 <|> readIn 'b' 2 <|>
    readDecimal

------------------------------------------------------------
-- Numbers with a point or an exponent
------------------------------------------------------------

/- The least number that is rounded beyond all of binary64:
half a step above the greatest one. -/
def beyondFinite : Nat :=
  2 ^ 1024 - 2 ^ 970

/-
  Whether `m * 10 ^ e` is too large for binary64.  Only with
  309 digits before the point does it need a comparison.
-/
def isTooLarge (m : Nat) (e : Int) : Bool :=
  let size := (Nat.toDigits 10 m).length + e
  m != 0 &&
    (decide (309 < size) ||
      (size == 309 &&
        decide
          (beyondFinite * 10 ^ (-e).toNat ≤
            m * 10 ^ e.toNat)))

/- The digits after a point. -/
def readFraction : Scan (List Char) := do
  expect '.'
  digitRun Char.isDigit

/- An exponent after its mark. -/
def readExponent : Scan Int := do
  let _ ← charWhere fun c => c = 'e' || c = 'E'
  let negative ← readSign
  let n : Int := Digits.valueOf (← digitRun Char.isDigit)
  return if negative then -n else n

/- A number with a point, an exponent or both. -/
def finiteFloat : Scan Unit := do
  let negative ← readSign
  let whole ← wholeDigits
  let fraction ← optional readFraction
  let exponent ← optional readExponent
  if fraction.isNone ∧ exponent.isNone then failure
  let places := (fraction.getD []).length
  let m := Digits.valueOf (whole ++ fraction.getD [])
  if !negative && isTooLarge m (exponent.getD 0 - places) then
    failure

/- An infinity or no number at all. -/
def specialFloat : Scan Unit := do
  let _ ← readSign
  literal ['i', 'n', 'f'] <|> literal ['n', 'a', 'n']

def readFloat : Scan Toml := do
  let (_, chars) ← withText (finiteFloat <|> specialFloat)
  return .float chars

end Toml

end Matchbook
