import Matchbook.Timestamp.Basic
import Matchbook.Text.Scan

/-
  The written form of a time, after RFC 3339.

  A time is written in UTC with 0, 3, 6 or 9 fraction digits,
  the fewest of these that lose nothing.  A reader takes any
  offset from UTC, any number of fraction digits, blanks
  between the parts and fields without their leading zeros.

  Key definitions include:
    * `Timestamp.toText`
    * `Timestamp.ofText?`
-/

------------------------------------------------------------
-- Writing
------------------------------------------------------------

namespace Matchbook

namespace Timestamp

/- A year, with a sign unless it has at most four digits. -/
def yearChars (year : Int) : List Char :=
  let digits :=
    if year.natAbs < 10 ^ 4 then
      Digits.padded 4 year.natAbs
    else
      Nat.toDigits 10 year.natAbs
  if year < 0 then '-' :: digits
  else if year < 10 ^ 4 then digits
  else '+' :: digits

/- The fraction of a second, with its point. -/
def fractionChars (nano : Nat) : List Char :=
  if nano = 0 then []
  else if nano % 10 ^ 6 = 0 then
    '.' :: Digits.padded 3 (nano / 10 ^ 6)
  else if nano % 10 ^ 3 = 0 then
    '.' :: Digits.padded 6 (nano / 10 ^ 3)
  else
    '.' :: Digits.padded 9 nano

/- The day a time falls on. -/
def date (t : Timestamp) : Date :=
  Date.ofDays (t.second / 86400)

/- The written form, character by character. -/
def toChars (t : Timestamp) : List Char :=
  let inDay := (t.second % 86400).toNat
  let second :=
    inDay % 60 + if t.nano < 10 ^ 9 then 0 else 1
  yearChars t.date.year ++
    '-' :: Digits.padded 2 t.date.month.toNat ++
    '-' :: Digits.padded 2 t.date.day.toNat ++
    'T' :: Digits.padded 2 (inDay / 3600) ++
    ':' :: Digits.padded 2 (inDay / 60 % 60) ++
    ':' :: Digits.padded 2 second ++
    fractionChars (t.nano % 10 ^ 9) ++
    ['Z']

/- The written form. -/
def toText (t : Timestamp) : String :=
  String.ofList t.toChars

------------------------------------------------------------
-- Reading the parts
------------------------------------------------------------

open Scan

/- A number of at most `width` digits, blanks before it. -/
def readField (width : Nat) : Scan Nat := do
  blanks
  return Digits.valueOf (← digitsUpTo width)

/- A year: any number of digits after a sign, at most four
without one. -/
def readYear : Scan Int := do
  blanks
  match ← peek with
  | some '-' =>
      expect '-'
      return -Digits.valueOf (← digits)
  | some '+' =>
      expect '+'
      return Digits.valueOf (← digits)
  | _ => return Digits.valueOf (← digitsUpTo 4)

/- A mark between two fields, blanks around it. -/
def readMark (c : Char) : Scan Unit := do
  blanks
  expect c
  blanks

/- Nanoseconds from the digits of a fraction, of which nine
count. -/
def nanosOf (ds : List Char) : Nat :=
  let kept := ds.take 9
  Digits.valueOf kept * 10 ^ (9 - kept.length)

/- The nanoseconds after the point, if there is a point. -/
def readFraction : Scan Nat := do
  match ← peek with
  | some '.' =>
      expect '.'
      return nanosOf (← digits)
  | _ => return 0

/- Whether a text starts with the letters of UTC. -/
def startsWithUtc (cs : List Char) : Bool :=
  (cs.take 3).map Char.toLower = ['u', 't', 'c']

/- One digit that satisfies a test. -/
def readDigitWhere (p : Nat → Bool) : Scan Nat := do
  let c ←
    charWhere fun c => c.isDigit && p (Digits.digitValue c)
  return Digits.digitValue c

/- An offset of hours and minutes after its sign. -/
def readHoursMinutes : Scan Int := do
  let h₁ ← readDigitWhere fun _ => true
  let h₂ ← readDigitWhere fun _ => true
  skipWhile fun c => c == ':' || isBlank c
  let m₁ ← readDigitWhere (· < 6)
  let m₂ ← readDigitWhere fun _ => true
  let hours := 10 * h₁ + h₂
  if 24 ≤ hours then failure
  return 3600 * hours + 60 * (10 * m₁ + m₂)

/- The seconds by which the text is ahead of UTC. -/
def readOffset : Scan Int := do
  if startsWithUtc (← get) then
    modify (·.drop 3)
    return 0
  match ← charWhere fun _ => true with
  | 'Z' | 'z' => return 0
  | '+' => readHoursMinutes
  | '-' | '\u2212' => return -(← readHoursMinutes)
  | _ => failure

------------------------------------------------------------
-- Reading
------------------------------------------------------------

/- Whether a character separates the date from the time. -/
def separatesTime (c : Char) : Bool :=
  c = 'T' || c = 't' || c = ' '

/- A date of the calendar. -/
def readDate : Scan Date := do
  let year ← readYear
  readMark '-'
  let month ← readField 2
  readMark '-'
  let day ← readField 2
  let d : Date := ⟨year, month, day⟩
  if d.IsValid then return d else failure

/-
  A time of the day as a second of the day and nanoseconds.
  Second 60 is the leap second after second 59.
-/
def readClock : Scan (Nat × Nat) := do
  let hour ← readField 2
  readMark ':'
  let minute ← readField 2
  readMark ':'
  let second ← readField 2
  let nano ← readFraction
  if 24 ≤ hour ∨ 60 ≤ minute ∨ 60 < second then failure
  if second = 60 then
    return (3600 * hour + 60 * minute + 59, nano + 10 ^ 9)
  else
    return (3600 * hour + 60 * minute + second, nano)

/- A time with its offset, up to the end of the text. -/
def readTimestamp : Scan Timestamp := do
  let day ← readDate
  let _ ← charWhere separatesTime
  let (inDay, nano) ← readClock
  blanks
  let offset ← readOffset
  blanks
  if !(← get).isEmpty then failure
  let here := 86400 * day.toDays + inDay
  if here < firstSecond ∨ lastSecond < here then failure
  match of? (here - offset) nano with
  | some t => return t
  | none => failure

/- Read a time. -/
def ofText? (text : String) : Option Timestamp :=
  (readTimestamp.run text.toList).map (·.1)

end Timestamp

end Matchbook
