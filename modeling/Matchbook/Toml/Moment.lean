import Matchbook.Timestamp.Calendar
import Matchbook.Toml.Basic
import Matchbook.Toml.Layout

/-
  Dates and times of TOML: a date, a date with a time of the
  day, the same with an offset, or a time of the day alone.

  Key definitions include:
    * `Toml.readMoment`
-/

------------------------------------------------------------
-- Parts
------------------------------------------------------------

namespace Matchbook

namespace Toml

open Scan

/- A number of so many digits. -/
def readField (width : Nat) : Scan Nat := do
  let ds := (← get).take width
  if ds.length = width ∧ ds.all Char.isDigit then
    modify (·.drop width)
    return Digits.valueOf ds
  else
    failure

/- A number of two digits below a bound. -/
def readBelow (bound : Nat) : Scan Unit := do
  if bound ≤ (← readField 2) then failure

/- A date of the calendar. -/
def readDate : Scan Unit := do
  let year ← readField 4
  expect '-'
  let month ← readField 2
  expect '-'
  let day ← readField 2
  let d : Date := ⟨year, month, day⟩
  if ¬ d.IsValid then failure

/- Hours and minutes. -/
def readHoursMinutes : Scan Unit := do
  readBelow 24
  expect ':'
  readBelow 60

/- A time of the day.  Second 60 is a leap second. -/
def readClock : Scan Unit := do
  readHoursMinutes
  expect ':'
  readBelow 61
  let _ ← optional do
    expect '.'
    digits

/- An offset from UTC. -/
def readOffset : Scan Unit := do
  match ← anyChar with
  | 'Z' | 'z' => return ()
  | '+' | '-' => readHoursMinutes
  | _ => failure

/- Whether a character stands between a date and a time. -/
def joinsClock (c : Char) : Bool :=
  c = 'T' || c = 't' || c = ' '

------------------------------------------------------------
-- Dates and times
------------------------------------------------------------

/- A date and what may follow it. -/
def readDated : Scan Unit := do
  readDate
  let _ ← optional do
    let _ ← charWhere joinsClock
    readClock
    optional readOffset

def readMoment : Scan Toml := do
  let (_, chars) ← withText (readDated <|> readClock)
  return .moment chars

end Toml

end Matchbook
