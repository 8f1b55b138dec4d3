import Matchbook.Text.Digits
import Matchbook.Timestamp.Calendar

/-
  Points in time, in UTC and to the nanosecond.

  A time is a number of seconds since 1970 and the nanoseconds
  since that second began.  During a leap second the count of
  seconds stands still at the end of a minute, and the
  nanoseconds run on past a thousand million.

  Key definitions include:
    * `Timestamp`
    * `Timestamp.of?`
    * `Timestamp.ofNanos`
    * `Timestamp.micros`
-/

------------------------------------------------------------
-- Points in time
------------------------------------------------------------

namespace Matchbook

/- The first second of the year -262143. -/
def firstSecond : Int := -8334601228800

/- The last second of the year 262142. -/
def lastSecond : Int := 8210266876799

/-
  A second since the start of 1970 and the nanoseconds since
  it began.  Only the last second of a minute is extended by
  a leap second.
-/
structure Timestamp where
  second : Int
  nano : Nat
  first_le : firstSecond ≤ second
  le_last : second ≤ lastSecond
  nano_lt :
    nano < 10 ^ 9 ∨ second % 60 = 59 ∧ nano < 2 * 10 ^ 9
deriving DecidableEq

/- The years a time can lie in are whole years. -/
theorem firstSecond_eq :
    firstSecond = 86400 * (Date.mk (-262143) 1 1).toDays := by
  decide

theorem lastSecond_eq :
    lastSecond =
      86400 * (Date.mk 262142 12 31).toDays + 86399 := by
  decide

namespace Timestamp

/- The time with the given parts, if there is one. -/
def of? (second : Int) (nano : Nat) : Option Timestamp :=
  if h :
      (firstSecond ≤ second ∧ second ≤ lastSecond) ∧
        (nano < 10 ^ 9 ∨
          second % 60 = 59 ∧ nano < 2 * 10 ^ 9) then
    some ⟨second, nano, h.1.1, h.1.2, h.2⟩
  else
    none

/- The time a signed number of nanoseconds after the start
of 1970. -/
def ofNanos (n : Int64) : Timestamp where
  second := n.toInt / 10 ^ 9
  nano := (n.toInt % 10 ^ 9).toNat
  first_le := by
    have := n.le_toInt
    simp only [firstSecond]
    omega
  le_last := by
    have := n.toInt_lt
    simp only [lastSecond]
    omega
  nano_lt := by
    left
    omega

/- The microseconds since the start of 1970, rounded down.  A
leap second counts as the second after it. -/
def micros (t : Timestamp) : Int :=
  t.second * 10 ^ 6 + t.nano / 1000

------------------------------------------------------------
-- Order
------------------------------------------------------------

instance : Ord Timestamp :=
  ⟨fun a b =>
    (compare a.second b.second).then
      (compare a.nano b.nano)⟩

theorem compare_eq_then (a b : Timestamp) :
    compare a b =
      (compare a.second b.second).then
        (compare a.nano b.nano) :=
  rfl

/- Times that compare equal are the same time. -/
theorem compare_eq_iff
    {a b : Timestamp} :
    compare a b = .eq ↔ a = b := by
  rw [compare_eq_then, Ordering.then_eq_eq,
    Int.compare_eq_eq, Nat.compare_eq_eq]
  constructor
  · rintro ⟨hs, hn⟩
    cases a
    cases b
    simp_all
  · rintro rfl
    exact ⟨rfl, rfl⟩

end Timestamp

end Matchbook
