import Matchbook.Proofs.Text.Scan
import Matchbook.Timestamp.Text

/-
  Times read back as they are written.

  Every field of a written time is a run of digits of known
  width or stands in front of a mark, so each reader takes its
  field and leaves the rest.  A leap second is written as
  second 60 and read as a second that runs on.

  The main statements are:
    * `Timestamp.reads_readYear`
    * `Timestamp.reads_readFraction`
    * `Timestamp.reads_readDate`
    * `Timestamp.reads_readClock`
    * `Timestamp.ofText?_toText`
-/

------------------------------------------------------------
-- Fields
------------------------------------------------------------

namespace Matchbook

theorem Date.IsValid.day_le
    {d : Date}
    (h : d.IsValid) :
    d.day ≤ 31 := by
  have hDay := h.2.2
  unfold Date.daysInMonth at hDay
  repeat' split at hDay
  all_goals omega

namespace Timestamp

open Scan

variable {rest : List Char}

theorem reads_readField
    {width n : Nat}
    (hWidth : 0 < width)
    (h : n < 10 ^ width) :
    Reads (readField width) (Digits.padded width n ++ rest) n
      rest := by
  unfold readField
  refine (reads_blanks (stops_padded hWidth)).bind ?_
  refine (reads_digitsUpTo_padded hWidth).bind ?_
  rw [Digits.valueOf_padded h]
  exact reads_pure n

/- A mark in front of a field of two digits. -/
theorem reads_readMark_padded
    {c : Char}
    {n : Nat}
    (hMark : isBlank c = false) :
    Reads (readMark c) (c :: (Digits.padded 2 n ++ rest)) ()
      (Digits.padded 2 n ++ rest) := by
  unfold readMark
  refine (reads_blanks (stops_cons hMark)).bind ?_
  refine (reads_expect c).bind ?_
  exact reads_blanks (stops_padded (by decide))

------------------------------------------------------------
-- Years
------------------------------------------------------------

/- The digits of a year, with zeros in front up to four. -/
theorem exists_yearDigits (n : Nat) :
    ∃ ds, ds ≠ [] ∧ (∀ c ∈ ds, c.isDigit) ∧
      Digits.valueOf ds = n ∧
      (if n < 10 ^ 4 then Digits.padded 4 n
        else Nat.toDigits 10 n) = ds := by
  refine ⟨_, ?_, ?_, ?_, rfl⟩
  all_goals split
  · exact padded_ne_nil (by decide)
  · exact Nat.toDigits_ne_nil
  · exact fun c hc => Digits.isDigit_of_mem_padded hc
  · exact Digits.all_isDigit_toDigits n
  · rename_i hFour
    exact Digits.valueOf_padded hFour
  · exact Digits.valueOf_toDigits n

/- A year without a sign is a field of four digits. -/
theorem reads_readYear_padded
    {n : Nat}
    (h : n < 10 ^ 4)
    (rest : List Char) :
    Reads readYear (Digits.padded 4 n ++ rest) n rest := by
  have hFour : 0 < 4 := by decide
  unfold readYear
  refine (reads_blanks (stops_padded hFour)).bind ?_
  refine reads_peek.bind ?_
  split
  · rename_i hSign
    exact
      absurd (isDigit_of_head?_padded hFour hSign) (by decide)
  · rename_i hSign
    exact
      absurd (isDigit_of_head?_padded hFour hSign) (by decide)
  · refine (reads_digitsUpTo_padded hFour).bind ?_
    rw [Digits.valueOf_padded h]
    exact reads_pure _

theorem reads_readYear
    (year : Int)
    (hRest : Stops Char.isDigit rest) :
    Reads readYear (yearChars year ++ rest) year rest := by
  rcases exists_yearDigits year.natAbs with
    ⟨ds, hNe, hDigits, hValue, hChars⟩
  have hRun : Reads digits (ds ++ rest) ds rest :=
    reads_digits hDigits hNe hRest
  unfold yearChars
  dsimp only
  rw [hChars]
  split
  · have hYear : -(Digits.valueOf ds : Int) = year := by
      omega
    unfold readYear
    refine (reads_blanks (stops_cons (by decide))).bind ?_
    refine reads_peek.bind ?_
    refine (reads_expect '-').bind ?_
    refine hRun.bind ?_
    rw [hYear]
    exact reads_pure year
  · split
    · have hFour : year.natAbs < 10 ^ 4 := by omega
      have hYear : (year.natAbs : Int) = year := by omega
      have hRead := reads_readYear_padded hFour rest
      rw [if_pos hFour] at hChars
      rwa [hChars, hYear] at hRead
    · have hYear : (Digits.valueOf ds : Int) = year := by
        omega
      unfold readYear
      refine (reads_blanks (stops_cons (by decide))).bind ?_
      refine reads_peek.bind ?_
      refine (reads_expect '+').bind ?_
      refine hRun.bind ?_
      rw [hYear]
      exact reads_pure year

------------------------------------------------------------
-- Dates
------------------------------------------------------------

theorem reads_readDate
    {d : Date}
    (hValid : d.IsValid) :
    Reads readDate
      (yearChars d.year ++
        '-' :: (Digits.padded 2 d.month.toNat ++
          '-' :: (Digits.padded 2 d.day.toNat ++ rest)))
      d rest := by
  have hMonth := hValid.1
  have hDay := hValid.2.1
  have hLast := hValid.day_le
  have hDate :
      (⟨d.year, d.month.toNat, d.day.toNat⟩ : Date) = d := by
    rw [Int.toNat_of_nonneg (by omega),
      Int.toNat_of_nonneg (by omega)]
  unfold readDate
  refine (reads_readYear d.year (stops_cons (by decide))).bind ?_
  refine (reads_readMark_padded (by decide)).bind ?_
  refine (reads_readField (by decide) (by omega)).bind ?_
  refine (reads_readMark_padded (by decide)).bind ?_
  refine (reads_readField (by decide) (by omega)).bind ?_
  dsimp only
  rw [hDate, if_pos hValid]
  exact reads_pure d

------------------------------------------------------------
-- Times of the day
------------------------------------------------------------

/- A fraction of at most nine digits in nanoseconds. -/
theorem nanosOf_padded
    {width n : Nat}
    (hWidth : width ≤ 9)
    (h : n < 10 ^ width) :
    nanosOf (Digits.padded width n) = n * 10 ^ (9 - width) := by
  unfold nanosOf
  dsimp only
  rw [List.take_of_length_le
      (by rw [Digits.length_padded]; exact hWidth),
    Digits.valueOf_padded h, Digits.length_padded]

/- A fraction behind its point. -/
theorem reads_readFraction_of_point
    {width n nano : Nat}
    (hWidth : 0 < width)
    (hNine : width ≤ 9)
    (h : n < 10 ^ width)
    (hNano : n * 10 ^ (9 - width) = nano) :
    Reads readFraction
      ('.' :: Digits.padded width n ++ 'Z' :: rest) nano
      ('Z' :: rest) := by
  have hRun :
      Reads digits (Digits.padded width n ++ 'Z' :: rest)
        (Digits.padded width n) ('Z' :: rest) :=
    reads_digits (fun c hc => Digits.isDigit_of_mem_padded hc)
      (padded_ne_nil hWidth) (stops_cons (by decide))
  unfold readFraction
  refine reads_peek.bind ?_
  refine (reads_expect '.').bind ?_
  refine hRun.bind ?_
  rw [nanosOf_padded hNine h, hNano]
  exact reads_pure nano

theorem reads_readFraction
    {nano : Nat}
    (h : nano < 10 ^ 9) :
    Reads readFraction (fractionChars nano ++ 'Z' :: rest) nano
      ('Z' :: rest) := by
  unfold fractionChars
  split
  · rename_i hZero
    rw [hZero]
    exact reads_peek.bind (reads_pure 0)
  · split
    · exact
        reads_readFraction_of_point (by decide) (by decide)
          (by omega) (by omega)
    · split
      · exact
          reads_readFraction_of_point (by decide) (by decide)
            (by omega) (by omega)
      · exact
          reads_readFraction_of_point (by decide) (by decide) h
            (by omega)

/- The second of the day and its nanoseconds; second 60 is a
second 59 that runs on. -/
theorem reads_readClock
    {nano : Nat}
    (hour minute second : Nat)
    (rest : List Char)
    (hHour : hour < 24)
    (hMinute : minute < 60)
    (hSecond : second ≤ 60)
    (hNano : nano < 10 ^ 9) :
    Reads readClock
      (Digits.padded 2 hour ++
        ':' :: (Digits.padded 2 minute ++
          ':' :: (Digits.padded 2 second ++
            (fractionChars nano ++ 'Z' :: rest))))
      (if second = 60 then
        (3600 * hour + 60 * minute + 59, nano + 10 ^ 9)
      else
        (3600 * hour + 60 * minute + second, nano))
      ('Z' :: rest) := by
  unfold readClock
  refine (reads_readField (by decide) (by omega)).bind ?_
  refine (reads_readMark_padded (by decide)).bind ?_
  refine (reads_readField (by decide) (by omega)).bind ?_
  refine (reads_readMark_padded (by decide)).bind ?_
  refine (reads_readField (by decide) (by omega)).bind ?_
  refine (reads_readFraction hNano).bind ?_
  rw [if_neg (by omega)]
  split
  · exact reads_pure _
  · exact reads_pure _

/- A second of the day is written as hour, minute and second,
which is 60 if it runs on. -/
theorem reads_readClock_inDay
    {inDay nano : Nat}
    (hDay : inDay < 86400)
    (hNano :
      nano < 10 ^ 9 ∨ inDay % 60 = 59 ∧ nano < 2 * 10 ^ 9) :
    Reads readClock
      (Digits.padded 2 (inDay / 3600) ++
        ':' :: (Digits.padded 2 (inDay / 60 % 60) ++
          ':' ::
            (Digits.padded 2
                (inDay % 60 + if nano < 10 ^ 9 then 0 else 1) ++
              (fractionChars (nano % 10 ^ 9) ++ 'Z' :: rest))))
      (inDay, nano) ('Z' :: rest) := by
  have hRead (second : Nat) (hSecond : second ≤ 60) :=
    reads_readClock (inDay / 3600) (inDay / 60 % 60) second
      rest (by omega) (by omega) hSecond
      (Nat.mod_lt nano (by decide))
  have hSum :
      3600 * (inDay / 3600) + 60 * (inDay / 60 % 60) +
        inDay % 60 = inDay := by
    omega
  -- A second that runs on is the last of its minute, so 60
  -- stands for 59 and no other.
  by_cases hShort : nano < 10 ^ 9
  · have hClock := hRead (inDay % 60) (by omega)
    rw [if_neg (by omega), hSum] at hClock
    rw [if_pos hShort]
    rwa [Nat.mod_eq_of_lt hShort] at hClock ⊢
  · have hLeap : inDay % 60 = 59 := by omega
    have hClock := hRead 60 (by omega)
    rw [if_pos rfl, ← hLeap, hSum] at hClock
    have hOn : nano % 10 ^ 9 + 10 ^ 9 = nano := by omega
    rw [hOn] at hClock
    rw [if_neg hShort, hLeap]
    exact hClock

------------------------------------------------------------
-- Times
------------------------------------------------------------

theorem reads_readOffset : Reads readOffset ['Z'] 0 [] :=
  rfl

theorem of?_eq_self (t : Timestamp) :
    of? t.second t.nano = some t :=
  dif_pos ⟨⟨t.first_le, t.le_last⟩, t.nano_lt⟩

/- A time reads back from its text. -/
theorem ofText?_toText (t : Timestamp) :
    ofText? t.toText = some t := by
  have hFirst := t.first_le
  have hLast := t.le_last
  have hNano := t.nano_lt
  have hDay : (t.second % 86400).toNat < 86400 := by omega
  have hValid : t.date.IsValid := Date.isValid_ofDays _
  have hSecond :
      86400 * t.date.toDays + (t.second % 86400).toNat =
        t.second := by
    unfold date
    rw [Date.toDays_ofDays]
    omega
  have hRead : Reads readTimestamp t.toChars t [] := by
    unfold readTimestamp toChars
    dsimp only
    simp only [List.append_assoc, List.cons_append]
    refine (reads_readDate hValid).bind ?_
    refine (reads_charWhere (by decide)).bind ?_
    refine (reads_readClock_inDay hDay (by omega)).bind ?_
    refine (reads_blanks (stops_cons (by decide))).bind ?_
    refine reads_readOffset.bind ?_
    refine (reads_blanks fun _ hc => by cases hc).bind ?_
    have hGet : Reads get ([] : List Char) [] [] := rfl
    refine hGet.bind ?_
    rw [if_neg (by decide)]
    dsimp only
    rw [hSecond, if_neg (by omega), Int.sub_zero, of?_eq_self]
    exact reads_pure t
  unfold Reads at hRead
  unfold ofText? toText
  rw [String.toList_ofList, hRead]
  rfl

/- The end of 2016, half of its leap second past. -/
example :
    (of? 1483228799 1500000000).map toText =
      some "2016-12-31T23:59:60.500Z" := by
  decide +kernel

end Timestamp

end Matchbook
