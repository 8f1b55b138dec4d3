/-
  Runs of decimal digits.

  A number is written either with as many digits as it needs
  (`Nat.toDigits 10`) or in a field of fixed width, and read
  back from a run that holds digits only.

  Key definitions include:
    * `Digits.padded`
    * `Digits.valueOf`
    * `Digits.valueIn`
    * `Digits.read?`

  The main statements are:
    * `Digits.valueOf_padded`
    * `Digits.read?_toDigits`
-/

------------------------------------------------------------
-- Writing
------------------------------------------------------------

namespace Matchbook

-- Powers are core's own, also where algebra is imported.
attribute [default_instance 20000] instPowNat
attribute [instance (20000)] instPowNat

namespace Digits

/- The last `width` digits of a number, zeros included. -/
def padded : Nat → Nat → List Char
  | 0, _ => []
  | width + 1, n =>
      padded width (n / 10) ++ [Nat.digitChar (n % 10)]

@[simp] theorem length_padded
    (width n : Nat) :
    (padded width n).length = width := by
  induction width generalizing n with
  | zero => rfl
  | succ width ih => simp [padded, ih]

theorem isDigit_of_mem_padded
    {width n : Nat}
    {c : Char}
    (h : c ∈ padded width n) :
    c.isDigit := by
  induction width generalizing n with
  | zero => simp [padded] at h
  | succ width ih =>
      simp only [padded, List.mem_append,
        List.mem_singleton] at h
      rcases h with h | rfl
      · exact ih h
      · have hd : n % 10 < 10 := Nat.mod_lt _ (by decide)
        generalize n % 10 = d at hd
        revert d
        decide

------------------------------------------------------------
-- Reading
------------------------------------------------------------

/- The value of one digit. -/
def digitValue (c : Char) : Nat :=
  c.toNat - '0'.toNat

/- The value of a run of digits. -/
def valueOf (cs : List Char) : Nat :=
  Nat.ofDigitChars 10 cs 0

/- The value of a hexadecimal digit. -/
def hexValue? (c : Char) : Option Nat :=
  if c.isDigit then some (c.toNat - '0'.toNat)
  else if 'a' ≤ c ∧ c ≤ 'f' then
    some (c.toNat - 'a'.toNat + 10)
  else if 'A' ≤ c ∧ c ≤ 'F' then
    some (c.toNat - 'A'.toNat + 10)
  else none

/- Whether a character is a digit of a base up to 16. -/
def isDigitIn (base : Nat) (c : Char) : Bool :=
  (hexValue? c).any (· < base)

/- The value of a run of digits of a base up to 16. -/
def valueIn (base : Nat) (cs : List Char) : Nat :=
  cs.foldl (fun n c => base * n + (hexValue? c).getD 0) 0

/- The value of a run that is not empty and all digits. -/
def read? (cs : List Char) : Option Nat :=
  if cs ≠ [] ∧ cs.all Char.isDigit then
    some (valueOf cs)
  else
    none

theorem valueOf_append
    (cs ds : List Char) :
    valueOf (cs ++ ds) =
      10 ^ ds.length * valueOf cs + valueOf ds := by
  simp only [valueOf]
  rw [Nat.ofDigitChars_append,
    Nat.ofDigitChars_eq_ofDigitChars_zero]

/- A field that is wide enough keeps the number. -/
theorem valueOf_padded
    {width n : Nat}
    (h : n < 10 ^ width) :
    valueOf (padded width n) = n := by
  induction width generalizing n with
  | zero =>
      have : n = 0 := by simpa using h
      simp [padded, valueOf, this]
  | succ width ih =>
      have hTens : n / 10 < 10 ^ width := by
        rw [Nat.pow_succ] at h
        omega
      have hDigit : n % 10 < 10 :=
        Nat.mod_lt _ (by decide)
      have hLast :
          valueOf [Nat.digitChar (n % 10)] = n % 10 := by
        simp [valueOf,
          Nat.ofDigitChars_cons_digitChar_of_lt_ten hDigit]
      rw [padded, valueOf_append, ih hTens, hLast]
      simp
      omega

/- What is written with the fewest digits reads back. -/
theorem read?_toDigits
    (n : Nat) :
    read? (Nat.toDigits 10 n) = some n := by
  have hAll :
      (Nat.toDigits 10 n).all Char.isDigit := by
    simp only [List.all_eq_true]
    intro c hc
    exact
      Nat.isDigit_of_mem_toDigits (by decide)
        (by decide) hc
  simp [read?, hAll, valueOf, Nat.toDigits_ne_nil]

end Digits

end Matchbook
