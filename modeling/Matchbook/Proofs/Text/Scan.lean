import Matchbook.Proofs.Decimal.Text
import Matchbook.Text.Scan

/-
  What readers make of a text whose front is known.

  A reader is told by what it takes from the front of a text
  and what it leaves, and readers one after the other are told
  one after the other.

  Key definitions include:
    * `Scan.Reads`
    * `Scan.Stops`

  The main statements are:
    * `Scan.Reads.bind`
    * `Scan.reads_digits`
    * `Scan.reads_digitsUpTo_padded`
-/

------------------------------------------------------------
-- Readers in sequence
------------------------------------------------------------

namespace Matchbook

theorem isBlank_of_isDigit
    {c : Char}
    (h : c.isDigit) :
    isBlank c = false := by
  have hRange : 48 ≤ c.toNat ∧ c.toNat ≤ 57 := by
    simpa [Char.isDigit, UInt32.le_iff_toNat_le] using h
  simp only [isBlank, blankRanges, List.any_cons,
    List.any_nil, Bool.or_false, Bool.or_eq_false_iff,
    decide_eq_false_iff_not]
  omega

namespace Scan

variable {α β : Type} {cs rest : List Char}

/- A reader takes a value from the front of a text and leaves
the rest. -/
def Reads
    (p : Scan α)
    (cs : List Char)
    (a : α)
    (rest : List Char) : Prop :=
  p.run cs = some (a, rest)

theorem reads_pure (a : α) : Reads (pure a) cs a cs :=
  rfl

/- A reader goes on where the one before it stopped. -/
theorem Reads.bind
    {p : Scan α}
    {f : α → Scan β}
    {a : α}
    {b : β}
    {left : List Char}
    (h : Reads p cs a left)
    (h' : Reads (f a) left b rest) :
    Reads (p >>= f) cs b rest := by
  unfold Reads at h h' ⊢
  rw [StateT.run_bind, h, Option.bind_eq_bind,
    Option.bind_some, h']

------------------------------------------------------------
-- Single characters and blanks
------------------------------------------------------------

/- A run of characters of some kind stops in front of a
text. -/
def Stops (p : Char → Bool) (cs : List Char) : Prop :=
  ∀ c ∈ cs.head?, p c = false

theorem stops_cons
    {p : Char → Bool}
    {c : Char}
    (h : p c = false) :
    Stops p (c :: rest) := by
  rintro _ ⟨⟩
  exact h

theorem reads_charWhere
    {p : Char → Bool}
    {c : Char}
    (h : p c) :
    Reads (charWhere p) (c :: rest) c rest :=
  if_pos h

theorem reads_expect (c : Char) :
    Reads (expect c) (c :: rest) () rest := by
  have hChar : Reads (charWhere (· == c)) (c :: rest) c rest :=
    reads_charWhere (beq_self_eq_true c)
  exact hChar.bind (reads_pure ())

theorem reads_peek : Reads peek cs cs.head? cs :=
  rfl

theorem reads_skipWhile
    {p : Char → Bool}
    (h : Stops p cs) :
    Reads (skipWhile p) cs () cs := by
  have hDrop : cs.dropWhile p = cs := by
    cases cs with
    | nil => rfl
    | cons c cs =>
        rw [List.dropWhile_cons_of_neg]
        simp [h c rfl]
  unfold Reads skipWhile
  rw [StateT.run_modify, hDrop]
  rfl

theorem reads_blanks
    (h : Stops isBlank cs) :
    Reads blanks cs () cs :=
  reads_skipWhile h

------------------------------------------------------------
-- Runs of digits
------------------------------------------------------------

/- A run that is followed by something else. -/
theorem reads_runWhere
    {p : Char → Bool}
    {run : List Char}
    (hRun : ∀ c ∈ run, p c)
    (hNe : run ≠ [])
    (hRest : Stops p rest) :
    Reads (runWhere p) (run ++ rest) run rest := by
  have hTake : (run ++ rest).takeWhile p = run := by
    rw [List.takeWhile_append_of_pos hRun]
    cases rest with
    | nil => simp
    | cons c rest =>
        rw [List.takeWhile_cons_of_neg (by simp [hRest c rfl]),
          List.append_nil]
  have hDrop : (run ++ rest).dropWhile p = rest := by
    rw [List.dropWhile_append_of_pos hRun]
    cases rest with
    | nil => rfl
    | cons c rest =>
        rw [List.dropWhile_cons_of_neg (by simp [hRest c rfl])]
  have hSome : ¬ run.isEmpty := by simpa using hNe
  unfold Reads runWhere
  simp only [StateT.run_bind, StateT.run_get, pure_bind,
    hTake, hDrop]
  rw [if_neg hSome]
  rfl

theorem reads_digits
    {run : List Char}
    (hRun : ∀ c ∈ run, c.isDigit)
    (hNe : run ≠ [])
    (hRest : Stops Char.isDigit rest) :
    Reads digits (run ++ rest) run rest :=
  reads_runWhere hRun hNe hRest

/- A field of digits, whatever comes after it. -/
theorem reads_digitsUpTo
    {width : Nat}
    {run : List Char}
    (hRun : ∀ c ∈ run, c.isDigit)
    (hNe : run ≠ [])
    (hWidth : run.length = width) :
    Reads (digitsUpTo width) (run ++ rest) run rest := by
  have hTake :
      ((run ++ rest).take width).takeWhile Char.isDigit =
        run := by
    rw [← hWidth, List.take_left, List.takeWhile_eq_self_iff]
    exact hRun
  have hSome : ¬ run.isEmpty := by simpa using hNe
  unfold Reads digitsUpTo
  simp only [StateT.run_bind, StateT.run_get, pure_bind,
    hTake]
  rw [if_neg hSome, List.drop_left]
  rfl

------------------------------------------------------------
-- Fields of digits
------------------------------------------------------------

theorem padded_ne_nil
    {width n : Nat}
    (h : 0 < width) :
    Digits.padded width n ≠ [] := by
  rw [← List.length_pos_iff, Digits.length_padded]
  exact h

/- A text that begins with a field begins with a digit. -/
theorem isDigit_of_head?_padded
    {width n : Nat}
    {c : Char}
    (hWidth : 0 < width)
    (hc : (Digits.padded width n ++ rest).head? = some c) :
    c.isDigit := by
  cases hField : Digits.padded width n with
  | nil => exact absurd hField (padded_ne_nil hWidth)
  | cons d ds =>
      have hMem : d ∈ Digits.padded width n := by
        rw [hField]
        exact List.mem_cons_self ..
      rw [hField] at hc
      cases hc
      exact Digits.isDigit_of_mem_padded hMem

theorem stops_padded
    {width n : Nat}
    (hWidth : 0 < width) :
    Stops isBlank (Digits.padded width n ++ rest) :=
  fun _ hc =>
    isBlank_of_isDigit (isDigit_of_head?_padded hWidth hc)

theorem reads_digitsUpTo_padded
    {width n : Nat}
    (hWidth : 0 < width) :
    Reads (digitsUpTo width) (Digits.padded width n ++ rest)
      (Digits.padded width n) rest :=
  reads_digitsUpTo
    (fun _ hc => Digits.isDigit_of_mem_padded hc)
    (padded_ne_nil hWidth) (Digits.length_padded ..)

end Scan

end Matchbook
