/-
  Blank characters: those with the Unicode property
  White_Space, and texts made of nothing else.

  Key definitions include:
    * `isBlank`
    * `isBlankText`

  The main statements are:
    * `isBlank_of_isWhitespace`
-/

------------------------------------------------------------
-- Blank characters
------------------------------------------------------------

namespace Matchbook

/- The ranges of code points with the property White_Space. -/
def blankRanges : List (Nat × Nat) :=
  [(0x9, 0xd), (0x20, 0x20), (0x85, 0x85), (0xa0, 0xa0),
    (0x1680, 0x1680), (0x2000, 0x200a), (0x2028, 0x2029),
    (0x202f, 0x202f), (0x205f, 0x205f), (0x3000, 0x3000)]

/- Whether a character is blank. -/
def isBlank (c : Char) : Bool :=
  blankRanges.any fun r =>
    decide (r.1 ≤ c.toNat ∧ c.toNat ≤ r.2)

/- Whether a text holds blank characters only. -/
def isBlankText (text : String) : Bool :=
  text.toList.all isBlank

/- The white space of ASCII is blank. -/
theorem isBlank_of_isWhitespace
    {c : Char}
    (h : c.isWhitespace) :
    isBlank c := by
  simp only [Char.isWhitespace, Bool.or_eq_true,
    decide_eq_true_eq] at h
  rcases h with ((rfl | rfl) | rfl) | rfl <;> decide

end Matchbook
