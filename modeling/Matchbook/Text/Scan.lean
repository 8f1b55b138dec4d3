import Matchbook.Text.Blank
import Matchbook.Text.Digits

/-
  Readers of the front of a text.

  A reader takes what it needs from the front and leaves the
  rest, or fails.

  Key definitions include:
    * `Scan`
    * `Scan.charWhere`
    * `Scan.skipWhile`
    * `Scan.runWhere`
    * `Scan.many`
    * `Scan.separated`
-/

------------------------------------------------------------
-- Readers
------------------------------------------------------------

namespace Matchbook

/- A reader of the front of a text. -/
abbrev Scan (α : Type) :=
  StateT (List Char) Option α

namespace Scan

/- One character that satisfies a test. -/
def charWhere (p : Char → Bool) : Scan Char
  | [] => none
  | c :: cs => if p c then some (c, cs) else none

/- One given character. -/
def expect (c : Char) : Scan Unit := do
  let _ ← charWhere (· == c)

/- Everything up to the first character that fails a test. -/
def skipWhile (p : Char → Bool) : Scan Unit :=
  modify (·.dropWhile p)

/- Blank characters, if any. -/
def blanks : Scan Unit :=
  skipWhile isBlank

/- The next character, left where it is. -/
def peek : Scan (Option Char) := do
  return (← get).head?

/- Any character. -/
def anyChar : Scan Char :=
  charWhere fun _ => true

/- The given characters. -/
def literal : List Char → Scan Unit
  | [] => return ()
  | c :: cs => do
      expect c
      literal cs

/- A run of characters that satisfy a test, at least one. -/
def runWhere (p : Char → Bool) : Scan (List Char) := do
  let cs ← get
  let taken := cs.takeWhile p
  if taken.isEmpty then failure
  set (cs.dropWhile p)
  return taken

/- A run of digits, at least one. -/
def digits : Scan (List Char) :=
  runWhere Char.isDigit

/- A run of digits, at least one, that stops at a width. -/
def digitsUpTo (width : Nat) : Scan (List Char) := do
  let cs ← get
  let ds := (cs.take width).takeWhile Char.isDigit
  if ds.isEmpty then failure
  set (cs.drop ds.length)
  return ds

------------------------------------------------------------
-- Repetition
------------------------------------------------------------

/-
  What a reader takes from the front again and again, until
  it fails or takes nothing, and the rest.
-/
def repeatFrom
    {α : Type}
    (p : Scan α)
    (cs : List Char) : List α × List Char :=
  match p cs with
  | none => ([], cs)
  | some (a, rest) =>
      if rest.length < cs.length then
        let (as, rest') := repeatFrom p rest
        (a :: as, rest')
      else
        ([], cs)
termination_by cs.length

/- As many as can be read. -/
def many {α : Type} (p : Scan α) : Scan (List α) :=
  fun cs => some (repeatFrom p cs)

/- As many as can be read, with a mark between them. -/
def separated
    {α : Type}
    (mark : Char)
    (p : Scan α) : Scan (List α) := do
  match ← optional p with
  | none => return []
  | some first =>
      let rest ← many do
        expect mark
        p
      return first :: rest

/- A value and the characters that it was read from. -/
def withText
    {α : Type}
    (p : Scan α) : Scan (α × List Char) := do
  let before ← get
  let a ← p
  let after ← get
  return (a, before.take (before.length - after.length))

end Scan

end Matchbook
