import Matchbook.Text.Scan

/-
  The layout of TOML texts: spaces, line ends and comments.

  Key definitions include:
    * `Toml.isTextChar`
    * `Toml.newline`
    * `Toml.layout`
    * `Toml.lineEnd`
-/

------------------------------------------------------------
-- Characters
------------------------------------------------------------

namespace Matchbook

namespace Toml

open Scan

def isSpace (c : Char) : Bool :=
  c = ' ' || c = '\t'

/- The characters of comments and texts: a tab, and all that
are no control characters of ASCII. -/
def isTextChar (c : Char) : Bool :=
  c = '\t' || decide (0x20 ≤ c.toNat ∧ c.toNat ≠ 0x7f)

------------------------------------------------------------
-- Layout
------------------------------------------------------------

/- Spaces on a line, if any. -/
def spaces : Scan Unit :=
  skipWhile isSpace

/- The end of a line. -/
def newline : Scan Unit :=
  literal ['\n'] <|> literal ['\r', '\n']

def comment : Scan Unit := do
  expect '#'
  skipWhile isTextChar

/- Spaces and a comment at the end of a line, if any. -/
def trailer : Scan Unit := do
  spaces
  let _ ← optional comment

/- Spaces, comments and line ends, if any. -/
def layout : Scan Unit := do
  let _ ← many do
    trailer
    newline
  spaces

/- The rest of a line that has nothing more to say. -/
def lineEnd : Scan Unit := do
  trailer
  if (← get).isEmpty then
    return ()
  newline

end Toml

end Matchbook
