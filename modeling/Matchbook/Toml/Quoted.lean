import Matchbook.Toml.Layout

/-
  Quoted texts of TOML.

  Double quotes hold escapes, single quotes hold characters
  as they are.  A single quote character opens a text on one
  line, three of them one that may have several.

  Key definitions include:
    * `Toml.escape`
    * `Toml.shortText`
    * `Toml.longText`
    * `Toml.quotedText`
-/

------------------------------------------------------------
-- Characters
------------------------------------------------------------

namespace Matchbook

namespace Toml

open Scan

/- Whether a character stands for itself inside of quotes. -/
def isPlain (quote c : Char) : Bool :=
  isTextChar c && c != quote && !(quote = '"' && c = '\\')

/- The character that a short escape stands for. -/
def escaped? : Char → Option Char
  | 'b' => some '\x08'
  | 't' => some '\t'
  | 'n' => some '\n'
  | 'f' => some '\x0c'
  | 'r' => some '\r'
  | '"' => some '"'
  | '\\' => some '\\'
  | _ => none

/- A code point of so many hexadecimal digits. -/
def codePoint (width : Nat) : Scan Char := do
  let ds := (← get).take width
  if ds.length = width ∧ ds.all (Digits.isDigitIn 16) then
    modify (·.drop width)
    let n := Digits.valueIn 16 ds
    if n.isValidChar then
      return Char.ofNat n
    else
      failure
  else
    failure

/- A backslash and what it escapes. -/
def escape : Scan Char := do
  expect '\\'
  match ← anyChar with
  | 'u' => codePoint 4
  | 'U' => codePoint 8
  | c =>
      match escaped? c with
      | some e => return e
      | none => failure

------------------------------------------------------------
-- Texts on one line
------------------------------------------------------------

/- Some of the characters inside of quotes. -/
def piece (quote : Char) : Scan (List Char) :=
  runWhere (isPlain quote) <|> do
    if quote = '"' then
      return [← escape]
    else
      failure

/- A text on one line. -/
def shortText (quote : Char) : Scan String := do
  expect quote
  let pieces ← many (piece quote)
  expect quote
  return String.ofList pieces.flatten

------------------------------------------------------------
-- Texts of several lines
------------------------------------------------------------

/- A backslash at the end of a line, with all blanks and
line ends after it. -/
def joinedLine : Scan Unit := do
  expect '\\'
  spaces
  newline
  let _ ← many do
    spaces
    newline
  spaces

/- One or two quotes that do not close a text. -/
def innerQuotes (quote : Char) : Scan (List Char) := do
  let quotes := ((← get).take 3).takeWhile (· == quote)
  if quotes.length = 1 ∨ quotes.length = 2 then
    modify (·.drop quotes.length)
    return quotes
  else
    failure

/- The three quotes that close a text, and up to two before
them that belong to it. -/
def closingQuotes (quote : Char) : Scan (List Char) := do
  let quotes := ((← get).take 5).takeWhile (· == quote)
  if 3 ≤ quotes.length then
    modify (·.drop quotes.length)
    return quotes.drop 3
  else
    failure

/- Some of the characters of a text of several lines.  All
line ends count as one character. -/
def longPiece (quote : Char) : Scan (List Char) :=
  runWhere (isPlain quote) <|>
  (do
    newline
    return ['\n']) <|>
  innerQuotes quote <|>
  do
    if quote = '"' then
      (do
        joinedLine
        return []) <|>
      (do return [← escape])
    else
      failure

/- A text of several lines.  A line end right after the
opening quotes does not belong to it. -/
def longText (quote : Char) : Scan String := do
  literal [quote, quote, quote]
  let _ ← optional newline
  let pieces ← many (longPiece quote)
  let last ← closingQuotes quote
  return String.ofList (pieces.flatten ++ last)

/- A text in any quotes. -/
def quotedText : Scan String :=
  longText '"' <|> shortText '"' <|>
    longText '\'' <|> shortText '\''

end Toml

end Matchbook
