import Matchbook.Toml.Moment
import Matchbook.Toml.Number
import Matchbook.Toml.Quoted
import Matchbook.Toml.Table

/-
  Keys and values of TOML texts.

  Arrays and tables in braces nest up to a limit, and a
  dotted key has a limit of its own.

  Key definitions include:
    * `Toml.dottedKey`
    * `Toml.entryOf`
    * `Toml.valueWithin`
    * `Toml.readEntry`
-/

------------------------------------------------------------
-- Keys
------------------------------------------------------------

namespace Matchbook

namespace Toml

open Scan

/- The most arrays and tables inside of each other, and the
most parts of a dotted key. -/
def maxDepth : Nat := 79

/- Whether a character may be in a key without quotes. -/
def isBareChar (c : Char) : Bool :=
  c.isAlphanum || c = '-' || c = '_'

/- A key without quotes. -/
def bareKey : Scan String := do
  return String.ofList (← runWhere isBareChar)

/- A key in quotes or without. -/
def simpleKey : Scan String :=
  shortText '"' <|> shortText '\'' <|> bareKey

/- Keys with points between them. -/
def dottedKey : Scan (List String) := do
  let keys ← separated '.' do
    spaces
    let key ← simpleKey
    spaces
    return key
  if keys.isEmpty ∨ maxDepth < keys.length then failure
  return keys

/- A key and its value. -/
def entryOf (value : Scan Toml) :
    Scan (List String × Toml) := do
  let path ← dottedKey
  expect '='
  spaces
  let v ← value
  spaces
  return (path, v)

------------------------------------------------------------
-- Values
------------------------------------------------------------

def readBool : Scan Toml :=
  (do
    literal ['t', 'r', 'u', 'e']
    return .bool true) <|>
  (do
    literal ['f', 'a', 'l', 's', 'e']
    return .bool false)

/- A value without values inside of it. -/
def readScalar : Scan Toml :=
  readMoment <|> readFloat <|> readInteger <|> readBool <|>
    (do return .text (← quotedText))

/- An array.  A comma may follow its last item. -/
def arrayOf (value : Scan Toml) : Scan Toml := do
  expect '['
  let items ← separated ',' do
    layout
    let v ← value
    layout
    return v
  if !items.isEmpty then
    let _ ← optional (expect ',')
  layout
  expect ']'
  return .array items

/- A table in braces. -/
def bracesOf (value : Scan Toml) : Scan Toml := do
  expect '\x7b'
  let entries ← separated ',' (entryOf value)
  spaces
  expect '\x7d'
  match Table.ofEntries? entries with
  | some t => return t.toValue
  | none => failure

/- A value that nests so deep at most. -/
def valueWithin : Nat → Scan Toml
  | 0 => readScalar
  | depth + 1 =>
      readScalar <|> arrayOf (valueWithin depth) <|>
        bracesOf (valueWithin depth)

/- A key and its value. -/
def readEntry : Scan (List String × Toml) :=
  entryOf (valueWithin maxDepth)

end Toml

end Matchbook
