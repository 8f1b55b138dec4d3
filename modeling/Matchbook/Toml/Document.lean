import Matchbook.Toml.Value

/-
  TOML documents: lines with headers and entries, and the
  table that they make up.

  Key definitions include:
    * `Toml.Statement`
    * `Toml.readLine`
    * `Toml.Table.ofStatements?`
    * `Toml.ofText?`
-/

------------------------------------------------------------
-- Lines
------------------------------------------------------------

namespace Matchbook

namespace Toml

open Scan

/- What a line says. -/
inductive Statement where
  | table (path : List String)
  | item (path : List String)
  | entry (path : List String) (value : Toml)

/- The header of an array's table, or of a table. -/
def readHeader : Scan Statement :=
  (do
    literal ['[', '[']
    let path ← dottedKey
    literal [']', ']']
    return .item path) <|>
  (do
    expect '['
    let path ← dottedKey
    expect ']'
    return .table path)

def readStatement : Scan Statement :=
  readHeader <|> do
    let (path, value) ← readEntry
    return .entry path value

/- A line, which may say nothing. -/
def readLine : Scan (Option Statement) := do
  spaces
  let s ← optional readStatement
  lineEnd
  return s

------------------------------------------------------------
-- Documents
------------------------------------------------------------

/- A document as it is read: all of its tables, and the path
of the last header. -/
structure Draft where
  root : Table
  path : List String

namespace Draft

/- The draft before the first line. -/
def empty : Draft where
  root := Table.empty .defined
  path := []

/- The draft after another statement. -/
def add? (d : Draft) : Statement → Option Draft
  | .table path => do
      return ⟨← d.root.openTable? path, path⟩
  | .item path => do
      return ⟨← d.root.openItem? path, path⟩
  | .entry path value => do
      let root ←
        Table.changeAt? .implied (Table.enter? path value)
          d.path d.root
      return { d with root := root }

end Draft

/- The table that statements make up. -/
def Table.ofStatements?
    (statements : List Statement) : Option Table :=
  (statements.foldlM Draft.add? Draft.empty).map (·.root)

/- All lines of a document, after an optional byte order
mark. -/
def readLines : Scan (List Statement) := do
  let _ ← optional (expect '\ufeff')
  let lines ← many readLine
  if !(← get).isEmpty then failure
  return lines.filterMap id

/- Read a document. -/
def ofText? (s : String) : Option Table := do
  let (statements, _) ← readLines.run s.toList
  Table.ofStatements? statements

end Toml

end Matchbook
