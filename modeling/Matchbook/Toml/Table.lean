import Matchbook.Toml.Basic

/-
  The growth of TOML tables.

  A table may be opened once by its header.  A dotted key may
  add to the tables that dotted keys made, and a header may
  open a table that so far only headers below it implied.
  Values never grow.

  Key definitions include:
    * `Toml.Table.changeAt?`
    * `Toml.Table.enter?`
    * `Toml.Table.openTable?`
    * `Toml.Table.openItem?`
-/

------------------------------------------------------------
-- Descending
------------------------------------------------------------

namespace Matchbook

namespace Toml

namespace Table

/-
  Change the table at the end of a path.  Tables that are
  missing on the way are made as tables of a kind.  In an
  array of tables the way goes on in the last one.  The way
  of a dotted key must not pass a table with a header.
-/
def changeAt?
    (made : TableKind)
    (f : Table → Option Table) :
    List String → Table → Option Table
  | [], t => f t
  | key :: path, t =>
      match t.get? key with
      | none => do
          let child ← changeAt? made f path (empty made)
          return t.add key child.toValue
      | some (.table kind members) =>
          if kind = .inline ∨
              (made = .dotted ∧ kind = .defined) then
            none
          else do
            let child ← changeAt? made f path ⟨kind, members⟩
            return t.replace key child.toValue
      | some (.tables items) => do
          let last ← items.getLast?
          let child ← changeAt? made f path ⟨.defined, last⟩
          return t.replace key
            (.tables (items.dropLast ++ [child.members]))
      | some _ => none

------------------------------------------------------------
-- Entries
------------------------------------------------------------

/- A path and the key at its end. -/
def splitPath? (path : List String) :
    Option (List String × String) := do
  return (path.dropLast, ← path.getLast?)

/-
  Enter a value under a key, which may be dotted.  The key
  must be free, and the table that a dotted one leads to must
  be one that dotted keys made.
-/
def enter?
    (path : List String)
    (value : Toml)
    (t : Table) : Option Table := do
  let (way, key) ← splitPath? path
  let put (t : Table) : Option Table :=
    if (way ≠ [] ∧ t.kind ≠ .dotted) ∨
        (t.get? key).isSome then
      none
    else
      some (t.add key value)
  changeAt? .dotted put way t

/- The table in braces with the given entries. -/
def ofEntries?
    (entries : List (List String × Toml)) :
    Option Table :=
  entries.foldlM
    (fun t (path, value) => t.enter? path value)
    (empty .inline)

------------------------------------------------------------
-- Headers
------------------------------------------------------------

/- Open the table of a header. -/
def openTable?
    (path : List String)
    (t : Table) : Option Table := do
  let (way, key) ← splitPath? path
  let opened (t : Table) : Option Table :=
    match t.get? key with
    | none => some (t.add key (empty .defined).toValue)
    | some (.table .implied members) =>
        some (t.replace key (.table .defined members))
    | some _ => none
  changeAt? .implied opened way t

/- Open another table of the array of a header. -/
def openItem?
    (path : List String)
    (t : Table) : Option Table := do
  let (way, key) ← splitPath? path
  let opened (t : Table) : Option Table :=
    match t.get? key with
    | none => some (t.add key (.tables [[]]))
    | some (.tables items) =>
        some (t.replace key (.tables (items ++ [[]])))
    | some _ => none
  changeAt? .implied opened way t

end Table

end Toml

end Matchbook
