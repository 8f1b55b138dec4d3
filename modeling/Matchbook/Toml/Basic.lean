/-
  TOML values.

  Tables remember how they came to be, since that decides
  what may still be added to them.  Numbers with a point and
  times keep the characters that they were written with.

  Key definitions include:
    * `Toml.TableKind`
    * `Toml`
    * `Toml.Table`
-/

------------------------------------------------------------
-- Values
------------------------------------------------------------

namespace Matchbook

/-
  How a table came to be: by a header of its own, by the
  header of a table inside of it, by a dotted key, or as a
  value in braces.
-/
inductive Toml.TableKind where
  | defined
  | implied
  | dotted
  | inline
deriving DecidableEq

/- A value.  `tables` are the tables of an array that is
written as headers. -/
inductive Toml where
  | text (s : String)
  | integer (n : Int)
  | float (literal : List Char)
  | bool (b : Bool)
  | moment (literal : List Char)
  | array (items : List Toml)
  | table
      (kind : Toml.TableKind)
      (members : List (String × Toml))
  | tables (items : List (List (String × Toml)))

namespace Toml

instance : Inhabited Toml := ⟨bool false⟩

------------------------------------------------------------
-- Tables
------------------------------------------------------------

/- The kind and the members of a table. -/
structure Table where
  kind : TableKind
  members : List (String × Toml)

namespace Table

/- The table without members. -/
def empty (kind : TableKind) : Table :=
  ⟨kind, []⟩

/- A table as a value. -/
def toValue (t : Table) : Toml :=
  .table t.kind t.members

/- The member of a key. -/
def get? (t : Table) (key : String) : Option Toml :=
  t.members.lookup key

/- The table with another member. -/
def add
    (t : Table)
    (key : String)
    (value : Toml) : Table :=
  { t with members := t.members ++ [(key, value)] }

/- The table with another value for a key that it has. -/
def replace
    (t : Table)
    (key : String)
    (value : Toml) : Table :=
  { t with
    members :=
      t.members.map fun (k, v) =>
        (k, if k = key then value else v) }

end Table

end Toml

end Matchbook
