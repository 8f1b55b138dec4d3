import Matchbook.Config.Basic
import Matchbook.Toml.Document

/-
  Configurations as TOML documents.

  Every part of a configuration may be missing; it then has
  its default value.  A part that is there must be of its
  type.  Log settings may be a table, an array of their parts
  in order, or a date or time, which has none of them.

  Key definitions include:
    * `Toml.partsNamed?`
    * `LogSettings.ofToml?`
    * `Config.ofTable?`
-/

------------------------------------------------------------
-- Plain values
------------------------------------------------------------

namespace Matchbook

namespace Toml

def asText? : Toml → Option String
  | text s => some s
  | _ => none

def asBool? : Toml → Option Bool
  | bool b => some b
  | _ => none

/- An integer that is not negative. -/
def asNat? : Toml → Option Nat
  | integer n => if 0 ≤ n then some n.toNat else none
  | _ => none

/- The items of an array. -/
def asItems? : Toml → Option (List Toml)
  | array items => some items
  | tables items => some (items.map (table .defined))
  | _ => none

/- Whether a value is an array or a table with nothing in
it. -/
def isEmpty : Toml → Bool
  | array items => items.isEmpty
  | table _ members => members.isEmpty
  | tables items => items.isEmpty
  | _ => false

/-
  A word out of a fixed choice: the word itself or a table
  whose only member has the word as its key and is empty.
-/
def asWord? : Toml → Option String
  | text s => some s
  | table _ [(key, value)] =>
      if value.isEmpty then some key else none
  | _ => none

------------------------------------------------------------
-- Parts
------------------------------------------------------------

/-
  The members of the given names, in the order of the names.
  An array gives them by position and may have fewer or more
  items.
-/
def partsNamed?
    (names : List String) :
    Toml → Option (List (Option Toml))
  | table _ members => some (names.map (List.lookup · members))
  | moment _ => some (names.map fun _ => none)
  | v => do
      let items ← v.asItems?
      return (List.range names.length).map (items[·]?)

/- A value that may be missing. -/
def orElse?
    {α : Type}
    (missing : α)
    (f : Toml → Option α) : Option Toml → Option α
  | none => some missing
  | some v => f v

end Toml

------------------------------------------------------------
-- Log settings
------------------------------------------------------------

namespace LogSettings

/- The log settings that a value stands for. -/
def ofToml? (v : Toml) : Option LogSettings := do
  match ← Toml.partsNamed? partNames v with
  | [format, level, includeTarget] =>
      let missing : LogSettings := {}
      let formatOf? (v : Toml) : Option LogFormat := do
        LogFormat.ofName? (← v.asWord?)
      return {
        format :=
          ← Toml.orElse? missing.format formatOf? format
        level :=
          ← Toml.orElse? missing.level Toml.asText? level
        includeTarget :=
          ← Toml.orElse? missing.includeTarget
            Toml.asBool? includeTarget }
  | _ => none

end LogSettings

------------------------------------------------------------
-- Configurations
------------------------------------------------------------

namespace Config

/- A list of symbols. -/
def symbolsOfToml? (v : Toml) : Option (List String) := do
  (← v.asItems?).mapM Toml.asText?

/- The configuration that a document stands for. -/
def ofTable? (t : Toml.Table) : Option Config := do
  match partNames.map t.get? with
  | [symbols, channelCapacity, bookCapacity, log] =>
      let missing : Config := {}
      return {
        symbols :=
          ← Toml.orElse? missing.symbols
            symbolsOfToml? symbols
        channelCapacity :=
          ← Toml.orElse? missing.channelCapacity
            Toml.asNat? channelCapacity
        bookCapacity :=
          ← Toml.orElse? missing.bookCapacity
            Toml.asNat? bookCapacity
        log :=
          ← Toml.orElse? missing.log LogSettings.ofToml? log }
  | _ => none

end Config

end Matchbook
