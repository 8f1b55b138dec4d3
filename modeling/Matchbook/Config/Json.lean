import Matchbook.Config.Basic
import Matchbook.Json.Member

/-
  Configurations as JSON values.

  Every part of a configuration may be missing; it then has
  its default value.  A part that is there must be of its
  type.

  Key definitions include:
    * `LogSettings.ofJson?`
    * `Config.ofJson?`
-/

------------------------------------------------------------
-- Log settings
------------------------------------------------------------

namespace Matchbook

namespace LogSettings

/- The log settings that a JSON value stands for. -/
def ofJson? (j : Json) : Option LogSettings := do
  match ← Json.partsNamed? partNames j with
  | [format, level, includeTarget] =>
      let missing : LogSettings := {}
      let formatOf? (j : Json) : Option LogFormat := do
        LogFormat.ofName? (← j.asWord?)
      return {
        format :=
          ← Json.orElse? missing.format formatOf? format
        level :=
          ← Json.orElse? missing.level Json.asText? level
        includeTarget :=
          ← Json.orElse? missing.includeTarget
            Json.asBool? includeTarget }
  | _ => none

end LogSettings

------------------------------------------------------------
-- Configurations
------------------------------------------------------------

namespace Config

/- A list of symbols. -/
def symbolsOfJson? (j : Json) : Option (List String) := do
  (← j.asItems?).mapM Json.asText?

/- A capacity. -/
def capacityOfJson? (j : Json) : Option Nat := do
  let n ← j.asUInt64?
  return n.toNat

/- The configuration that a JSON value stands for. -/
def ofJson? (j : Json) : Option Config := do
  match ← Json.partsNamed? partNames j with
  | [symbols, channelCapacity, bookCapacity, log] =>
      let missing : Config := {}
      return {
        symbols :=
          ← Json.orElse? missing.symbols
            symbolsOfJson? symbols
        channelCapacity :=
          ← Json.orElse? missing.channelCapacity
            capacityOfJson? channelCapacity
        bookCapacity :=
          ← Json.orElse? missing.bookCapacity
            capacityOfJson? bookCapacity
        log :=
          ← Json.orElse? missing.log LogSettings.ofJson? log }
  | _ => none

end Config

end Matchbook
