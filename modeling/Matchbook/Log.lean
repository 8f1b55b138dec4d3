/-
  Log settings: how events are written and which are kept.

  Settings start from a configuration; the environment may
  name another format and another level.

  Key definitions include:
    * `LogFormat`
    * `LogFormat.ofAnyName`
    * `LogSettings`
    * `LogSettings.override`

  The main statements are:
    * `LogFormat.ofName?_name`
    * `LogFormat.ofAnyName_name`
-/

------------------------------------------------------------
-- Formats
------------------------------------------------------------

namespace Matchbook

inductive LogFormat where
  | pretty
  | compact
  | json
deriving DecidableEq

namespace LogFormat

def name : LogFormat → String
  | pretty => "pretty"
  | compact => "compact"
  | json => "json"

/- The format of an exact name. -/
def ofName? : String → Option LogFormat
  | "pretty" => some pretty
  | "compact" => some compact
  | "json" => some json
  | _ => none

theorem ofName?_name (f : LogFormat) :
    ofName? f.name = some f := by
  cases f <;> rfl

/-
  The format that any name stands for.  Upper and lower case
  of the ASCII letters count as the same, and a name of no
  format stands for the pretty one.
-/
def ofAnyName (s : String) : LogFormat :=
  (ofName? (s.map Char.toLower)).getD pretty

theorem ofAnyName_name (f : LogFormat) :
    ofAnyName f.name = f := by
  cases f <;> decide +kernel

end LogFormat

------------------------------------------------------------
-- Settings
------------------------------------------------------------

structure LogSettings where
  format : LogFormat := .pretty
  level : String := "info"
  includeTarget : Bool := true
deriving DecidableEq

namespace LogSettings

/- The names of the parts of log settings, in order. -/
def partNames : List String :=
  ["format", "level", "include_target"]

/- The settings with a format and a level that override
theirs, where given. -/
def override
    (s : LogSettings)
    (format level : Option String) : LogSettings :=
  { s with
    format :=
      (format.map LogFormat.ofAnyName).getD s.format
    level := level.getD s.level }

end LogSettings

end Matchbook
