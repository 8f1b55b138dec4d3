import Matchbook.Config.Toml

/-
  Configurations from files, and what keeps a file from being
  one.

  Key definitions include:
    * `FileFault`
    * `ConfigError`
    * `ConfigError.message`
    * `Config.ofText`
    * `Config.ofFile`
-/

------------------------------------------------------------
-- Errors
------------------------------------------------------------

namespace Matchbook

/- Why a file could not be read. -/
inductive FileFault where
  | missing
  | directory
  | other (reason : String)
deriving DecidableEq

namespace FileFault

def reason : FileFault → String
  | missing => "No such file or directory (os error 2)"
  | directory => "Is a directory (os error 21)"
  | other reason => reason

end FileFault

/- Why there is no configuration. -/
inductive ConfigError where
  | unreadable (path : String) (fault : FileFault)
  | malformed
  | invalid (defect : ConfigDefect)
deriving DecidableEq

namespace ConfigError

/- The sentence that reports an error. -/
def message : ConfigError → String
  | unreadable path fault =>
      s!"failed to read config file {path}: " ++ fault.reason
  | malformed => "failed to parse config"
  | invalid defect => "invalid config: " ++ defect.message

end ConfigError

------------------------------------------------------------
-- Reading
------------------------------------------------------------

namespace Config

/- The configuration of a TOML text, if it has no defect. -/
def ofText (text : String) : Except ConfigError Config :=
  match Toml.ofText? text >>= ofTable? with
  | none => .error .malformed
  | some c =>
      match c.defect? with
      | some d => .error (.invalid d)
      | none => .ok c

/- The configuration of a file, given its path and what came
of reading it. -/
def ofFile
    (path : String)
    (content : Except FileFault String) :
    Except ConfigError Config :=
  match content with
  | .error fault => .error (.unreadable path fault)
  | .ok text => ofText text

end Config

end Matchbook
