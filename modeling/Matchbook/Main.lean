import Matchbook.Book.Json
import Matchbook.CommandLine
import Matchbook.Json.Indented
import Matchbook.Session
import Matchbook.Trade.Json
import Std.Time.DateTime.Timestamp

/-
  The demonstration program: the session of a configuration,
  written as its trades, the price levels and the root of the
  state.

  A misuse of the command line ends with code 2, a capacity
  that is out of range with code 101, and all else that keeps
  the session from its end with code 1.

  Key definitions include:
    * `main`
-/

------------------------------------------------------------
-- Texts
------------------------------------------------------------

namespace Matchbook

namespace Program

def usage : String :=
  "Usage: matchbook [OPTIONS]\n\n" ++
    "Options:\n" ++
    "  -c, --config <CONFIG>  TOML config file; " ++
    "defaults are used when omitted\n" ++
    "      --depth <DEPTH>    Print the top N depth levels " ++
    "after the session [default: 5]\n" ++
    "  -h, --help             Print help\n" ++
    "  -V, --version          Print version"

def version : String :=
  "matchbook 0.1.0"

------------------------------------------------------------
-- Outside of the session
------------------------------------------------------------

/- The time of the clock. -/
def now : IO Timestamp := do
  let t ← Std.Time.Timestamp.now
  return Timestamp.ofNanos
    (Int64.ofInt t.toNanosecondsSinceUnixEpoch.val)

/- What reading a file comes to. -/
def readContent (path : String) :
    IO (Except FileFault String) := do
  try
    return .ok (← IO.FS.readFile path)
  catch
    | .noFileOrDirectory .. => return .error .missing
    | .inappropriateType _ 21 _ => return .error .directory
    | e => return .error (.other (toString e))

/- The configuration of the options. -/
def configOf (o : Options) :
    IO (Except ConfigError Config) := do
  match o.config with
  | none => return .ok {}
  | some path =>
      return Config.ofFile path (← readContent path)

------------------------------------------------------------
-- The session
------------------------------------------------------------

/- Report a failure and come to its code. -/
def fail (f : Session.Failure) : IO UInt32 := do
  IO.eprintln ("Error: " ++ f.message)
  return .ofNat f.exitCode

/- Run the session and write what it shows. -/
def runSession (o : Options) : IO UInt32 := do
  match ← configOf o with
  | .error e => fail (.config e)
  | .ok c =>
      match Session.run c o.levels (← now) with
      | .error f => fail f
      | .ok t =>
          for trade in t.trades do
            IO.println trade.toJson.toText
          IO.println t.depth.toJson.indented
          IO.println ("state root: " ++ t.root)
          return 0

end Program

end Matchbook

open Matchbook in
def main (args : List String) : IO UInt32 := do
  match Invocation.ofArguments args with
  | .session o => Program.runSession o
  | .help =>
      IO.println Program.usage
      return 0
  | .version =>
      IO.println Program.version
      return 0
  | .misuse =>
      IO.eprintln Program.usage
      return 2
