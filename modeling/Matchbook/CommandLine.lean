import Matchbook.Text.Digits

/-
  The command line of the demonstration: a configuration file
  and the number of price levels to print.

  Arguments are read from the left.  The first one that asks
  for help or for the version ends the reading, and so does
  the first one that is at fault.

  Key definitions include:
    * `Options`
    * `Invocation`
    * `Argument.ofText`
    * `Invocation.ofArguments`
-/

------------------------------------------------------------
-- Options
------------------------------------------------------------

namespace Matchbook

/- The options that take a value. -/
inductive OptionName where
  | config
  | depth
deriving DecidableEq

/- The options that have been given. -/
structure Options where
  config : Option String := none
  depth : Option Nat := none
deriving DecidableEq

namespace Options

/- The levels to print where no number of them is given. -/
def defaultDepth : Nat := 5

/- The number of price levels to print. -/
def levels (o : Options) : Nat :=
  o.depth.getD defaultDepth

/- A number of levels: digits after an optional plus sign,
below 2 ^ 64. -/
def readLevels? (value : List Char) : Option Nat := do
  let ds :=
    match value with
    | '+' :: ds => ds
    | ds => ds
  let n ← Digits.read? ds
  if n < 2 ^ 64 then some n else none

/- Give a value to an option that has none yet. -/
def give?
    (o : Options)
    (value : List Char) : OptionName → Option Options
  | .config =>
      if o.config.isSome ∨ value.isEmpty then
        none
      else
        some { o with config := some (String.ofList value) }
  | .depth =>
      if o.depth.isSome then
        none
      else
        (readLevels? value).map fun n =>
          { o with depth := some n }

end Options

------------------------------------------------------------
-- Arguments
------------------------------------------------------------

/- What an argument says. -/
inductive Argument where
  | help
  | version
  | option (name : OptionName) (value : Option (List Char))
  | endOfOptions
  | unknown
deriving DecidableEq

namespace Argument

/- The value after the equals sign, if there is one. -/
def attached? : List Char → Option (List Char)
  | [] => none
  | _ :: value => some value

/- An argument after two hyphens. -/
def ofLong (cs : List Char) : Argument :=
  let name := String.ofList (cs.takeWhile (· != '='))
  let rest := cs.dropWhile (· != '=')
  match name, rest with
  | "", [] => endOfOptions
  | "help", [] => help
  | "version", [] => version
  | "config", _ => option .config (attached? rest)
  | "depth", _ => option .depth (attached? rest)
  | _, _ => unknown

/- What a text says as an argument. -/
def ofText (s : String) : Argument :=
  match s.toList with
  | '-' :: '-' :: cs => ofLong cs
  | '-' :: 'h' :: _ => help
  | '-' :: 'V' :: _ => version
  | ['-', 'c'] => option .config none
  | '-' :: 'c' :: '=' :: value => option .config (some value)
  | '-' :: 'c' :: value => option .config (some value)
  | _ => unknown

/- Whether a text cannot be the value of the option before
it. -/
def isOptionLike (s : String) : Bool :=
  match s.toList with
  | '-' :: _ :: _ => true
  | _ => false

end Argument

------------------------------------------------------------
-- Invocations
------------------------------------------------------------

/- What a command line asks for. -/
inductive Invocation where
  | session (o : Options)
  | help
  | version
  | misuse
deriving DecidableEq

namespace Invocation

/- What arguments ask for after some options. -/
def continueWith
    (o : Options) : List String → Invocation
  | [] => session o
  | arg :: rest =>
      match Argument.ofText arg, rest with
      | .help, _ => help
      | .version, _ => version
      | .option name (some value), rest =>
          match o.give? value name with
          | some o' => continueWith o' rest
          | none => misuse
      | .option name none, value :: rest =>
          if Argument.isOptionLike value then
            misuse
          else
            match o.give? value.toList name with
            | some o' => continueWith o' rest
            | none => misuse
      | .endOfOptions, [] => session o
      | _, _ => misuse

/- What all arguments ask for. -/
def ofArguments (args : List String) : Invocation :=
  continueWith {} args

end Invocation

end Matchbook
