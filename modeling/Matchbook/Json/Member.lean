import Matchbook.Decimal.Text
import Matchbook.Json.Basic
import Matchbook.Side
import Matchbook.Timestamp.Text

/-
  Records as JSON values: the members of an object by name,
  and the values that members hold.

  A record with known members may be an object or an array of
  the members in their order.  Unknown members of an object
  are ignored; a known one must not be repeated.

  Key definitions include:
    * `Json.membersNamed?`
    * `Json.partsNamed?`
    * `Json.asUInt64?`
    * `Json.asText?`
    * `Json.asDecimal?`
    * `Json.asTimestamp?`
    * `Json.asSide?`
-/

------------------------------------------------------------
-- Members
------------------------------------------------------------

namespace Matchbook

namespace Json

/- The member of a name: missing, present once or, which
fails, repeated. -/
def memberNamed?
    (members : List (Option String × Json))
    (name : String) : Option (Option Json) :=
  match members.filter (·.1 = some name) with
  | [] => some none
  | [(_, v)] => some (some v)
  | _ => none

/- The members of the given names, in the order of the names.
Every key must be a proper text. -/
def membersNamed?
    (names : List String)
    (members : List (Option String × Json)) :
    Option (List (Option Json)) :=
  if members.any (·.1.isNone) then
    none
  else
    names.mapM (memberNamed? members)

/-
  The members of the given names, in the order of the names.
  An array gives them by position and may leave out the last
  ones.
-/
def partsNamed?
    (names : List String) :
    Json → Option (List (Option Json))
  | object members => membersNamed? names members
  | array items =>
      if items.length ≤ names.length then
        some
          (items.map some ++
            List.replicate
              (names.length - items.length) none)
      else
        none
  | _ => none

------------------------------------------------------------
-- Plain values
------------------------------------------------------------

/- A number that is written with digits only. -/
def asNat? : Json → Option Nat
  | number literal => Digits.read? literal
  | _ => none

/- A number that fits 64 bits. -/
def asUInt64? (j : Json) : Option UInt64 := do
  let n ← j.asNat?
  if n < 2 ^ 64 then some n.toUInt64 else none

/- A proper text. -/
def asText? : Json → Option String
  | text s => s
  | _ => none

def asBool? : Json → Option Bool
  | bool b => some b
  | _ => none

/- The items of an array. -/
def asItems? : Json → Option (List Json)
  | array items => some items
  | _ => none

/- A value that may be missing. -/
def orElse?
    {α : Type}
    (missing : α)
    (f : Json → Option α) : Option Json → Option α
  | none => some missing
  | some j => f j

/- A value that may be missing or null. -/
def asOption?
    {α : Type}
    (f : Json → Option α) : Option Json → Option (Option α)
  | none => some none
  | some null => some none
  | some j => (f j).map some

------------------------------------------------------------
-- Values of the domain
------------------------------------------------------------

/- An amount, written as a text. -/
def asDecimal? (j : Json) : Option Decimal := do
  Decimal.ofAnyText? (← j.asText?)

/- A time, written as a text. -/
def asTimestamp? (j : Json) : Option Timestamp := do
  Timestamp.ofText? (← j.asText?)

/-
  A word out of a fixed choice: the word itself or an object
  whose only member has the word as its key and holds null.
-/
def asWord? : Json → Option String
  | text s => s
  | object [(key, null)] => key
  | _ => none

def asSide? (j : Json) : Option Side := do
  Side.ofName? (← j.asWord?)

def uint64 (n : UInt64) : Json :=
  nat n.toNat

def decimal (d : Decimal) : Json :=
  str d.toText

def timestamp (t : Timestamp) : Json :=
  str t.toText

def side (s : Side) : Json :=
  str s.name

end Json

end Matchbook
