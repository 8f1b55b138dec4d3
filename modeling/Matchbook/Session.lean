import Matchbook.Config.File
import Matchbook.Exchange

/-
  The demonstration: a short session on the first symbol of a
  configuration.

  Two sells and two buys rest, a third buy crosses the sells,
  a sell stop waits, and a last sell sets it off.

  Key definitions include:
    * `Session.script`
    * `Session.Transcript`
    * `Session.Failure`
    * `Session.run`
-/

------------------------------------------------------------
-- The orders
------------------------------------------------------------

namespace Matchbook

namespace Session

/- A price in whole units. -/
def price (n : Nat) : Option Decimal :=
  Decimal.ofParts? n 0

/- A quantity in tenths. -/
def tenths (n : Nat) : Decimal :=
  (Decimal.ofParts? n 1).getD 0

/- The orders of the session. -/
def script
    (symbol : String)
    (now : Timestamp) : List Order :=
  let order
      (id memberId : UInt64)
      (side : Side)
      (quantity : Nat) : Order :=
    { id := id
      symbol := symbol
      memberId := memberId
      side := side
      price := none
      stopPrice := none
      quantity := tenths quantity
      filled := 0
      immediateOrCancel := false
      createdAt := now }
  [{ order 1 100 .sell 10 with price := price 101 },
    { order 2 100 .sell 20 with price := price 102 },
    { order 3 200 .buy 15 with price := price 99 },
    { order 4 200 .buy 30 with price := price 98 },
    { order 5 300 .buy 15 with price := price 102 },
    { order 6 400 .sell 10 with stopPrice := price 99 },
    { order 7 500 .sell 5 with
      price := price 99
      immediateOrCancel := true }]

------------------------------------------------------------
-- The session
------------------------------------------------------------

/- What a session shows: its trades, the book after it and
the root of its state. -/
structure Transcript where
  trades : List Trade
  depth : Depth
  root : String
deriving DecidableEq

/- What keeps a session from coming to its end. -/
inductive Failure where
  | config (e : ConfigError)
  | capacity
  | refused (r : Refusal)
deriving DecidableEq

namespace Failure

/- The sentence that reports a failure. -/
def message : Failure → String
  | config e => e.message
  | capacity => "a capacity is out of range"
  | refused r => r.message

/- The code that a program ends with after a failure. -/
def exitCode : Failure → Nat
  | capacity => 101
  | config _ | refused _ => 1

end Failure

/- Submit orders one after the other.  The first refusal
ends the session. -/
def submitAll
    (x : Exchange)
    (now : Timestamp) :
    List Order →
    Except Refusal (List Trade × Exchange)
  | [] => .ok ([], x)
  | o :: rest =>
      match x.submit o now with
      | (.error r, _) => .error r
      | (.ok (.report r), x') => do
          let (trades, x'') ← submitAll x' now rest
          return (r.trades ++ trades, x'')
      | (.ok _, x') => submitAll x' now rest

/- The answers that the transcript ends with. -/
def close
    (x : Exchange)
    (symbol : String)
    (levels : Nat)
    (now : Timestamp)
    (trades : List Trade) :
    Except Refusal Transcript := do
  let answer (q : Query) : Except Refusal Answer :=
    (x.request symbol (.query q) now).1
  match ← answer (.depth levels), ← answer .root with
  | .depth depth, .root root => return ⟨trades, depth, root⟩
  | _, _ => throw (.unavailable symbol)

/- The session on the first symbol of a configuration. -/
def run
    (c : Config)
    (levels : Nat)
    (now : Timestamp) : Except Failure Transcript :=
  match Exchange.start? c, c.symbols with
  | none, _ => .error .capacity
  | some (.error d), _ => .error (.config (.invalid d))
  | some (.ok _), [] =>
      .error (.config (.invalid .noSymbols))
  | some (.ok x), symbol :: _ =>
      Except.mapError .refused do
        let (trades, x') ←
          submitAll x now (script symbol now)
        close x' symbol levels now trades

end Session

end Matchbook
