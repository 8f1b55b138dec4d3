import Matchbook.Exchange
import Matchbook.Proofs.Engine.Queue

/-
  The stamps of trades.

  The time of a command is written on the trades it makes and
  decides nothing.  At another time the same trades are made
  with another stamp, and the same engine is left behind.

  Key definitions include:
    * `Trade.stamped`
    * `Cascade.stamped`
    * `Report.stamped`
    * `Answer.stamped`
    * `restamped`

  The main statements are:
    * `Order.meet?_stamped`
    * `Matching.run?_stamped`
    * `Book.cascade?_stamped`
    * `Engine.submit?_stamped`
    * `Engine.answer?_stamped`
-/

------------------------------------------------------------
-- Other stamps
------------------------------------------------------------

namespace Matchbook

/- The trade with the stamp of another time. -/
def Trade.stamped
    (now : Timestamp)
    (t : Trade) : Trade :=
  { t with createdAt := now }

def Deal.stamped
    (now : Timestamp)
    (d : Deal) : Deal :=
  { d with trade := d.trade.stamped now }

def Meeting.stamped (now : Timestamp) : Meeting → Meeting
  | .traded t maker taker =>
      .traded (t.stamped now) maker taker
  | m => m

def Matching.stamped
    (now : Timestamp)
    (m : Matching) : Matching :=
  { m with deals := m.deals.map (Deal.stamped now) }

def Pass.stamped
    (now : Timestamp)
    (p : Pass) : Pass :=
  { p with deals := p.deals.map (Deal.stamped now) }

def Cascade.stamped
    (now : Timestamp)
    (c : Cascade) : Cascade :=
  { c with
    first := c.first.stamped now
    others := c.others.map (Pass.stamped now) }

def Report.stamped
    (now : Timestamp)
    (r : Report) : Report :=
  { r with trades := r.trades.map (Trade.stamped now) }

def Refusal.stamped (now : Timestamp) : Refusal → Refusal
  | .violationAfterTrades cause trades =>
      .violationAfterTrades cause
        (trades.map (Trade.stamped now))
  | r => r

def Answer.stamped (now : Timestamp) : Answer → Answer
  | .report r => .report (r.stamped now)
  | a => a

/- An answer whose trades, also those of a refusal, have the
stamp of another time. -/
def restamped
    {α : Type}
    (stamp : Timestamp → α → α)
    (now : Timestamp)
    (answer : Except Refusal α) : Except Refusal α :=
  (answer.map (stamp now)).mapError (Refusal.stamped now)

------------------------------------------------------------
-- Meetings
------------------------------------------------------------

namespace Order

variable (maker taker : Order)
variable (id : UInt64)
variable (now now' : Timestamp)

theorem exchange?_stamped
    (price quantity : Decimal) :
    exchange? maker taker id price quantity now =
      (exchange? maker taker id price quantity now').map
        (Meeting.stamped now) := by
  unfold exchange?
  split
  · rfl
  · split <;> rfl

/- Two orders meet at any time as at any other. -/
theorem meet?_stamped :
    maker.meet? taker id now =
      (maker.meet? taker id now').map
        (Meeting.stamped now) := by
  unfold meet?
  split
  · rfl
  split
  · rfl
  split
  · cases maker.pending? with
    | none => rfl
    | some makerOpen =>
        rw [Option.bind_some, Option.bind_some]
        split
        · rfl
        · cases taker.pending? with
          | none => rfl
          | some takerOpen =>
              rw [Option.bind_some, Option.bind_some]
              split
              · rfl
              · exact
                  exchange?_stamped maker taker id now now' _ _
  · rfl

end Order

------------------------------------------------------------
-- Passes
------------------------------------------------------------

namespace Matching

theorem trades_stamped
    (now : Timestamp)
    (m : Matching) :
    (m.stamped now).trades =
      m.trades.map (Trade.stamped now) := by
  unfold trades stamped
  rw [List.map_map, List.map_map]
  rfl

/- By induction on the matching at the other time. -/
theorem run?_stamped
    (now now' : Timestamp)
    (id : UInt64)
    (makers : List (Entry Order))
    (taker : Order) :
    run? now id makers taker =
      (run? now' id makers taker).map (stamped now) := by
  induction id, makers, taker using run?.induct now' with
  | case1 id makers taker hFilled =>
      rw [run?_of_isFilled hFilled, run?_of_isFilled hFilled]
      rfl
  | case2 id taker hOpen =>
      rw [run?, if_neg hOpen, run?, if_neg hOpen]
      rfl
  | case3 id taker hOpen e rest hMeet =>
      rw [run?_cons hOpen, run?_cons hOpen,
        Order.meet?_stamped e.item taker id now now', hMeet]
      rfl
  | case4 id taker hOpen e rest cause hMeet =>
      rw [run?_cons hOpen, run?_cons hOpen,
        Order.meet?_stamped e.item taker id now now', hMeet]
      rfl
  | case5 id taker hOpen e rest hMeet =>
      rw [run?_cons hOpen, run?_cons hOpen,
        Order.meet?_stamped e.item taker id now now', hMeet]
      rfl
  | case6 id taker hOpen e rest t maker' taker' hMeet ih =>
      rw [run?_cons hOpen, run?_cons hOpen,
        Order.meet?_stamped e.item taker id now now', hMeet]
      simp only [Option.map_some, Meeting.stamped]
      rw [ih, Option.map_map, Option.map_map]
      rfl

end Matching

namespace Pass

theorem trades_stamped
    (now : Timestamp)
    (p : Pass) :
    (p.stamped now).trades =
      p.trades.map (Trade.stamped now) := by
  unfold trades stamped
  rw [List.map_map, List.map_map]
  rfl

theorem violation_stamped
    (now : Timestamp)
    (p : Pass) :
    (p.stamped now).violation = p.violation :=
  rfl

end Pass

namespace Book

/- A book keeps the price and the number of a trade. -/
theorem settle_stamped
    (b : Book)
    (side : Side)
    (now : Timestamp)
    (m : Matching) :
    b.settle side (m.stamped now) = b.settle side m := by
  unfold settle
  rw [Matching.trades_stamped, List.getLast?_map]
  cases m.trades.getLast? <;> rfl

theorem pass?_stamped
    (b : Book)
    (taker : Order)
    (now now' : Timestamp) :
    b.pass? taker now =
      (b.pass? taker now').map fun (p, b') =>
        (p.stamped now, b') := by
  unfold pass?
  dsimp only
  rw [Matching.run?_stamped now now', Option.map_bind,
    Option.bind_map]
  congr 1
  funext m
  dsimp only [Function.comp]
  rw [settle_stamped]
  unfold Matching.stamped
  dsimp only
  cases m.violation with
  | some cause => rfl
  | none =>
      dsimp only
      rw [Option.map_map]
      rfl

theorem releaseAfter_stamped
    (b : Book)
    (now : Timestamp)
    (p : Pass) :
    b.releaseAfter (p.stamped now) = b.releaseAfter p := by
  unfold releaseAfter
  rw [Pass.trades_stamped, List.isEmpty_map]

------------------------------------------------------------
-- Cascades
------------------------------------------------------------

/- By induction on the execution of the queue at the other
time. -/
theorem runQueue?_stamped
    (now now' : Timestamp)
    (queue : List Order)
    (b : Book) :
    runQueue? now queue b =
      (runQueue? now' queue b).map fun (passes, b') =>
        (passes.map (Pass.stamped now), b') := by
  induction queue, b using Book.runQueue?.induct now' with
  | case1 b =>
      rw [runQueue?, runQueue?]
      rfl
  | case2 b o rest hPass =>
      rw [runQueue?_cons, runQueue?_cons,
        pass?_stamped b o.activate now now', hPass]
      rfl
  | case3 b o rest p b₁ hPass hBroken =>
      rw [runQueue?_cons, runQueue?_cons,
        pass?_stamped b o.activate now now', hPass]
      simp only [Option.map_some, Pass.violation_stamped,
        hBroken, if_true, List.map_cons, List.map_nil]
  | case4 b o rest p b₁ hPass hIntact ih =>
      rw [runQueue?_cons, runQueue?_cons,
        pass?_stamped b o.activate now now', hPass]
      simp only [Option.map_some, Pass.violation_stamped,
        hIntact, Bool.false_eq_true, if_false,
        releaseAfter_stamped]
      rw [ih, Option.map_map, Option.map_map]
      rfl

theorem cascade?_stamped
    (b : Book)
    (o : Order)
    (now now' : Timestamp) :
    b.cascade? o now =
      (b.cascade? o now').map (Cascade.stamped now) := by
  unfold cascade?
  rw [pass?_stamped b o.activate now now', Option.map_bind,
    Option.bind_map]
  congr 1
  funext ⟨p, b'⟩
  dsimp only [Function.comp]
  rw [Pass.violation_stamped, releaseAfter_stamped]
  split
  · rfl
  · rw [runQueue?_stamped now now', Option.map_map,
      Option.map_map]
    rfl

end Book

namespace Cascade

theorem passes_stamped
    (now : Timestamp)
    (c : Cascade) :
    (c.stamped now).passes =
      c.passes.map (Pass.stamped now) :=
  rfl

theorem trades_stamped
    (now : Timestamp)
    (c : Cascade) :
    (c.stamped now).trades =
      c.trades.map (Trade.stamped now) := by
  unfold trades
  rw [passes_stamped, List.flatMap_map, List.map_flatMap]
  congr 1
  funext p
  exact p.trades_stamped now

theorem violation_stamped
    (now : Timestamp)
    (c : Cascade) :
    (c.stamped now).violation = c.violation := by
  unfold violation
  rw [passes_stamped, List.findSome?_map]
  rfl

theorem outcome_stamped
    (now : Timestamp)
    (c : Cascade) :
    (c.stamped now).outcome =
      c.outcome.map (Report.stamped now) := by
  have hEnding : (c.stamped now).first.ending = c.first.ending :=
    rfl
  unfold outcome
  rw [violation_stamped, trades_stamped, hEnding]
  cases c.first.ending.disposition with
  | error cause => rfl
  | ok disposition =>
      cases c.violation with
      | some cause => rfl
      | none =>
          dsimp only [stamped]
          rw [List.map_map]
          rfl

end Cascade

------------------------------------------------------------
-- Engines
------------------------------------------------------------

namespace Engine

variable (e : Engine)
variable (o : Order)
variable (now now' : Timestamp)

/- A refusal tells of the trades before it with their
stamps. -/
theorem breakOff_stamped
    (cause : Violation)
    (trades : List Trade) :
    e.breakOff cause (trades.map (Trade.stamped now)) =
      (restamped Report.stamped now
          (e.breakOff cause trades).1,
        (e.breakOff cause trades).2) := by
  unfold breakOff
  rw [List.isEmpty_map]
  split <;> rfl

theorem execute?_stamped :
    e.execute? o now =
      (e.execute? o now').map fun (answer, e') =>
        (restamped Report.stamped now answer, e') := by
  unfold execute?
  rw [Book.cascade?_stamped e.book o now now',
    Option.map_map, Option.map_map]
  congr 1
  funext c
  dsimp only [Function.comp]
  rw [Cascade.outcome_stamped, Cascade.trades_stamped,
    List.length_map]
  cases c.outcome with
  | ok report => rfl
  | error cause => exact breakOff_stamped _ _ _ _

/- At another time an engine answers the same but for the
stamps, and what is left of it is the same. -/
theorem submit?_stamped :
    e.submit? o now =
      (e.submit? o now').map fun (answer, e') =>
        (restamped Report.stamped now answer, e') := by
  unfold submit?
  split
  · rfl
  split
  · exact congrArg some (breakOff_stamped e now _ [])
  split
  · rfl
  dsimp only
  split
  · unfold park
    split
    · rfl
    · exact congrArg some (breakOff_stamped _ now _ [])
  · exact execute?_stamped _ o now now'

theorem answer?_stamped
    (command : Command) :
    e.answer? now command =
      (e.answer? now' command).map fun (answer, e') =>
        (restamped Answer.stamped now answer, e') := by
  cases command with
  | submit o =>
      simp only [answer?]
      rw [submit?_stamped e o now now', Option.map_map,
        Option.map_map]
      congr 1
      funext ⟨answer, e'⟩
      cases answer <;> rfl
  | cancel id =>
      simp only [answer?, cancel]
      split
      · rfl
      · split <;> rfl
  | query q =>
      simp only [answer?]
      split
      · rfl
      · rw [Option.map_map]
        cases q with
        | depth n =>
            simp only [Book.answer?, Option.map_map]
            rfl
        | bestBid => rfl
        | bestAsk => rfl
        | lastPrice => rfl
        | root => rfl

end Engine

end Matchbook
