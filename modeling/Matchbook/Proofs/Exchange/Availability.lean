import Matchbook.Proofs.Book.Depth
import Matchbook.Proofs.Engine.Range
import Matchbook.Proofs.Exchange.Protection

/-
  How long the desks of an exchange stay open.

  A desk is closed by a number that is out of range: what is
  filled of an order by a trade, what is pending at a price,
  or the number of price levels that is asked for.  Intake
  bounds one order at a time and prevents none of them.

  Key definitions include:
    * `Engine.StaysInRange`
    * `Exchange.InRange`
    * `Exchange.StaysInRange`
    * `Exchange.AlwaysAnswers`

  The main statements are:
    * `Engine.answer?_eq_none_iff`
    * `Exchange.serve_ne_unavailable_iff`
    * `Exchange.always_answers_iff`
-/

------------------------------------------------------------
-- Engines
------------------------------------------------------------

namespace Matchbook

namespace Engine

variable {symbol : String} {log : List Event}
variable {e e' : Engine}
variable {o : Order}
variable {now : Timestamp}

/- No engine says that its desk is closed. -/
theorem submit?_ne_unavailable
    {answer : Except Refusal Report}
    (hSubmit : e.submit? o now = some (answer, e'))
    (s : String) :
    answer ≠ .error (.unavailable s) := by
  rintro rfl
  unfold submit? at hSubmit
  split at hSubmit
  · cases hSubmit
  split at hSubmit
  · cases hSubmit
  split at hSubmit
  · cases hSubmit
  dsimp only at hSubmit
  split at hSubmit
  · unfold park at hSubmit
    split at hSubmit <;> cases hSubmit
  · unfold execute? at hSubmit
    rcases Option.map_eq_some_iff.1 hSubmit with
      ⟨c, _, hOutcome⟩
    dsimp only at hOutcome
    split at hOutcome
    · cases hOutcome
    · unfold breakOff at hOutcome
      split at hOutcome <;> cases hOutcome

theorem answer?_ne_unavailable
    {command : Command}
    {answer : Except Refusal Answer}
    (hAnswer : e.answer? now command = some (answer, e'))
    (s : String) :
    answer ≠ .error (.unavailable s) := by
  rintro rfl
  unfold answer? at hAnswer
  cases command with
  | submit o =>
      rcases Option.map_eq_some_iff.1 hAnswer with
        ⟨⟨report, e''⟩, hSubmit, hEq⟩
      have hNever := submit?_ne_unavailable hSubmit s
      cases report with
      | ok => cases hEq
      | error r =>
          cases hEq
          exact hNever rfl
  | cancel id =>
      unfold cancel at hAnswer
      dsimp only at hAnswer
      split at hAnswer
      · cases hAnswer
      · split at hAnswer <;> cases hAnswer
  | query q =>
      dsimp only at hAnswer
      split at hAnswer
      · cases hAnswer
      · rcases Option.map_eq_some_iff.1 hAnswer with
          ⟨a, _, hEq⟩
        cases hEq

/- Whether a command keeps all numbers in range: those that
are filled by its trades, or those of the levels it asks
for. -/
def StaysInRange
    (e : Engine)
    (now : Timestamp) : Command → Prop
  | .submit o =>
      ∀ met comer, e.Meets o now met comer →
        met.FillsInRange comer
  | .query (.depth n) =>
      e.book.halted = false → e.book.DepthInRange n
  | _ => True

/- A view of the levels of a book is answered unless the book
is live and the numbers are out of range. -/
theorem depth_eq_none_iff
    {n : Nat}
    (hBook : e.book.IsNonneg) :
    e.answer? now (.query (.depth n)) = none ↔
      ¬ e.StaysInRange now (.query (.depth n)) := by
  have hDepth :=
    Book.depth?_eq_none_iff (n := n)
      fun side e' he' => (hBook side e' he').exists_pending
  unfold answer? StaysInRange Book.answer?
  dsimp only
  cases e.book.halted with
  | true => simp
  | false =>
      simp only [Bool.false_eq_true, if_false,
        Option.map_eq_none_iff, forall_const]
      exact hDepth

/- A command with sound orders has no outcome exactly when it
leaves the range. -/
theorem answer?_eq_none_iff
    {command : Command}
    (now : Timestamp)
    (h : Run symbol log e)
    (hSound : ∀ o ∈ entries log, o.defect? = none)
    (hOrder : ∀ o, command = .submit o → o.defect? = none) :
    e.answer? now command = none ↔
      ¬ e.StaysInRange now command := by
  cases command with
  | submit o =>
      have hSubmit :=
        submit?_eq_none_iff now h hSound
          (hOrder o rfl)
      unfold answer? StaysInRange
      dsimp only
      rw [Option.map_eq_none_iff, hSubmit]
      push Not
      rfl
  | cancel id =>
      exact
        iff_of_false (Option.some_ne_none _)
          (not_not_intro trivial)
  | query q =>
      cases q with
      | depth n =>
          exact depth_eq_none_iff (h.reached.isNonneg hSound)
      | bestBid | bestAsk | lastPrice | root =>
          refine iff_of_false ?_ (not_not_intro trivial)
          unfold answer?
          dsimp only
          split
          · exact Option.some_ne_none _
          · exact Option.some_ne_none _

end Engine

------------------------------------------------------------
-- Requests
------------------------------------------------------------

namespace Exchange

variable {x : Exchange}
variable {r : Request}
variable {symbol : String}
variable {now : Timestamp}

/- An exchange none of whose desks is closed. -/
def IsOpen (x : Exchange) : Prop :=
  ∀ symbol, x.desk? symbol ≠ some none

/- Whether a request keeps all numbers in range at the desk
that it reaches. -/
def InRange
    (x : Exchange)
    (now : Timestamp)
    (r : Request) : Prop :=
  ∀ symbol e, r.target? = some symbol →
    x.desk? symbol = some (some e) →
      e.StaysInRange now r.command

/- What comes of a request that reaches an open desk. -/
theorem request_cases
    {e : Engine}
    (command : Command)
    (now : Timestamp)
    (hDesk : x.desk? symbol = some (some e)) :
    (e.answer? now command = none ∧
        (x.request symbol command now).1 =
          .error (.unavailable symbol)) ∨
      ∃ answer e',
        e.answer? now command = some (answer, e') ∧
          x.request symbol command now =
            (answer, x.withDesk symbol (some e')) := by
  unfold request
  simp only [hDesk, Desk.serve]
  cases hAnswer : e.answer? now command with
  | none => exact Or.inl ⟨rfl, rfl⟩
  | some answered =>
      exact Or.inr ⟨answered.1, answered.2, rfl, rfl⟩

/- An open desk answers a command exactly when that keeps all
numbers in range. -/
theorem request_ne_unavailable_iff
    {e : Engine}
    {command : Command}
    (hSound : x.IsSound)
    (hDesk : x.desk? symbol = some (some e))
    (hOrder : ∀ o, command = .submit o → o.defect? = none) :
    (∀ s,
      (x.request symbol command now).1 ≠
        .error (.unavailable s)) ↔
      e.StaysInRange now command := by
  rcases hSound symbol e hDesk with ⟨log, hRun, hLog⟩
  have hNone := Engine.answer?_eq_none_iff now hRun hLog hOrder
  rcases request_cases command now hDesk with
    ⟨hOut, hError⟩ | ⟨answer, e', hAnswer, hEq⟩
  · refine iff_of_false ?_ (hNone.1 hOut)
    intro hNever
    exact hNever symbol hError
  · rw [hEq]
    refine
      iff_of_true (Engine.answer?_ne_unavailable hAnswer) ?_
    by_contra hOut
    rw [hNone.2 hOut] at hAnswer
    cases hAnswer

theorem inRange_of_target?_ne
    (hElse :
      ∀ s e, x.desk? s = some (some e) →
        r.target? ≠ some s) :
    x.InRange now r := by
  intro s e hTarget hDesk
  exact absurd hTarget (hElse s e hDesk)

theorem inRange_iff_of_target?
    {e : Engine}
    (hTarget : r.target? = some symbol)
    (hDesk : x.desk? symbol = some (some e)) :
    x.InRange now r ↔ e.StaysInRange now r.command := by
  constructor
  · intro hIn
    exact hIn symbol e hTarget hDesk
  · intro hStays s e' hTarget' hDesk'
    rw [hTarget] at hTarget'
    cases hTarget'
    rw [hDesk] at hDesk'
    cases hDesk'
    exact hStays

/- With all desks open, a request is answered exactly when it
keeps all numbers in range. -/
theorem serve_ne_unavailable_iff
    (hSound : x.IsSound)
    (hOpen : x.IsOpen) :
    (∀ symbol,
      (x.serve now r).1 ≠ .error (.unavailable symbol)) ↔
      x.InRange now r := by
  cases hTarget : r.target? with
  | none =>
      rcases serve_of_target?_eq_none x now hTarget with
        ⟨d, hServe⟩
      rw [hServe]
      refine iff_of_true ?_ (inRange_of_target?_ne ?_)
      · rintro symbol ⟨⟩
      · simp [hTarget]
  | some symbol =>
      rw [serve_of_target? hTarget]
      cases hDesk : x.desk? symbol with
      | none =>
          refine iff_of_true ?_ (inRange_of_target?_ne ?_)
          · intro s hError
            unfold request at hError
            rw [hDesk] at hError
            cases hError
          · rintro s e hHere hReached
            rw [hTarget] at hReached
            cases hReached
            rw [hDesk] at hHere
            cases hHere
      | some desk =>
          cases desk with
          | none => exact absurd hDesk (hOpen symbol)
          | some e =>
              rw [inRange_iff_of_target? hTarget hDesk]
              exact
                request_ne_unavailable_iff hSound hDesk
                  (Request.defect?_eq_none hTarget)

/- A request that is answered leaves all desks open. -/
theorem isOpen_serve
    (hSound : x.IsSound)
    (hOpen : x.IsOpen)
    (hIn : x.InRange now r) :
    (x.serve now r).2.IsOpen := by
  intro symbol hClosed
  by_cases hTarget : r.target? = some symbol
  · have hAnswered :=
      (serve_ne_unavailable_iff hSound hOpen).2 hIn symbol
    rw [serve_of_target? hTarget] at hClosed hAnswered
    cases hDesk : x.desk? symbol with
    | none =>
        unfold request at hClosed
        rw [hDesk] at hClosed
        exact hOpen symbol hClosed
    | some desk =>
        cases desk with
        | none => exact hOpen symbol hDesk
        | some e =>
            rcases request_cases r.command now hDesk with
              ⟨_, hError⟩ | ⟨answer, e', _, hEq⟩
            · exact hAnswered hError
            · rw [hEq] at hClosed
              rw [desk?_withDesk_self _ hDesk] at hClosed
              cases hClosed
  · rw [desk?_serve_of_target?_ne hTarget] at hClosed
    exact hOpen symbol hClosed

theorem isOpen_start?
    {c : Config}
    (hStart : start? c = some (.ok x)) :
    x.IsOpen := by
  intro symbol hClosed
  have hDesk := desk_eq_of_start? hStart hClosed
  cases hDesk

------------------------------------------------------------
-- Runs
------------------------------------------------------------

/- Whether each of some requests, one after the other, keeps
all numbers in range. -/
def StaysInRange
    (x : Exchange) :
    List (Request × Timestamp) → Prop
  | [] => True
  | (r, now) :: rest =>
      x.InRange now r ∧
        (x.serve now r).2.StaysInRange rest

/- Whether no request finds its desk closed. -/
def AlwaysAnswers
    (x : Exchange)
    (requests : List (Request × Timestamp)) : Prop :=
  ∀ symbol,
    .error (.unavailable symbol) ∉ (x.serveAll requests).1

theorem alwaysAnswers_cons_iff
    {rest : List (Request × Timestamp)} :
    x.AlwaysAnswers ((r, now) :: rest) ↔
      (∀ symbol,
          (x.serve now r).1 ≠
            .error (.unavailable symbol)) ∧
        (x.serve now r).2.AlwaysAnswers rest := by
  have hAnswers :
      (x.serveAll ((r, now) :: rest)).1 =
        (x.serve now r).1 ::
          ((x.serve now r).2.serveAll rest).1 := rfl
  unfold AlwaysAnswers
  rw [hAnswers, ← forall_and]
  refine forall_congr' fun symbol => ?_
  rw [List.mem_cons, not_or, ne_comm]

/- By induction on the requests. -/
theorem alwaysAnswers_iff_of_isSound
    {requests : List (Request × Timestamp)}
    (hSound : x.IsSound)
    (hOpen : x.IsOpen) :
    x.AlwaysAnswers requests ↔ x.StaysInRange requests := by
  induction requests generalizing x with
  | nil =>
      refine iff_of_true ?_ trivial
      rintro symbol ⟨⟩
  | cons request rest ih =>
      rcases request with ⟨r, now⟩
      rw [alwaysAnswers_cons_iff,
        serve_ne_unavailable_iff hSound hOpen]
      unfold StaysInRange
      refine and_congr_right fun hIn => ?_
      exact
        ih (isSound_serve hSound r)
          (isOpen_serve hSound hOpen hIn)

/-
  From its start on, an exchange answers all that it is asked
  for just as long as what is filled of its orders, what is
  pending at each price that is asked for, and the number of
  these prices stay in range.
-/
theorem always_answers_iff
    {c : Config}
    (hStart : start? c = some (.ok x))
    (requests : List (Request × Timestamp)) :
    x.AlwaysAnswers requests ↔ x.StaysInRange requests :=
  alwaysAnswers_iff_of_isSound (isSound_start? hStart)
    (isOpen_start? hStart)

/- The largest amount. -/
def largest : Decimal :=
  .ofParts (2 ^ 96 - 1) 0

/- A buyer of the largest amount at 1 and another one of 1. -/
def largeBids : List Order :=
  [.ordinary 1 .buy (some (.ofParts 1 0)) largest,
    .ordinary 2 .buy (some (.ofParts 1 0)) (.ofParts 1 0)]

/- A seller of the largest amount at 1, a buyer of 1.5 and one
of the largest amount.  After the first trade half a unit too
much is pending of the seller. -/
def largeSales : List Order :=
  [.ordinary 1 .sell (some (.ofParts 1 0)) largest,
    .ordinary 2 .buy none (.ofParts 15 1),
    .ordinary 3 .buy none largest]

/- Some submissions, and then the view of one price level. -/
def thenDepth (os : List Order) :
    List (Request × Timestamp) :=
  os.map (fun o => (.submit o, .ofNanos 0)) ++
    [(.query "BTC-USDT" (.depth 1), .ofNanos 0)]

/- A seller of 2 at 1 and a buyer of a half. -/
def smallSale : List Order :=
  [.ordinary 1 .sell (some (.ofParts 1 0)) (.ofParts 2 0),
    .ordinary 2 .buy none (.ofParts 5 1)]

/- The seller rests, the half is traded, and the view shows
what is left of the seller. -/
def smallSaleAnswers : List (Except Refusal Answer) :=
  [.ok (.report ⟨1, .rested (.ofParts 2 0), [], []⟩),
    .ok
      (.report
        ⟨2, .filled,
          [(Order.ordinary 1 .sell (some (.ofParts 1 0))
              (.ofParts 2 0)).trade
            (.ordinary 2 .buy none (.ofParts 5 1)) 1
            (.ofParts 1 0) (.ofParts 5 1) (.ofParts 5 1)
            (.ofNanos 0)],
          []⟩),
    .ok
      (.depth
        ⟨"BTC-USDT", [],
          [(.ofParts 1 0, .ofParts 15 1)]⟩)]

/- Both sides hold of the small sale, which trades and is
shown; neither holds of the large bids. -/
theorem always_answers_iff_of_views :
    start? {} = some (.ok single) ∧
      (single.AlwaysAnswers (thenDepth largeBids) ↔
        single.StaysInRange (thenDepth largeBids)) ∧
      (single.serveAll (thenDepth smallSale)).1 =
        smallSaleAnswers ∧
      single.AlwaysAnswers (thenDepth smallSale) ∧
      single.StaysInRange (thenDepth smallSale) := by
  have hAnswers :
      (single.serveAll (thenDepth smallSale)).1 =
        smallSaleAnswers := by
    decide +kernel
  have hAlways :
      single.AlwaysAnswers (thenDepth smallSale) := by
    intro symbol hError
    rw [hAnswers] at hError
    simp [smallSaleAnswers] at hError
  exact
    ⟨start?_default, always_answers_iff start?_default _,
      hAnswers, hAlways,
      (always_answers_iff start?_default _).1 hAlways⟩

/- All of these orders are sound, and yet a view of the bids
finds the desk closed by the first ones, and so does the view
after the second ones, which the last submission has
closed. -/
theorem closes_at_largest_amount :
    (∀ o ∈ largeBids ++ largeSales, o.defect? = none) ∧
      (single.serveAll (thenDepth largeBids)).1[2]? =
        some (.error (.unavailable "BTC-USDT")) ∧
      (single.serveAll (thenDepth largeSales)).1[2]? =
        some (.error (.unavailable "BTC-USDT")) ∧
      ¬ single.AlwaysAnswers (thenDepth largeBids) ∧
      ¬ single.AlwaysAnswers (thenDepth largeSales) := by
  have hBids :
      (single.serveAll (thenDepth largeBids)).1[2]? =
        some (.error (.unavailable "BTC-USDT")) := by
    decide +kernel
  have hSales :
      (single.serveAll (thenDepth largeSales)).1[2]? =
        some (.error (.unavailable "BTC-USDT")) := by
    decide +kernel
  refine ⟨by decide +kernel, hBids, hSales, ?_, ?_⟩
  · intro hAlways
    exact
      hAlways "BTC-USDT"
        (List.mem_of_getElem? hBids)
  · intro hAlways
    exact
      hAlways "BTC-USDT"
        (List.mem_of_getElem? hSales)

end Exchange

end Matchbook
