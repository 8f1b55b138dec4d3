import Matchbook.Proofs.Engine.Queue

/-
  The floor of a market: a book together with the orders in
  flight, which have left the book or are on their way into
  it.  All that an engine does to its book is made of a few
  small moves on the floor, so that an invariant of the moves
  holds in every run and at every moment of a cascade.

  Key definitions include:
    * `Floor`
    * `Floor.Reached`

  The main statements are:
    * `Floor.Reached.matching`
    * `Floor.Reached.pass?`
    * `Floor.Reached.runQueue?`
    * `Engine.Run.reached`
-/

------------------------------------------------------------
-- Moves
------------------------------------------------------------

namespace Matchbook

/- A book and the orders in flight, the next one first. -/
structure Floor where
  book : Book
  inFlight : List Order

namespace Floor

/-
  The floors that a new book comes to, with the log on the
  way.  The moves are those of the engine; only their order is
  left open where no invariant depends on it.
-/
inductive Reached (symbol : String) :
    List Event → Floor → Prop
  | start : Reached symbol [] ⟨Book.new symbol, []⟩
  | enter
      {log : List Event}
      {b : Book}
      {o : Order}
      (h : Reached symbol log ⟨b, []⟩)
      (hSymbol : o.symbol = b.symbol)
      (hNew : b.contains o.id = false) :
      Reached symbol (log ++ [.entry o]) ⟨b, [o]⟩
  | activate
      {log : List Event}
      {b : Book}
      {o : Order}
      {queue : List Order}
      (h : Reached symbol log ⟨b, o :: queue⟩) :
      Reached symbol log ⟨b, o.activate :: queue⟩
  | trade
      {log : List Event}
      {b : Book}
      {taker : Order}
      {queue : List Order}
      {e : Entry Order}
      {rest : List (Entry Order)}
      {d : Deal}
      {now : Timestamp}
      (h : Reached symbol log ⟨b, taker :: queue⟩)
      (hOpen : ¬ taker.IsFilled)
      (hMakers :
        (b.ladder taker.side.opposite .price).byPriority =
          e :: rest)
      (hMeet :
        e.item.meet? taker b.nextTradeId now =
          some (.traded d.trade d.maker d.taker)) :
      Reached symbol (log ++ [.deal d])
        ⟨b.settle taker.side.opposite
            ⟨[d], Matching.remaining e.key d.maker rest,
              d.taker, none⟩,
          d.taker :: queue⟩
  | retire
      {log : List Event}
      {b : Book}
      {taker : Order}
      {queue : List Order}
      (h : Reached symbol log ⟨b, taker :: queue⟩)
      (hDone :
        taker.IsFilled ∨
          taker.immediateOrCancel ∨ taker.isMarket) :
      Reached symbol log ⟨b, queue⟩
  | rest
      {log : List Event}
      {b b' : Book}
      {taker : Order}
      {queue : List Order}
      (h : Reached symbol log ⟨b, taker :: queue⟩)
      (hOpen : ¬ taker.IsFilled)
      (hApart :
        ∀ e rest,
          (b.ladder taker.side.opposite .price).byPriority =
              e :: rest →
            e.item.IsApartFrom taker)
      (hPlace : b.place .price taker = .ok b') :
      Reached symbol log ⟨b', queue⟩
  | park
      {log : List Event}
      {b b' : Book}
      {o : Order}
      {queue : List Order}
      (h : Reached symbol log ⟨b, o :: queue⟩)
      (hPlace : b.place .stop o = .ok b') :
      Reached symbol log ⟨b', queue⟩
  | release
      {log : List Event}
      {b : Book}
      {queue : List Order}
      (h : Reached symbol log ⟨b, queue⟩) :
      Reached symbol log
        ⟨b.release.2, queue ++ b.release.1⟩
  | cancel
      {log : List Event}
      {b b' : Book}
      {o : Order}
      {id : UInt64}
      (h : Reached symbol log ⟨b, []⟩)
      (hCancel : b.cancel? id = some (o, b')) :
      Reached symbol log ⟨b', []⟩
  | halt
      {log : List Event}
      {b : Book}
      {queue : List Order}
      (h : Reached symbol log ⟨b, queue⟩) :
      Reached symbol log ⟨b.halt, []⟩

------------------------------------------------------------
-- Passes
------------------------------------------------------------

/- A matching without a deal changes nothing. -/
theorem settle_nil
    (b : Book)
    (side : Side)
    (taker : Order)
    (violation : Option Violation) :
    b.settle side
        ⟨[], (b.ladder side .price).byPriority, taker,
          violation⟩ = b := by
  cases side <;>
    simp only [Book.settle, Matching.trades, List.map_nil,
      List.getLast?_nil, Ladder.ofPriority_byPriority] <;>
    rfl

/- Deals settle one after the other. -/
theorem settle_settle
    (b : Book)
    (side : Side)
    (d : Deal)
    (makers : List (Entry Order))
    (taker : Order)
    (m : Matching) :
    (b.settle side ⟨[d], makers, taker, none⟩).settle side m =
      b.settle side (m.after d) := by
  rcases m with ⟨deals, makers', taker', violation⟩
  simp only [Book.settle, Matching.trades, Matching.after,
    List.map_cons, List.map_nil, List.getLast?_singleton]
  cases hLast : (deals.map Deal.trade).getLast? with
  | none =>
      have hNil := List.getLast?_eq_none_iff.1 hLast
      rw [hNil, List.getLast?_singleton]
      cases side <;> rfl
  | some t =>
      rw [List.getLast?_cons, hLast]
      cases side <;> rfl

variable {symbol : String} {log : List Event}
variable {b b' : Book} {queue : List Order}

/-
  A matching is a series of trades on the floor.  By induction
  on its course; after each trade the makers that are left
  stand on the ladder of the settled book.
-/
theorem Reached.matching
    {taker : Order}
    {side : Side}
    {now : Timestamp}
    {id : UInt64}
    {makers : List (Entry Order)}
    {m : Matching}
    (hRuns : Matching.Runs now id makers taker m)
    (h : Reached symbol log ⟨b, taker :: queue⟩)
    (hSide : taker.side.opposite = side)
    (hId : b.nextTradeId = id)
    (hMakers : (b.ladder side .price).byPriority = makers) :
    Reached symbol (log ++ m.deals.map .deal)
      ⟨b.settle side m, m.taker :: queue⟩ := by
  induction hRuns generalizing b log with
  | filled =>
      rw [← hMakers, settle_nil]
      simpa using h
  | empty =>
      rw [← hMakers, settle_nil]
      simpa using h
  | apart =>
      rw [← hMakers, settle_nil]
      simpa using h
  | broken =>
      rw [← hMakers, settle_nil]
      simpa using h
  | @traded id e rest taker d m hOpen hMeet hRest ih =>
      subst hId
      subst hSide
      rcases Deal.isStruck_of_meet? hMeet with
        ⟨hStruck, hTradeId⟩
      have hSame : d.taker.side = taker.side := by
        rw [hStruck.taker_with_filled]
      have hNext :=
        ih (h.trade hOpen hMakers hMeet) (by rw [hSame])
          (by rw [← hTradeId]; rfl)
          (Book.byPriority_settle _ _ _)
      rw [settle_settle, List.append_assoc] at hNext
      exact hNext

/- A pass takes the first order in flight off the floor,
unless it meets a broken contract. -/
theorem Reached.pass?
    {taker : Order}
    {now : Timestamp}
    {p : Pass}
    (h : Reached symbol log ⟨b, taker :: queue⟩)
    (hPass : b.pass? taker now = some (p, b')) :
    ∃ inFlight,
      Reached symbol (log ++ p.deals.map .deal)
          ⟨b', inFlight⟩ ∧
        (p.violation = none → inFlight = queue) := by
  cases Book.passes_of_pass? hPass with
  | broken hRuns =>
      have hMatched := h.matching hRuns rfl rfl rfl
      exact ⟨_, hMatched, fun hNone => by cases hNone⟩
  | @finished m _ _ hRuns hIntact hFinish =>
      have hMatched := h.matching hRuns rfl rfl rfl
      cases hFinish with
      | filled hFilled =>
          exact
            ⟨queue, hMatched.retire (Or.inl hFilled),
              fun _ => rfl⟩
      | discarded _ _ hDiscard =>
          exact
            ⟨queue, hMatched.retire (Or.inr hDiscard),
              fun _ => rfl⟩
      | broken =>
          exact ⟨_, hMatched, fun hNone => by cases hNone⟩
      | rested hOpen _ hPlace =>
          refine
            ⟨queue, hMatched.rest hOpen ?_ hPlace,
              fun _ => rfl⟩
          intro e rest hCons
          have hSide : m.taker.side = taker.side := by
            rw [hRuns.taker_with_filled]
          rw [hSide, Book.byPriority_settle] at hCons
          cases hRuns.isStopped with
          | filled hFilled => exact absurd hFilled hOpen
          | empty _ hNone =>
              rw [hNone] at hCons
              cases hCons
          | apart _ hMakers hApart =>
              rw [hMakers] at hCons
              cases hCons
              exact hApart
          | broken _ _ _ hBroken =>
              rw [hIntact] at hBroken
              cases hBroken

theorem Reached.releaseAfter
    (h : Reached symbol log ⟨b, queue⟩)
    (p : Pass) :
    Reached symbol log
      ⟨(b.releaseAfter p).2,
        queue ++ (b.releaseAfter p).1⟩ := by
  unfold Book.releaseAfter
  split
  · simpa using h
  · exact h.release

------------------------------------------------------------
-- Cascades
------------------------------------------------------------

/- One pass of a queue, and what it leaves in flight. -/
theorem Reached.step
    {o : Order}
    {now : Timestamp}
    {p : Pass}
    (h : Reached symbol log ⟨b, o :: queue⟩)
    (hPass : b.pass? o.activate now = some (p, b'))
    (hIntact : p.violation = none) :
    Reached symbol (log ++ p.deals.map .deal)
      ⟨(b'.releaseAfter p).2,
        queue ++ (b'.releaseAfter p).1⟩ := by
  rcases h.activate.pass? hPass with
    ⟨inFlight, hReached, hQueue⟩
  rw [hQueue hIntact] at hReached
  exact hReached.releaseAfter p

/- Executing a queue empties it, unless a pass meets a broken
contract. -/
theorem Reached.runQueue?
    {now : Timestamp}
    {passes : List Pass}
    (h : Reached symbol log ⟨b, queue⟩)
    (hRun : Book.runQueue? now queue b = some (passes, b')) :
    ∃ inFlight,
      Reached symbol
          (log ++ (passes.flatMap Pass.deals).map .deal)
          ⟨b', inFlight⟩ ∧
        (passes.findSome? Pass.violation = none →
          inFlight = []) := by
  induction queue, b using Book.runQueue?.induct now
    generalizing log passes b' with
  | case1 b =>
      rw [Book.runQueue?] at hRun
      cases hRun
      exact ⟨[], by simpa using h, fun _ => rfl⟩
  | case2 b o rest hPass =>
      rw [Book.runQueue?_cons, hPass] at hRun
      cases hRun
  | case3 b o rest p b₁ hPass hBroken =>
      rw [Book.runQueue?_cons, hPass] at hRun
      simp only [hBroken, if_true] at hRun
      cases hRun
      rcases h.activate.pass? hPass with
        ⟨inFlight, hReached, _⟩
      refine ⟨inFlight, by simpa using hReached, ?_⟩
      intro hNone
      rcases Option.isSome_iff_exists.1 hBroken with
        ⟨cause, hCause⟩
      simp [hCause] at hNone
  | case4 b o rest p b₁ hPass hIntact ih =>
      have hNone : p.violation = none := by
        simpa using hIntact
      rw [Book.runQueue?_cons, hPass] at hRun
      simp only [hNone, Option.isSome_none,
        Bool.false_eq_true, if_false] at hRun
      rcases Option.map_eq_some_iff.1 hRun with
        ⟨⟨others, b₂⟩, hRest, hEq⟩
      cases hEq
      rcases ih (h.step hPass hNone) hRest with
        ⟨inFlight, hReached, hEmpty⟩
      refine ⟨inFlight, ?_, ?_⟩
      · simpa using hReached
      · intro hAll
        apply hEmpty
        simpa [List.findSome?_cons, hNone] using hAll

/- A pass of a queue begins on a floor that is reached with no
new entries to the log. -/
theorem Reached.begins
    {now : Timestamp}
    {before : Book}
    {taker : Order}
    (h : Reached symbol log ⟨b, queue⟩)
    (hBegins : Book.Begins now queue b before taker) :
    ∃ (deals : List Deal) (inFlight : List Order),
      Reached symbol (log ++ deals.map .deal)
        ⟨before, taker :: inFlight⟩ := by
  induction hBegins generalizing log with
  | first => exact ⟨[], _, by simpa using h.activate⟩
  | later hPass hIntact _ ih =>
      rcases ih (h.step hPass hIntact) with
        ⟨deals, inFlight, hReached⟩
      rw [List.append_assoc, ← List.map_append] at hReached
      exact ⟨_, inFlight, hReached⟩

/- The book keeps its symbol. -/
theorem Reached.symbol_eq
    {f : Floor}
    (h : Reached symbol log f) :
    f.book.symbol = symbol := by
  induction h with
  | start => rfl
  | enter _ _ _ ih => exact ih
  | activate _ ih => exact ih
  | @trade _ b taker _ e rest d _ _ _ _ _ ih =>
      have hDoor :=
        b.door_settle taker.side.opposite
          ⟨[d], Matching.remaining e.key d.maker rest,
            d.taker, none⟩
      exact (congrArg Prod.fst hDoor).trans ih
  | retire _ _ ih => exact ih
  | rest _ _ _ hPlace ih =>
      have hDoor := Book.door_place hPlace
      exact (congrArg Prod.fst hDoor).trans ih
  | park _ hPlace ih =>
      have hDoor := Book.door_place hPlace
      exact (congrArg Prod.fst hDoor).trans ih
  | @release _ b _ _ ih =>
      exact (congrArg Prod.fst b.door_release).trans ih
  | cancel _ hCancel ih =>
      have hDoor := Book.door_cancel? hCancel
      exact (congrArg Prod.fst hDoor).trans ih
  | halt _ ih => exact ih

end Floor

------------------------------------------------------------
-- Runs
------------------------------------------------------------

namespace Engine

variable {symbol : String} {log : List Event}
variable {e e' : Engine} {o : Order} {now : Timestamp}
variable {answer : Except Refusal Report}

open Floor

/- An order that is taken in is executed at once or waits. -/
theorem reached_admit?
    (h : Reached symbol log ⟨e.book, []⟩)
    (hIn : e.TakesIn o)
    (hAdmit : e.admit? o now = some (answer, e')) :
    Reached symbol (log ++ e.events o now)
      ⟨e'.book, []⟩ := by
  have hEnter := h.enter hIn.2.1 hIn.2.2
  unfold events deals
  rw [if_pos hIn]
  unfold admit? at hAdmit
  dsimp only at hAdmit
  split at hAdmit
  · rename_i hWait
    rw [if_pos hWait]
    have hPark := Option.some.inj hAdmit
    unfold park at hPark
    split at hPark
    · rename_i hPlace
      cases hPark
      exact hEnter.park hPlace
    · cases hPark
      exact hEnter.halt
  · rename_i hGo
    rw [if_neg hGo]
    unfold execute? at hAdmit
    rcases Option.map_eq_some_iff.1 hAdmit with
      ⟨c, hCascade, hOutcome⟩
    rw [hCascade]
    rcases
        hEnter.runQueue?
          (Book.runQueue?_of_cascade? hCascade) with
      ⟨inFlight, hReached, hEmpty⟩
    rw [List.append_assoc] at hReached
    dsimp only at hOutcome
    split at hOutcome
    · rename_i report hReport
      cases hOutcome
      have hNone : c.violation = none := by
        unfold Cascade.outcome at hReport
        split at hReport <;> simp_all
      rw [hEmpty hNone] at hReached
      exact hReached
    · cases hOutcome
      exact hReached.halt

theorem reached_submit?
    (h : Reached symbol log ⟨e.book, []⟩)
    (hSubmit : e.submit? o now = some (answer, e')) :
    Reached symbol (log ++ e.events o now)
      ⟨e'.book, []⟩ := by
  by_cases hIn : e.TakesIn o
  · rw [submit?_of_takesIn now hIn] at hSubmit
    exact reached_admit? h hIn hSubmit
  · unfold events
    rw [if_neg hIn, List.append_nil]
    rcases submit?_of_not_takesIn hIn hSubmit with
      ⟨rfl, _⟩ | ⟨_, hBreak⟩
    · exact h
    · cases hBreak
      exact h.halt

theorem reached_cancel
    (h : Reached symbol log ⟨e.book, []⟩)
    (id : UInt64) :
    Reached symbol log ⟨(e.cancel id).2.book, []⟩ := by
  unfold cancel
  split
  · exact h
  · split
    · exact h
    · rename_i hCancel
      exact h.cancel hCancel

/- Every run is a series of moves. -/
theorem Run.reached
    (h : Run symbol log e) :
    Reached symbol log ⟨e.book, []⟩ := by
  induction h with
  | start => exact .start
  | submit _ hSubmit ih => exact reached_submit? ih hSubmit
  | cancel _ id ih => exact reached_cancel ih id

/- Every pass within a run begins on a floor that is reached,
too. -/
theorem Run.reached_begins
    {before : Book}
    {taker : Order}
    (h : Run symbol log e)
    (hBegins : e.Begins o now before taker) :
    ∃ (deals : List Deal) (inFlight : List Order),
      Reached symbol
        (log ++ .entry o :: deals.map .deal)
        ⟨before, taker :: inFlight⟩ := by
  rcases hBegins with ⟨hIn, _, hQueue⟩
  rcases (h.reached.enter hIn.2.1 hIn.2.2).begins hQueue with
    ⟨deals, inFlight, hReached⟩
  rw [List.append_assoc] at hReached
  exact ⟨deals, inFlight, hReached⟩

end Engine

end Matchbook
