import Matchbook.Proofs.Engine.Accounts

/-
  The encounters of a run: the makers and takers that meet in
  it.  A submission breaks a contract exactly when two orders
  meet that should trade and cannot.

  Key definitions include:
    * `Matching.Meets`
    * `Engine.Meets`

  The main statements are:
    * `Book.exists_broken_pass_iff`
    * `Engine.exists_broken_cascade_iff`
    * `Engine.isFatal_of_meets`
    * `Engine.live_submit?`
-/

------------------------------------------------------------
-- Matchings
------------------------------------------------------------

namespace Matchbook

namespace Matching

variable {now : Timestamp}
variable {id : UInt64}
variable {makers : List (Entry Order)}
variable {taker : Order}
variable {m : Matching}
variable {met comer : Order}

/- Whether a taker on its way through the makers comes to
meet the order `met`, as the two of them are then. -/
inductive Meets (now : Timestamp) :
    UInt64 → List (Entry Order) → Order →
      Order → Order → Prop
  | first
      {id : UInt64}
      {e : Entry Order}
      {rest : List (Entry Order)}
      {taker : Order}
      (hOpen : ¬ taker.IsFilled) :
      Meets now id (e :: rest) taker e.item taker
  | later
      {id : UInt64}
      {e : Entry Order}
      {rest : List (Entry Order)}
      {taker met comer : Order}
      {d : Deal}
      (hOpen : ¬ taker.IsFilled)
      (hMeet :
        e.item.meet? taker id now =
          some (.traded d.trade d.maker d.taker))
      (h :
        Meets now (id + 1)
          (remaining e.key d.maker rest) d.taker met comer) :
      Meets now id (e :: rest) taker met comer

/- The makers of one side can be met by a taker of the
other. -/
theorem side_ne_and_priced
    {side : Side}
    {e : Entry Order}
    {rest : List (Entry Order)}
    (hRanked : RankedEntries side .price (e :: rest))
    (hSide : taker.side.opposite = side) :
    e.item.side ≠ taker.side ∧ e.item.price.isSome := by
  have hHead := hRanked.ranked e (List.mem_cons_self ..)
  constructor
  · rw [hHead.side_eq, ← hSide]
    cases taker.side <;> decide
  · rw [hHead.price_eq]
    rfl

/- An order that is met has the price of a maker. -/
theorem Meets.exists_maker
    (h : Meets now id makers taker met comer) :
    ∃ e ∈ makers, met.price = e.item.price := by
  induction h with
  | first => exact ⟨_, List.mem_cons_self .., rfl⟩
  | @later id e rest taker _ _ d _ hMeet _ ih =>
      have hStruck := (Deal.isStruck_of_meet? hMeet).1
      rcases ih with ⟨e', he', hPrice⟩
      rcases hStruck.exists_of_mem_remaining he' with
        ⟨e'', he'', hSame⟩
      exact ⟨e'', he'', hPrice.trans hSame⟩

/- Two orders that meet and cannot trade end the matching. -/
theorem Meets.exists_broken
    {side : Side}
    (h : Meets now id makers taker met comer)
    (hStuck : met.IsStuckWith comer)
    (hRanked : RankedEntries side .price makers)
    (hSide : taker.side.opposite = side) :
    ∃ m cause,
      run? now id makers taker = some m ∧
        m.violation = some cause := by
  induction h with
  | @first id e rest taker hOpen =>
      rcases side_ne_and_priced hRanked hSide with
        ⟨hNe, hPriced⟩
      rcases
          (Order.meet?_eq_broken_iff hNe hPriced).2
            hStuck with
        ⟨cause, hMeet⟩
      refine
        ⟨⟨[], e :: rest, taker, some cause⟩, cause, ?_,
          rfl⟩
      rw [run?_cons hOpen, hMeet]
  | @later id e rest taker _ _ d hOpen hMeet _ ih =>
      have hStruck := (Deal.isStruck_of_meet? hMeet).1
      rcases
          ih hStuck
            (hStruck.rankedEntries_remaining hRanked)
            (by rw [hStruck.taker_with_filled]; exact hSide)
        with
        ⟨m, cause, hRun, hBroken⟩
      refine ⟨m.after d, cause, ?_, hBroken⟩
      rw [run?_cons hOpen, hMeet]
      simp only [hRun, Option.map_some]

/- A matching only ends in a broken contract where two orders
meet that cannot trade. -/
theorem Runs.exists_stuck
    {side : Side}
    {cause : Violation}
    (h : Runs now id makers taker m)
    (hBroken : m.violation = some cause)
    (hRanked : RankedEntries side .price makers)
    (hSide : taker.side.opposite = side) :
    ∃ met comer, Meets now id makers taker met comer ∧
      met.IsStuckWith comer := by
  induction h with
  | filled => cases hBroken
  | empty => cases hBroken
  | apart => cases hBroken
  | broken hOpen hMeet =>
      rcases side_ne_and_priced hRanked hSide with
        ⟨hNe, hPriced⟩
      exact
        ⟨_, _, .first hOpen,
          (Order.meet?_eq_broken_iff hNe hPriced).1
            ⟨_, hMeet⟩⟩
  | traded hOpen hMeet _ ih =>
      have hStruck := (Deal.isStruck_of_meet? hMeet).1
      rcases
          ih hBroken
            (hStruck.rankedEntries_remaining hRanked)
            (by rw [hStruck.taker_with_filled]; exact hSide)
        with
        ⟨met, comer, hMeets, hStuck⟩
      exact ⟨met, comer, .later hOpen hMeet hMeets, hStuck⟩

end Matching

------------------------------------------------------------
-- Passes
------------------------------------------------------------

namespace Book

variable {b b' : Book}
variable {taker : Order}
variable {now : Timestamp}

/- Whether the pass of a taker comes to a meeting of two
orders. -/
def Meets
    (b : Book)
    (taker : Order)
    (now : Timestamp)
    (met comer : Order) : Prop :=
  Matching.Meets now b.nextTradeId
    (b.ladder taker.side.opposite .price).byPriority taker
    met comer

/- An order with the price that a policy ranks by can always
be placed. -/
theorem exists_place
    (b : Book)
    {policy : Policy}
    {o : Order}
    {price : Decimal}
    (hPrice : policy.sortPrice o.key = some price) :
    ∃ b', b.place policy o = .ok b' := by
  have hRank :
      policy.rank o.key =
        .ok ⟨o.side, price, o.createdAt, o.id⟩ :=
    Policy.rank_eq_ok_iff.2 ⟨price, hPrice, rfl⟩
  have hSide : ¬ o.key.side ≠ o.side := not_not.2 rfl
  unfold place Ladder.insert
  rw [if_neg hSide, hRank]
  exact ⟨_, rfl⟩

/- A taker that has stopped trading never breaks a
contract. -/
theorem Finishes.violation_eq_none
    {m : Matching}
    {ending : Ending}
    (h : b.Finishes taker ending b') :
    (⟨taker, m.deals, ending⟩ : Pass).violation = none := by
  cases h with
  | filled => rfl
  | discarded => rfl
  | rested => rfl
  | broken _ _ hLimit hPlace =>
      exfalso
      have hPriced : taker.price ≠ none := by
        simpa [Order.isMarket] using hLimit
      rcases Option.ne_none_iff_exists'.1 hPriced with
        ⟨price, hPrice⟩
      have hKey :
          Policy.price.sortPrice taker.key = some price :=
        hPrice
      rcases b.exists_place hKey with ⟨b'', hOk⟩
      rw [hPlace] at hOk
      cases hOk

/- A pass breaks a contract exactly when two orders meet that
cannot trade. -/
theorem exists_broken_pass_iff
    (hRanked : b.IsRanked) :
    (∃ p b' cause,
      b.pass? taker now = some (p, b') ∧
        p.violation = some cause) ↔
      ∃ met comer, b.Meets taker now met comer ∧
        met.IsStuckWith comer := by
  have hEntries := hRanked taker.side.opposite .price
  constructor
  · rintro ⟨p, b', cause, hPass, hBroken⟩
    cases passes_of_pass? hPass with
    | broken hRuns hCause =>
        exact hRuns.exists_stuck hCause hEntries rfl
    | finished _ _ hFinish =>
        rw [hFinish.violation_eq_none] at hBroken
        cases hBroken
  · rintro ⟨met, comer, hMeets, hStuck⟩
    rcases hMeets.exists_broken hStuck hEntries rfl with
      ⟨m, cause, hRun, hBroken⟩
    refine
      ⟨⟨m.taker, m.deals, .broken cause⟩,
        b.settle taker.side.opposite m, cause, ?_, rfl⟩
    unfold pass?
    dsimp only
    rw [hRun, Option.bind_some]
    simp only [hBroken]

------------------------------------------------------------
-- Queues
------------------------------------------------------------

/- A broken pass ends the execution of its queue. -/
theorem Begins.exists_broken
    {queue : List Order}
    {before : Book}
    {p : Pass}
    {cause : Violation}
    (h : Begins now queue b before taker)
    (hPass : before.pass? taker now = some (p, b'))
    (hBroken : p.violation = some cause) :
    ∃ passes b'',
      runQueue? now queue b = some (passes, b'') ∧
        passes.findSome? Pass.violation = some cause := by
  induction h with
  | first =>
      refine ⟨[p], b', ?_, ?_⟩
      · rw [runQueue?_cons, hPass]
        simp only [hBroken, Option.isSome_some, if_true]
      · rw [List.findSome?_cons, hBroken]
  | @later o taker rest b b₁ before first hFirst hIntact _ ih =>
      rcases ih hPass with ⟨passes, b'', hRun, hFound⟩
      refine ⟨first :: passes, b'', ?_, ?_⟩
      · rw [runQueue?_cons, hFirst]
        simp only [hIntact, Option.isSome_none,
          Bool.false_eq_true, if_false, hRun,
          Option.map_some]
      · rw [List.findSome?_cons, hIntact]
        exact hFound

/- The contract that ends a queue is broken by one of its
passes. -/
theorem exists_begins_of_broken
    {queue : List Order}
    {passes : List Pass}
    {cause : Violation}
    (h : runQueue? now queue b = some (passes, b'))
    (hBroken :
      passes.findSome? Pass.violation = some cause) :
    ∃ before taker p after,
      Begins now queue b before taker ∧
        before.pass? taker now = some (p, after) ∧
          p.violation = some cause := by
  induction queue, b using Book.runQueue?.induct now
    generalizing passes b' with
  | case1 b =>
      rw [runQueue?] at h
      cases h
      cases hBroken
  | case2 b o rest hPass =>
      rw [runQueue?_cons, hPass] at h
      cases h
  | case3 b o rest p b₁ hPass hHalt =>
      rw [runQueue?_cons, hPass] at h
      simp only [hHalt, if_true] at h
      cases h
      rcases Option.isSome_iff_exists.1 hHalt with
        ⟨cause', hCause⟩
      rw [List.findSome?_cons, hCause] at hBroken
      cases hBroken
      exact ⟨b, o.activate, p, b₁, .first, hPass, hCause⟩
  | case4 b o rest p b₁ hPass hIntact ih =>
      have hNone : p.violation = none := by
        simpa using hIntact
      rw [runQueue?_cons, hPass] at h
      simp only [hNone, Option.isSome_none,
        Bool.false_eq_true, if_false] at h
      rcases Option.map_eq_some_iff.1 h with
        ⟨⟨others, b₂⟩, hRest, hEq⟩
      cases hEq
      rw [List.findSome?_cons, hNone] at hBroken
      rcases ih hRest hBroken with
        ⟨before, taker, p', after, hBegins, hPass', hCause⟩
      exact
        ⟨before, taker, p', after,
          .later hPass hNone hBegins, hPass', hCause⟩

end Book

namespace Cascade

variable {c : Cascade}

/- A cascade is reported on unless one of its passes breaks a
contract. -/
theorem outcome_eq_ok
    (hIntact : c.violation = none) :
    ∃ report, c.outcome = .ok report := by
  have hFirst : c.first.violation = none := by
    unfold violation passes at hIntact
    rw [List.findSome?_cons] at hIntact
    split at hIntact
    · cases hIntact
    · rename_i hNone
      exact hNone
  unfold outcome
  rw [hIntact]
  unfold Pass.violation at hFirst
  cases hEnding : c.first.ending with
  | broken cause =>
      rw [hEnding] at hFirst
      cases hFirst
  | filled => exact ⟨_, rfl⟩
  | rested => exact ⟨_, rfl⟩
  | discarded => exact ⟨_, rfl⟩

theorem outcome_eq_error
    {cause : Violation}
    (hBroken : c.violation = some cause) :
    ∃ cause', c.outcome = .error cause' := by
  unfold outcome
  rw [hBroken]
  split
  · exact ⟨_, rfl⟩
  · exact ⟨_, rfl⟩
  · rename_i hNone
    cases hNone

end Cascade

------------------------------------------------------------
-- Submissions
------------------------------------------------------------

namespace Engine

variable {symbol : String} {log : List Event}
variable {e e' : Engine}
variable {o : Order}
variable {now : Timestamp}

/- Whether the submission of an order comes to a meeting of
two orders. -/
def Meets
    (e : Engine)
    (o : Order)
    (now : Timestamp)
    (met comer : Order) : Prop :=
  ∃ before taker, e.Begins o now before taker ∧
    before.Meets taker now met comer

/- A cascade breaks a contract exactly when two orders meet
that cannot trade. -/
theorem exists_broken_cascade_iff
    (h : Run symbol log e)
    (hIn : e.TakesIn o)
    (hGo : e.mustWait o = false) :
    (∃ c cause, e.book.cascade? o now = some c ∧
      c.violation = some cause) ↔
      ∃ met comer, e.Meets o now met comer ∧
        met.IsStuckWith comer := by
  constructor
  · rintro ⟨c, cause, hCascade, hBroken⟩
    rcases
        Book.exists_begins_of_broken
          (Book.runQueue?_of_cascade? hCascade) hBroken with
      ⟨before, taker, p, after, hBegins, hPass, hCause⟩
    have hAll : e.Begins o now before taker :=
      ⟨hIn, hGo, hBegins⟩
    rcases h.reached_begins hAll with
      ⟨deals, inFlight, hReached⟩
    rcases
        (Book.exists_broken_pass_iff hReached.isRanked).1
          ⟨p, after, cause, hPass, hCause⟩ with
      ⟨met, comer, hMeets, hStuck⟩
    exact ⟨met, comer, ⟨before, taker, hAll, hMeets⟩, hStuck⟩
  · rintro ⟨met, comer, ⟨before, taker, hAll, hMeets⟩, hStuck⟩
    rcases h.reached_begins hAll with
      ⟨deals, inFlight, hReached⟩
    rcases
        (Book.exists_broken_pass_iff hReached.isRanked).2
          ⟨met, comer, hMeets, hStuck⟩ with
      ⟨p, after, cause, hPass, hCause⟩
    rcases hAll.2.2.exists_broken hPass hCause with
      ⟨passes, b', hRun, hFound⟩
    rw [← Book.map_cascade?] at hRun
    rcases Option.map_eq_some_iff.1 hRun with
      ⟨c, hCascade, hEq⟩
    cases hEq
    exact ⟨c, cause, hCascade, hFound⟩

/- A submission that makes two orders meet that cannot trade
is refused for good. -/
theorem isFatal_of_meets
    {met comer : Order}
    (h : Run symbol log e)
    (hMeets : e.Meets o now met comer)
    (hStuck : met.IsStuckWith comer) :
    ∃ r e', e.submit? o now = some (.error r, e') ∧
      r.isFatal := by
  rcases hMeets with ⟨before, taker, hBegins, hMeets⟩
  rcases hBegins with ⟨hIn, hGo, hQueue⟩
  rcases
      (exists_broken_cascade_iff h hIn hGo).2
        ⟨met, comer, ⟨before, taker, ⟨hIn, hGo, hQueue⟩,
          hMeets⟩, hStuck⟩ with
    ⟨c, cause, hCascade, hBroken⟩
  rcases Cascade.outcome_eq_error hBroken with
    ⟨cause', hOutcome⟩
  rw [submit?_of_takesIn now hIn]
  unfold admit? execute?
  dsimp only
  rw [if_neg (by simp [hGo]), hCascade, Option.map_some]
  simp only [hOutcome, breakOff]
  split
  · exact ⟨_, _, rfl, rfl⟩
  · exact ⟨_, _, rfl, rfl⟩

/- An order that must wait is always parked. -/
theorem live_park
    {answer : Except Refusal Report}
    (hLive : e.book.halted = false)
    (hWait : e.mustWait o = true)
    (hPark : e.park o = (answer, e')) :
    e'.book.halted = false ∧
      ∀ r, answer = .error r → r.isFatal = false := by
  have hStop : ∃ price, o.stopPrice = some price := by
    unfold mustWait at hWait
    split at hWait
    · cases hWait
    · rename_i stop hStop
      exact ⟨stop, hStop⟩
  rcases hStop with ⟨price, hStop⟩
  have hKey : Policy.stop.sortPrice o.key = some price :=
    hStop
  rcases e.book.exists_place hKey with ⟨b', hPlace⟩
  unfold park at hPark
  simp only [hPlace] at hPark
  cases hPark
  have hDoor := Book.door_place hPlace
  refine ⟨(congrArg Prod.snd hDoor).trans hLive, ?_⟩
  rintro r ⟨⟩

/- A cascade without a broken contract is reported on. -/
theorem live_execute?
    {answer : Except Refusal Report}
    (hLive : e.book.halted = false)
    (hIntact :
      ∀ c, e.book.cascade? o now = some c →
        c.violation = none)
    (hExecute : e.execute? o now = some (answer, e')) :
    e'.book.halted = false ∧
      ∀ r, answer = .error r → r.isFatal = false := by
  unfold execute? at hExecute
  rcases Option.map_eq_some_iff.1 hExecute with
    ⟨c, hCascade, hOutcome⟩
  rcases Cascade.outcome_eq_ok (hIntact c hCascade) with
    ⟨report, hReport⟩
  simp only [hReport] at hOutcome
  cases hOutcome
  have hDoor :=
    Book.door_runQueue?
      (Book.runQueue?_of_cascade? hCascade)
  refine ⟨(congrArg Prod.snd hDoor).trans hLive, ?_⟩
  rintro r ⟨⟩

/- Any other submission to a live book of the symbol of the
order leaves it live. -/
theorem live_submit?
    {answer : Except Refusal Report}
    (h : Run symbol log e)
    (hLive : e.book.halted = false)
    (hSymbol : o.symbol = e.book.symbol)
    (hSubmit : e.submit? o now = some (answer, e'))
    (hFree :
      ∀ met comer, e.Meets o now met comer →
        ¬ met.IsStuckWith comer) :
    e'.book.halted = false ∧
      ∀ r, answer = .error r → r.isFatal = false := by
  by_cases hIn : e.TakesIn o
  · rw [submit?_of_takesIn now hIn] at hSubmit
    unfold admit? at hSubmit
    dsimp only at hSubmit
    cases hWait : e.mustWait o with
    | true =>
        rw [if_pos hWait] at hSubmit
        exact
          live_park (e := { e with
            processed := e.processed + 1 }) hLive hWait
            (Option.some.inj hSubmit)
    | false =>
        rw [if_neg (by simp [hWait])] at hSubmit
        apply live_execute? (e := { e with
          processed := e.processed + 1 }) hLive ?_ hSubmit
        intro c hCascade
        apply Option.eq_none_iff_forall_ne_some.2
        intro cause hBroken
        rcases
            (exists_broken_cascade_iff h hIn hWait).1
              ⟨c, cause, hCascade, hBroken⟩ with
          ⟨met, comer, hMeets, hStuck⟩
        exact hFree met comer hMeets hStuck
  · rcases submit?_of_not_takesIn hIn hSubmit with
      ⟨rfl, hHalted | rfl⟩ | ⟨hOther, _⟩
    · rw [hLive] at hHalted
      cases hHalted
    · refine ⟨hLive, ?_⟩
      rintro r ⟨⟩
      rfl
    · exact absurd hSymbol hOther

/- The price of an order that is met has passed intake. -/
theorem Meets.price_pos
    {met comer : Order}
    (hMeets : e.Meets o now met comer)
    (h : Run symbol log e)
    (hSound : ∀ o ∈ entries log, o.defect? = none)
    (hOrder : o.defect? = none)
    {p : Decimal}
    (hPrice : met.price = some p) :
    0 < p := by
  rcases hMeets with ⟨before, taker, hBegins, hMeets⟩
  rcases h.reached_begins hBegins with
    ⟨deals, inFlight, hReached⟩
  rcases hMeets.exists_maker with ⟨maker, hMaker, hSame⟩
  rw [hSame] at hPrice
  apply hReached.present.price_pos ?_ ?_ hPrice
  · intro o' ho'
    rw [entries_submission] at ho'
    rcases List.mem_append.1 ho' with hOld | hNew
    · exact hSound o' hOld
    · rw [List.mem_singleton.1 hNew]
      exact hOrder
  · have hMem :
        maker.item ∈
          before.orders taker.side.opposite .price :=
      List.mem_map_of_mem hMaker
    apply List.mem_append_left
    exact Book.mem_allOrders_of_mem_orders hMem

end Engine

end Matchbook
