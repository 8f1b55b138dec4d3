import Matchbook.Proofs.Book.Without
import Matchbook.Proofs.Engine.Arrival
import Matchbook.Proofs.Engine.Told

/-
  Bystanders: orders that take no part in what happens while
  they are in the book.  A run with such an order and the run
  without it have the same answers to all other calls, and
  when the order is cancelled their books are the same.

  Key definitions include:
    * `Pass.LeavesAlone`
    * `Reply.LeavesAlone`
    * `Engine.without`

  The main statements are:
    * `Matching.Runs.without`
    * `Book.pass?_without`
    * `Book.runQueue?_without`
    * `Engine.submit?_without`
    * `Engine.replies?_without`
    * `Engine.exists_answers_without`
-/

------------------------------------------------------------
-- Matchings
------------------------------------------------------------

namespace Matchbook

namespace Matching

variable {now : Timestamp} {id x : UInt64}
variable {makers : List (Entry Order)}
variable {taker : Order}
variable {m : Matching}

/- A course is the one that the matching computes. -/
theorem Runs.run?_eq
    (h : Runs now id makers taker m) :
    run? now id makers taker = some m := by
  induction h with
  | filled hFilled => exact run?_of_isFilled hFilled
  | empty hOpen => rw [run?, if_neg hOpen]
  | apart hOpen hApart =>
      rw [run?_cons hOpen,
        Order.meet?_eq_apart_iff.2 hApart]
  | broken hOpen hMeet => rw [run?_cons hOpen, hMeet]
  | traded hOpen hMeet _ ih =>
      rw [run?_cons hOpen, hMeet]
      dsimp only
      rw [ih]
      rfl

/- What is left of the makers after a trade with another
one. -/
theorem filter_remaining
    {key : RankedKey}
    {maker : Order}
    (hOther : maker.id ≠ x)
    (rest : List (Entry Order)) :
    (remaining key maker rest).filter (Entry.isOther x) =
      remaining key maker
        (rest.filter (Entry.isOther x)) := by
  have hKept : Entry.isOther x ⟨key, maker⟩ = true :=
    bne_iff_ne.2 hOther
  unfold remaining
  split
  · rfl
  · rw [List.filter_cons_of_pos hKept]

/-
  A matching that leaves a maker alone is the same without
  that maker.  If the maker is the one that the taker stops
  at, the taker is apart from all others, too.
-/
theorem Runs.without
    {side : Side}
    (h : Runs now id makers taker m)
    (hRanked : RankedEntries side .price makers)
    (hIntact : m.violation = none)
    (hMakers : ∀ d ∈ m.deals, d.trade.makerOrderId ≠ x) :
    Runs now id (makers.filter (Entry.isOther x)) taker
      (m.without x) := by
  induction h with
  | filled hFilled => exact .filled hFilled
  | empty hOpen => exact .empty hOpen
  | broken => cases hIntact
  | @apart id e rest taker hOpen hApart =>
      have hAll := hRanked.isApartFrom_of_head hApart
      unfold Matching.without
      dsimp only
      cases hLeft :
          (e :: rest).filter (Entry.isOther x) with
      | nil => exact .empty hOpen
      | cons e' rest' =>
          have hMem :
              e' ∈ (e :: rest).filter (Entry.isOther x) :=
            hLeft ▸ List.mem_cons_self
          exact
            .apart hOpen (hAll e' (List.mem_filter.1 hMem).1)
  | @traded id e rest taker d m hOpen hMeet hRest ih =>
      have hStruck := (Deal.isStruck_of_meet? hMeet).1
      rcases List.forall_mem_cons.1 hMakers with
        ⟨hFirst, hLater⟩
      rw [hStruck.makerOrderId_eq] at hFirst
      have hNext :=
        ih (hStruck.rankedEntries_remaining hRanked) hIntact
          hLater
      have hMaker : Entry.isOther x e = true :=
        bne_iff_ne.2 hFirst
      have hSame : d.maker.id = e.item.id := by
        rw [hStruck.maker_with_filled]
      rw [filter_remaining (hSame.trans_ne hFirst)] at hNext
      rw [List.filter_cons_of_pos hMaker]
      exact .traded hOpen hMeet hNext

end Matching

------------------------------------------------------------
-- Passes
------------------------------------------------------------

/- Whether a pass ends well and the order with an id is
neither the taker nor a maker in it. -/
structure Pass.LeavesAlone
    (p : Pass)
    (x : UInt64) : Prop where
  intact : p.violation = none
  taker_ne : p.taker.id ≠ x
  maker_ne : ∀ d ∈ p.deals, d.trade.makerOrderId ≠ x

namespace Book

open Floor

variable {b b' : Book}
variable {x : UInt64}
variable {now : Timestamp}
variable {taker : Order}
variable {queue : List Order}

/- A pass that leaves an order alone is the same without
it. -/
theorem pass?_without
    {p : Pass}
    (hOrderly : IsOrderly ⟨b, taker :: queue⟩)
    (hPass : b.pass? taker now = some (p, b'))
    (hAlone : p.LeavesAlone x) :
    (b.without x).pass? taker now =
      some (p, b'.without x) := by
  unfold pass? at hPass
  rcases Option.bind_eq_some_iff.1 hPass with
    ⟨m, hRun, hEnd⟩
  have hRuns := Matching.runs_of_run? hRun
  dsimp only at hEnd
  split at hEnd
  · rename_i cause _
    cases hEnd
    cases hAlone.intact
  · rename_i hIntact
    rcases Option.map_eq_some_iff.1 hEnd with
      ⟨⟨ending, b''⟩, hFinish, hEq⟩
    cases hEq
    have hMatched := hOrderly.matching hRuns rfl rfl
    have hWithout :=
      (hRuns.without (hOrderly.isRanked _ .price) hIntact
        hAlone.maker_ne).run?_eq
    have hFinish' :=
      finish?_without hMatched.isRanked hMatched.fresh
        hAlone.taker_ne
    unfold pass?
    dsimp only
    rw [ladder_without, Ladder.byPriority_without]
    change
      (Matching.run? now b.nextTradeId _ taker).bind _ = _
    rw [hWithout, Option.bind_some, settle_without]
    dsimp only [Matching.without]
    rw [hIntact]
    dsimp only
    rw [hFinish', hFinish]
    rfl

/- Every order of a queue that is executed to its end has its
pass. -/
theorem exists_pass_of_mem_queue
    {passes : List Pass}
    {o : Order}
    (hRun : runQueue? now queue b = some (passes, b'))
    (hIntact : ∀ p ∈ passes, p.violation = none)
    (ho : o ∈ queue) :
    ∃ p ∈ passes, p.taker.id = o.id := by
  have hNone : passes.findSome? Pass.violation = none :=
    List.findSome?_eq_none_iff.2 hIntact
  rcases exists_course_of_runQueue? hRun hNone with
    ⟨stages, hCourse, rfl⟩
  have hMem : o.id ∈ stages.map Stage.takerId := by
    rw [hCourse.ids_eq]
    exact List.mem_append_left _ (List.mem_map_of_mem ho)
  rcases List.mem_map.1 hMem with ⟨s, hs, hId⟩
  exact ⟨s.pass, List.mem_map_of_mem hs, hId⟩

/-
  A queue whose passes leave an order alone is executed the
  same without it.  By induction on the execution; what a pass
  releases has a pass of its own, so the order is not among
  it.
-/
theorem runQueue?_without
    {passes : List Pass}
    (hOrderly : IsOrderly ⟨b, queue⟩)
    (hRun : runQueue? now queue b = some (passes, b'))
    (hAlone : ∀ p ∈ passes, p.LeavesAlone x) :
    runQueue? now queue (b.without x) =
      some (passes, b'.without x) := by
  induction queue, b using Book.runQueue?.induct now
    generalizing passes b' with
  | case1 b =>
      rw [runQueue?] at hRun
      cases hRun
      rw [runQueue?]
  | case2 b o rest hPass =>
      rw [runQueue?_cons, hPass] at hRun
      cases hRun
  | case3 b o rest p b₁ hPass hBroken =>
      rw [runQueue?_cons, hPass] at hRun
      simp only [hBroken, if_true] at hRun
      cases hRun
      have hIntact :=
        (hAlone p List.mem_cons_self).intact
      rw [hIntact] at hBroken
      cases hBroken
  | case4 b o rest p b₁ hPass hIntact ih =>
      rw [runQueue?_cons, hPass] at hRun
      simp only [hIntact, Bool.false_eq_true, if_false]
        at hRun
      rcases Option.map_eq_some_iff.1 hRun with
        ⟨⟨others, b₂⟩, hRest, hEq⟩
      cases hEq
      rcases List.forall_mem_cons.1 hAlone with
        ⟨hFirst, hLater⟩
      have hAfter := hOrderly.activate.pass? hPass
      have hSpared :
          x ∉ (b₁.releaseAfter p).1.map Order.id := by
        intro hMem
        rcases List.mem_map.1 hMem with ⟨w, hw, rfl⟩
        rcases
            exists_pass_of_mem_queue hRest
              (fun p hp => (hLater p hp).intact)
              (List.mem_append_right _ hw) with
          ⟨p', hp', hId⟩
        exact (hLater p' hp').taker_ne hId
      rw [runQueue?_cons,
        pass?_without hOrderly.activate hPass hFirst]
      simp only [hIntact, Bool.false_eq_true, if_false,
        releaseAfter_without hAfter.isRanked hSpared,
        ih (hAfter.releaseAfter p) hRest hLater]
      rfl

/- So is a cascade. -/
theorem cascade?_without
    {c : Cascade}
    {o : Order}
    (hOrderly : IsOrderly ⟨b, [o]⟩)
    (hCascade : b.cascade? o now = some c)
    (hAlone : ∀ p ∈ c.passes, p.LeavesAlone x) :
    (b.without x).cascade? o now =
      some { c with book := c.book.without x } := by
  have hQueue :=
    runQueue?_without hOrderly
      (runQueue?_of_cascade? hCascade) hAlone
  rw [← map_cascade?] at hQueue
  rcases Option.map_eq_some_iff.1 hQueue with
    ⟨⟨first, others, book⟩, hSame, hEq⟩
  rw [hSame]
  unfold Cascade.passes at hEq
  simp only [Prod.mk.injEq, List.cons.injEq] at hEq
  rcases hEq with ⟨⟨rfl, rfl⟩, rfl⟩
  rfl

end Book

------------------------------------------------------------
-- Calls
------------------------------------------------------------

namespace Reply

/- The trades that an answer tells of. -/
def trades : Reply → List Trade
  | .submitted answer => Engine.toldTrades answer
  | _ => []

/- The ids of the orders that an answer tells were
released. -/
def triggered : Reply → List UInt64
  | .submitted (.ok r) => r.triggered
  | _ => []

/- Whether an answer tells neither of a trade with the order
of an id as its maker nor that the order was released. -/
def LeavesAlone (x : UInt64) (reply : Reply) : Prop :=
  (∀ t ∈ reply.trades, t.makerOrderId ≠ x) ∧
    x ∉ reply.triggered

instance (x : UInt64) (reply : Reply) :
    Decidable (reply.LeavesAlone x) :=
  inferInstanceAs (Decidable (_ ∧ _))

end Reply

/- The submitted order is the first one that is executed. -/
theorem Cascade.first_taker_id
    {b : Book}
    {o : Order}
    {now : Timestamp}
    {c : Cascade}
    (hCascade : b.cascade? o now = some c) :
    c.first.taker.id = o.id := by
  unfold Book.cascade? at hCascade
  rcases Option.bind_eq_some_iff.1 hCascade with
    ⟨⟨p, b'⟩, hPass, hRest⟩
  have hId := Stage.takerId_eq (s := ⟨b, p, b'⟩) hPass
  dsimp only at hRest
  split at hRest
  · cases hRest
    exact hId
  · rcases Option.map_eq_some_iff.1 hRest with
      ⟨⟨others, b''⟩, _, hEq⟩
    cases hEq
    exact hId

/- If a report tells of no part of an order in a cascade, then
no pass of it takes or makes with the order. -/
theorem Cascade.leavesAlone_of_outcome
    {b : Book}
    {o : Order}
    {now : Timestamp}
    {c : Cascade}
    {r : Report}
    {x : UInt64}
    (hCascade : b.cascade? o now = some c)
    (hOutcome : c.outcome = .ok r)
    (hOther : o.id ≠ x)
    (hAlone : (Reply.submitted (.ok r)).LeavesAlone x) :
    ∀ p ∈ c.passes, p.LeavesAlone x := by
  rcases Cascade.outcome_eq_ok_iff.1 hOutcome with
    ⟨hIntact, disposition, _, rfl⟩
  rcases hAlone with ⟨hMakers, hTriggered⟩
  have hFirst := Cascade.first_taker_id hCascade
  intro p hp
  constructor
  case intact =>
    exact List.findSome?_eq_none_iff.1 hIntact p hp
  case taker_ne =>
    rcases List.mem_cons.1 hp with rfl | hLater
    · rwa [hFirst]
    · rintro rfl
      exact hTriggered (List.mem_map_of_mem hLater)
  case maker_ne =>
    intro d hd
    apply hMakers
    exact
      List.mem_flatMap_of_mem hp (List.mem_map_of_mem hd)

namespace Engine

open Floor

variable {e e' : Engine}
variable {o : Order} {x id : UInt64}
variable {now : Timestamp}
variable {answer : Except Refusal Report}

/- The engine whose book is without the order with an id. -/
def without (e : Engine) (x : UInt64) : Engine :=
  { e with book := e.book.without x }

theorem book_without
    (e : Engine)
    (x : UInt64) :
    (e.without x).book = e.book.without x :=
  rfl

/- An order is parked as if the other one were not there. -/
theorem park_without
    (hRanked : e.book.IsRanked)
    (hFresh : o.id ∉ e.book.allOrders.map Order.id)
    (hOther : o.id ≠ x)
    (hPark : e.park o = (answer, e'))
    (hLive : e'.book.halted = false) :
    (e.without x).park o = (answer, e'.without x) := by
  have hWithout :
      (e.without x).book.place .stop o =
        (e.book.place .stop o).map (·.without x) :=
    Book.place_without hRanked hFresh hOther
  unfold park at hPark ⊢
  rw [hWithout]
  cases hPlace : e.book.place .stop o with
  | error v =>
      rw [hPlace] at hPark
      cases hPark
      cases hLive
  | ok b =>
      rw [hPlace] at hPark
      cases hPark
      rfl

/- An order is executed as if the other one were not there, if
that takes no part in it. -/
theorem execute?_without
    (hOrderly : IsOrderly ⟨e.book, [o]⟩)
    (hOther : o.id ≠ x)
    (hExecute : e.execute? o now = some (answer, e'))
    (hLive : e'.book.halted = false)
    (hAlone : (Reply.submitted answer).LeavesAlone x) :
    (e.without x).execute? o now =
      some (answer, e'.without x) := by
  unfold execute? at hExecute
  rcases Option.map_eq_some_iff.1 hExecute with
    ⟨c, hCascade, hEnd⟩
  dsimp only at hEnd
  split at hEnd
  · rename_i r hOutcome
    cases hEnd
    have hWithout :
        (e.without x).book.cascade? o now =
          some { c with book := c.book.without x } :=
      Book.cascade?_without hOrderly hCascade
        (Cascade.leavesAlone_of_outcome hCascade hOutcome
          hOther hAlone)
    have hSame :
        ({ c with book := c.book.without x } :
            Cascade).outcome = .ok r :=
      hOutcome
    unfold execute?
    rw [hWithout, Option.map_some]
    dsimp only
    rw [hSame]
    rfl
  · cases hEnd
    cases hLive

/- An order that is taken in is parked or executed. -/
theorem admit?_without
    (hOrderly : IsOrderly ⟨e.book, []⟩)
    (hIn : e.TakesIn o)
    (hOther : o.id ≠ x)
    (hAdmit : e.admit? o now = some (answer, e'))
    (hLive : e'.book.halted = false)
    (hAlone : (Reply.submitted answer).LeavesAlone x) :
    (e.without x).admit? o now =
      some (answer, e'.without x) := by
  have hEnter := hOrderly.enter hIn.2.1 hIn.2.2
  have hWait :
      (e.without x).mustWait o = e.mustWait o :=
    rfl
  let counted : Engine :=
    { e with
      processed := e.processed + 1 }
  unfold admit? at hAdmit ⊢
  rw [hWait]
  dsimp only at hAdmit ⊢
  split at hAdmit
  · rename_i hPark
    have hParked : counted.park o = (answer, e') :=
      Option.some.inj hAdmit
    have hWithout :=
      park_without (e := counted) hOrderly.isRanked
        hEnter.fresh hOther hParked hLive
    rw [if_pos hPark]
    exact congrArg some hWithout
  · rename_i hGo
    rw [if_neg hGo]
    exact
      execute?_without (e := counted) hEnter hOther hAdmit
        hLive hAlone

/- An order is submitted as if the other one were not there:
it gets past the door or is refused there for the same
reason. -/
theorem submit?_without
    (hOrderly : IsOrderly ⟨e.book, []⟩)
    (hOther : o.id ≠ x)
    (hSubmit : e.submit? o now = some (answer, e'))
    (hLive : e'.book.halted = false)
    (hAlone : (Reply.submitted answer).LeavesAlone x) :
    (e.without x).submit? o now =
      some (answer, e'.without x) := by
  have hDoor :
      (e.without x).book.halted = e.book.halted ∧
        (e.without x).book.symbol = e.book.symbol :=
    ⟨rfl, rfl⟩
  have hHeld :
      (e.without x).book.contains o.id =
        e.book.contains o.id :=
    e.book.contains_without hOther
  unfold submit? at hSubmit ⊢
  rw [hDoor.1, hDoor.2, hHeld]
  split at hSubmit
  · rename_i hHalted
    cases hSubmit
    rw [if_pos hHalted]
  rename_i hOpen
  split at hSubmit
  · cases hSubmit
    cases hLive
  rename_i hSymbol
  split at hSubmit
  · rename_i hDuplicate
    cases hSubmit
    rw [if_neg hOpen, if_neg hSymbol, if_pos hDuplicate]
  · rename_i hNew
    have hIn : e.TakesIn o :=
      ⟨by simpa using hOpen, Decidable.of_not_not hSymbol,
        by simpa using hNew⟩
    rw [if_neg hOpen, if_neg hSymbol, if_neg hNew]
    exact
      admit?_without hOrderly hIn hOther hSubmit hLive hAlone

/- So are orders placed, removed and cancelled. -/
theorem place_without
    (hRanked : e.book.IsRanked)
    (policy : Policy)
    (hOther : o.id ≠ x) :
    (e.without x).place policy o =
      (e.place policy o).without x := by
  unfold place
  rw [book_without, Book.insert_without hRanked hOther]
  cases e.book.insert policy o <;> rfl

theorem remove_without
    (hOrderly : IsOrderly ⟨e.book, []⟩)
    (hOther : id ≠ x) :
    (e.without x).remove id = (e.remove id).without x := by
  unfold remove
  rw [book_without, Book.cancel?_without hOrderly hOther]
  cases e.book.cancel? id <;> rfl

theorem cancel_without
    (hOrderly : IsOrderly ⟨e.book, []⟩)
    (hOther : id ≠ x) :
    (e.without x).cancel id =
      ((e.cancel id).1, (e.cancel id).2.without x) := by
  have hDoor :
      (e.book.without x).halted = e.book.halted :=
    rfl
  unfold cancel
  rw [book_without, hDoor,
    Book.cancel?_without hOrderly hOther]
  split
  · rfl
  · cases e.book.cancel? id <;> rfl

/- Every call about another order is answered as if the one
were not there. -/
theorem reply?_without
    {call : Call}
    {reply : Reply}
    (hOrderly : IsOrderly ⟨e.book, []⟩)
    (hOther : call.orderId ≠ x)
    (hReply : e.reply? call = some (reply, e'))
    (hLive : e'.book.halted = false)
    (hAlone : reply.LeavesAlone x) :
    (e.without x).reply? call =
      some (reply, e'.without x) := by
  cases call with
  | place policy o =>
      have hRanked := hOrderly.isRanked
      cases hReply
      unfold reply?
      dsimp only
      rw [place_without hRanked policy hOther, book_without,
        Book.insert_without hRanked hOther]
      cases e.book.insert policy o <;> rfl
  | remove id =>
      change id ≠ x at hOther
      cases hReply
      unfold reply?
      dsimp only
      rw [remove_without hOrderly hOther, book_without,
        Book.cancel?_without hOrderly hOther, Option.map_map]
      rfl
  | submit o now =>
      rcases Option.map_eq_some_iff.1 hReply with
        ⟨⟨answer, e₁⟩, hSubmit, hEq⟩
      cases hEq
      have hSame :=
        submit?_without hOrderly hOther hSubmit hLive hAlone
      exact Option.map_eq_some_iff.2 ⟨_, hSame, rfl⟩
  | cancel id =>
      change id ≠ x at hOther
      cases hReply
      unfold reply?
      dsimp only
      rw [cancel_without hOrderly hOther]

/-
  So are many calls, one after the other.  By induction on the
  calls; a book that is not halted at the end was so never.
-/
theorem replies?_without
    {calls : List Call}
    {replies : List Reply}
    (hOrderly : IsOrderly ⟨e.book, []⟩)
    (hOthers : ∀ call ∈ calls, call.orderId ≠ x)
    (hReplies : e.replies? calls = some (replies, e'))
    (hLive : e'.book.halted = false)
    (hAlone : ∀ reply ∈ replies, reply.LeavesAlone x) :
    (e.without x).replies? calls =
      some (replies, e'.without x) := by
  induction calls generalizing e replies with
  | nil =>
      cases hReplies
      rfl
  | cons call calls ih =>
      rcases replies?_cons_eq_some hReplies with
        ⟨reply, e₁, later, hReply, hLater, rfl⟩
      rcases List.forall_mem_cons.1 hOthers with
        ⟨hOther, hRest⟩
      rcases List.forall_mem_cons.1 hAlone with
        ⟨hFirst, hLast⟩
      have hLiveFirst : e₁.book.halted = false := by
        rw [← Bool.not_eq_true]
        intro hHalted
        rw [halted_of_replies? hHalted hLater] at hLive
        cases hLive
      rw [replies?,
        reply?_without hOrderly hOther hReply hLiveFirst
          hFirst,
        Option.bind_some]
      dsimp only
      rw [ih (isOrderly_reply? hOrderly hReply) hRest hLater
        hLast]
      rfl

------------------------------------------------------------
-- Runs
------------------------------------------------------------

variable {e₁ e₂ e₃ e₄ : Engine}

/- An order that has joined a book without a trade has not
changed the rest of it. -/
theorem book_without_of_submit?
    {r : Report}
    (hOrderly : IsOrderly ⟨e.book, []⟩)
    (hSubmit : e.submit? o now = some (.ok r, e'))
    (hQuiet : r.IsQuiet) :
    (e'.without o.id).book = e.book := by
  rcases
      exists_joins_of_submit? hOrderly.isRanked hSubmit hQuiet
      with
    ⟨hIn, b, ⟨policy, kept, hSuits, hPlace⟩, _, rfl⟩
  have hFresh : kept.id ∉ e.book.allOrders.map Order.id := by
    rw [hSuits.id_eq]
    exact hIn.fresh
  rw [← hSuits.id_eq]
  exact
    Book.without_of_place hOrderly.isRanked hFresh hPlace

/- A cancelled order is all that leaves the book. -/
theorem book_of_cancel
    {gone : Order}
    (hOrderly : IsOrderly ⟨e.book, []⟩)
    (hCancel : e.cancel id = (.ok (some gone), e')) :
    e.book.halted = false ∧
      e'.book = (e.without id).book := by
  unfold cancel at hCancel
  split at hCancel
  · cases hCancel
  rename_i hLive
  refine ⟨by simpa using hLive, ?_⟩
  rw [Book.cancel?_eq_without hOrderly] at hCancel
  cases hHeld : e.book.get? id with
  | none =>
      rw [hHeld] at hCancel
      cases hCancel
  | some held =>
      rw [hHeld] at hCancel
      cases hCancel
      rfl

/-
  An order that comes to rest or to wait without a trade, and
  is cancelled before it makes a trade or is released, leaves
  no trace.  Without both calls all others are answered the
  same, before, between and after them, and the book is the
  same in the end: its four ladders, the last price and the
  next trade id.  So is the root, which comes from the book.
-/
theorem exists_answers_without
    {symbol : String}
    {before pre mid : List Call}
    {early middle : List Reply}
    {r : Report}
    {gone : Order}
    (hReach : (new symbol).run? before = some e)
    (hEarly : e.replies? pre = some (early, e₁))
    (hSubmit : e₁.submit? o now = some (.ok r, e₂))
    (hQuiet : r.IsQuiet)
    (hMiddle : e₂.replies? mid = some (middle, e₃))
    (hOthers : ∀ call ∈ mid, call.orderId ≠ o.id)
    (hAlone : ∀ reply ∈ middle, reply.LeavesAlone o.id)
    (hCancel : e₃.cancel o.id = (.ok (some gone), e₄))
    (post : List Call) :
    ∃ ends : Option (List Reply × Book),
      e.answers?
          (pre ++ .submit o now ::
            (mid ++ .cancel o.id :: post)) =
        ends.map (fun (late, b) =>
          (early ++ .submitted (.ok r) ::
            (middle ++ .cancelled (.ok (some gone)) :: late),
            b)) ∧
      e.answers? (pre ++ (mid ++ post)) =
        ends.map (fun (late, b) =>
          (early ++ (middle ++ late), b)) := by
  have hOrderly := isOrderly_replies? (isOrderly_run? hReach)
    hEarly
  have hOrderly₂ := isOrderly_submit? hOrderly hSubmit
  have hOrderly₃ := isOrderly_replies? hOrderly₂ hMiddle
  rcases book_of_cancel hOrderly₃ hCancel with
    ⟨hLive, hEnd⟩
  have hStart :=
    book_without_of_submit? hOrderly hSubmit hQuiet
  have hBetween :=
    replies?_without hOrderly₂ hOthers hMiddle hLive hAlone
  have hArrives :
      e₁.replies? [.submit o now] =
        some ([.submitted (.ok r)], e₂) := by
    simp [replies?, reply?, hSubmit]
  have hLeaves :
      e₃.replies? [.cancel o.id] =
        some ([.cancelled (.ok (some gone))], e₄) := by
    simp [replies?, reply?, hCancel]
  refine ⟨e₄.answers? post, ?_, ?_⟩
  · have hLast := answers?_append hLeaves post
    have hThird :=
      answers?_append hMiddle (.cancel o.id :: post)
    have hSecond :=
      answers?_append hArrives
        (mid ++ .cancel o.id :: post)
    have hFirst :=
      answers?_append hEarly
        (.submit o now :: (mid ++ .cancel o.id :: post))
    simp only [List.singleton_append] at hLast hSecond
    rw [hFirst, hSecond, hThird, hLast]
    simp only [Option.map_map]
    rfl
  · have hThird := answers?_append hBetween post
    have hFirst := answers?_append hEarly (mid ++ post)
    rw [hFirst, answers?_congr hStart.symm, hThird,
      answers?_congr hEnd.symm, Option.map_map]
    rfl

/- A buyer who bids more than all others. -/
def idler : Order :=
  .ordinary 5 .buy (some (.ofParts 101 0)) (.ofParts 1 0)

/- It comes to rest in full. -/
def idlerReport : Report :=
  joinReport idler (.rested (.ofParts 1 0))

/- An order that waits for 103. -/
def waitingCalls : List Call :=
  submissions
    [(.ordinaryStop 4 .buy (.ofParts 103 0) (.ofParts 1 0),
      .ofNanos 0)]

/- A seller who asks for more than the idler bids, the same
once more, a buyer who takes all that is offered up to 105 and
so releases the waiting order, and a cancel that comes too
late. -/
def busyCalls : List Call :=
  submissions
      [(.ordinary 6 .sell (some (.ofParts 102 0))
          (.ofParts 1 0), .ofNanos 1),
        (.ordinary 6 .sell (some (.ofParts 102 0))
          (.ofParts 1 0), .ofNanos 2),
        (.ordinary 7 .buy (some (.ofParts 105 0))
          (.ofParts 2 0), .ofNanos 3)] ++
    [.cancel 3]

/- A seller whose offer the idler would have taken. -/
def lateCalls : List Call :=
  submissions
    [(.ordinary 8 .sell (some (.ofParts 100 0))
      (.ofParts 1 0), .ofNanos 4)]

/- The idler leaves no trace. -/
theorem exists_answers_without_of_idler :
    ∃ e e₁ e₂ e₃ e₄ early middle,
      (new "BTC-USDT").run? tradedCalls = some e ∧
      e.replies? waitingCalls = some (early, e₁) ∧
      e₁.submit? idler (.ofNanos 0) =
        some (.ok idlerReport, e₂) ∧
      e₂.replies? busyCalls = some (middle, e₃) ∧
      middle.flatMap Reply.triggered = [4] ∧
      (∀ reply ∈ middle, reply.LeavesAlone idler.id) ∧
      e₃.cancel idler.id = (.ok (some idler), e₄) ∧
      ∃ ends : Option (List Reply × Book),
        e.answers?
            (waitingCalls ++ .submit idler (.ofNanos 0) ::
              (busyCalls ++ .cancel idler.id :: lateCalls)) =
          ends.map (fun (late, b) =>
            (early ++ .submitted (.ok idlerReport) ::
              (middle ++
                .cancelled (.ok (some idler)) :: late),
              b)) ∧
        e.answers?
            (waitingCalls ++ (busyCalls ++ lateCalls)) =
          ends.map (fun (late, b) =>
            (early ++ (middle ++ late), b)) := by
  have hSeen :
      ((new "BTC-USDT").run? tradedCalls).any (fun e =>
        (e.replies? waitingCalls).any fun x =>
          (x.2.submit? idler (.ofNanos 0)).any fun y =>
            decide (y.1 = .ok idlerReport) &&
              (y.2.replies? busyCalls).any fun z =>
                decide
                  (z.1.flatMap Reply.triggered = [4] ∧
                    (∀ reply ∈ z.1,
                      reply.LeavesAlone idler.id) ∧
                    (z.2.cancel idler.id).1 =
                      .ok (some idler))) := by
    decide +kernel
  rcases (Option.any_eq_true _ _).1 hSeen with
    ⟨e, hReach, hSeen⟩
  rcases (Option.any_eq_true _ _).1 hSeen with
    ⟨⟨early, e₁⟩, hEarly, hSeen⟩
  rcases (Option.any_eq_true _ _).1 hSeen with
    ⟨⟨answer, e₂⟩, hSubmit, hSeen⟩
  rcases Bool.and_eq_true_iff.1 hSeen with
    ⟨hAnswer, hSeen⟩
  cases of_decide_eq_true hAnswer
  rcases (Option.any_eq_true _ _).1 hSeen with
    ⟨⟨middle, e₃⟩, hMiddle, hSeen⟩
  rcases of_decide_eq_true hSeen with
    ⟨hReleased, hAlone, hGone⟩
  have hCancel :
      e₃.cancel idler.id =
        (.ok (some idler), (e₃.cancel idler.id).2) :=
    Prod.ext hGone rfl
  exact
    ⟨e, e₁, e₂, e₃, _, early, middle, hReach, hEarly,
      hSubmit, hMiddle, hReleased, hAlone, hCancel,
      exists_answers_without hReach hEarly hSubmit
        (by decide) hMiddle (by decide) hAlone hCancel
        lateCalls⟩

end Engine

end Matchbook
