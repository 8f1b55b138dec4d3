import Matchbook.Proofs.Book.Waiting
import Matchbook.Proofs.Engine.Present

/-
  The course of a cascade that meets no broken contract: its
  passes, each with the book before and after it, and the
  waiting orders that it releases.

  Key definitions include:
    * `Stage`
    * `Book.Course`
    * `Engine.Succeeds`

  The main statements are:
    * `Book.exists_course_of_runQueue?`
    * `Book.Course.ids_eq`
    * `Engine.exists_succeeds`
-/

------------------------------------------------------------
-- Passes
------------------------------------------------------------

namespace Matchbook

namespace Book

variable {b b' : Book}
variable {taker : Order}
variable {now : Timestamp}
variable {p : Pass}

theorem Finishes.waiting_eq
    {ending : Ending}
    (h : b.Finishes taker ending b') :
    b'.waiting = b.waiting := by
  cases h with
  | filled => rfl
  | discarded => rfl
  | rested _ _ hPlace => exact waiting_place_price hPlace
  | broken => rfl

/- The same orders wait at every moment of a pass. -/
theorem Passes.waiting_eq
    (h : b.Passes now taker p b') :
    b'.waiting = b.waiting := by
  cases h with
  | broken => exact waiting_settle b _ _
  | finished _ _ hFinish =>
      exact hFinish.waiting_eq.trans (waiting_settle b _ _)

theorem lastPrice_withLadder
    {side : Side}
    {policy : Policy}
    (b : Book)
    (l : Ladder side policy Order) :
    (b.withLadder l).lastPrice = b.lastPrice := by
  cases side <;> cases policy <;> rfl

theorem lastPrice_settle
    (b : Book)
    (side : Side)
    (m : Matching) :
    (b.settle side m).lastPrice =
      (m.trades.getLast?.map Trade.price).or
        b.lastPrice := by
  unfold settle
  dsimp only
  cases m.trades.getLast? with
  | none => exact lastPrice_withLadder b _
  | some t => rfl

theorem lastPrice_place
    {policy : Policy}
    (h : b.place policy taker = .ok b') :
    b'.lastPrice = b.lastPrice := by
  rcases place_eq_ok h with ⟨l, _, rfl⟩
  exact lastPrice_withLadder b l

theorem lastPrice_release (b : Book) :
    b.release.2.lastPrice = b.lastPrice := by
  unfold release
  split <;> rfl

theorem Finishes.lastPrice_eq
    {ending : Ending}
    (h : b.Finishes taker ending b') :
    b'.lastPrice = b.lastPrice := by
  cases h with
  | filled => rfl
  | discarded => rfl
  | rested _ _ hPlace => exact lastPrice_place hPlace
  | broken => rfl

/- The last price is that of the last trade. -/
theorem Passes.lastPrice_eq
    (h : b.Passes now taker p b') :
    b'.lastPrice =
      (p.trades.getLast?.map Trade.price).or
        b.lastPrice := by
  cases h with
  | broken => exact lastPrice_settle b _ _
  | finished _ _ hFinish =>
      exact
        hFinish.lastPrice_eq.trans (lastPrice_settle b _ _)

/- Prices get worse for the taker, if they change at all. -/
theorem Passes.prices_sorted
    (h : b.Passes now taker p b')
    (hRanked : b.IsRanked) :
    (p.trades.map Trade.price).Pairwise
      taker.side.opposite.IsNoWorse := by
  cases h with
  | broken hRuns =>
      exact hRuns.prices_sorted (hRanked _ .price)
  | finished hRuns =>
      exact hRuns.prices_sorted (hRanked _ .price)

/- The orders that wait after a pass stay or are released. -/
theorem waiting_releaseAfter_perm
    (b : Book)
    (p : Pass) :
    ((b.releaseAfter p).2.waiting ++
        (b.releaseAfter p).1).Perm b.waiting := by
  unfold releaseAfter
  split
  · simp
  · exact b.waiting_release_perm

theorem Passes.taker_with_filled
    (h : b.Passes now taker p b') :
    p.taker = { taker with filled := p.taker.filled } := by
  cases h with
  | broken hRuns => exact hRuns.taker_with_filled
  | finished hRuns => exact hRuns.taker_with_filled

end Book

------------------------------------------------------------
-- Ids
------------------------------------------------------------

/- Of orders without repeated ids each one is in exactly one
of two parts. -/
theorem Order.mem_left_iff
    {os left right : List Order}
    {id : UInt64}
    (hParts :
      ((left ++ right).map Order.id).Perm
        (os.map Order.id))
    (hNodup : (os.map Order.id).Nodup)
    (hId : id ∈ os.map Order.id) :
    id ∈ left.map Order.id ↔ id ∉ right.map Order.id := by
  have hUnique := hParts.nodup_iff.2 hNodup
  have hMem := hParts.mem_iff.2 hId
  rw [List.map_append] at hUnique hMem
  have hDisjoint := List.disjoint_of_nodup_append hUnique
  constructor
  · intro hLeft hRight
    exact hDisjoint hLeft hRight
  · intro hNot
    exact (List.mem_append.1 hMem).resolve_right hNot

/- The ids of the waiting orders of a floor are all
different. -/
theorem Floor.Reached.nodup_waiting
    {symbol : String}
    {log : List Event}
    {b : Book}
    {queue : List Order}
    (h : Reached symbol log ⟨b, queue⟩) :
    (b.waiting.map Order.id).Nodup := by
  have hNodup := h.present.nodup
  unfold orders at hNodup
  rw [Book.allOrders_eq_append, List.append_assoc] at hNodup
  refine hNodup.sublist (List.Sublist.map _ ?_)
  exact
    (List.sublist_append_left _ _).trans
      (List.sublist_append_right _ _)

------------------------------------------------------------
-- Stages
------------------------------------------------------------

/- A pass with the book before it and the book that it
leaves. -/
structure Stage where
  before : Book
  pass : Pass
  after : Book
deriving DecidableEq

namespace Stage

/- The waiting orders that the pass releases. -/
def released (s : Stage) : List Order :=
  (s.after.releaseAfter s.pass).1

/- The book without the orders that are released. -/
def remaining (s : Stage) : Book :=
  (s.after.releaseAfter s.pass).2

/- The id of the order that is executed. -/
def takerId (s : Stage) : UInt64 :=
  s.pass.taker.id

/- Whether the last trade of the pass reaches a waiting
order. -/
def EndsAt (s : Stage) (o : Order) : Prop :=
  ∃ t, s.pass.trades.getLast? = some t ∧
    o.IsReachedBy t.price

end Stage

namespace Stage

variable {s : Stage}
variable {o w : Order}
variable {now : Timestamp}

theorem takerId_eq
    (hPass :
      s.before.pass? o.activate now =
        some (s.pass, s.after)) :
    s.takerId = o.id := by
  have hPasses := Book.passes_of_pass? hPass
  unfold takerId
  rw [hPasses.taker_with_filled]
  rfl

/- The orders that wait before a pass stay or are
released. -/
theorem waiting_perm
    (hPass :
      s.before.pass? o now = some (s.pass, s.after)) :
    (s.remaining.waiting ++ s.released).Perm
      s.before.waiting := by
  rw [← (Book.passes_of_pass? hPass).waiting_eq]
  exact s.after.waiting_releaseAfter_perm s.pass

/- A pass without a trade releases nobody. -/
theorem mem_released_iff_of_isRanked
    (hRanked : s.after.IsRanked)
    (hPass :
      s.before.pass? o now = some (s.pass, s.after)) :
    w ∈ s.released ↔
      w ∈ s.before.waiting ∧ s.EndsAt w := by
  have hPasses := Book.passes_of_pass? hPass
  have hLast := hPasses.lastPrice_eq
  rw [← hPasses.waiting_eq]
  unfold released Book.releaseAfter EndsAt
  cases hTrade : s.pass.trades.getLast? with
  | none =>
      rw [List.getLast?_eq_none_iff.1 hTrade]
      simp
  | some t =>
      have hSome : s.pass.trades.isEmpty = false := by
        cases hNil : s.pass.trades with
        | nil =>
            rw [hNil] at hTrade
            cases hTrade
        | cons => rfl
      rw [hTrade] at hLast
      rw [hSome, if_neg (by simp),
        hRanked.mem_release_iff hLast]
      simp

/- A pass releases the waiting orders that its last trade
reaches. -/
theorem mem_released_iff
    {symbol : String}
    {log : List Event}
    {rest : List Order}
    (hReached :
      Floor.Reached symbol log ⟨s.before, o :: rest⟩)
    (hPass :
      s.before.pass? o.activate now =
        some (s.pass, s.after)) :
    w ∈ s.released ↔
      w ∈ s.before.waiting ∧ s.EndsAt w := by
  rcases hReached.activate.pass? hPass with
    ⟨inFlight, hAfter, _⟩
  exact mem_released_iff_of_isRanked hAfter.isRanked hPass

end Stage

namespace Book

/-
  How a queue is executed to its end, stage by stage.  The
  orders that a pass releases queue up at the end.
-/
inductive Course (now : Timestamp) :
    List Order → Book → List Stage → Book → Prop
  | done
      {b : Book} :
      Course now [] b [] b
  | step
      {o : Order}
      {rest : List Order}
      {s : Stage}
      {stages : List Stage}
      {b' : Book}
      (hPass :
        s.before.pass? o.activate now =
          some (s.pass, s.after))
      (hIntact : s.pass.violation = none)
      (h :
        Course now (rest ++ s.released) s.remaining stages
          b') :
      Course now (o :: rest) s.before (s :: stages) b'

/- A queue without a broken contract has its course. -/
theorem exists_course_of_runQueue?
    {now : Timestamp}
    {queue : List Order}
    {b b' : Book}
    {passes : List Pass}
    (h : runQueue? now queue b = some (passes, b'))
    (hIntact : passes.findSome? Pass.violation = none) :
    ∃ stages, Course now queue b stages b' ∧
      stages.map Stage.pass = passes := by
  induction queue, b using Book.runQueue?.induct now
    generalizing passes b' with
  | case1 b =>
      rw [runQueue?] at h
      cases h
      exact ⟨[], Course.done, rfl⟩
  | case2 b o rest hPass =>
      rw [runQueue?_cons, hPass] at h
      cases h
  | case3 b o rest p b₁ hPass hBroken =>
      rw [runQueue?_cons, hPass] at h
      simp only [hBroken, if_true] at h
      cases h
      rcases Option.isSome_iff_exists.1 hBroken with
        ⟨cause, hCause⟩
      rw [List.findSome?_cons, hCause] at hIntact
      cases hIntact
  | case4 b o rest p b₁ hPass hGo ih =>
      have hNone : p.violation = none := by
        simpa using hGo
      rw [runQueue?_cons, hPass] at h
      simp only [hNone, Option.isSome_none,
        Bool.false_eq_true, if_false] at h
      rcases Option.map_eq_some_iff.1 h with
        ⟨⟨others, b₂⟩, hRest, hEq⟩
      cases hEq
      rw [List.findSome?_cons, hNone] at hIntact
      rcases ih hRest hIntact with
        ⟨stages, hCourse, hPasses⟩
      refine
        ⟨⟨b, p, b₁⟩ :: stages,
          Course.step (s := ⟨b, p, b₁⟩) hPass hNone hCourse,
          ?_⟩
      rw [List.map_cons, hPasses]

namespace Course

variable {now : Timestamp}
variable {queue : List Order}
variable {b b' : Book}
variable {stages early later : List Stage}
variable {s : Stage}

/- The orders are executed first in, first out. -/
theorem ids_eq
    (h : Course now queue b stages b') :
    stages.map Stage.takerId =
      queue.map Order.id ++
        (stages.flatMap Stage.released).map Order.id := by
  induction h with
  | done => rfl
  | @step o rest s stages _ hPass _ _ ih =>
      rw [List.map_cons, Stage.takerId_eq hPass, ih]
      simp only [List.flatMap_cons, List.map_append,
        List.map_cons, List.cons_append, List.append_assoc]

/- The first stage of a course, and how the course goes
on. -/
theorem exists_of_cons
    (h : Course now queue b (s :: later) b') :
    ∃ o rest, queue = o :: rest ∧ b = s.before ∧
      s.before.pass? o.activate now =
        some (s.pass, s.after) ∧
      s.pass.violation = none ∧
      Course now (rest ++ s.released) s.remaining later
        b' := by
  cases h with
  | step hPass hIntact hNext =>
      exact ⟨_, _, rfl, rfl, hPass, hIntact, hNext⟩

variable {symbol : String} {log : List Event}

/-
  A course goes on from where its first stages lead.  What
  they have released waits no more.
-/
theorem exists_split
    (h : Course now queue b (early ++ later) b')
    (hReached : Floor.Reached symbol log ⟨b, queue⟩) :
    ∃ queue₁ b₁ log₁, Course now queue₁ b₁ later b' ∧
      Floor.Reached symbol log₁ ⟨b₁, queue₁⟩ ∧
      (b₁.waiting ++ early.flatMap Stage.released).Perm
        b.waiting := by
  induction early generalizing queue b log with
  | nil =>
      refine ⟨queue, b, log, h, hReached, ?_⟩
      rw [List.flatMap_nil, List.append_nil]
  | cons s early ih =>
      cases h with
      | step hPass hIntact hNext =>
          rcases ih hNext (hReached.step hPass hIntact) with
            ⟨queue₁, b₁, log₁, hLater, hReached₁, hPerm⟩
          refine
            ⟨queue₁, b₁, log₁, hLater, hReached₁, ?_⟩
          have hStage := Stage.waiting_perm hPass
          rw [List.flatMap_cons]
          refine List.Perm.trans ?_ hStage
          refine
            List.Perm.trans ?_
              (hPerm.append_right s.released)
          rw [List.append_assoc]
          exact List.perm_append_comm.append_left _

/- In a course the waiting orders stay or are released. -/
theorem waiting_perm
    (h : Course now queue b stages b') :
    (b'.waiting ++ stages.flatMap Stage.released).Perm
      b.waiting := by
  induction h with
  | done => simp
  | @step o rest s stages b' hPass _ _ ih =>
      rw [List.flatMap_cons]
      refine List.Perm.trans ?_ (Stage.waiting_perm hPass)
      refine List.Perm.trans ?_ (ih.append_right s.released)
      rw [List.append_assoc]
      exact List.perm_append_comm.append_left _

/-
  A waiting order is released in the first stages of a course
  exactly if the last trade of one of them reaches it.
-/
theorem mem_released_iff_of_append
    {w : Order}
    (h : Course now queue b (early ++ later) b')
    (hReached : Floor.Reached symbol log ⟨b, queue⟩)
    (hWaiting : w ∈ b.waiting) :
    w.id ∈ (early.flatMap Stage.released).map Order.id ↔
      ∃ s ∈ early, s.EndsAt w := by
  induction early generalizing queue b log with
  | nil => simp
  | cons s early ih =>
      rcases h.exists_of_cons with
        ⟨o, rest, rfl, rfl, hPass, hIntact, hNext⟩
      have hStage := Stage.waiting_perm hPass
      have hMem :=
        Stage.mem_released_iff (w := w) hReached hPass
      rw [List.flatMap_cons, List.map_append,
        List.mem_append, List.exists_mem_cons_iff]
      by_cases hEnds : s.EndsAt w
      · have hGone : w ∈ s.released :=
          hMem.2 ⟨hWaiting, hEnds⟩
        constructor
        · intro _
          exact Or.inl hEnds
        · intro _
          exact Or.inl (List.mem_map_of_mem hGone)
      · have hStays : w ∈ s.remaining.waiting := by
          rcases
              List.mem_append.1
                (hStage.mem_iff.2 hWaiting) with
            hLeft | hGone
          · exact hLeft
          · exact absurd (hMem.1 hGone).2 hEnds
        have hOther : w.id ∉ s.released.map Order.id :=
          (Order.mem_left_iff (hStage.map Order.id)
            hReached.nodup_waiting
            (List.mem_map_of_mem hWaiting)).1
            (List.mem_map_of_mem hStays)
        rw [ih hNext (hReached.step hPass hIntact) hStays,
          or_iff_right hOther, or_iff_right hEnds]

/- A waiting order is released in a course exactly if the last
trade of one of its stages reaches it. -/
theorem mem_released_iff
    {w : Order}
    (h : Course now queue b stages b')
    (hReached : Floor.Reached symbol log ⟨b, queue⟩)
    (hWaiting : w ∈ b.waiting) :
    w.id ∈ (stages.flatMap Stage.released).map Order.id ↔
      ∃ s ∈ stages, s.EndsAt w := by
  rw [← List.append_nil stages] at h
  exact h.mem_released_iff_of_append hReached hWaiting

end Course

end Book

------------------------------------------------------------
-- Submissions
------------------------------------------------------------

/- A report comes from passes that all went well. -/
theorem Cascade.outcome_eq_ok_iff
    {c : Cascade}
    {r : Report} :
    c.outcome = .ok r ↔
      c.violation = none ∧
        ∃ disposition,
          c.first.ending.disposition = .ok disposition ∧
            r =
              { orderId := c.first.taker.id
                disposition := disposition
                trades := c.trades
                triggered := c.others.map (·.taker.id) } := by
  unfold outcome
  cases c.first.ending.disposition with
  | error cause => simp
  | ok disposition =>
      cases c.violation with
      | some cause => simp
      | none => simp [eq_comm]

namespace Engine

variable {e e' : Engine}
variable {o : Order}
variable {now : Timestamp}
variable {r : Report}

/- How the submission of an order succeeds: it is parked, or
it is executed with all that it sets off. -/
inductive Succeeds
    (e : Engine)
    (o : Order)
    (now : Timestamp) :
    List Stage → Report → Book → Prop
  | parked
      {b : Book}
      (hWait : e.mustWait o = true)
      (hPlace : e.book.place .stop o = .ok b) :
      Succeeds e o now []
        { orderId := o.id
          disposition := .parked
          trades := []
          triggered := [] }
        b
  | executed
      {first : Stage}
      {others : List Stage}
      {b : Book}
      {disposition : Disposition}
      (hGo : e.mustWait o = false)
      (hCourse :
        Book.Course now [o] e.book (first :: others) b)
      (hEnding :
        first.pass.ending.disposition = .ok disposition) :
      Succeeds e o now (first :: others)
        { orderId := o.id
          disposition := disposition
          trades :=
            (first :: others).flatMap fun s =>
              s.pass.trades
          triggered := others.map Stage.takerId }
        b

/- An order that is not parked is executed to the end. -/
theorem exists_succeeds_of_execute?
    {e₀ : Engine}
    (hBook : e₀.book = e.book)
    (hGo : e.mustWait o = false)
    (hExecute : e₀.execute? o now = some (.ok r, e')) :
    ∃ stages, e.Succeeds o now stages r e'.book := by
  unfold execute? at hExecute
  rcases Option.map_eq_some_iff.1 hExecute with
    ⟨c, hCascade, hOutcome⟩
  dsimp only at hOutcome
  split at hOutcome
  · rename_i report hReport
    cases hOutcome
    rcases Cascade.outcome_eq_ok_iff.1 hReport with
      ⟨hIntact, disposition, hEnding, hEq⟩
    have hQueue := Book.runQueue?_of_cascade? hCascade
    rw [hBook] at hQueue
    rcases
        Book.exists_course_of_runQueue? hQueue hIntact with
      ⟨stages, hCourse, hPasses⟩
    cases stages with
    | nil => cases hPasses
    | cons first others =>
        rcases List.cons_eq_cons.1 hPasses with
          ⟨hFirst, hOthers⟩
        have hId : c.first.taker.id = o.id := by
          rw [← hFirst]
          exact (List.cons_eq_cons.1 hCourse.ids_eq).1
        have hTrades :
            c.trades =
              (first :: others).flatMap fun s =>
                s.pass.trades := by
          unfold Cascade.trades
          rw [← hPasses, List.flatMap_map]
        have hTriggered :
            (c.others.map fun p => p.taker.id) =
              others.map Stage.takerId := by
          rw [← hOthers, List.map_map]
          rfl
        refine ⟨first :: others, ?_⟩
        rw [hEq, hId, hTrades, hTriggered]
        rw [← hFirst] at hEnding
        exact Succeeds.executed hGo hCourse hEnding
  · unfold breakOff at hOutcome
    cases hOutcome

/- The released orders are the ones reported. -/
theorem Succeeds.triggered_eq
    {stages : List Stage}
    {b : Book}
    (h : e.Succeeds o now stages r b) :
    r.triggered =
      (stages.flatMap Stage.released).map Order.id := by
  cases h with
  | parked => rfl
  | executed _ hCourse =>
      exact (List.cons_eq_cons.1 hCourse.ids_eq).2

/- The reported orders have waited before. -/
theorem Succeeds.triggered_subperm
    {stages : List Stage}
    {b : Book}
    (h : e.Succeeds o now stages r b) :
    r.triggered.Subperm (e.book.waiting.map Order.id) := by
  rw [h.triggered_eq]
  cases h with
  | parked => exact List.nil_subperm
  | executed _ hCourse =>
      have hIds := hCourse.waiting_perm.map Order.id
      rw [List.map_append] at hIds
      exact
        (List.sublist_append_right _ _).subperm.trans
          hIds.subperm

/- Only the submitted order and the released ones have
passes. -/
theorem Succeeds.takerId_cases
    {stages : List Stage}
    {b : Book}
    {id : UInt64}
    (h : e.Succeeds o now stages r b)
    (hId : id ∈ stages.map Stage.takerId) :
    id = o.id ∨ id ∈ r.triggered := by
  rw [h.triggered_eq]
  cases h with
  | parked => cases hId
  | executed _ hCourse =>
      rw [hCourse.ids_eq] at hId
      exact List.mem_cons.1 hId

/- The trades of all passes are the ones reported. -/
theorem Succeeds.trades_eq
    {stages : List Stage}
    {b : Book}
    (h : e.Succeeds o now stages r b) :
    r.trades =
      (stages.flatMap fun s => s.pass.deals).map
        Deal.trade := by
  rw [List.map_flatMap]
  cases h with
  | parked => rfl
  | executed => rfl

/- Every successful submission has its course. -/
theorem exists_succeeds
    (hSubmit : e.submit? o now = some (.ok r, e')) :
    e.TakesIn o ∧
      ∃ stages, e.Succeeds o now stages r e'.book := by
  by_cases hIn : e.TakesIn o
  · refine ⟨hIn, ?_⟩
    rw [submit?_of_takesIn now hIn] at hSubmit
    unfold admit? at hSubmit
    dsimp only at hSubmit
    split at hSubmit
    · rename_i hWait
      have hPark := Option.some.inj hSubmit
      unfold park at hPark
      split at hPark
      · rename_i hPlace
        cases hPark
        exact ⟨[], Succeeds.parked hWait hPlace⟩
      · unfold breakOff at hPark
        cases hPark
    · rename_i hGo
      refine
        exists_succeeds_of_execute? ?_ (by simpa using hGo)
          hSubmit
      rfl
  · exfalso
    rcases submit?_of_not_takesIn hIn hSubmit with
      ⟨rfl, hHalted | hError⟩ | ⟨_, hBreak⟩
    · unfold submit? at hSubmit
      rw [if_pos hHalted] at hSubmit
      cases hSubmit
    · cases hError
    · unfold breakOff at hBreak
      cases hBreak

/- In a run it begins with the submitted order in flight. -/
theorem Run.exists_succeeds
    {symbol : String}
    {log : List Event}
    (h : Run symbol log e)
    (hSubmit : e.submit? o now = some (.ok r, e')) :
    ∃ stages, e.Succeeds o now stages r e'.book ∧
      Floor.Reached symbol (log ++ [.entry o])
        ⟨e.book, [o]⟩ := by
  rcases Engine.exists_succeeds hSubmit with
    ⟨hIn, stages, hSucceeds⟩
  exact
    ⟨stages, hSucceeds, h.reached.enter hIn.2.1 hIn.2.2⟩

/- A submission that is refused changes nothing, or it halts
the book. -/
theorem eq_or_halted_of_error
    {refusal : Refusal}
    (hSubmit :
      e.submit? o now = some (.error refusal, e')) :
    e' = e ∨ e'.book.halted = true := by
  by_cases hIn : e.TakesIn o
  · right
    rw [submit?_of_takesIn now hIn] at hSubmit
    unfold admit? at hSubmit
    dsimp only at hSubmit
    split at hSubmit
    · have hPark := Option.some.inj hSubmit
      unfold park at hPark
      split at hPark
      · cases hPark
      · cases hPark
        rfl
    · unfold execute? at hSubmit
      rcases Option.map_eq_some_iff.1 hSubmit with
        ⟨c, _, hOutcome⟩
      dsimp only at hOutcome
      split at hOutcome
      · cases hOutcome
      · cases hOutcome
        rfl
  · rcases submit?_of_not_takesIn hIn hSubmit with
      ⟨rfl, _⟩ | ⟨_, hBreak⟩
    · exact Or.inl rfl
    · cases hBreak
      exact Or.inr rfl

------------------------------------------------------------
-- Computed submissions
------------------------------------------------------------

/- A report that is computed, and what is seen of it. -/
theorem exists_report
    {P : Report → Engine → Prop}
    [∀ r e', Decidable (P r e')]
    (h :
      (e.submit? o now).any fun (answer, e') =>
        match answer with
        | .ok r => P r e'
        | .error _ => false) :
    ∃ r e', e.submit? o now = some (.ok r, e') ∧
      P r e' := by
  rcases (Option.any_eq_true _ _).1 h with
    ⟨⟨answer, e'⟩, hSubmit, hSeen⟩
  cases answer with
  | error refusal => cases hSeen
  | ok r => exact ⟨r, e', hSubmit, of_decide_eq_true hSeen⟩

end Engine

/- An ordinary market order that waits for a stop price. -/
def Order.ordinaryStop
    (id : UInt64)
    (side : Side)
    (stop : Decimal)
    (quantity : Decimal) : Order :=
  { ordinary id side none quantity with
    stopPrice := some stop }

end Matchbook
