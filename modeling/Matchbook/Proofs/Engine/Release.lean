import Matchbook.Proofs.Engine.Course
import Matchbook.Proofs.Engine.Makers

/-
  Which waiting orders a submission releases, and which are
  left.

  After a pass only the price of its last trade counts.  A
  waiting order that an earlier trade of the pass has reached
  is left where it is, unless the last trade of this or of a
  later pass reaches it as well.  What is left in the end is
  never reached by the last price of the book.

  Key definitions include:
    * `Book.IsSwept`
    * `Stage.Reaches`

  The main statements are:
    * `Engine.Run.isSwept`
    * `Engine.Run.waiting_not_reached`
    * `Engine.Succeeds.triggered_eq`
    * `Engine.Run.mem_triggered_iff`
-/

------------------------------------------------------------
-- Swept books
------------------------------------------------------------

namespace Matchbook

namespace Book

/- Whether the last price reaches no waiting order. -/
def IsSwept (b : Book) : Prop :=
  ∀ last, b.lastPrice = some last →
    ∀ o ∈ b.waiting, ¬ o.IsReachedBy last

variable {b b' : Book}

theorem isSwept_new (symbol : String) :
    (new symbol).IsSwept := by
  intro last hLast
  cases hLast

/- Fewer waiting orders at the same last price. -/
theorem IsSwept.of_subset
    (h : b.IsSwept)
    (hWaiting : b'.waiting ⊆ b.waiting)
    (hLast : b'.lastPrice = b.lastPrice) :
    b'.IsSwept := by
  intro last hSome o ho
  rw [hLast] at hSome
  exact h last hSome o (hWaiting ho)

theorem IsSwept.cancel?
    {id : UInt64}
    {o : Order}
    (h : b.IsSwept)
    (hCancel : b.cancel? id = some (o, b')) :
    b'.IsSwept := by
  apply h.of_subset (waiting_cancel?_subset hCancel)
  rcases cancel?_eq_some hCancel with ⟨_, _, l, _, rfl⟩
  exact lastPrice_withLadder b l

/- An order joins the waiting ones only if the last price
does not reach it. -/
theorem IsSwept.place
    {o : Order}
    (h : b.IsSwept)
    (hRanked : b.IsRanked)
    (hFresh : o.id ∉ b.allOrders.map Order.id)
    (hWait :
      ∀ last, b.lastPrice = some last →
        ¬ o.IsReachedBy last)
    (hPlace : b.place .stop o = .ok b') :
    b'.IsSwept := by
  have hPerm := waiting_place_stop_perm hRanked hFresh hPlace
  intro last hLast w hw
  rw [lastPrice_place hPlace] at hLast
  rcases List.mem_cons.1 (hPerm.mem_iff.1 hw) with
    rfl | hOld
  · exact hWait last hLast
  · exact h last hLast w hOld

end Book

/- A stage leaves a swept book: if it trades, whatever the
new last price reaches is released. -/
theorem Stage.isSwept_remaining
    {s : Stage}
    {o : Order}
    {now : Timestamp}
    (h : s.before.IsSwept)
    (hRanked : s.after.IsRanked)
    (hPass :
      s.before.pass? o now = some (s.pass, s.after)) :
    s.remaining.IsSwept := by
  have hPasses := Book.passes_of_pass? hPass
  unfold remaining Book.releaseAfter
  split
  · rename_i hNone
    have hLast := hPasses.lastPrice_eq
    rw [List.isEmpty_iff.1 hNone] at hLast
    refine h.of_subset ?_ hLast
    rw [hPasses.waiting_eq]
    exact List.Subset.refl _
  · intro last hLast w hw
    rw [Book.lastPrice_release] at hLast
    exact hRanked.not_isReachedBy_of_release hLast hw

theorem Book.Course.isSwept
    {symbol : String}
    {log : List Event}
    {now : Timestamp}
    {queue : List Order}
    {b b' : Book}
    {stages : List Stage}
    (h : Course now queue b stages b')
    (hReached : Floor.Reached symbol log ⟨b, queue⟩)
    (hSwept : b.IsSwept) :
    b'.IsSwept := by
  induction h generalizing log with
  | done => exact hSwept
  | step hPass hIntact _ ih =>
      rcases hReached.activate.pass? hPass with
        ⟨inFlight, hAfter, _⟩
      exact
        ih (hReached.step hPass hIntact)
          (Stage.isSwept_remaining hSwept hAfter.isRanked
            hPass)

------------------------------------------------------------
-- Reached orders
------------------------------------------------------------

namespace Stage

variable {s : Stage} {o w : Order} {now : Timestamp}

/- Whether some trade of the stage reaches a waiting
order. -/
def Reaches (s : Stage) (w : Order) : Prop :=
  w ∈ s.before.waiting ∧
    ∃ t ∈ s.pass.trades, w.IsReachedBy t.price

/-
  What a trade reaches on the side of the taker is reached to
  the end: the prices only move on.
-/
theorem endsAt_of_reaches
    (hRanked : s.before.IsRanked)
    (hPass :
      s.before.pass? o now = some (s.pass, s.after))
    (hReaches : s.Reaches w)
    (hSide : w.side = s.pass.taker.side) :
    s.EndsAt w := by
  have hPasses := Book.passes_of_pass? hPass
  have hSorted := hPasses.prices_sorted hRanked
  have hTaker : w.side = o.side := by
    rw [hSide, hPasses.taker_with_filled]
  rcases hReaches with
    ⟨_, t, ht, stop, hStop, hTriggers⟩
  have hSome : s.pass.trades ≠ [] := List.ne_nil_of_mem ht
  have hSplit := List.dropLast_concat_getLast hSome
  refine
    ⟨_, List.getLast?_eq_some_getLast hSome, stop, hStop, ?_⟩
  rw [← hSplit] at ht
  rcases List.mem_append.1 ht with hEarlier | hLast
  · rw [← hSplit, List.map_append, List.pairwise_append]
      at hSorted
    apply hTriggers.of_moved
    rw [hTaker]
    exact
      hSorted.2.2 _ (List.mem_map_of_mem hEarlier) _
        (List.mem_map_of_mem (List.mem_singleton_self _))
  · rw [← List.mem_singleton.1 hLast]
    exact hTriggers

end Stage

namespace Book.Course

variable {symbol : String} {log : List Event}
variable {now : Timestamp} {queue : List Order}
variable {b b' : Book}
variable {early later : List Stage} {s : Stage} {w : Order}

/- What is waiting in the middle of a course has not been
released before. -/
theorem mem_released_iff_of_reaches
    (h : Course now queue b (early ++ s :: later) b')
    (hReached : Floor.Reached symbol log ⟨b, queue⟩)
    (hReaches : s.Reaches w) :
    w.id ∈
        ((early ++ s :: later).flatMap Stage.released).map
          Order.id ↔
      ∃ s' ∈ s :: later, s'.EndsAt w := by
  rcases h.exists_split hReached with
    ⟨queue₁, b₁, log₁, hLater, hReached₁, hPerm⟩
  rcases hLater.exists_of_cons with ⟨_, _, _, rfl, _⟩
  have hBefore : w ∈ b.waiting :=
    hPerm.subset (List.mem_append_left _ hReaches.1)
  have hStill :
      w.id ∉ (early.flatMap Stage.released).map Order.id :=
    (Order.mem_left_iff (hPerm.map Order.id)
      hReached.nodup_waiting
      (List.mem_map_of_mem hBefore)).1
      (List.mem_map_of_mem hReaches.1)
  rw [List.flatMap_append, List.map_append, List.mem_append,
    or_iff_right hStill]
  exact hLater.mem_released_iff hReached₁ hReaches.1

theorem endsAt_of_reaches
    (h : Course now queue b (early ++ s :: later) b')
    (hReached : Floor.Reached symbol log ⟨b, queue⟩)
    (hReaches : s.Reaches w)
    (hSide : w.side = s.pass.taker.side) :
    s.EndsAt w := by
  rcases h.exists_split hReached with
    ⟨queue₁, b₁, log₁, hLater, hReached₁, _⟩
  rcases hLater.exists_of_cons with
    ⟨_, _, _, rfl, hPass, _⟩
  exact
    Stage.endsAt_of_reaches hReached₁.isRanked hPass hReaches
      hSide

end Book.Course

------------------------------------------------------------
-- Runs
------------------------------------------------------------

namespace Engine

variable {symbol : String} {log : List Event}
variable {e e' : Engine} {o : Order} {now : Timestamp}
variable {r : Report} {stages : List Stage} {b : Book}

theorem not_isReachedBy_of_mustWait
    (h : e.mustWait o = true)
    {last : Decimal}
    (hLast : e.book.lastPrice = some last) :
    ¬ o.IsReachedBy last := by
  rintro ⟨stop, hStop, hReached⟩
  unfold mustWait at h
  rw [hStop, hLast] at h
  simp [hReached] at h

theorem Succeeds.isSwept
    (h : e.Succeeds o now stages r b)
    (hReached :
      Floor.Reached symbol log ⟨e.book, [o]⟩)
    (hSwept : e.book.IsSwept) :
    b.IsSwept := by
  cases h with
  | parked hWait hPlace =>
      exact
        hSwept.place hReached.isRanked
          (Floor.fresh_of_present hReached.present)
          (fun _ => not_isReachedBy_of_mustWait hWait)
          hPlace
  | executed _ hCourse =>
      exact hCourse.isSwept hReached hSwept

/- A book that is not halted is swept, at every point of
every run. -/
theorem Run.isSwept
    (h : Run symbol log e)
    (hLive : e.book.halted = false) :
    e.book.IsSwept := by
  induction h with
  | start => exact Book.isSwept_new symbol
  | @submit log e e' o now answer h hSubmit ih =>
      cases answer with
      | error refusal =>
          rcases eq_or_halted_of_error hSubmit with
            rfl | hHalted
          · exact ih hLive
          · rw [hHalted] at hLive
            cases hLive
      | ok r =>
          rcases Engine.exists_succeeds hSubmit with
            ⟨hIn, stages, hSucceeds⟩
          exact
            hSucceeds.isSwept
              (h.reached.enter hIn.2.1 hIn.2.2)
              (ih hIn.1)
  | @cancel log e h id ih =>
      unfold Engine.cancel at hLive ⊢
      split at hLive
      · rename_i hHalted
        rw [hHalted] at hLive
        cases hLive
      · rename_i hOpen
        have hSwept := ih (by simpa using hOpen)
        rw [if_neg hOpen]
        cases hCancel : e.book.cancel? id with
        | none => exact hSwept
        | some found => exact hSwept.cancel? hCancel

theorem Run.not_triggers
    (h : Run symbol log e)
    (hLive : e.book.halted = false)
    {last : Decimal}
    (hLast : e.book.lastPrice = some last)
    {side : Side}
    (ho : o ∈ e.book.orders side .stop) :
    ∃ stop, o.stopPrice = some stop ∧
      ¬ side.Triggers stop last := by
  have hNot :=
    h.isSwept hLive last hLast o
      (Book.mem_waiting_of_mem_orders ho)
  rcases List.mem_map.1 ho with ⟨entry, hEntry, rfl⟩
  have hRank :=
    (h.reached.isRanked side .stop).ranked entry hEntry
  rw [hRank.isReachedBy_iff] at hNot
  exact ⟨_, hRank.stopPrice_eq, hNot⟩

/-
  In every live book the stop prices of waiting buyers are
  above the last price, and those of waiting sellers below it.
-/
theorem Run.waiting_not_reached
    (h : Run symbol log e)
    (hLive : e.book.halted = false)
    {last : Decimal}
    (hLast : e.book.lastPrice = some last) :
    (∀ o ∈ e.book.orders .buy .stop,
      ∃ stop, o.stopPrice = some stop ∧ last < stop) ∧
    (∀ o ∈ e.book.orders .sell .stop,
      ∃ stop, o.stopPrice = some stop ∧ stop < last) := by
  constructor
  · intro o ho
    rcases h.not_triggers hLive hLast ho with
      ⟨stop, hStop, hNot⟩
    exact ⟨stop, hStop, Int.not_le.1 hNot⟩
  · intro o ho
    rcases h.not_triggers hLive hLast ho with
      ⟨stop, hStop, hNot⟩
    exact ⟨stop, hStop, Int.not_le.1 hNot⟩

/- A waiting buyer above the price of a trade, and a waiting
seller below it. -/
def calmFlow : List Order :=
  [.ordinaryStop 1 .buy (.ofParts 110 0) (.ofParts 1 0),
    .ordinaryStop 2 .sell (.ofParts 90 0) (.ofParts 1 0),
    .ordinary 3 .sell (some (.ofParts 100 0)) (.ofParts 1 0),
    .ordinary 4 .buy none (.ofParts 1 0)]

theorem waiting_not_reached_of_calm :
    ∃ e last, e = (played "BTC-USDT" calmFlow).2 ∧
      e.book.halted = false ∧
      e.book.lastPrice = some last ∧
      e.book.waiting = calmFlow.take 2 ∧
      (∀ o ∈ e.book.orders .buy .stop,
        ∃ stop, o.stopPrice = some stop ∧ last < stop) ∧
      ∀ o ∈ e.book.orders .sell .stop,
        ∃ stop, o.stopPrice = some stop ∧ stop < last := by
  have hRun := run_played "BTC-USDT" calmFlow
  have hLive :
      (played "BTC-USDT" calmFlow).2.book.halted =
        false := by
    decide +kernel
  have hLast :
      (played "BTC-USDT" calmFlow).2.book.lastPrice =
        some (.ofParts 100 0) := by
    decide +kernel
  exact
    ⟨_, _, rfl, hLive, hLast, by decide +kernel,
      hRun.waiting_not_reached hLive hLast⟩

/-
  Among the waiting orders that a trade reaches, a submission
  releases exactly those that the last trade of that pass or
  of a later one reaches.  An order on the side of the taker
  is always released.
-/
theorem Run.mem_triggered_iff
    (h : Run symbol log e)
    (hSubmit : e.submit? o now = some (.ok r, e')) :
    ∃ stages, e.Succeeds o now stages r e'.book ∧
      ∀ early s later, stages = early ++ s :: later →
        ∀ w, s.Reaches w →
          (w.id ∈ r.triggered ↔
            ∃ s' ∈ s :: later, s'.EndsAt w) ∧
          (w.side = s.pass.taker.side →
            w.id ∈ r.triggered) := by
  rcases h.exists_succeeds hSubmit with
    ⟨stages, hSucceeds, hEntered⟩
  refine ⟨stages, hSucceeds, ?_⟩
  intro early s later hStages w hReaches
  rw [hSucceeds.triggered_eq]
  cases hSucceeds with
  | parked => simp at hStages
  | executed _ hCourse =>
      rw [hStages] at hCourse ⊢
      have hIff :=
        hCourse.mem_released_iff_of_reaches hEntered hReaches
      refine ⟨hIff, ?_⟩
      intro hSide
      exact
        hIff.2
          ⟨s, List.mem_cons_self ..,
            hCourse.endsAt_of_reaches hEntered hReaches
              hSide⟩

/- A seller that waits for 100, and sellers at 95 and at
105. -/
def spreadFlow : List Order :=
  [.ordinaryStop 3 .sell (.ofParts 100 0) (.ofParts 1 0),
    .ordinary 1 .sell (some (.ofParts 95 0)) (.ofParts 1 0),
    .ordinary 2 .sell (some (.ofParts 105 0))
      (.ofParts 1 0)]

/- The buyer that trades at 95 and then at 105. -/
def spreadBuy : Order :=
  .ordinary 4 .buy none (.ofParts 2 0)

theorem mem_triggered_iff_of_spread :
    ∃ r e',
      (played "BTC-USDT" spreadFlow).2.submit? spreadBuy
          (.ofNanos 0) = some (.ok r, e') ∧
      r.triggered = [] ∧
      ∃ stages,
        (played "BTC-USDT" spreadFlow).2.Succeeds spreadBuy
          (.ofNanos 0) stages r e'.book ∧
        ∀ early s later, stages = early ++ s :: later →
          ∀ w, s.Reaches w →
            (w.id ∈ r.triggered ↔
              ∃ s' ∈ s :: later, s'.EndsAt w) ∧
            (w.side = s.pass.taker.side →
              w.id ∈ r.triggered) := by
  have hReport :
      ∃ r e',
        (played "BTC-USDT" spreadFlow).2.submit? spreadBuy
            (.ofNanos 0) = some (.ok r, e') ∧
          r.triggered = [] := by
    apply exists_report
    decide +kernel
  rcases hReport with ⟨r, e', hSubmit, hNone⟩
  have hRun := run_played "BTC-USDT" spreadFlow
  exact
    ⟨r, e', hSubmit, hNone, hRun.mem_triggered_iff hSubmit⟩

/- The trade at 95 reaches the waiting seller, the last one at
105 does not: the seller waits on. -/
theorem passes_by_waiting_order :
    ∃ r e',
      (played "BTC-USDT" spreadFlow).2.submit? spreadBuy
          (.ofNanos 0) = some (.ok r, e') ∧
      ∃ w ∈ (played "BTC-USDT" spreadFlow).2.book.waiting,
        (∃ t ∈ r.trades, w.IsReachedBy t.price) ∧
          w.id ∉ r.triggered ∧ w ∈ e'.book.waiting := by
  apply exists_report
  decide +kernel

end Engine

end Matchbook
