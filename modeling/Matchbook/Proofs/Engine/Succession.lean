import Matchbook.Proofs.Engine.Course
import Matchbook.Proofs.Engine.Orderly

/-
  The succession of the passes of a submission.

  A pass releases the waiting orders that its last trade is
  the first one to reach, in the order of their priority.  The
  released orders are executed first in, first out, and each
  of them as if it had been submitted without its stop price
  at that moment.

  Key definitions include:
    * `Order.GoesBefore`
    * `Stage.StandsAlone`
    * `Report.Recounts`

  The main statements are:
    * `Book.IsRanked.pairwise_release`
    * `Book.pass?_withWaiting`
    * `Book.Course.mem_released_iff_first`
    * `Engine.Run.exists_recounts`
-/

------------------------------------------------------------
-- The order of a release
------------------------------------------------------------

namespace Matchbook

/-
  Whether the first of two released orders is executed before
  the other one: buyers before sellers, on one side the better
  stop price first, then the earlier time, then the lower id.
-/
def Order.GoesBefore (a b : Order) : Prop :=
  (a.side = .buy ∧ b.side = .sell) ∨
    (a.side = b.side ∧
      ∃ p q, a.stopPrice = some p ∧ b.stopPrice = some q ∧
        (a.side.IsBetter p q ∨
          Decimal.Same p q ∧
            (a.createdAt.IsBefore b.createdAt ∨
              a.createdAt = b.createdAt ∧ a.id < b.id)))

theorem Entry.IsRanked.goesBefore
    {side : Side}
    {e e' : Entry Order}
    (h : e.IsRanked side .stop)
    (h' : e'.IsRanked side .stop)
    (hOver : e.key.Outranks e'.key) :
    e.item.GoesBefore e'.item := by
  rcases Policy.rank_eq_ok_iff.1 h.rank_eq with
    ⟨p, hStop, hKey⟩
  rcases Policy.rank_eq_ok_iff.1 h'.rank_eq with
    ⟨q, hStop', hKey'⟩
  rw [hKey, hKey'] at hOver
  exact
    Or.inr
      ⟨h.side_eq.trans h'.side_eq.symm, p, q, hStop, hStop',
        hOver⟩

section Release

variable {side : Side}
variable {l : Ladder side .stop Order}
variable {last : Decimal}

theorem Ladder.IsRanked.side_of_mem_triggered
    (h : l.IsRanked)
    {o : Order}
    (ho : o ∈ l.triggered last) :
    o.side = side := by
  rcases List.mem_map.1 ho with ⟨e, he, rfl⟩
  have hMem : e ∈ l.ascending :=
    (List.takeWhile_prefix _).subset (List.mem_reverse.1 he)
  exact (h.ranked_of_mem hMem).side_eq

/- What one side releases is in the order of its rank. -/
theorem Ladder.IsRanked.pairwise_triggered
    (h : l.IsRanked)
    (last : Decimal) :
    (l.triggered last).Pairwise Order.GoesBefore := by
  have hPart :
      (l.ascending.takeWhile
          (isTriggered side last)).reverse.Sublist
        l.byPriority :=
    (List.takeWhile_prefix _).sublist.reverse
  have hRanked := RankedEntries.sublist h hPart
  unfold triggered
  rw [List.pairwise_map]
  apply hRanked.sorted.imp_of_mem
  intro e e' he he' hOver
  exact
    (hRanked.ranked e he).goesBefore
      (hRanked.ranked e' he') hOver

/- A release comes in the order of execution. -/
theorem Book.IsRanked.pairwise_release
    {b : Book}
    (h : b.IsRanked) :
    b.release.1.Pairwise Order.GoesBefore := by
  unfold release
  split
  · exact List.Pairwise.nil
  · rename_i last _
    have hBids : b.stopBids.IsRanked := h .buy .stop
    have hAsks : b.stopAsks.IsRanked := h .sell .stop
    refine
      List.pairwise_append.2
        ⟨hBids.pairwise_triggered last,
          hAsks.pairwise_triggered last, ?_⟩
    intro a ha b hb
    exact
      Or.inl
        ⟨hBids.side_of_mem_triggered ha,
          hAsks.side_of_mem_triggered hb⟩

end Release

------------------------------------------------------------
-- Passes and waiting orders
------------------------------------------------------------

namespace Book

/- The book with the waiting orders of another one. -/
def withWaiting (b c : Book) : Book :=
  { b with
    stopBids := c.stopBids
    stopAsks := c.stopAsks }

/- The book in which nobody waits. -/
def withoutWaiting (b : Book) : Book :=
  b.withWaiting (new b.symbol)

variable {b b' c : Book}
variable {taker : Order}
variable {now : Timestamp}
variable {p : Pass}

theorem ladder_withWaiting
    (b c : Book)
    (side : Side) :
    (b.withWaiting c).ladder side .price =
      b.ladder side .price := by
  cases side <;> rfl

theorem withLadder_withWaiting
    {side : Side}
    (b c : Book)
    (l : Ladder side .price Order) :
    (b.withWaiting c).withLadder l =
      (b.withLadder l).withWaiting c := by
  cases side <;> rfl

theorem settle_withWaiting
    (b c : Book)
    (side : Side)
    (m : Matching) :
    (b.withWaiting c).settle side m =
      (b.settle side m).withWaiting c := by
  unfold settle
  rw [withLadder_withWaiting]
  cases m.trades.getLast? <;> rfl

theorem place_withWaiting
    (b c : Book)
    (o : Order) :
    (b.withWaiting c).place .price o =
      (b.place .price o).map (·.withWaiting c) := by
  unfold place
  rw [ladder_withWaiting]
  cases (b.ladder o.side .price).insert o.key o with
  | error cause => rfl
  | ok l => exact congrArg _ (withLadder_withWaiting b c l)

theorem finish?_withWaiting
    (b c : Book)
    (taker : Order) :
    (b.withWaiting c).finish? taker =
      (b.finish? taker).map fun (ending, b') =>
        (ending, b'.withWaiting c) := by
  unfold finish?
  split
  · rfl
  · rw [Option.map_map]
    congr 1
    funext remaining
    rw [place_withWaiting]
    dsimp only [Function.comp]
    split
    · rfl
    · cases b.place .price taker <;> rfl

/- The waiting orders have no part in a pass. -/
theorem pass?_withWaiting
    (b c : Book)
    (taker : Order)
    (now : Timestamp) :
    (b.withWaiting c).pass? taker now =
      (b.pass? taker now).map fun (p, b') =>
        (p, b'.withWaiting c) := by
  unfold pass?
  dsimp only
  rw [ladder_withWaiting, Option.map_bind]
  congr 1
  funext m
  rw [settle_withWaiting]
  dsimp only [Function.comp]
  split
  · rfl
  · rw [finish?_withWaiting, Option.map_map, Option.map_map]
    rfl

/- A pass leaves the waiting orders as they are. -/
theorem withWaiting_of_pass?
    (h : b.pass? taker now = some (p, b')) :
    b'.withWaiting b = b' := by
  have hSame := b.pass?_withWaiting b taker now
  change b.pass? taker now = _ at hSame
  rw [h] at hSame
  exact (congrArg Prod.snd (Option.some.inj hSame)).symm

theorem allOrders_withoutWaiting
    (b : Book) :
    b.withoutWaiting.allOrders = b.active := by
  rw [allOrders_eq_append]
  exact List.append_nil _

theorem releaseAfter_withoutWaiting
    (b : Book)
    (p : Pass) :
    b.withoutWaiting.releaseAfter p =
      ([], b.withoutWaiting) := by
  unfold releaseAfter
  split
  · rfl
  · unfold release
    split <;> rfl

/- Where nobody waits a pass goes as it always does. -/
theorem pass?_withoutWaiting
    (h : b.pass? taker now = some (p, b')) :
    b.withoutWaiting.pass? taker now =
      some (p, b'.withoutWaiting) := by
  have hSymbol : b'.symbol = b.symbol :=
    congrArg Prod.fst (passes_of_pass? h).door_eq
  unfold withoutWaiting
  rw [pass?_withWaiting, h, hSymbol]
  rfl

/- Where nobody waits an order sets off nothing. -/
theorem cascade?_withoutWaiting
    (h : b.pass? taker.activate now = some (p, b'))
    (hIntact : p.violation = none) :
    b.withoutWaiting.cascade? taker now =
      some ⟨p, [], b'.withoutWaiting⟩ := by
  unfold cascade?
  rw [pass?_withoutWaiting h, Option.bind_some]
  dsimp only
  rw [hIntact, releaseAfter_withoutWaiting, runQueue?]
  rfl

end Book

theorem Pass.exists_disposition
    {p : Pass}
    (h : p.violation = none) :
    ∃ disposition,
      p.ending.disposition = .ok disposition := by
  unfold violation at h
  cases hEnding : p.ending with
  | broken cause =>
      rw [hEnding] at h
      cases h
  | filled => exact ⟨_, rfl⟩
  | rested => exact ⟨_, rfl⟩
  | discarded => exact ⟨_, rfl⟩

/-
  Whether a stage is what the submission of an order without
  its stop price amounts to where nobody waits, so that
  nothing is released: the same trades, and the same book but
  for the waiting orders, which stay as they were.
-/
def Stage.StandsAlone
    (s : Stage)
    (w : Order)
    (now : Timestamp) : Prop :=
  ∀ e : Engine, e.book = s.before.withoutWaiting →
    ∃ r e', e.submit? w.activate now = some (.ok r, e') ∧
      r.trades = s.pass.trades ∧ r.triggered = [] ∧
        s.after = e'.book.withWaiting s.before

theorem Stage.standsAlone
    {s : Stage}
    {w : Order}
    {now : Timestamp}
    {queue : List Order}
    (hPass :
      s.before.pass? w.activate now =
        some (s.pass, s.after))
    (hIntact : s.pass.violation = none)
    (hOrderly : Floor.IsOrderly ⟨s.before, w :: queue⟩)
    (hLive : s.before.halted = false) :
    s.StandsAlone w now := by
  intro e hBook
  have hIn : e.TakesIn w.activate := by
    refine ⟨?_, ?_, ?_⟩
    · rw [hBook]
      exact hLive
    · rw [hBook]
      exact hOrderly.inFlight_symbol_eq
    · rw [hBook, Book.contains_eq_false_iff,
        Book.allOrders_withoutWaiting]
      have hFresh := hOrderly.fresh
      rw [Book.allOrders_eq_append, List.map_append] at hFresh
      exact fun hMem =>
        hFresh (List.mem_append_left _ hMem)
  rcases Pass.exists_disposition hIntact with
    ⟨disposition, hEnding⟩
  have hActive :
      s.before.pass? w.activate.activate now =
        some (s.pass, s.after) :=
    hPass
  have hCascade :=
    Book.cascade?_withoutWaiting hActive hIntact
  have hOutcome :=
    Cascade.outcome_eq_ok_iff
      (c := ⟨s.pass, [], s.after.withoutWaiting⟩).2
      ⟨by simp [Cascade.violation, Cascade.passes, hIntact],
        disposition, hEnding, rfl⟩
  have hSubmit := Engine.submit?_of_takesIn now hIn
  unfold Engine.admit? at hSubmit
  have hGo : e.mustWait w.activate = false := rfl
  dsimp only at hSubmit
  rw [hGo] at hSubmit
  unfold Engine.execute? at hSubmit
  dsimp only at hSubmit
  rw [hBook, hCascade] at hSubmit
  simp only [Bool.false_eq_true, if_false, Option.map_some,
    hOutcome] at hSubmit
  refine ⟨_, _, hSubmit, ?_, rfl, ?_⟩
  · simp [Cascade.trades, Cascade.passes]
  · exact (Book.withWaiting_of_pass? hPass).symm

------------------------------------------------------------
-- Stages one after the other
------------------------------------------------------------

/-
  Whether a stage is the execution of an order: its pass is
  that of the order without its stop price, it ends well, it
  stands alone, and it releases orders in their order.
-/
structure Stage.Executes
    (s : Stage)
    (w : Order)
    (now : Timestamp) : Prop where
  pass_eq :
    s.before.pass? w.activate now = some (s.pass, s.after)
  intact : s.pass.violation = none
  alone : s.StandsAlone w now
  sorted : s.released.Pairwise Order.GoesBefore

/- Whether stages lead from a book to another one, each of
them beginning with the book that the one before it has
left. -/
def Stage.Lead : Book → List Stage → Book → Prop
  | b, [], b' => b = b'
  | b, s :: stages, b' =>
      s.before = b ∧ Lead s.remaining stages b'

namespace Stage

variable {s : Stage}
variable {o : Order}
variable {now : Timestamp}
variable {symbol : String}
variable {log : List Event}
variable {queue : List Order}

theorem executes
    (hReached :
      Floor.Reached symbol log ⟨s.before, o :: queue⟩)
    (hLive : s.before.halted = false)
    (hPass :
      s.before.pass? o.activate now =
        some (s.pass, s.after))
    (hIntact : s.pass.violation = none) :
    s.Executes o now where
  pass_eq := hPass
  intact := hIntact
  alone :=
    standsAlone hPass hIntact hReached.isOrderly hLive
  sorted := by
    rcases hReached.activate.pass? hPass with
      ⟨inFlight, hAfter, _⟩
    unfold released Book.releaseAfter
    split
    · exact List.Pairwise.nil
    · exact hAfter.isRanked.pairwise_release

theorem remaining_halted
    (hPass :
      s.before.pass? o now = some (s.pass, s.after)) :
    s.remaining.halted = s.before.halted := by
  have hReleased := s.after.door_releaseAfter s.pass
  have hDoor := (Book.passes_of_pass? hPass).door_eq
  exact congrArg Prod.snd (hReleased.trans hDoor)

end Stage

namespace Book

/- A waiting order is known to wait. -/
theorem isPendingStop_of_mem_waiting
    {b : Book}
    {w : Order}
    (hNodup : (b.allOrders.map Order.id).Nodup)
    (hw : w ∈ b.waiting) :
    b.isPendingStop w.id = true := by
  have hShelved : (w, Policy.stop) ∈ b.shelved :=
    List.mem_append_right _ (List.mem_map_of_mem hw)
  unfold isPendingStop
  rw [(locate?_eq_some_iff hNodup).2 ⟨hShelved, rfl⟩]
  rfl

namespace Course

variable {now : Timestamp}
variable {queue : List Order}
variable {b b' : Book}
variable {stages early later : List Stage}
variable {s : Stage}
variable {symbol : String}
variable {log : List Event}

/- The orders of the queue are executed first, then the
released ones in the order of their release. -/
theorem executes
    (h : Course now queue b stages b')
    (hReached : Floor.Reached symbol log ⟨b, queue⟩)
    (hLive : b.halted = false) :
    List.Forall₂ (fun s w => s.Executes w now) stages
      (queue ++ stages.flatMap Stage.released) := by
  induction h generalizing log with
  | done => exact List.Forall₂.nil
  | step hPass hIntact _ ih =>
      have hNext :=
        ih (hReached.step hPass hIntact)
          ((Stage.remaining_halted hPass).trans hLive)
      rw [List.append_assoc] at hNext
      exact
        List.Forall₂.cons
          (Stage.executes hReached hLive hPass hIntact)
          hNext

theorem lead
    (h : Course now queue b stages b') :
    Stage.Lead b stages b' := by
  induction h with
  | done => rfl
  | step _ _ _ ih => exact ⟨rfl, ih⟩

/-
  A waiting order is released by the first stage of a course
  whose last trade reaches it, and by no other one.
-/
theorem mem_released_iff_first
    {w : Order}
    (h : Course now queue b (early ++ s :: later) b')
    (hReached : Floor.Reached symbol log ⟨b, queue⟩) :
    w ∈ s.released ↔
      w ∈ b.waiting ∧ s.EndsAt w ∧
        ∀ s' ∈ early, ¬ s'.EndsAt w := by
  rcases h.exists_split hReached with
    ⟨queue₁, b₁, log₁, hLater, hReached₁, hPerm⟩
  rcases hLater.exists_of_cons with
    ⟨o, rest, rfl, rfl, hPass, _, _⟩
  rw [Stage.mem_released_iff hReached₁ hPass]
  have hLeft :
      w ∈ b.waiting →
        (w ∈ s.before.waiting ↔
          ∀ s' ∈ early, ¬ s'.EndsAt w) := by
    intro hWaiting
    have hGone :=
      h.mem_released_iff_of_append hReached hWaiting
    have hParts :=
      Order.mem_left_iff (hPerm.map Order.id)
        hReached.nodup_waiting
        (List.mem_map_of_mem hWaiting)
    rw [hGone] at hParts
    push Not at hParts
    rw [← hParts]
    constructor
    · exact fun hw => List.mem_map_of_mem hw
    · intro hId
      rcases List.mem_map.1 hId with ⟨w', hw', hEq⟩
      have hSame :=
        List.inj_on_of_nodup_map hReached.nodup_waiting
          (hPerm.subset (List.mem_append_left _ hw'))
          hWaiting hEq
      exact hSame ▸ hw'
  constructor
  · rintro ⟨hBefore, hEnds⟩
    have hWaiting : w ∈ b.waiting :=
      hPerm.subset (List.mem_append_left _ hBefore)
    exact ⟨hWaiting, hEnds, (hLeft hWaiting).1 hBefore⟩
  · rintro ⟨hWaiting, hEnds, hNever⟩
    exact ⟨(hLeft hWaiting).2 hNever, hEnds⟩

/- Nobody is released twice. -/
theorem nodup_released
    (h : Course now queue b stages b')
    (hReached : Floor.Reached symbol log ⟨b, queue⟩) :
    ((stages.flatMap Stage.released).map
      Order.id).Nodup := by
  have hPerm := h.waiting_perm.map Order.id
  have hNodup := hPerm.nodup_iff.2 hReached.nodup_waiting
  rw [List.map_append] at hNodup
  exact hNodup.sublist (List.sublist_append_right _ _)

end Course

end Book

------------------------------------------------------------
-- Reports
------------------------------------------------------------

/-
  What the report on an order says of the stages of its
  submission, which leads from the book of `e` to the book
  `after`.  The submitted order is the first one to be
  executed, and then come the released ones in the order of
  their release.
-/
structure Report.Recounts
    (r : Report)
    (e : Engine)
    (o : Order)
    (now : Timestamp)
    (stages : List Stage)
    (after : Book) : Prop where
  parked :
    e.mustWait o = true →
      stages = [] ∧ e.book.place .stop o = .ok after
  executed :
    e.mustWait o = false →
      Stage.Lead e.book stages after ∧
        List.Forall₂ (fun s w => s.Executes w now) stages
          (o :: stages.flatMap Stage.released)
  trades_eq :
    r.trades = stages.flatMap fun s => s.pass.trades
  triggered_eq :
    r.triggered =
      (stages.flatMap Stage.released).map Order.id
  nodup : r.triggered.Nodup
  waited : ∀ id ∈ r.triggered, e.book.isPendingStop id
  released_iff :
    ∀ early s later, stages = early ++ s :: later →
      ∀ w, w ∈ s.released ↔
        w ∈ e.book.waiting ∧ s.EndsAt w ∧
          ∀ s' ∈ early, ¬ s'.EndsAt w

namespace Engine

variable {e e' : Engine}
variable {o : Order}
variable {now : Timestamp}
variable {r : Report}
variable {stages : List Stage}
variable {b : Book}
variable {symbol : String}
variable {log : List Event}

/- A parked order has no stages to tell of. -/
theorem Succeeds.recounts_of_mustWait
    (h : e.Succeeds o now stages r b)
    (hWait : e.mustWait o = true) :
    r.Recounts e o now stages b := by
  cases h with
  | executed hGo =>
      rw [hWait] at hGo
      cases hGo
  | parked _ hPlace =>
      constructor
      case parked => exact fun _ => ⟨rfl, hPlace⟩
      case executed =>
        intro hGo
        rw [hWait] at hGo
        cases hGo
      case trades_eq => rfl
      case triggered_eq => rfl
      case nodup => exact List.nodup_nil
      case waited =>
        intro id hId
        cases hId
      case released_iff =>
        intro early s later hStages
        simp at hStages

theorem Succeeds.recounts
    (h : e.Succeeds o now stages r b)
    (hReached : Floor.Reached symbol log ⟨e.book, [o]⟩)
    (hLive : e.book.halted = false) :
    r.Recounts e o now stages b := by
  cases hWait : e.mustWait o with
  | true => exact h.recounts_of_mustWait hWait
  | false =>
      have hTriggered := h.triggered_eq
      cases h with
      | parked hParked =>
          rw [hWait] at hParked
          cases hParked
      | executed _ hCourse =>
          have hPerm := hCourse.waiting_perm
          constructor
          case parked =>
            intro hParked
            rw [hWait] at hParked
            cases hParked
          case executed =>
            exact fun _ =>
              ⟨hCourse.lead,
                hCourse.executes hReached hLive⟩
          case trades_eq => rfl
          case triggered_eq => exact hTriggered
          case nodup =>
            rw [hTriggered]
            exact hCourse.nodup_released hReached
          case waited =>
            intro id hId
            rw [hTriggered] at hId
            rcases List.mem_map.1 hId with ⟨w, hw, rfl⟩
            have hNodup := hReached.present.nodup
            rw [Floor.orders, List.map_append] at hNodup
            exact
              Book.isPendingStop_of_mem_waiting
                hNodup.of_append_left
                (hPerm.subset (List.mem_append_right _ hw))
          case released_iff =>
            intro early s later hStages w
            rw [hStages] at hCourse
            exact hCourse.mem_released_iff_first hReached

/-
  In every run the report on a successful submission recounts
  its passes: who is released by which of them, in which order
  the released orders are executed, and that each of them is
  executed as if it were submitted at that moment.
-/
theorem Run.exists_recounts
    (h : Run symbol log e)
    (hSubmit : e.submit? o now = some (.ok r, e')) :
    ∃ stages, r.Recounts e o now stages e'.book := by
  rcases h.exists_succeeds hSubmit with
    ⟨stages, hSucceeds, hEntered⟩
  have hIn := (Engine.exists_succeeds hSubmit).1
  exact ⟨stages, hSucceeds.recounts hEntered hIn.1⟩

/- Two sellers and a buyer, and a seller and a buyer that both
wait for 100. -/
def crowdFlow : List Order :=
  [.ordinary 1 .sell (some (.ofParts 100 0)) (.ofParts 1 0),
    .ordinary 2 .sell (some (.ofParts 101 0)) (.ofParts 1 0),
    .ordinary 3 .buy (some (.ofParts 99 0)) (.ofParts 1 0),
    .ordinaryStop 4 .sell (.ofParts 100 0) (.ofParts 1 0),
    .ordinaryStop 5 .buy (.ofParts 100 0) (.ofParts 1 0)]

/- The buyer that trades at 100. -/
def crowdBuy : Order :=
  .ordinary 6 .buy (some (.ofParts 100 0)) (.ofParts 1 0)

/- The buyer is released before the seller. -/
theorem exists_recounts_of_crowd :
    ∃ r e',
      (played "BTC-USDT" crowdFlow).2.submit? crowdBuy
          (.ofNanos 0) = some (.ok r, e') ∧
      (r.triggered = [5, 4] ∧
        r.trades.map Trade.price =
          [.ofParts 100 0, .ofParts 101 0, .ofParts 99 0]) ∧
      ∃ stages,
        r.Recounts (played "BTC-USDT" crowdFlow).2 crowdBuy
          (.ofNanos 0) stages e'.book := by
  have hReport :
      ∃ r e',
        (played "BTC-USDT" crowdFlow).2.submit? crowdBuy
            (.ofNanos 0) = some (.ok r, e') ∧
          (r.triggered = [5, 4] ∧
            r.trades.map Trade.price =
              [.ofParts 100 0, .ofParts 101 0,
                .ofParts 99 0]) := by
    apply exists_report
    decide +kernel
  rcases hReport with ⟨r, e', hSubmit, hSeen⟩
  have hRun := run_played "BTC-USDT" crowdFlow
  exact
    ⟨r, e', hSubmit, hSeen, hRun.exists_recounts hSubmit⟩

end Engine

end Matchbook
