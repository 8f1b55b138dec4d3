import Matchbook.Proofs.Decimal.Exact
import Matchbook.Proofs.Engine.Effect

/-
  Whether the disposition in a report tells the truth about
  the submitted order when the submission is over.

  The disposition is what has become of the order in its own
  pass.  It is still true in the end, unless what has rested
  is filled by an order that was released afterwards.

  Key definitions include:
    * `Order.HasPending`
    * `Report.TellsTruth`

  The main statements are:
    * `Matching.Runs.replay?_taker`
    * `Report.tellsTruth_of_gone`
    * `Engine.Succeeds.tellsTruth_of_rested`
    * `Engine.Run.tellsTruth_iff`
-/

------------------------------------------------------------
-- Pending quantities
------------------------------------------------------------

namespace Matchbook

namespace Order

/- Whether a quantity is pending of an order, by value. -/
def HasPending (o : Order) (quantity : Decimal) : Prop :=
  ∃ pending, o.pending? = some pending ∧
    Decimal.Same pending quantity

/- Nothing is pending of filled orders only. -/
theorem pending_eq_zero_iff
    {o : Order}
    {pending : Decimal}
    (h : o.pending? = some pending) :
    pending.units = 0 ↔ o.IsFilled :=
  (Decimal.units_sub?_eq_zero_iff h).trans eq_comm

theorem HasPending.congr
    {o : Order}
    {quantity quantity' : Decimal}
    (h : o.HasPending quantity)
    (hSame : Decimal.Same quantity quantity') :
    o.HasPending quantity' := by
  rcases h with ⟨pending, hPending, hUnits⟩
  exact ⟨pending, hPending, Eq.trans hUnits hSame⟩

theorem HasPending.not_isFilled
    {o o' : Order}
    {quantity : Decimal}
    (h : o.HasPending quantity)
    (hPending : o'.pending? = some quantity)
    (hOpen : ¬ o'.IsFilled) :
    ¬ o.IsFilled := by
  rcases h with ⟨pending, hSame, hUnits⟩
  unfold Decimal.Same at hUnits
  rw [← pending_eq_zero_iff hSame, hUnits,
    pending_eq_zero_iff hPending]
  exact hOpen

end Order

------------------------------------------------------------
-- Takers
------------------------------------------------------------

/- What an ending says about the taker of a pass. -/
def Ending.Describes : Ending → Order → Prop
  | .filled, taker => taker.IsFilled
  | .rested remaining, taker =>
      ¬ taker.IsFilled ∧ taker.pending? = some remaining
  | .discarded remaining, taker =>
      ¬ taker.IsFilled ∧ taker.pending? = some remaining
  | .broken _, _ => True

theorem Ending.eq_rested_of_disposition
    {ending : Ending}
    {remaining : Decimal}
    (h : ending.disposition = .ok (.rested remaining)) :
    ending = .rested remaining := by
  cases ending with
  | rested => cases h; rfl
  | _ => cases h

/- An ending does not depend on the stop price. -/
theorem Ending.Describes.of_stopPrice
    {ending : Ending}
    {o : Order}
    {stop : Option Decimal}
    (h : ending.Describes { o with stopPrice := stop }) :
    ending.Describes o := by
  cases ending with
  | filled => exact h
  | rested => exact h
  | discarded => exact h
  | broken => trivial

section Takers

variable {now : Timestamp}
variable {taker : Order}

theorem Book.Passes.describes
    {b b' : Book}
    {p : Pass}
    (h : b.Passes now taker p b') :
    p.ending.Describes p.taker := by
  cases h with
  | broken => trivial
  | finished _ _ hFinish =>
      cases hFinish with
      | filled hFilled => exact hFilled
      | discarded hOpen hPending => exact ⟨hOpen, hPending⟩
      | rested hOpen hPending => exact ⟨hOpen, hPending⟩
      | broken => trivial

/- A taker is filled by the trades of its pass. -/
theorem Matching.Runs.replay?_taker
    {id : UInt64}
    {makers : List (Entry Order)}
    {m : Matching}
    (h : Runs now id makers taker m) :
    taker.replay? m.trades = some m.taker := by
  induction h with
  | filled => rfl
  | empty => rfl
  | apart => rfl
  | broken => rfl
  | @traded id e rest taker d m _ hMeet _ ih =>
      have hStruck := (Deal.isStruck_of_meet? hMeet).1
      have hInvolves : d.trade.Involves taker.id :=
        Or.inr hStruck.takerOrderId_eq
      change
        taker.replay? (d.trade :: m.trades) = some m.taker
      rw [Order.replay?_cons, Order.after?,
        if_pos hInvolves, hStruck.taker_eq]
      exact ih

/- No trade of a pass has another taker. -/
theorem Matching.Runs.takerOrderId_eq
    {id : UInt64}
    {makers : List (Entry Order)}
    {m : Matching}
    (h : Runs now id makers taker m) :
    ∀ t ∈ m.trades, t.takerOrderId = taker.id := by
  induction h with
  | filled => exact List.forall_mem_nil _
  | empty => exact List.forall_mem_nil _
  | apart => exact List.forall_mem_nil _
  | broken => exact List.forall_mem_nil _
  | @traded id e rest taker d m _ hMeet _ ih =>
      have hStruck := (Deal.isStruck_of_meet? hMeet).1
      have hSame : d.taker.id = taker.id := by
        rw [hStruck.taker_with_filled]
      intro t ht
      rcases List.mem_cons.1 ht with rfl | hLater
      · exact hStruck.takerOrderId_eq
      · exact (ih t hLater).trans hSame

namespace Book

variable {b b' : Book}
variable {p : Pass}

theorem Passes.replay?_taker
    (h : b.Passes now taker p b') :
    taker.replay? p.trades = some p.taker := by
  cases h with
  | broken hRuns => exact hRuns.replay?_taker
  | finished hRuns => exact hRuns.replay?_taker

theorem Passes.takerOrderId_eq
    (h : b.Passes now taker p b') :
    ∀ t ∈ p.trades, t.takerOrderId = taker.id := by
  cases h with
  | broken hRuns => exact hRuns.takerOrderId_eq
  | finished hRuns => exact hRuns.takerOrderId_eq

/- No trade of a stage has another taker. -/
theorem Course.takerOrderId_eq
    {queue : List Order}
    {stages : List Stage}
    (h : Course now queue b stages b') :
    ∀ s ∈ stages, ∀ t ∈ s.pass.trades,
      t.takerOrderId = s.takerId := by
  induction h with
  | done => exact List.forall_mem_nil _
  | @step o rest s stages _ hPass _ _ ih =>
      intro s' hs' t ht
      rcases List.mem_cons.1 hs' with rfl | hLater
      · rw [Stage.takerId_eq hPass]
        exact (passes_of_pass? hPass).takerOrderId_eq t ht
      · exact ih s' hLater t ht

end Book

end Takers

------------------------------------------------------------
-- True dispositions
------------------------------------------------------------

namespace Disposition

/- Whether a quantity has rested, by value. -/
def IsRested (d : Disposition) (quantity : Decimal) : Prop :=
  ∃ remaining, d = .rested remaining ∧
    Decimal.Same remaining quantity

/- Whether a quantity was discarded, by value. -/
def IsDiscarded
    (d : Disposition)
    (quantity : Decimal) : Prop :=
  ∃ remaining, d = .discarded remaining ∧
    Decimal.Same remaining quantity

end Disposition

namespace Report

/-
  Whether the disposition is what has become of the submitted
  order: `b` is the book at the end, and `final` the order as
  all its trades have left it.
-/
structure TellsTruth
    (r : Report)
    (b : Book)
    (final : Order) : Prop where
  filled_iff :
    r.disposition = .filled ↔
      b.contains final.id = false ∧ final.IsFilled
  isFullyFilled_iff :
    r.isFullyFilled = true ↔
      b.contains final.id = false ∧ final.IsFilled
  rested_iff :
    ∀ quantity, r.disposition.IsRested quantity ↔
      ∃ x, b.locate? final.id = some (x, .price) ∧
        x.HasPending quantity
  parked_iff :
    r.disposition = .parked ↔
      ∃ x, b.locate? final.id = some (x, .stop)
  discarded_iff :
    ∀ quantity, r.disposition.IsDiscarded quantity ↔
      b.contains final.id = false ∧ ¬ final.IsFilled ∧
        final.HasPending quantity

variable {r : Report} {b : Book} {final x : Order}

theorem isFullyFilled_eq_true_iff :
    r.isFullyFilled = true ↔ r.disposition = .filled := by
  unfold isFullyFilled
  exact decide_eq_true_iff

/- An order that is gone was filled or discarded. -/
theorem tellsTruth_of_gone
    {ending : Ending}
    (hEnding : ending.disposition = .ok r.disposition)
    (hLeaves : ending.leaves = true)
    (hDescribes : ending.Describes final)
    (hGone : b.locate? final.id = none) :
    r.TellsTruth b final := by
  have hAbsent := Book.locate?_eq_none_iff.1 hGone
  cases ending with
  | rested => cases hLeaves
  | broken => cases hLeaves
  | filled =>
      have hDisposition : r.disposition = .filled :=
        (Except.ok.inj hEnding).symm
      have hFilled : final.IsFilled := hDescribes
      constructor <;>
        simp [isFullyFilled_eq_true_iff,
          Disposition.IsRested, Disposition.IsDiscarded,
          hDisposition, hGone, hAbsent, hFilled]
  | discarded remaining =>
      have hDisposition :
          r.disposition = .discarded remaining :=
        (Except.ok.inj hEnding).symm
      rcases hDescribes with ⟨hOpen, hPending⟩
      constructor <;>
        simp [isFullyFilled_eq_true_iff,
          Disposition.IsRested, Disposition.IsDiscarded,
          Order.HasPending, hDisposition, hGone, hAbsent,
          hOpen, hPending]

/- An order that rests. -/
theorem tellsTruth_of_rested
    {remaining : Decimal}
    (hDisposition : r.disposition = .rested remaining)
    (hRests : b.locate? final.id = some (x, .price))
    (hPending : x.HasPending remaining) :
    r.TellsTruth b final := by
  have hHeld : b.contains final.id = true := by
    rw [Book.contains, hRests]
    rfl
  rcases hPending with ⟨pending, hPending, hSame⟩
  unfold Decimal.Same at hSame
  constructor <;>
    simp [isFullyFilled_eq_true_iff, Disposition.IsRested,
      Disposition.IsDiscarded, Order.HasPending,
      Decimal.Same, hDisposition, hRests, hHeld, hPending,
      hSame]

/- An order that waits. -/
theorem tellsTruth_of_parked
    (hDisposition : r.disposition = .parked)
    (hWaits : b.locate? final.id = some (x, .stop)) :
    r.TellsTruth b final := by
  have hHeld : b.contains final.id = true := by
    rw [Book.contains, hWaits]
    rfl
  constructor <;>
    simp [isFullyFilled_eq_true_iff, Disposition.IsRested,
      Disposition.IsDiscarded, hDisposition, hWaits, hHeld]

end Report

------------------------------------------------------------
-- Submitted orders in the end
------------------------------------------------------------

/-
  The submitted order as all its trades have left it.  The
  orders `os` are those in the book and those that are gone.
-/
structure Order.EndsAs
    (o : Order)
    (ts : List Trade)
    (os : List Order)
    (final : Order) : Prop where
  replay_eq : o.replay? ts = some final
  id_eq : final.id = o.id
  exists_mem : ∃ x ∈ os, x.id = o.id
  eq_of_mem :
    ∀ x ∈ os, x.id = o.id →
      x = { final with stopPrice := x.stopPrice }

namespace Engine

variable {symbol : String} {log : List Event}
variable {e e' : Engine} {o final : Order}
variable {now : Timestamp}
variable {r : Report} {stages others : List Stage}
variable {first : Stage} {b : Book}

theorem Succeeds.exists_endsAs
    (h : e.Succeeds o now stages r b)
    (hReached : Floor.Reached symbol log ⟨e.book, [o]⟩) :
    ∃ final,
      o.EndsAs r.trades
        (b.allOrders ++
          stages.flatMap fun s => s.pass.gone)
        final := by
  have hSelf : o ∈ o :: e.book.allOrders :=
    List.mem_cons_self ..
  have hStill :=
    (h.evolves hReached).ids_perm.mem_iff.2
      (List.mem_map_of_mem hSelf)
  rcases List.mem_map.1 hStill with ⟨x, hx, hId⟩
  have hBecomes := h.becomes hReached hSelf hx hId
  refine ⟨_, hBecomes.replay_eq, rfl, ⟨x, hx, hId⟩, ?_⟩
  intro y hy hId'
  have hOther := h.becomes hReached hSelf hy hId'
  have hSame := hOther.replay_eq
  rw [hBecomes.replay_eq] at hSame
  rw [Option.some.inj hSame]
  exact hOther.order_eq

/- The submitted order does not wait before. -/
theorem id_ne_of_mem_waiting
    {x : Order}
    (hReached : Floor.Reached symbol log ⟨e.book, [o]⟩)
    (hx : x ∈ e.book.waiting) :
    x.id ≠ o.id := by
  intro hId
  apply Floor.fresh_of_present hReached.present
  rw [← hId, Book.allOrders_eq_append]
  exact List.mem_map_of_mem (List.mem_append_right _ hx)

/- The submitted order is not one that is released. -/
theorem Succeeds.not_mem_triggered
    (h : e.Succeeds o now stages r b)
    (hReached : Floor.Reached symbol log ⟨e.book, [o]⟩) :
    o.id ∉ r.triggered := by
  rw [h.triggered_eq]
  cases h with
  | parked => exact List.not_mem_nil
  | executed _ hCourse =>
      intro hReleased
      rcases List.mem_map.1 hReleased with ⟨x, hx, hId⟩
      refine id_ne_of_mem_waiting hReached ?_ hId
      apply hCourse.waiting_perm.subset
      exact List.mem_append_right _ hx

/- No trade of a stage has another taker. -/
theorem Succeeds.takerOrderId_eq
    (h : e.Succeeds o now stages r b) :
    ∀ s ∈ stages, ∀ t ∈ s.pass.trades,
      t.takerOrderId = s.takerId := by
  cases h with
  | parked => exact List.forall_mem_nil _
  | executed _ hCourse => exact hCourse.takerOrderId_eq

/- The first stage is the pass of the submitted order. -/
theorem Succeeds.of_cons
    (h : e.Succeeds o now (first :: others) r b) :
    first.before.pass? o.activate now =
        some (first.pass, first.after) ∧
      first.pass.ending.disposition = .ok r.disposition ∧
      Book.Course now [o] e.book (first :: others) b ∧
      r.triggered = others.map Stage.takerId := by
  cases h with
  | executed _ hCourse hEnding =>
      rcases hCourse.exists_of_cons with
        ⟨_, _, hQueue, _, hPass, _⟩
      cases hQueue
      exact ⟨hPass, hEnding, hCourse, rfl⟩

section FirstStage

variable
    (h : e.Succeeds o now (first :: others) r b)
    (hReached : Floor.Reached symbol log ⟨e.book, [o]⟩)
    (hFinal :
      o.EndsAs r.trades
        (b.allOrders ++
          (first :: others).flatMap fun s => s.pass.gone)
        final)

include h hReached hFinal

/- An order that leaves in its own pass. -/
theorem Succeeds.tellsTruth_of_leaves
    (hLeaves : first.pass.ending.leaves = true) :
    r.TellsTruth b final := by
  rcases h.of_cons with ⟨hPass, hEnding, _⟩
  have hId : first.pass.taker.id = o.id :=
    Stage.takerId_eq hPass
  have hGone : first.pass.taker ∈ first.pass.gone :=
    Pass.mem_gone_iff.2 (Or.inr ⟨hLeaves, rfl⟩)
  have hMem :
      first.pass.taker ∈
        (first :: others).flatMap fun s => s.pass.gone :=
    List.mem_flatMap.2 ⟨first, List.mem_cons_self .., hGone⟩
  have hTaker :=
    hFinal.eq_of_mem _ (List.mem_append_right _ hMem) hId
  have hDescribes := (Book.passes_of_pass? hPass).describes
  rw [hTaker] at hDescribes
  refine
    Report.tellsTruth_of_gone hEnding hLeaves
      hDescribes.of_stopPrice ?_
  rw [Book.locate?_eq_none_iff, hFinal.id_eq,
    h.contains_eq_false_iff hReached
      (List.mem_map_of_mem (List.mem_cons_self ..))]
  exact ⟨first, List.mem_cons_self .., _, hGone, hId⟩

/- An order that rests and is never filled afterwards is still
in the book. -/
theorem Succeeds.tellsTruth_of_rested
    {remaining : Decimal}
    (hRested : first.pass.ending = .rested remaining)
    (hPending : final.HasPending remaining) :
    r.TellsTruth b final := by
  rcases h.of_cons with
    ⟨hPass, hEnding, hCourse, hTriggered⟩
  rw [hRested] at hEnding
  have hDescribes := (Book.passes_of_pass? hPass).describes
  rw [hRested] at hDescribes
  have hOpen : ¬ final.IsFilled :=
    hPending.not_isFilled hDescribes.2 hDescribes.1
  rcases hFinal.exists_mem with ⟨x, hx, hId⟩
  have hSame := hFinal.eq_of_mem x hx hId
  have hNotGone :
      ∀ s ∈ first :: others, x ∉ s.pass.gone := by
    intro s hs hGone
    rcases Pass.mem_gone_iff.1 hGone with
      ⟨_, _, _, hFilled⟩ | ⟨hLeaves, hTaker⟩
    · rw [hSame] at hFilled
      exact hOpen hFilled
    · rcases List.mem_cons.1 hs with rfl | hLater
      · rw [hRested] at hLeaves
        cases hLeaves
      · apply h.not_mem_triggered hReached
        rw [hTriggered, ← hId, ← hTaker]
        exact List.mem_map_of_mem (f := Stage.takerId) hLater
  have hActive : x ∈ b.active := by
    rw [Book.allOrders_eq_append] at hx
    rcases List.mem_append.1 hx with hHeld | hGone
    · refine (List.mem_append.1 hHeld).resolve_right ?_
      intro hWaiting
      refine id_ne_of_mem_waiting hReached ?_ hId
      apply hCourse.waiting_perm.subset
      exact List.mem_append_left _ hWaiting
    · rcases List.mem_flatMap.1 hGone with ⟨s, hs, hGone⟩
      exact absurd hGone (hNotGone s hs)
  have hFound :
      b.locate? final.id = some (x, .price) := by
    rw [Book.locate?_eq_some_iff
      (h.accountsFor hReached).nodup_after, hFinal.id_eq]
    refine ⟨List.mem_append_left _ ?_, hId⟩
    exact List.mem_map_of_mem hActive
  refine
    Report.tellsTruth_of_rested (Except.ok.inj hEnding).symm
      hFound ?_
  rw [hSame]
  exact hPending

/- An order that is never a maker is not filled after its own
pass. -/
theorem Succeeds.hasPending_of_not_maker
    {remaining : Decimal}
    (hRested : first.pass.ending = .rested remaining)
    (hNever : ∀ t ∈ r.trades, t.makerOrderId ≠ o.id) :
    final.HasPending remaining := by
  rcases h.of_cons with ⟨hPass, _, _, hTriggered⟩
  have hPasses := Book.passes_of_pass? hPass
  have hDescribes := hPasses.describes
  rw [hRested] at hDescribes
  have hFirst := hPasses.replay?_taker
  rw [Order.replay?_activate] at hFirst
  rcases Option.map_eq_some_iff.1 hFirst with
    ⟨o', hReplay, hTaker⟩
  have hId : o'.id = o.id := by
    have hTakerId := Stage.takerId_eq hPass
    unfold Stage.takerId at hTakerId
    rw [← hTaker] at hTakerId
    exact hTakerId
  have hTrades :
      r.trades =
        first.pass.trades ++
          others.flatMap fun s => s.pass.trades := by
    rw [h.trades_eq, List.map_flatMap]
    rfl
  have hLater :
      ∀ t ∈ others.flatMap fun s => s.pass.trades,
        ¬ t.Involves o'.id := by
    intro t ht
    rw [hId]
    rintro (hMaker | hSelf)
    · refine hNever t ?_ hMaker
      rw [hTrades]
      exact List.mem_append_right _ ht
    · rcases List.mem_flatMap.1 ht with ⟨s, hs, ht⟩
      apply h.not_mem_triggered hReached
      rw [hTriggered, ← hSelf,
        h.takerOrderId_eq s (List.mem_cons_of_mem _ hs) t ht]
      exact List.mem_map_of_mem hs
  have hFinalReplay := hFinal.replay_eq
  rw [hTrades, Order.replay?_append, hReplay,
    Option.bind_some, Order.replay?_of_not_involved hLater]
    at hFinalReplay
  cases hFinalReplay
  refine ⟨remaining, ?_, rfl⟩
  have hPending := hDescribes.2
  rw [← hTaker] at hPending
  exact hPending

end FirstStage

section Fate

variable
    (h : e.Succeeds o now stages r b)
    (hReached : Floor.Reached symbol log ⟨e.book, [o]⟩)
    (hFinal :
      o.EndsAs r.trades
        (b.allOrders ++
          stages.flatMap fun s => s.pass.gone)
        final)

include h hReached hFinal

/- What is reported to have rested has to be pending in the
end. -/
theorem Succeeds.hasPending_of_tellsTruth
    (hTruth : r.TellsTruth b final)
    {quantity : Decimal}
    (hRested : r.disposition.IsRested quantity) :
    final.HasPending quantity := by
  rcases (hTruth.rested_iff quantity).1 hRested with
    ⟨x, hFound, hPending⟩
  rw [Book.locate?_eq_some_iff
    (h.accountsFor hReached).nodup_after] at hFound
  rcases hFound with ⟨hShelved, hId⟩
  have hHeld : x ∈ b.allOrders := by
    rw [← Book.map_fst_shelved]
    exact List.mem_map_of_mem (f := Prod.fst) hShelved
  rw [hFinal.eq_of_mem x (List.mem_append_left _ hHeld)
    (hId.trans hFinal.id_eq)] at hPending
  exact hPending

/- If it is, then the disposition is true. -/
theorem Succeeds.tellsTruth_of_hasPending
    (hStill :
      ∀ quantity, r.disposition.IsRested quantity →
        final.HasPending quantity) :
    r.TellsTruth b final := by
  cases stages with
  | nil =>
      have hNodup := (h.accountsFor hReached).nodup_after
      cases h with
      | parked _ hPlace =>
          have hPerm :=
            Book.waiting_place_stop_perm hReached.isRanked
              (Floor.fresh_of_present hReached.present)
              hPlace
          have hWaiting :=
            hPerm.mem_iff.2 (List.mem_cons_self ..)
          refine
            Report.tellsTruth_of_parked (x := o) rfl ?_
          rw [Book.locate?_eq_some_iff hNodup]
          refine
            ⟨List.mem_append_right _ ?_, hFinal.id_eq.symm⟩
          exact List.mem_map_of_mem hWaiting
  | cons first others =>
      have hEnding := h.of_cons.2.1
      cases hWhich : first.pass.ending with
      | filled =>
          apply h.tellsTruth_of_leaves hReached hFinal
          rw [hWhich]
          rfl
      | discarded =>
          apply h.tellsTruth_of_leaves hReached hFinal
          rw [hWhich]
          rfl
      | rested remaining =>
          rw [hWhich] at hEnding
          apply h.tellsTruth_of_rested hReached hFinal hWhich
          exact
            hStill remaining
              ⟨remaining, (Except.ok.inj hEnding).symm, rfl⟩
      | broken =>
          rw [hWhich] at hEnding
          cases hEnding

/- It always is, unless the order has met a released one. -/
theorem Succeeds.hasPending_of_isRested
    (hNever : ∀ t ∈ r.trades, t.makerOrderId ≠ o.id)
    {quantity : Decimal}
    (hRested : r.disposition.IsRested quantity) :
    final.HasPending quantity := by
  rcases hRested with ⟨remaining, hDisposition, hSame⟩
  cases stages with
  | nil =>
      cases h with
      | parked => cases hDisposition
  | cons first others =>
      have hEnding := h.of_cons.2.1
      rw [hDisposition] at hEnding
      have hPending :=
        h.hasPending_of_not_maker hReached hFinal
          (Ending.eq_rested_of_disposition hEnding) hNever
      exact hPending.congr hSame

end Fate

/-
  The disposition of a submitted order is true in the end just
  when what it reports to have rested is still pending.  This
  is so whenever the order was a maker of no trade, that is,
  unless it has rested and then met an order that was released
  after it.
-/
theorem Run.tellsTruth_iff
    (h : Run symbol log e)
    (hSubmit : e.submit? o now = some (.ok r, e')) :
    ∃ final, o.replay? r.trades = some final ∧
      (r.TellsTruth e'.book final ↔
        ∀ quantity, r.disposition.IsRested quantity →
          final.HasPending quantity) ∧
      ((∀ t ∈ r.trades, t.makerOrderId ≠ o.id) →
        r.TellsTruth e'.book final) := by
  rcases h.exists_succeeds hSubmit with
    ⟨stages, hSucceeds, hReached⟩
  rcases hSucceeds.exists_endsAs hReached with
    ⟨final, hFinal⟩
  have hBack :=
    hSucceeds.tellsTruth_of_hasPending hReached hFinal
  refine ⟨final, hFinal.replay_eq, ⟨?_, hBack⟩, ?_⟩
  · intro hTruth quantity hRested
    exact
      hSucceeds.hasPending_of_tellsTruth hReached hFinal
        hTruth hRested
  · intro hNever
    apply hBack
    intro quantity hRested
    exact
      hSucceeds.hasPending_of_isRested hReached hFinal hNever
        hRested

/- A waiting seller, and a seller at its stop price. -/
def ambushFlow : List Order :=
  [.ordinaryStop 2 .sell (.ofParts 100 0) (.ofParts 1 0),
    .ordinary 1 .sell (some (.ofParts 100 0))
      (.ofParts 1 0)]

/- The buyer that trades with the second seller, rests and is
filled by the first one. -/
def ambushBuy : Order :=
  .ordinary 3 .buy (some (.ofParts 100 0)) (.ofParts 2 0)

/- Neither side holds of the buyer when the first seller
waits; both do when it is not there. -/
theorem tellsTruth_iff_of_ambush :
    (∃ r e',
      (played "BTC-USDT" ambushFlow).2.submit? ambushBuy
          (.ofNanos 0) = some (.ok r, e') ∧
      r.triggered = [2] ∧
      ∃ final, ambushBuy.replay? r.trades = some final ∧
        (r.TellsTruth e'.book final ↔
          ∀ quantity, r.disposition.IsRested quantity →
            final.HasPending quantity) ∧
        ((∀ t ∈ r.trades, t.makerOrderId ≠ ambushBuy.id) →
          r.TellsTruth e'.book final)) ∧
    ∃ r e',
      (played "BTC-USDT" (ambushFlow.drop 1)).2.submit?
          ambushBuy (.ofNanos 0) = some (.ok r, e') ∧
      r.disposition = .rested (.ofParts 1 0) ∧
      r.trades.length = 1 ∧
      ∃ final, ambushBuy.replay? r.trades = some final ∧
        r.TellsTruth e'.book final ∧
        ∀ quantity, r.disposition.IsRested quantity →
          final.HasPending quantity := by
  constructor
  · have hReport :
        ∃ r e',
          (played "BTC-USDT" ambushFlow).2.submit? ambushBuy
              (.ofNanos 0) = some (.ok r, e') ∧
            r.triggered = [2] := by
      apply exists_report
      decide +kernel
    rcases hReport with ⟨r, e', hSubmit, hSeen⟩
    have hRun := run_played "BTC-USDT" ambushFlow
    exact ⟨r, e', hSubmit, hSeen, hRun.tellsTruth_iff hSubmit⟩
  · have hReport :
        ∃ r e',
          (played "BTC-USDT" (ambushFlow.drop 1)).2.submit?
              ambushBuy (.ofNanos 0) = some (.ok r, e') ∧
            r.disposition = .rested (.ofParts 1 0) ∧
            r.trades.length = 1 ∧
            ∀ t ∈ r.trades,
              t.makerOrderId ≠ ambushBuy.id := by
      apply exists_report
      decide +kernel
    rcases hReport with
      ⟨r, e', hSubmit, hRested, hLength, hNever⟩
    have hRun := run_played "BTC-USDT" (ambushFlow.drop 1)
    rcases hRun.tellsTruth_iff hSubmit with
      ⟨final, hReplay, hIff, hTruth⟩
    exact
      ⟨r, e', hSubmit, hRested, hLength, final, hReplay,
        hTruth hNever, hIff.1 (hTruth hNever)⟩

/- The buyer is reported to rest with 1 left.  In the end it
is filled and in no ladder. -/
theorem reports_rested_of_filled :
    ∃ r e' final,
      (played "BTC-USDT" ambushFlow).2.submit? ambushBuy
          (.ofNanos 0) = some (.ok r, e') ∧
      ambushBuy.replay? r.trades = some final ∧
      r.disposition = .rested (.ofParts 1 0) ∧
      final.IsFilled ∧ e'.book.contains final.id = false ∧
      ¬ r.TellsTruth e'.book final := by
  have hReport :
      ∃ r e',
        (played "BTC-USDT" ambushFlow).2.submit? ambushBuy
            (.ofNanos 0) = some (.ok r, e') ∧
          r.disposition = .rested (.ofParts 1 0) ∧
          e'.book.contains 3 = false ∧
          (ambushBuy.replay? r.trades).any
            fun final => final.id = 3 ∧ final.IsFilled := by
    apply exists_report
    decide +kernel
  rcases hReport with
    ⟨r, e', hSubmit, hDisposition, hAbsent, hReplay⟩
  rcases (Option.any_eq_true _ _).1 hReplay with
    ⟨final, hFinal, hSeen⟩
  rcases of_decide_eq_true hSeen with ⟨hId, hFilled⟩
  rw [← hId] at hAbsent
  refine
    ⟨r, e', final, hSubmit, hFinal, hDisposition, hFilled,
      hAbsent, ?_⟩
  intro hTruth
  have hReported := hTruth.filled_iff.2 ⟨hAbsent, hFilled⟩
  rw [hDisposition] at hReported
  cases hReported

end Engine

end Matchbook
