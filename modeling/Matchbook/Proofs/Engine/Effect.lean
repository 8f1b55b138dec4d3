import Matchbook.Proofs.Engine.Evolution

/-
  The answer to a successful submission accounts for all that
  has happened to the book: which orders are gone and why,
  which waiting ones have been released, and what has changed
  of those that are still held.

  Key definitions include:
    * `Report.AccountsFor`

  The main statements are:
    * `Engine.Succeeds.contains_eq_false_iff`
    * `Engine.Succeeds.mem_waiting_iff`
    * `Engine.Run.exists_accountsFor`
-/

------------------------------------------------------------
-- Accounts of a submission
------------------------------------------------------------

namespace Matchbook

/-
  A report on an order that was submitted to one book and left
  another by some stages.  An order that is gone was filled as
  a maker, or left the floor in its own pass.  An order that
  is still held has been filled by its trades, and has lost
  its stop price if it was released.
-/
structure Report.AccountsFor
    (r : Report)
    (o : Order)
    (before : Book)
    (stages : List Stage)
    (after : Book) : Prop where
  nodup_after : (after.allOrders.map Order.id).Nodup
  held_before :
    ∀ x ∈ after.allOrders,
      x.id = o.id ∨ before.contains x.id = true
  trades_eq :
    r.trades =
      (stages.flatMap fun s => s.pass.deals).map Deal.trade
  absent_iff :
    ∀ id, id = o.id ∨ before.contains id = true →
      (after.contains id = false ↔
        (∃ s ∈ stages, ∃ d ∈ s.pass.deals,
          d.trade.makerOrderId = id ∧ d.maker.IsFilled) ∨
        ∃ s ∈ stages,
          s.takerId = id ∧ s.pass.ending.leaves = true)
  waiting_iff :
    ∀ x ∈ before.waiting,
      x.id ∈ after.waiting.map Order.id ↔
        x.id ∉ r.triggered
  same_order :
    ∀ x ∈ before.allOrders, ∀ x' ∈ after.allOrders,
      x'.id = x.id →
        x' =
          { x with
            filled := x'.filled
            stopPrice := x'.stopPrice }
  filled_grows :
    ∀ x ∈ before.allOrders, ∀ x' ∈ after.allOrders,
      x'.id = x.id →
        x.filled ≤ x'.filled ∧
          (x'.filled ≠ x.filled →
            ∃ t ∈ r.trades, t.Involves x.id)
  stopPrice_of_released :
    ∀ x ∈ before.allOrders, ∀ x' ∈ after.allOrders,
      x'.id = x.id →
        x'.stopPrice ≠ x.stopPrice →
          x'.stopPrice = none ∧ x.id ∈ r.triggered

namespace Engine

variable {symbol : String} {log : List Event}
variable {e e' : Engine} {o : Order} {now : Timestamp}
variable {r : Report} {stages : List Stage} {b : Book}

/- The submitted order is not held yet, and no two orders
have the same id. -/
theorem nodup_of_reached
    (h : Floor.Reached symbol log ⟨e.book, [o]⟩) :
    ((o :: e.book.allOrders).map Order.id).Nodup := by
  have hNodup := h.present.nodup
  unfold Floor.orders at hNodup
  exact
    (List.perm_append_comm.map Order.id).nodup_iff.1 hNodup

/- Whatever is not in the book any more is gone after some
pass. -/
theorem Succeeds.contains_eq_false_iff
    {id : UInt64}
    (h : e.Succeeds o now stages r b)
    (hReached : Floor.Reached symbol log ⟨e.book, [o]⟩)
    (hId : id ∈ (o :: e.book.allOrders).map Order.id) :
    b.contains id = false ↔
      ∃ s ∈ stages, ∃ x ∈ s.pass.gone, x.id = id := by
  have hParts :=
    Order.mem_left_iff (h.evolves hReached).ids_perm
      (nodup_of_reached hReached) hId
  have hGone :
      id ∈ (stages.flatMap fun s => s.pass.gone).map
          Order.id ↔
        ∃ s ∈ stages, ∃ x ∈ s.pass.gone, x.id = id := by
    simp only [List.mem_map, List.mem_flatMap]
    constructor
    · rintro ⟨x, ⟨s, hs, hx⟩, rfl⟩
      exact ⟨s, hs, x, hx, rfl⟩
    · rintro ⟨s, hs, x, hx, rfl⟩
      exact ⟨x, ⟨s, hs, hx⟩, rfl⟩
  rw [Book.contains_eq_false_iff, hParts, not_not, hGone]

/- A waiting order waits on unless it is released. -/
theorem Succeeds.mem_waiting_iff
    (h : e.Succeeds o now stages r b)
    (hReached : Floor.Reached symbol log ⟨e.book, [o]⟩)
    {x : Order}
    (hx : x ∈ e.book.waiting) :
    x.id ∈ b.waiting.map Order.id ↔ x.id ∉ r.triggered := by
  have hId := List.mem_map_of_mem (f := Order.id) hx
  rw [h.triggered_eq]
  cases h with
  | parked _ hPlace =>
      have hPerm :=
        Book.waiting_place_stop_perm hReached.isRanked
          (Floor.fresh_of_present hReached.present) hPlace
      rw [(hPerm.map Order.id).mem_iff]
      simpa using Or.inr hId
  | executed _ hCourse =>
      exact
        Order.mem_left_iff
          (hCourse.waiting_perm.map Order.id)
          hReached.nodup_waiting hId

/- Orders are gone as filled makers or as takers that do not
rest. -/
theorem Succeeds.gone_iff
    {id : UInt64}
    (h : e.Succeeds o now stages r b)
    (hReached : Floor.Reached symbol log ⟨e.book, [o]⟩) :
    (∃ s ∈ stages, ∃ x ∈ s.pass.gone, x.id = id) ↔
      (∃ s ∈ stages, ∃ d ∈ s.pass.deals,
        d.trade.makerOrderId = id ∧ d.maker.IsFilled) ∨
      ∃ s ∈ stages,
        s.takerId = id ∧ s.pass.ending.leaves = true := by
  have hMaker :
      ∀ s ∈ stages, ∀ d ∈ s.pass.deals,
        d.maker.id = d.trade.makerOrderId := by
    intro s hs d hd
    exact
      (h.evolves hReached).maker_id_eq
        (List.mem_flatMap.2 ⟨s, hs, hd⟩)
  constructor
  · rintro ⟨s, hs, x, hx, rfl⟩
    rcases Pass.mem_gone_iff.1 hx with
      ⟨d, hd, rfl, hFilled⟩ | ⟨hLeaves, rfl⟩
    · exact
        Or.inl
          ⟨s, hs, d, hd, (hMaker s hs d hd).symm, hFilled⟩
    · exact Or.inr ⟨s, hs, rfl, hLeaves⟩
  · rintro (⟨s, hs, d, hd, rfl, hFilled⟩ |
      ⟨s, hs, rfl, hLeaves⟩)
    · exact
        ⟨s, hs, d.maker,
          Pass.mem_gone_iff.2 (Or.inl ⟨d, hd, rfl, hFilled⟩),
          hMaker s hs d hd⟩
    · exact
        ⟨s, hs, s.pass.taker,
          Pass.mem_gone_iff.2 (Or.inr ⟨hLeaves, rfl⟩), rfl⟩

/- What has become of an order that is still held, or that is
gone. -/
theorem Succeeds.becomes
    (h : e.Succeeds o now stages r b)
    (hReached : Floor.Reached symbol log ⟨e.book, [o]⟩)
    {x x' : Order}
    (hx : x ∈ o :: e.book.allOrders)
    (hx' :
      x' ∈ b.allOrders ++
        stages.flatMap fun s => s.pass.gone)
    (hId : x'.id = x.id) :
    x.Becomes (stages.map Stage.takerId) r.trades x' := by
  rw [h.trades_eq]
  exact
    (h.evolves hReached).becomes_of_id_eq
      (nodup_of_reached hReached) hx hx' hId

/- Every successful submission is accounted for by its
report. -/
theorem Succeeds.accountsFor
    (h : e.Succeeds o now stages r b)
    (hReached : Floor.Reached symbol log ⟨e.book, [o]⟩) :
    r.AccountsFor o e.book stages b := by
  have hEvolves := h.evolves hReached
  have hNodup := nodup_of_reached hReached
  have hIds := hEvolves.ids_perm
  have hTrades := h.trades_eq
  have hBecomes :
      ∀ x ∈ e.book.allOrders, ∀ x' ∈ b.allOrders,
        x'.id = x.id →
          x.Becomes (stages.map Stage.takerId) r.trades
            x' := by
    intro x hx x' hx' hId
    exact
      h.becomes hReached (List.mem_cons_of_mem _ hx)
        (List.mem_append_left _ hx') hId
  have hHeld :
      ∀ id, id = o.id ∨ e.book.contains id = true ↔
        id ∈ (o :: e.book.allOrders).map Order.id := by
    intro id
    rw [List.map_cons, List.mem_cons, ← Bool.not_eq_false,
      Book.contains_eq_false_iff, not_not]
  constructor
  case nodup_after =>
    have hAll := hIds.nodup_iff.2 hNodup
    rw [List.map_append] at hAll
    exact hAll.sublist (List.sublist_append_left _ _)
  case held_before =>
    intro x hx
    rw [hHeld]
    apply hIds.subset
    exact List.mem_map_of_mem (List.mem_append_left _ hx)
  case trades_eq => exact hTrades
  case absent_iff =>
    intro id hId
    rw [← h.gone_iff hReached]
    exact
      h.contains_eq_false_iff hReached ((hHeld id).1 hId)
  case waiting_iff =>
    intro x hx
    exact h.mem_waiting_iff hReached hx
  case same_order =>
    intro x hx x' hx' hId
    exact (hBecomes x hx x' hx' hId).order_eq
  case filled_grows =>
    intro x hx x' hx' hId
    have hReplay := (hBecomes x hx x' hx' hId).replay_eq
    have hPos := hEvolves.quantity_pos
    rw [← hTrades] at hPos
    refine ⟨(Order.replay?_eq_some hPos hReplay).2, ?_⟩
    intro hChanged
    by_contra hNobody
    push Not at hNobody
    rw [Order.replay?_of_not_involved hNobody] at hReplay
    have hSame := Option.some.inj hReplay
    apply hChanged
    rw [hSame]
  case stopPrice_of_released =>
    intro x hx x' hx' hId hChanged
    have hStop := (hBecomes x hx x' hx' hId).stopPrice_eq
    split at hStop
    · rename_i hPass
      refine ⟨hStop, ?_⟩
      rcases h.takerId_cases hPass with hSelf | hReleased
      · rw [List.map_cons, List.nodup_cons] at hNodup
        exfalso
        apply hNodup.1
        rw [← hSelf]
        exact List.mem_map_of_mem hx
      · exact hReleased
    · exact absurd hStop hChanged

/- In every run the report on a successful submission accounts
for every change of the book. -/
theorem Run.exists_accountsFor
    (h : Run symbol log e)
    (hSubmit : e.submit? o now = some (.ok r, e')) :
    ∃ stages, e.Succeeds o now stages r e'.book ∧
      r.AccountsFor o e.book stages e'.book := by
  rcases h.exists_succeeds hSubmit with
    ⟨stages, hSucceeds, hEntered⟩
  exact
    ⟨stages, hSucceeds, hSucceeds.accountsFor hEntered⟩

/- Two sellers, and a waiting buyer that a trade with the
first one releases. -/
def chainFlow : List Order :=
  [.ordinary 1 .sell (some (.ofParts 100 0)) (.ofParts 1 0),
    .ordinary 2 .sell (some (.ofParts 101 0)) (.ofParts 2 0),
    .ordinaryStop 3 .buy (.ofParts 100 0) (.ofParts 1 0)]

/- The buyer that trades with the first seller. -/
def chainBuy : Order :=
  .ordinary 4 .buy (some (.ofParts 100 0)) (.ofParts 1 0)

/- Only the second seller is left, half filled. -/
theorem exists_accountsFor_of_chain :
    ∃ r e',
      (played "BTC-USDT" chainFlow).2.submit? chainBuy
          (.ofNanos 0) = some (.ok r, e') ∧
      (r.triggered = [3] ∧
        e'.book.allOrders.map Order.id = [2]) ∧
      ∃ stages,
        (played "BTC-USDT" chainFlow).2.Succeeds chainBuy
          (.ofNanos 0) stages r e'.book ∧
        r.AccountsFor chainBuy
          (played "BTC-USDT" chainFlow).2.book stages
          e'.book := by
  have hReport :
      ∃ r e',
        (played "BTC-USDT" chainFlow).2.submit? chainBuy
            (.ofNanos 0) = some (.ok r, e') ∧
          (r.triggered = [3] ∧
            e'.book.allOrders.map Order.id = [2]) := by
    apply exists_report
    decide +kernel
  rcases hReport with ⟨r, e', hSubmit, hSeen⟩
  have hRun := run_played "BTC-USDT" chainFlow
  exact
    ⟨r, e', hSubmit, hSeen, hRun.exists_accountsFor hSubmit⟩

end Engine

end Matchbook
