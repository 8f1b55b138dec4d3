import Matchbook.Proofs.Engine.Queue
import Matchbook.Proofs.Store.Represents
import Matchbook.Store.Clerk

/-
  Executions against a store.

  A taker that meets the orders of a store one by one trades
  as it does with the ladder of the book that the store
  represents, and leaves a store that represents the book
  after it.

  Key definitions include:
    * `Matching.stopped`
    * `Ending.answer`

  The main statements are:
    * `Store.Represents.trade`
    * `Store.Represents.rel_trade?`
    * `Store.Represents.rel_execute?`
    * `Store.Represents.exists_execute?`
-/

------------------------------------------------------------
-- Outcomes
------------------------------------------------------------

namespace Matchbook

section Outcomes

variable {α β γ δ : Type}
variable {R : α → β → Prop}
variable {S : γ → δ → Prop}
variable {x : Option α}
variable {y : Option β}

theorem eq_none_of_rel
    (h : Option.Rel R x none) :
    x = none := by
  cases h
  rfl

theorem exists_of_rel
    {b : β}
    (h : Option.Rel R x (some b)) :
    ∃ a, x = some a ∧ R a b := by
  cases h with
  | some hBoth => exact ⟨_, rfl, hBoth⟩

theorem exists_of_rel_some
    {a : α}
    (h : Option.Rel R (some a) y) :
    ∃ b, y = some b ∧ R a b := by
  cases h with
  | some hBoth => exact ⟨_, rfl, hBoth⟩

/- What follows related outcomes is related. -/
theorem relBind
    (h : Option.Rel R x y)
    {f : α → Option γ}
    {g : β → Option δ}
    (hNext : ∀ a b, R a b → Option.Rel S (f a) (g b)) :
    Option.Rel S (x.bind f) (y.bind g) := by
  cases h with
  | none => exact .none
  | some hBoth => exact hNext _ _ hBoth

/- What becomes of related outcomes is related. -/
theorem relMap
    (h : Option.Rel R x y)
    {f : α → γ}
    {g : β → δ}
    (hNext : ∀ a b, R a b → S (f a) (g b)) :
    Option.Rel S (x.map f) (y.map g) := by
  cases h with
  | none => exact .none
  | some hBoth => exact .some (hNext _ _ hBoth)

theorem relMapRight
    {S : α → δ → Prop}
    (h : Option.Rel R x y)
    {g : β → δ}
    (hNext : ∀ a b, R a b → S a (g b)) :
    Option.Rel S x (y.map g) := by
  cases h with
  | none => exact .none
  | some hBoth => exact .some (hNext _ _ hBoth)

end Outcomes

------------------------------------------------------------
-- Meetings
------------------------------------------------------------

namespace Store.Represents

variable {σ : Type} [Slots σ]
variable {s : Store σ}
variable {b : Book}
variable {taker : Order}
variable {side : Side}
variable {e : Entry Order}
variable {rest : List (Entry Order)}

theorem bestSlot?_of_nil
    (h : s.Represents b)
    (hNone : (b.ladder side .price).byPriority = []) :
    s.bestSlot? side = none := by
  have hBest :=
    Ladder.map_best? (Slots.get? s.slots)
      (s.ladder side .price)
  rw [h.ladder_eq, Ladder.map_best?,
    Ladder.best?_eq_head?, hNone] at hBest
  unfold bestSlot?
  rw [Option.map_eq_none_iff]
  exact Option.map_eq_none_iff.1 hBest.symm

/- The best slot of a side holds the best order of it. -/
theorem exists_bestSlot?
    (h : s.Represents b)
    (hMakers :
      (b.ladder side .price).byPriority = e :: rest) :
    ∃ k, s.bestSlot? side = some k ∧
      Slots.get? s.slots k = some e.item := by
  have hBest :=
    Ladder.map_best? (Slots.get? s.slots)
      (s.ladder side .price)
  rw [h.ladder_eq, Ladder.map_best?,
    Ladder.best?_eq_head?, hMakers] at hBest
  rcases Option.map_eq_some_iff.1 hBest.symm with
    ⟨e', hFound, hEntry⟩
  refine ⟨e'.item, ?_, congrArg Entry.item hEntry⟩
  unfold bestSlot?
  rw [hFound]
  rfl

/- A recorded trade leaves the orders as they are. -/
theorem record
    (h : s.Represents b)
    (t : Trade) :
    (s.record t).Represents
      { b with
        lastPrice := some t.price
        nextTradeId := t.id + 1 } where
  symbol_eq := h.symbol_eq
  lastPrice_eq := rfl
  nextTradeId_eq := rfl
  halted_eq := h.halted_eq
  ladder_eq := by
    intro side policy
    have hLadder := h.ladder_eq side policy
    cases side <;> cases policy <;> exact hLadder
  indexes := h.indexes

theorem halt
    (h : s.Represents b) :
    s.halt.Represents b.halt where
  symbol_eq := h.symbol_eq
  lastPrice_eq := h.lastPrice_eq
  nextTradeId_eq := h.nextTradeId_eq
  halted_eq := rfl
  ladder_eq := by
    intro side policy
    have hLadder := h.ladder_eq side policy
    cases side <;> cases policy <;> exact hLadder
  indexes := h.indexes

theorem ascending_of_byPriority
    {l : Ladder side .price Order}
    (h : l.byPriority = e :: rest) :
    l.ascending = rest.reverse ++ e :: [] := by
  have hAll := congrArg List.reverse h
  rw [Ladder.byPriority, List.reverse_reverse,
    List.reverse_cons] at hAll
  exact hAll

theorem settle_withLadder
    (b : Book)
    (d : Deal)
    (makers : List (Entry Order)) :
    (b.settle side ⟨[d], e :: makers, d.taker, none⟩).withLadder
        (⟨makers.reverse ++ []⟩ : Ladder side .price Order) =
      b.settle side ⟨[d], makers, d.taker, none⟩ := by
  rw [List.append_nil]
  cases side <;> rfl

variable [LawfulSlots σ]

/-
  A trade with the best order changes it where it is stored,
  and takes it out if it is filled.
-/
theorem trade
    {d : Deal}
    {k : Nat}
    (h : s.Represents b)
    (hRanked : b.IsRanked)
    (hMakers :
      (b.ladder side .price).byPriority = e :: rest)
    (hk : Slots.get? s.slots k = some e.item)
    (hStruck : d.IsStruck e.item taker) :
    ∃ s',
      ((s.update k d.maker).record d.trade).settle? k
          d.maker = some s' ∧
        s'.Represents
          (b.settle side
            ⟨[d], Matching.remaining e.key d.maker rest,
              d.taker, none⟩) := by
  have hId : d.maker.id = e.item.id := by
    rw [hStruck.maker_with_filled]
  have hRecorded :
      ((s.update k d.maker).record d.trade).Represents
        (b.settle side
          ⟨[d], ⟨e.key, d.maker⟩ :: rest, d.taker, none⟩) := by
    have hChanged :=
      (h.update hRanked hk (ascending_of_byPriority hMakers)
        hId).record d.trade
    rw [← List.reverse_cons] at hChanged
    exact hChanged
  unfold settle? Matching.remaining
  split
  · have hEntries :
        RankedEntries side .price (e :: rest) := by
      rw [← hMakers]
      exact hRanked side .price
    have hSelf :
        Slots.get?
          ((s.update k d.maker).record d.trade).slots k =
            some d.maker := by
      change
        Slots.get? (Slots.update s.slots k d.maker) k = _
      rw [LawfulSlots.get?_update hk, if_pos rfl]
    rcases
        hRecorded.removeSlot? (e := ⟨e.key, d.maker⟩)
          (hRanked.settle
            (hStruck.rankedEntries_cons hEntries))
          hSelf
          (ascending_of_byPriority
            (Book.byPriority_settle b side _)) with
      ⟨s', hRemove, hAfter, _⟩
    rw [settle_withLadder] at hAfter
    exact ⟨s', by rw [hRemove]; rfl, hAfter⟩
  · exact ⟨_, rfl, hRecorded⟩

end Store.Represents

------------------------------------------------------------
-- Trades one after the other
------------------------------------------------------------

/- How a taker has stopped: at a broken contract, or as it was
left. -/
def Matching.stopped (m : Matching) :
    Except Violation Order :=
  match m.violation with
  | some cause => .error cause
  | none => .ok m.taker

/- One step of a taker, by the outcome of the meeting. -/
theorem Store.trade?_of_bestSlot?
    {σ : Type}
    [Slots σ]
    {s : Store σ}
    {now : Timestamp}
    {taker maker : Order}
    {k : Nat}
    (hOpen : ¬ taker.IsFilled)
    (hBest : s.bestSlot? taker.side.opposite = some k)
    (hk : Slots.get? s.slots k = some maker)
    (trades : List Trade) :
    s.trade? now taker trades =
      match maker.meet? taker s.nextTradeId now with
      | none => none
      | some (.broken cause) =>
          some (.error cause, trades, s)
      | some .apart => some (.ok taker, trades, s)
      | some (.traded t maker' taker') =>
          (((s.update k maker').record t).settle? k
            maker').bind (trade? now taker' (trades ++ [t])) := by
  rw [trade?, if_neg hOpen, hBest]
  simp only [hk, Option.bind_eq_bind, Option.bind_some]
  cases maker.meet? taker s.nextTradeId now with
  | none => rfl
  | some meeting => cases meeting <;> rfl

namespace Store.Represents

variable {σ : Type} [Slots σ]
variable {s : Store σ}
variable {b : Book}
variable {queue : List Order}

/- A taker that stops before it trades leaves everything as it
is. -/
theorem stop
    {makers : List (Entry Order)}
    {taker : Order}
    {side : Side}
    (h : s.Represents b)
    (hOrderly : Floor.IsOrderly ⟨b, taker :: queue⟩)
    (hMakers : (b.ladder side .price).byPriority = makers)
    (trades : List Trade)
    (violation : Option Violation) :
    let m : Matching := ⟨[], makers, taker, violation⟩
    trades = trades ++ m.trades ∧
      s.Represents (b.settle side m) ∧
        Floor.IsOrderly
          ⟨b.settle side m, m.taker :: queue⟩ := by
  dsimp only
  rw [← hMakers, Floor.settle_nil]
  exact ⟨(List.append_nil trades).symm, h, hOrderly⟩

variable [LawfulSlots σ]

/-
  A taker trades with a store as it does with the book.  By
  induction on its way through the makers; after each trade
  the store represents the settled book.
-/
theorem rel_trade?
    {now : Timestamp}
    {id : UInt64}
    {makers : List (Entry Order)}
    {taker : Order}
    {side : Side}
    (h : s.Represents b)
    (hOrderly : Floor.IsOrderly ⟨b, taker :: queue⟩)
    (hSide : taker.side.opposite = side)
    (hId : b.nextTradeId = id)
    (hMakers : (b.ladder side .price).byPriority = makers)
    (trades : List Trade) :
    Option.Rel
      (fun x m =>
        x.1 = m.stopped ∧ x.2.1 = trades ++ m.trades ∧
          x.2.2.Represents (b.settle side m) ∧
            Floor.IsOrderly
              ⟨b.settle side m, m.taker :: queue⟩)
      (s.trade? now taker trades)
      (Matching.run? now id makers taker) := by
  subst hSide
  induction id, makers, taker using Matching.run?.induct now
    generalizing s b trades with
  | case1 id makers taker hFilled =>
      rw [trade?, if_pos hFilled,
        Matching.run?_of_isFilled hFilled]
      exact .some ⟨rfl, h.stop hOrderly hMakers trades _⟩
  | case2 id taker hOpen =>
      rw [trade?, if_neg hOpen, h.bestSlot?_of_nil hMakers,
        Matching.run?, if_neg hOpen]
      exact .some ⟨rfl, h.stop hOrderly hMakers trades _⟩
  | case3 id taker hOpen e rest hMeet =>
      rcases h.exists_bestSlot? hMakers with ⟨k, hBest, hk⟩
      rw [trade?_of_bestSlot? hOpen hBest hk,
        Matching.run?_cons hOpen, h.nextTradeId_eq, hId,
        hMeet]
      exact .none
  | case4 id taker hOpen e rest cause hMeet =>
      rcases h.exists_bestSlot? hMakers with ⟨k, hBest, hk⟩
      rw [trade?_of_bestSlot? hOpen hBest hk,
        Matching.run?_cons hOpen, h.nextTradeId_eq, hId,
        hMeet]
      exact .some ⟨rfl, h.stop hOrderly hMakers trades _⟩
  | case5 id taker hOpen e rest hMeet =>
      rcases h.exists_bestSlot? hMakers with ⟨k, hBest, hk⟩
      rw [trade?_of_bestSlot? hOpen hBest hk,
        Matching.run?_cons hOpen, h.nextTradeId_eq, hId,
        hMeet]
      exact .some ⟨rfl, h.stop hOrderly hMakers trades _⟩
  | case6 id taker hOpen e rest t maker' taker' hMeet ih =>
      rcases h.exists_bestSlot? hMakers with ⟨k, hBest, hk⟩
      rcases
          Deal.isStruck_of_meet? (d := ⟨t, maker', taker'⟩)
            hMeet with
        ⟨hStruck, hTradeId⟩
      rcases
          h.trade hOrderly.isRanked hMakers hk hStruck with
        ⟨s', hSettle, hAfter⟩
      have hSame :
          (⟨t, maker', taker'⟩ : Deal).taker.side =
            taker.side := by
        rw [hStruck.taker_with_filled]
      have hNext :=
        ih hAfter (hOrderly.trade hMakers hStruck)
          (by rw [← hTradeId]; rfl) (trades ++ [t])
          (by rw [hSame]; exact Book.byPriority_settle _ _ _)
      rw [trade?_of_bestSlot? hOpen hBest hk,
        Matching.run?_cons hOpen, h.nextTradeId_eq, hId,
        hMeet]
      dsimp only at hSettle ⊢
      rw [hSettle, Option.bind_some]
      refine relMapRight hNext ?_
      rintro x m ⟨hStopped, hTrades, hHolds, hFloor⟩
      rw [hSame, Floor.settle_settle] at hHolds hFloor
      refine ⟨hStopped, ?_, hHolds, hFloor⟩
      rw [hTrades, List.append_assoc]
      rfl

end Store.Represents

------------------------------------------------------------
-- Executions
------------------------------------------------------------

/- What a taker is answered by the way its pass has ended. -/
def Ending.answer (ending : Ending) :
    Except Refusal Disposition :=
  ending.disposition.mapError .violation

namespace Store.Represents

variable {σ : Type} [Slots σ] [LawfulSlots σ]
variable {s : Store σ}
variable {b : Book}
variable {taker : Order}
variable {queue : List Order}

/- A taker that has stopped ends in a store as it does in the
book. -/
theorem rel_finish?
    (h : s.Represents b)
    (hOrderly : Floor.IsOrderly ⟨b, taker :: queue⟩) :
    Option.Rel
      (fun x y =>
        x.1 = y.1.answer ∧ x.2.Represents y.2 ∧
          Floor.IsOrderly ⟨y.2, queue⟩)
      (s.finish? taker) (b.finish? taker) := by
  unfold Store.finish? Book.finish?
  split
  · exact .some ⟨rfl, h, hOrderly.retire⟩
  cases taker.pending? with
  | none => exact .none
  | some remaining =>
      simp only [Option.map_some]
      split
      · exact .some ⟨rfl, h, hOrderly.retire⟩
      · cases hPlace : b.place .price taker with
        | error cause =>
            rw [h.insert_of_place_eq_error hOrderly hPlace]
            exact .some ⟨rfl, h, hOrderly.retire⟩
        | ok b' =>
            rcases h.insert hOrderly hPlace with
              ⟨s', hInsert, hAfter⟩
            rw [hInsert]
            exact .some ⟨rfl, hAfter, hOrderly.place hPlace⟩

/- An order is executed in a store as it is in the book. -/
theorem rel_execute?
    (h : s.Represents b)
    (hOrderly : Floor.IsOrderly ⟨b, taker :: queue⟩)
    (now : Timestamp)
    (trades : List Trade) :
    Option.Rel
      (fun x y =>
        x.1 = y.1.ending.answer ∧
          x.2.1 = trades ++ y.1.trades ∧
            x.2.2.Represents y.2 ∧
              Floor.IsOrderly ⟨y.2, queue⟩)
      (s.execute? now taker trades)
      (b.pass? taker now) := by
  unfold Store.execute? Book.pass?
  refine
    relBind (h.rel_trade? hOrderly rfl rfl rfl trades) ?_
  rintro ⟨stopped, trades', s'⟩ m
    ⟨hStopped, hTrades, hHolds, hFloor⟩
  dsimp only at hStopped hTrades hHolds hFloor
  subst hStopped hTrades
  unfold Matching.stopped
  cases hViolation : m.violation with
  | some cause =>
      exact .some ⟨rfl, rfl, hHolds, hFloor.retire⟩
  | none =>
      refine relMap (hHolds.rel_finish? hFloor) ?_
      rintro ⟨answer, s''⟩ ⟨ending, b''⟩
        ⟨hAnswer, hAfter, hRest⟩
      exact ⟨hAnswer, rfl, hAfter, hRest⟩

/- In particular a pass of the book is an execution in the
store. -/
theorem exists_execute?
    {now : Timestamp}
    {p : Pass}
    {b' : Book}
    (h : s.Represents b)
    (hOrderly : Floor.IsOrderly ⟨b, taker :: queue⟩)
    (hPass : b.pass? taker now = some (p, b'))
    (trades : List Trade) :
    ∃ s',
      s.execute? now taker trades =
          some (p.ending.answer, trades ++ p.trades, s') ∧
        s'.Represents b' ∧
          Floor.IsOrderly ⟨b', queue⟩ := by
  have hRel := h.rel_execute? hOrderly now trades
  rw [hPass] at hRel
  rcases exists_of_rel hRel with
    ⟨⟨_, _, s'⟩, hExecute, rfl, rfl, hHolds, hFloor⟩
  exact ⟨s', hExecute, hHolds, hFloor⟩

theorem execute?_eq_none
    {now : Timestamp}
    (h : s.Represents b)
    (hOrderly : Floor.IsOrderly ⟨b, taker :: queue⟩)
    (hPass : b.pass? taker now = none)
    (trades : List Trade) :
    s.execute? now taker trades = none := by
  have hRel := h.rel_execute? hOrderly now trades
  rw [hPass] at hRel
  exact eq_none_of_rel hRel

end Store.Represents

end Matchbook
