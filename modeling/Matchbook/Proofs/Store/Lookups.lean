import Matchbook.Proofs.Store.Refusals

/-
  What a submission can rely on.

  A clerk trusts that the slots on the ladders have orders in
  them and that the entry of an order is for its own slot.
  After any calls, every lookup that a submission makes on its
  way finds what it looks for, and two orders that meet are of
  opposite sides and the maker has a price.  The contracts
  that are left to be broken are those that depend on the
  orders alone.

  Key definitions include:
    * `Lookup`
    * `Store.TradeLooks`
    * `Store.RemovalLooks`
    * `Store.QueueLooks`
    * `Clerk.Looks`
    * `Clerk.IsReliable`

  The main statements are:
    * `Store.Represents.finds_of_tradeLooks`
    * `Store.Represents.finds_of_queueLooks`
    * `Clerk.isReliable`
-/

------------------------------------------------------------
-- Lookups
------------------------------------------------------------

namespace Matchbook

/- A lookup in a store: a slot whose order is read, or a place
that is vacated. -/
inductive Lookup (σ : Type) where
  | read (s : Store σ) (slot : Nat)
  | vacate (s : Store σ) (place : Place)

/- Whether there is an order in the slot, and to vacate it
also that the entry of the order is for this slot. -/
def Lookup.Finds
    {σ : Type}
    [Slots σ] : Lookup σ → Prop
  | read s slot => (Slots.get? s.slots slot).isSome
  | vacate s place => (s.removeSlot? place).isSome

namespace Store

variable {σ : Type} [Slots σ]

/- The lookups of a taker on its way through the best orders
of the other side: each of them is read where it is stored,
and its place is vacated if the trade has filled it. -/
inductive TradeLooks (now : Timestamp) :
    Order → Store σ → Lookup σ → Prop
  | best
      {taker : Order}
      {s : Store σ}
      {k : Nat}
      (hOpen : ¬ taker.IsFilled)
      (hBest : s.bestSlot? taker.side.opposite = some k) :
      TradeLooks now taker s (.read s k)
  | filled
      {taker maker maker' taker' : Order}
      {s : Store σ}
      {k : Nat}
      {t : Trade}
      (hOpen : ¬ taker.IsFilled)
      (hBest : s.bestSlot? taker.side.opposite = some k)
      (hk : Slots.get? s.slots k = some maker)
      (hMeet :
        maker.meet? taker s.nextTradeId now =
          some (.traded t maker' taker'))
      (hFilled : maker'.IsFilled) :
      TradeLooks now taker s
        (.vacate ((s.update k maker').record t) ⟨k, .price⟩)
  | later
      {taker maker maker' taker' : Order}
      {s s' : Store σ}
      {k : Nat}
      {t : Trade}
      {l : Lookup σ}
      (hOpen : ¬ taker.IsFilled)
      (hBest : s.bestSlot? taker.side.opposite = some k)
      (hk : Slots.get? s.slots k = some maker)
      (hMeet :
        maker.meet? taker s.nextTradeId now =
          some (.traded t maker' taker'))
      (hSettle :
        ((s.update k maker').record t).settle? k maker' =
          some s')
      (h : TradeLooks now taker' s' l) :
      TradeLooks now taker s l

/- The lookups of a removal of slots, one after the other. -/
inductive RemovalLooks (policy : Policy) :
    List Nat → Store σ → Lookup σ → Prop
  | first
      {slot : Nat}
      {rest : List Nat}
      {s : Store σ} :
      RemovalLooks policy (slot :: rest) s
        (.vacate s ⟨slot, policy⟩)
  | later
      {slot : Nat}
      {rest : List Nat}
      {s s' : Store σ}
      {o : Order}
      {l : Lookup σ}
      (hRemove : s.removeSlot? ⟨slot, policy⟩ = some (o, s'))
      (h : RemovalLooks policy rest s' l) :
      RemovalLooks policy (slot :: rest) s l

/- The lookups of a sweep: the places of the stops that the
last trade releases are vacated. -/
def SweepLooks (s : Store σ) (l : Lookup σ) : Prop :=
  ∃ last, s.lastPrice = some last ∧
    RemovalLooks .stop
      (s.stopBids.triggered last ++
        s.stopAsks.triggered last) s l

/- The lookups of orders that are executed first in, first
out, with a sweep after each one that has traded. -/
inductive QueueLooks (now : Timestamp) :
    List Order → List Trade → Store σ → Lookup σ → Prop
  | trade
      {o : Order}
      {rest : List Order}
      {trades : List Trade}
      {s : Store σ}
      {l : Lookup σ}
      (h : TradeLooks now o.activate s l) :
      QueueLooks now (o :: rest) trades s l
  | sweep
      {o : Order}
      {rest : List Order}
      {trades trades' : List Trade}
      {s s' : Store σ}
      {disposition : Disposition}
      {l : Lookup σ}
      (hExecute :
        s.execute? now o.activate trades =
          some (.ok disposition, trades', s'))
      (hTraded : trades.length < trades'.length)
      (h : s'.SweepLooks l) :
      QueueLooks now (o :: rest) trades s l
  | later
      {o : Order}
      {rest more : List Order}
      {trades trades' : List Trade}
      {s s' s'' : Store σ}
      {disposition : Disposition}
      {l : Lookup σ}
      (hExecute :
        s.execute? now o.activate trades =
          some (.ok disposition, trades', s'))
      (hSweep :
        s'.sweepAfter? trades trades' = some (more, s''))
      (h : QueueLooks now (rest ++ more) trades' s'' l) :
      QueueLooks now (o :: rest) trades s l

end Store

/- The lookups of a submission: those of an order that is
taken in and need not wait. -/
def Clerk.Looks
    {σ : Type}
    [Slots σ]
    (c : Clerk σ)
    (o : Order)
    (now : Timestamp)
    (l : Lookup σ) : Prop :=
  c.store.halted = false ∧ o.symbol = c.store.symbol ∧
    c.store.contains o.id = false ∧
      c.store.mustWait o = false ∧
        Store.QueueLooks now [o] [] c.store l

------------------------------------------------------------
-- Every lookup finds
------------------------------------------------------------

namespace Store

variable {σ : Type} [Slots σ]
variable {s s' : Store σ}
variable {l : Lookup σ}

/- If a removal comes to its end, then all of its lookups have
found something.  By induction on the lookups. -/
theorem RemovalLooks.finds
    {policy : Policy}
    {slots : List Nat}
    {r : List Order × Store σ}
    (h : RemovalLooks policy slots s l)
    (hRemoved : removeSlots? policy slots s = some r) :
    l.Finds := by
  induction h generalizing r with
  | first =>
      unfold removeSlots? at hRemoved
      rcases Option.bind_eq_some_iff.1 hRemoved with
        ⟨taken, hTaken, _⟩
      exact Option.isSome_iff_exists.2 ⟨taken, hTaken⟩
  | later hRemove _ ih =>
      unfold removeSlots? at hRemoved
      rw [hRemove] at hRemoved
      rcases Option.map_eq_some_iff.1 hRemoved with
        ⟨r', hRest, _⟩
      exact ih hRest

namespace Represents

variable {b : Book}
variable {taker : Order}
variable {queue : List Order}
variable {now : Timestamp}

/- A best slot has a maker from the ranked ladder in it. -/
theorem exists_maker
    {side : Side}
    {k : Nat}
    (h : s.Represents b)
    (hBest : s.bestSlot? side = some k) :
    ∃ e rest,
      (b.ladder side .price).byPriority = e :: rest ∧
        Slots.get? s.slots k = some e.item := by
  cases hMakers : (b.ladder side .price).byPriority with
  | nil =>
      rw [h.bestSlot?_of_nil hMakers] at hBest
      cases hBest
  | cons e rest =>
      rcases h.exists_bestSlot? hMakers with
        ⟨k', hBest', hk⟩
      rw [hBest'] at hBest
      cases hBest
      exact ⟨e, rest, rfl, hk⟩

variable [LawfulSlots σ]

/- A taker finds every maker where it looks.  By induction on
the lookups; after each trade the store represents the settled
book. -/
theorem finds_of_tradeLooks
    (h : s.Represents b)
    (hOrderly : Floor.IsOrderly ⟨b, taker :: queue⟩)
    (hLook : TradeLooks now taker s l) :
    l.Finds := by
  induction hLook generalizing b with
  | best _ hBest =>
      rcases h.exists_maker hBest with ⟨e, _, _, hk⟩
      exact Option.isSome_iff_exists.2 ⟨e.item, hk⟩
  | @filled taker maker maker' taker' s k t _ hBest hk hMeet
      hFilled =>
      rcases h.exists_maker hBest with
        ⟨e, rest, hMakers, hItem⟩
      rw [hItem] at hk
      cases hk
      rcases
          h.trade (d := ⟨t, maker', taker'⟩)
            hOrderly.isRanked hMakers hItem
            (Deal.isStruck_of_meet? hMeet).1 with
        ⟨s', hSettle, _⟩
      unfold settle? at hSettle
      rw [if_pos hFilled] at hSettle
      rcases Option.map_eq_some_iff.1 hSettle with
        ⟨taken, hTaken, _⟩
      exact Option.isSome_iff_exists.2 ⟨taken, hTaken⟩
  | @later taker maker maker' taker' s s' k t l _ hBest hk
      hMeet hSettle _ ih =>
      rcases h.exists_maker hBest with
        ⟨e, rest, hMakers, hItem⟩
      rw [hItem] at hk
      cases hk
      have hStruck :=
        (Deal.isStruck_of_meet? (d := ⟨t, maker', taker'⟩)
          hMeet).1
      rcases
          h.trade hOrderly.isRanked hMakers hItem hStruck with
        ⟨s₁, hSettled, hAfter⟩
      rw [hSettled] at hSettle
      cases hSettle
      exact ih hAfter (hOrderly.trade hMakers hStruck)

/- A sweep finds every stop that the last trade releases. -/
theorem finds_of_sweepLooks
    (h : s.Represents b)
    (hRanked : b.IsRanked)
    (hLook : s.SweepLooks l) :
    l.Finds := by
  rcases hLook with ⟨last, hLast, hRemoval⟩
  rcases h.sweep? hRanked with ⟨s', hSweep, _⟩
  unfold Store.sweep? at hSweep
  rw [hLast] at hSweep
  exact hRemoval.finds hSweep

/- Released orders are no exception, though they are in no
slot until they rest again.  By induction on the lookups. -/
theorem finds_of_queueLooks
    {trades : List Trade}
    (h : s.Represents b)
    (hOrderly : Floor.IsOrderly ⟨b, queue⟩)
    (hLook : QueueLooks now queue trades s l) :
    l.Finds := by
  induction hLook generalizing b with
  | trade hTrade =>
      exact h.finds_of_tradeLooks hOrderly.activate hTrade
  | sweep hExecute _ hSweep =>
      rcases h.exists_pass? hOrderly.activate hExecute with
        ⟨_, b', _, _, _, hAfter, hFloor⟩
      exact hAfter.finds_of_sweepLooks hFloor.isRanked hSweep
  | later hExecute hSweep _ ih =>
      rcases h.step hOrderly hExecute hSweep with
        ⟨b'', hAfter, hFloor⟩
      exact ih hAfter hFloor

end Represents

end Store

------------------------------------------------------------
-- Reliable clerks
------------------------------------------------------------

/- The contract that a refusal reports as broken. -/
def Refusal.cause? : Refusal → Option Violation
  | violation cause => some cause
  | violationAfterTrades cause _ => some cause
  | _ => none

namespace Clerk

variable {σ : Type} [Slots σ]

/-
  A clerk whose submissions break no contract but these: the
  order is of another symbol, an order that is met or comes
  has nothing left to fill, or a total has too many digits.
  Every lookup on the way finds an order.
-/
structure IsReliable (c : Clerk σ) : Prop where
  cause :
    ∀ o now refusal c' cause,
      c.submit? o now = some (.error refusal, c') →
        refusal.cause? = some cause →
          (cause =
              .symbolMismatch o.id o.symbol
                c.store.symbol ∧
            o.symbol ≠ c.store.symbol) ∨
          (∃ id, cause = .exhaustedOrder id) ∨
            ∃ maker taker price quantity,
              cause =
                .totalOutOfRange maker taker price quantity
  lookup : ∀ o now l, c.Looks o now l → l.Finds

variable [LawfulSlots σ]
variable {c : Clerk σ}

/- Whatever calls a clerk has gone through, with whatever
orders, it is reliable. -/
theorem isReliable
    {symbol : String}
    {calls : List Call}
    (hRun : (new symbol : Clerk σ).run? calls = some c) :
    c.IsReliable := by
  rcases exists_represented hRun with ⟨e, _, hHolds⟩
  constructor
  case cause =>
    intro o now refusal c' cause hSubmit hCause
    cases hHolds.answers hSubmit with
    | halted => cases hCause
    | held => cases hCause
    | misrouted _ hSymbol =>
        cases hCause
        exact Or.inl ⟨rfl, hSymbol⟩
    | broken _ _ _ hBreaks =>
        cases hCause
        exact Or.inr hBreaks.exhausted_or_total
    | brokenAfterTrades _ _ _ hBreaks =>
        cases hCause
        exact Or.inr hBreaks.exhausted_or_total
  case lookup =>
    rintro o now l ⟨_, hSymbol, hNew, _, hLook⟩
    refine hHolds.store.finds_of_queueLooks ?_ hLook
    apply hHolds.isOrderly.enter
    · rw [hSymbol, hHolds.store.symbol_eq]
    · rw [← hHolds.contains_eq]
      exact hNew

end Clerk

/- A buyer looks for the seller that has nothing left to sell,
and finds it. -/
theorem Clerk.isReliable_of_spent :
    ∃ c : Clerk Shelf,
      (Clerk.new "BTC-USDT").run? spentCalls = some c ∧
        (∃ k,
          c.Looks (.ordinary 3 .buy none (.ofParts 1 0))
            (.ofNanos 0) (.read c.store k)) ∧
          c.IsReliable := by
  have hEngine :
      ((Engine.new "BTC-USDT").run? spentCalls).map
          (fun e =>
            (e.book.halted, e.book.symbol,
              e.book.contains 3,
              e.book.asks.byPriority.length)) =
        some (false, "BTC-USDT", false, 1) := by
    decide +kernel
  rcases Option.map_eq_some_iff.1 hEngine with
    ⟨e, hRun, hFacts⟩
  simp only [Prod.mk.injEq] at hFacts
  rcases hFacts with ⟨hLive, hSymbol, hNew, hCount⟩
  rcases List.length_eq_one_iff.1 hCount with
    ⟨maker, hMakers⟩
  rcases exists_representing (σ := Shelf) hRun with
    ⟨c, hStored, hHolds⟩
  have hFound :
      ∃ k, c.store.bestSlot? .sell = some k ∧
        Slots.get? c.store.slots k = some maker.item :=
    hHolds.store.exists_bestSlot? hMakers
  rcases hFound with ⟨k, hBest, _⟩
  refine ⟨c, hStored, ⟨k, ?_⟩, isReliable hStored⟩
  refine ⟨?_, ?_, ?_, rfl, .trade (.best ?_ hBest)⟩
  · rw [hHolds.store.halted_eq, hLive]
  · rw [hHolds.store.symbol_eq, hSymbol]
    rfl
  · exact (hHolds.contains_eq 3).trans hNew
  · decide +kernel

end Matchbook
