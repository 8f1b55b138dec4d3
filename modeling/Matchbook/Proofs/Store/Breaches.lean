import Matchbook.Proofs.Engine.Encounter
import Matchbook.Proofs.Store.Calls

/-
  The contracts that are broken in the middle of a submission.

  Two orders that meet are of opposite sides, and the maker
  has a price.  What is left to go wrong between them is that
  one has nothing left to fill or that the total has too many
  digits; and nothing else refuses an order once it is taken
  in.

  Key definitions include:
    * `Order.Breaks`
    * `Store.Ends`
    * `Refusal.IsBreach`

  The main statements are:
    * `Book.exists_breaks_of_pass?`
    * `Store.ends_of_cascade?`
    * `Store.Represents.step`
    * `Store.Represents.isBreach_of_execute?`
    * `Store.Represents.isBreach_of_cascade?`
-/

------------------------------------------------------------
-- Causes
------------------------------------------------------------

namespace Matchbook

namespace Order

/- The contracts that a maker and a taker of the other side
can break when they meet. -/
inductive Breaks (maker taker : Order) : Violation → Prop
  | exhaustedMaker :
      Breaks maker taker (.exhaustedOrder maker.id)
  | exhaustedTaker :
      Breaks maker taker (.exhaustedOrder taker.id)
  | total
      {price quantity : Decimal}
      (hPrice : maker.price = some price)
      (hTotal : price.product? quantity = none) :
      Breaks maker taker
        (.totalOutOfRange maker.id taker.id price quantity)

variable {maker taker : Order}
variable {id : UInt64}
variable {now : Timestamp}
variable {cause : Violation}

theorem Breaks.exhausted_or_total
    (h : maker.Breaks taker cause) :
    (∃ id, cause = .exhaustedOrder id) ∨
      ∃ makerId takerId price quantity,
        cause =
          .totalOutOfRange makerId takerId price quantity := by
  cases h with
  | exhaustedMaker => exact Or.inl ⟨_, rfl⟩
  | exhaustedTaker => exact Or.inl ⟨_, rfl⟩
  | total => exact Or.inr ⟨_, _, _, _, rfl⟩

theorem breaks_of_exchange?
    {price quantity : Decimal}
    (hPrice : maker.price = some price)
    (h :
      exchange? maker taker id price quantity now =
        some (.broken cause)) :
    maker.Breaks taker cause := by
  unfold exchange? at h
  split at h
  · rename_i hTotal
    cases h
    exact .total hPrice hTotal
  · split at h <;> cases h

theorem breaks_of_meet?
    (hSide : maker.side ≠ taker.side)
    (hPriced : maker.price.isSome)
    (h : maker.meet? taker id now = some (.broken cause)) :
    maker.Breaks taker cause := by
  rcases Option.isSome_iff_exists.1 hPriced with
    ⟨price, hPrice⟩
  unfold meet? at h
  simp only [if_neg hSide, hPrice] at h
  split at h
  · rcases Option.bind_eq_some_iff.1 h with
      ⟨makerOpen, _, h⟩
    split at h
    · cases h
      exact .exhaustedMaker
    rcases Option.bind_eq_some_iff.1 h with
      ⟨takerOpen, _, h⟩
    split at h
    · cases h
      exact .exhaustedTaker
    · exact breaks_of_exchange? hPrice h
  · cases h

end Order

/- By induction on the matching: its makers stay priced and of
the other side. -/
theorem Matching.Runs.exists_breaks
    {now : Timestamp}
    {id : UInt64}
    {makers : List (Entry Order)}
    {taker : Order}
    {m : Matching}
    {side : Side}
    {cause : Violation}
    (h : Runs now id makers taker m)
    (hBroken : m.violation = some cause)
    (hRanked : RankedEntries side .price makers)
    (hSide : taker.side.opposite = side) :
    ∃ met comer : Order, met.Breaks comer cause := by
  induction h with
  | filled => cases hBroken
  | empty => cases hBroken
  | apart => cases hBroken
  | broken _ hMeet =>
      cases hBroken
      rcases side_ne_and_priced hRanked hSide with
        ⟨hNe, hPriced⟩
      exact
        ⟨_, _, Order.breaks_of_meet? hNe hPriced hMeet⟩
  | traded _ hMeet _ ih =>
      have hStruck := (Deal.isStruck_of_meet? hMeet).1
      exact
        ih hBroken
          (hStruck.rankedEntries_remaining hRanked)
          (by rw [hStruck.taker_with_filled]; exact hSide)

/- A pass breaks no other contract. -/
theorem Book.exists_breaks_of_pass?
    {b b' : Book}
    {taker : Order}
    {now : Timestamp}
    {p : Pass}
    {cause : Violation}
    (hRanked : b.IsRanked)
    (hPass : b.pass? taker now = some (p, b'))
    (hBroken : p.violation = some cause) :
    ∃ met comer : Order, met.Breaks comer cause := by
  cases passes_of_pass? hPass with
  | broken hRuns hCause =>
      cases hBroken
      exact
        hRuns.exists_breaks hCause
          (hRanked taker.side.opposite .price) rfl
  | finished _ _ hFinish =>
      rw [hFinish.violation_eq_none] at hBroken
      cases hBroken

------------------------------------------------------------
-- Cascades
------------------------------------------------------------

/- How a cascade ends: its first order is refused, or what
that order releases is drained. -/
inductive Store.Ends
    {σ : Type}
    [Slots σ]
    (s : Store σ)
    (o : Order)
    (now : Timestamp) : Tally → Store σ → Prop
  | refused
      {refusal : Refusal}
      {trades : List Trade}
      {s' : Store σ}
      (hExecute :
        s.execute? now o.activate [] =
          some (.error refusal, trades, s')) :
      Ends s o now ⟨.error refusal, trades, []⟩ s'
  | drained
      {disposition : Disposition}
      {trades trades' : List Trade}
      {released : List Order}
      {drained : Except Refusal Unit}
      {triggered : List UInt64}
      {s₁ s₂ s' : Store σ}
      (hExecute :
        s.execute? now o.activate [] =
          some (.ok disposition, trades, s₁))
      (hSweep :
        s₁.sweepAfter? [] trades = some (released, s₂))
      (hDrain :
        s₂.drain? now released trades [] =
          some (drained, trades', triggered, s')) :
      Ends s o now
        ⟨drained.map fun _ => disposition, trades', triggered⟩
        s'

theorem Store.ends_of_cascade?
    {σ : Type}
    [Slots σ]
    {s s' : Store σ}
    {o : Order}
    {now : Timestamp}
    {tally : Tally}
    (h : s.cascade? o now = some (tally, s')) :
    s.Ends o now tally s' := by
  rcases Option.bind_eq_some_iff.1 h with
    ⟨⟨answer, trades, s₁⟩, hExecute, hNext⟩
  cases answer with
  | error refusal =>
      cases hNext
      exact .refused hExecute
  | ok disposition =>
      rcases Option.bind_eq_some_iff.1 hNext with
        ⟨⟨released, s₂⟩, hSweep, hRest⟩
      rcases Option.map_eq_some_iff.1 hRest with
        ⟨⟨drained, trades', triggered, s₃⟩, hDrain, hEq⟩
      cases hEq
      exact .drained hExecute hSweep hDrain

------------------------------------------------------------
-- Broken contracts
------------------------------------------------------------

/- Whether a refusal reports a contract that two orders of
opposite sides have broken when they met. -/
def Refusal.IsBreach (r : Refusal) : Prop :=
  ∃ cause, r = .violation cause ∧
    ∃ maker taker : Order, maker.Breaks taker cause

namespace Store.Represents

variable {σ : Type} [Slots σ] [LawfulSlots σ]
variable {s s' s'' : Store σ}
variable {b : Book}
variable {o taker : Order}
variable {queue more : List Order}
variable {now : Timestamp}
variable {trades trades' : List Trade}
variable {answer : Except Refusal Disposition}

/- An execution in the store is a pass of the book. -/
theorem exists_pass?
    (h : s.Represents b)
    (hOrderly : Floor.IsOrderly ⟨b, taker :: queue⟩)
    (hExecute :
      s.execute? now taker trades =
        some (answer, trades', s')) :
    ∃ p b', b.pass? taker now = some (p, b') ∧
      answer = p.ending.answer ∧
      trades' = trades ++ p.trades ∧
      s'.Represents b' ∧ Floor.IsOrderly ⟨b', queue⟩ := by
  have hRel := h.rel_execute? hOrderly now trades
  rw [hExecute] at hRel
  rcases exists_of_rel_some hRel with
    ⟨⟨p, b'⟩, hPass, hAnswer, hTrades, hAfter, hFloor⟩
  exact ⟨p, b', hPass, hAnswer, hTrades, hAfter, hFloor⟩

/- One step of a queue: after an execution and the sweep that
follows it the released orders have joined those in flight. -/
theorem step
    (h : s.Represents b)
    (hOrderly : Floor.IsOrderly ⟨b, o :: queue⟩)
    (hExecute :
      s.execute? now o.activate trades =
        some (answer, trades', s'))
    (hSweep :
      s'.sweepAfter? trades trades' = some (more, s'')) :
    ∃ b'', s''.Represents b'' ∧
      Floor.IsOrderly ⟨b'', queue ++ more⟩ := by
  rcases h.exists_pass? hOrderly.activate hExecute with
    ⟨p, b', _, _, hTrades, hHolds, hFloor⟩
  rcases hHolds.sweepAfter? hFloor.isRanked p trades with
    ⟨s₁, hSwept, hAfter⟩
  rw [hTrades, hSwept] at hSweep
  cases hSweep
  exact ⟨_, hAfter, hFloor.releaseAfter p⟩

/- An order is refused in the middle of its execution only for
a breach.  In particular its id is never found to be taken. -/
theorem isBreach_of_execute?
    {refusal : Refusal}
    (h : s.Represents b)
    (hOrderly : Floor.IsOrderly ⟨b, taker :: queue⟩)
    (hExecute :
      s.execute? now taker trades =
        some (.error refusal, trades', s')) :
    refusal.IsBreach := by
  rcases h.exists_pass? hOrderly hExecute with
    ⟨p, b', hPass, hAnswer, _⟩
  cases hBroken : p.violation with
  | some cause =>
      rw [Pass.ending_answer_eq_error hBroken] at hAnswer
      cases hAnswer
      exact
        ⟨cause, rfl,
          Book.exists_breaks_of_pass? hOrderly.isRanked hPass
            hBroken⟩
  | none =>
      rcases Pass.exists_disposition hBroken with
        ⟨disposition, hEnding⟩
      rw [Pass.ending_answer_eq_ok hEnding] at hAnswer
      cases hAnswer

/- So are released orders.  By induction on the approximations
of the queue; each step leaves a store that represents an
orderly floor. -/
theorem isBreach_of_drain?
    {refusal : Refusal}
    {triggered : List UInt64}
    {r :
      Except Refusal Unit × List Trade × List UInt64 ×
        Store σ}
    (h : s.Represents b)
    (hOrderly : Floor.IsOrderly ⟨b, queue⟩)
    (hDrain : s.drain? now queue trades triggered = some r)
    (hRefused : r.1 = .error refusal) :
    refusal.IsBreach := by
  refine
    drain?.partial_correctness now
      (fun queue _ _ s r =>
        ∀ b, s.Represents b → Floor.IsOrderly ⟨b, queue⟩ →
          ∀ refusal, r.1 = .error refusal →
            refusal.IsBreach)
      ?_ queue trades triggered s r hDrain b h hOrderly
      refusal hRefused
  intro next ih queue trades triggered s r hDrain b h
    hOrderly refusal hRefused
  cases queue with
  | nil =>
      cases hDrain
      cases hRefused
  | cons o rest =>
      rcases Option.bind_eq_some_iff.1 hDrain with
        ⟨⟨answer, trades', s'⟩, hExecute, hNext⟩
      cases answer with
      | error refusal' =>
          cases hNext
          cases hRefused
          exact
            h.isBreach_of_execute? hOrderly.activate hExecute
      | ok disposition =>
          rcases Option.bind_eq_some_iff.1 hNext with
            ⟨⟨more, s''⟩, hSweep, hRest⟩
          rcases h.step hOrderly hExecute hSweep with
            ⟨b'', hHolds, hFloor⟩
          exact
            ih _ _ _ _ _ hRest b'' hHolds hFloor refusal
              hRefused

theorem isBreach_of_cascade?
    {tally : Tally}
    {refusal : Refusal}
    (h : s.Represents b)
    (hOrderly : Floor.IsOrderly ⟨b, [o]⟩)
    (hCascade : s.cascade? o now = some (tally, s'))
    (hRefused : tally.outcome = .error refusal) :
    refusal.IsBreach := by
  cases ends_of_cascade? hCascade with
  | refused hExecute =>
      cases hRefused
      exact h.isBreach_of_execute? hOrderly.activate hExecute
  | @drained _ _ _ _ drained _ _ _ _ hExecute hSweep
      hDrain =>
      rcases h.step hOrderly hExecute hSweep with
        ⟨b₂, hHolds, hFloor⟩
      cases drained with
      | ok => cases hRefused
      | error refusal' =>
          cases hRefused
          exact hHolds.isBreach_of_drain? hFloor hDrain rfl

end Store.Represents

end Matchbook
