import Matchbook.Proofs.Store.Breaches

/-
  What a refused call leaves behind.

  An insertion that is refused changes nothing.  A submission
  is refused for its symbol or its id before anything is done,
  and from then on only for a broken contract between two
  orders that meet; if that comes before the first trade, the
  store is as it was.

  Key definitions include:
    * `Store.Refuses`
    * `Store.Advances`
    * `Clerk.Answers`
    * `Clerk.RefusesCleanly`

  The main statements are:
    * `Store.insert_eq_error_iff`
    * `Store.advances_execute?`
    * `Store.cascade?_eq_of_trades_eq_nil`
    * `Clerk.Represents.answers`
    * `Clerk.refusesCleanly`
-/

------------------------------------------------------------
-- Insertions
------------------------------------------------------------

namespace Matchbook

namespace Store

variable {σ : Type}

/- Why a store refuses to insert an order. -/
inductive Refuses
    (s : Store σ)
    (policy : Policy)
    (o : Order) : Refusal → Prop
  | misrouted
      (hSymbol : o.symbol ≠ s.symbol) :
      Refuses s policy o
        (.violation (.symbolMismatch o.id o.symbol s.symbol))
  | held
      (hSymbol : o.symbol = s.symbol)
      (hHeld : s.contains o.id = true) :
      Refuses s policy o (.duplicateOrder s.symbol o.id)
  | unpriced
      (hSymbol : o.symbol = s.symbol)
      (hNew : s.contains o.id = false)
      (hPrice : policy.sortPrice o.key = none) :
      Refuses s policy o
        (.violation (.missingSortPrice o.id))

/-
  How far something has come between two states: no trade is
  lost, and the store is another one only if there is a new
  trade.
-/
structure Advances
    (trades : List Trade)
    (s : Store σ)
    (trades' : List Trade)
    (s' : Store σ) : Prop where
  length_le : trades.length ≤ trades'.length
  eq_of_length_eq :
    trades'.length = trades.length → s' = s

theorem Advances.refl
    (trades : List Trade)
    (s : Store σ) :
    Advances trades s trades s :=
  ⟨Nat.le_refl _, fun _ => rfl⟩

variable [Slots σ]

/- An insertion is refused for one of these reasons, and then
nothing has changed. -/
theorem insert_eq_error_iff
    {s s' : Store σ}
    {policy : Policy}
    {o : Order}
    {r : Refusal} :
    s.insert policy o = (.error r, s') ↔
      s.Refuses policy o r ∧ s' = s := by
  have hSide : o.key.side = o.side := rfl
  unfold insert
  dsimp only
  rw [Ladder.insert_of_side hSide]
  constructor
  · intro h
    split at h
    · rename_i hSymbol
      cases h
      exact ⟨.misrouted hSymbol, rfl⟩
    rename_i hSymbol
    rw [not_not] at hSymbol
    split at h
    · rename_i hHeld
      cases h
      exact ⟨.held hSymbol hHeld, rfl⟩
    rename_i hNew
    rw [Bool.not_eq_true] at hNew
    unfold Policy.rank at h
    cases hPrice : policy.sortPrice o.key with
    | none =>
        rw [hPrice] at h
        cases h
        exact ⟨.unpriced hSymbol hNew hPrice, rfl⟩
    | some price =>
        rw [hPrice] at h
        cases h
  · rintro ⟨hRefuses, rfl⟩
    cases hRefuses with
    | misrouted hSymbol => rw [if_pos hSymbol]
    | held hSymbol hHeld =>
        rw [if_neg (not_not.2 hSymbol)]
        exact if_pos hHeld
    | unpriced hSymbol hNew hPrice =>
        have hFree : ¬ s'.index.contains o.id = true := by
          rw [Bool.not_eq_true]
          exact hNew
        rw [if_neg (not_not.2 hSymbol), if_neg hFree]
        unfold Policy.rank
        rw [hPrice]
        rfl

------------------------------------------------------------
-- Executions
------------------------------------------------------------

/- A taker touches the store only when it trades.  By induction
on the approximations of the loop: after a trade there are
more trades than before, whatever comes next. -/
theorem advances_trade?
    {now : Timestamp}
    {taker : Order}
    {trades : List Trade}
    {s : Store σ}
    {r : Except Violation Order × List Trade × Store σ}
    (h : s.trade? now taker trades = some r) :
    Advances trades s r.2.1 r.2.2 := by
  refine
    trade?.partial_correctness now
      (fun _ trades s r => Advances trades s r.2.1 r.2.2)
      ?_ taker trades s r h
  intro next ih taker trades s r h
  split at h
  · cases h
    exact .refl trades s
  split at h
  · cases h
    exact .refl trades s
  rcases Option.bind_eq_some_iff.1 h with ⟨maker, _, h⟩
  rcases Option.bind_eq_some_iff.1 h with ⟨meeting, _, h⟩
  cases meeting with
  | broken cause =>
      cases h
      exact .refl trades s
  | apart =>
      cases h
      exact .refl trades s
  | traded t maker' taker' =>
      rcases Option.bind_eq_some_iff.1 h with ⟨s', _, h⟩
      have hMore := (ih _ _ _ _ h).length_le
      rw [List.length_append, List.length_singleton] at hMore
      constructor
      · omega
      · intro hSame
        omega

/- An order that is refused in the end has not been put to
rest. -/
theorem finish?_eq_error
    {s s' : Store σ}
    {taker : Order}
    {refusal : Refusal}
    (h : s.finish? taker = some (.error refusal, s')) :
    s' = s := by
  unfold finish? at h
  split at h
  · cases h
  rcases Option.map_eq_some_iff.1 h with
    ⟨remaining, _, hEnd⟩
  split at hEnd
  · cases hEnd
  cases hInsert : s.insert .price taker with
  | mk stored after =>
      rw [hInsert] at hEnd
      cases stored with
      | ok => cases hEnd
      | error r =>
          cases hEnd
          exact (insert_eq_error_iff.1 hInsert).2

theorem length_le_execute?
    {now : Timestamp}
    {taker : Order}
    {trades trades' : List Trade}
    {s s' : Store σ}
    {answer : Except Refusal Disposition}
    (h :
      s.execute? now taker trades =
        some (answer, trades', s')) :
    trades.length ≤ trades'.length := by
  rcases Option.bind_eq_some_iff.1 h with
    ⟨⟨stopped, trades₁, s₁⟩, hTrade, h⟩
  have hLess := (advances_trade? hTrade).length_le
  cases stopped with
  | error cause =>
      cases h
      exact hLess
  | ok taker' =>
      rcases Option.map_eq_some_iff.1 h with ⟨_, _, hEq⟩
      cases hEq
      exact hLess

/- An execution that is refused has changed the store only if
it has traded. -/
theorem advances_execute?
    {now : Timestamp}
    {taker : Order}
    {trades trades' : List Trade}
    {s s' : Store σ}
    {refusal : Refusal}
    (h :
      s.execute? now taker trades =
        some (.error refusal, trades', s')) :
    Advances trades s trades' s' := by
  rcases Option.bind_eq_some_iff.1 h with
    ⟨⟨stopped, trades₁, s₁⟩, hTrade, h⟩
  have hAdvances := advances_trade? hTrade
  cases stopped with
  | error cause =>
      cases h
      exact hAdvances
  | ok taker' =>
      rcases Option.map_eq_some_iff.1 h with
        ⟨⟨answer, s₂⟩, hFinish, hEq⟩
      cases hEq
      rw [finish?_eq_error hFinish]
      exact hAdvances

/- Released orders take no trade back. -/
theorem length_le_drain?
    {now : Timestamp}
    {released : List Order}
    {trades : List Trade}
    {triggered : List UInt64}
    {s : Store σ}
    {r :
      Except Refusal Unit × List Trade × List UInt64 ×
        Store σ}
    (h : s.drain? now released trades triggered = some r) :
    trades.length ≤ r.2.1.length := by
  refine
    drain?.partial_correctness now
      (fun _ trades _ _ r => trades.length ≤ r.2.1.length)
      ?_ released trades triggered s r h
  intro next ih released trades triggered s r h
  cases released with
  | nil =>
      cases h
      exact Nat.le_refl _
  | cons o rest =>
      rcases Option.bind_eq_some_iff.1 h with
        ⟨⟨answer, trades', s'⟩, hExecute, h⟩
      have hLess := length_le_execute? hExecute
      cases answer with
      | error refusal =>
          cases h
          exact hLess
      | ok disposition =>
          rcases Option.bind_eq_some_iff.1 h with
            ⟨⟨more, s''⟩, _, h⟩
          exact Nat.le_trans hLess (ih _ _ _ _ _ h)

/- A cascade that ends without a trade and is refused has not
got past its first step: what is released comes after a
trade. -/
theorem cascade?_eq_of_trades_eq_nil
    {s s' : Store σ}
    {o : Order}
    {now : Timestamp}
    {tally : Tally}
    {refusal : Refusal}
    (h : s.cascade? o now = some (tally, s'))
    (hRefused : tally.outcome = .error refusal)
    (hNone : tally.trades = []) :
    s' = s := by
  cases ends_of_cascade? h with
  | refused hExecute =>
      exact
        (advances_execute? hExecute).eq_of_length_eq
          (congrArg List.length hNone)
  | drained hExecute hSweep hDrain =>
      have hLess := length_le_drain? hDrain
      dsimp only at hLess hNone hRefused
      rw [hNone, List.length_nil, Nat.le_zero,
        List.length_eq_zero_iff] at hLess
      subst hLess
      cases hSweep
      rw [drain?] at hDrain
      cases hDrain
      cases hRefused

end Store

------------------------------------------------------------
-- Submissions
------------------------------------------------------------

namespace Clerk

variable {σ : Type}

/-
  The answers to a submission, each with what it takes and
  what is left of the clerk.
-/
inductive Answers
    (c : Clerk σ)
    (o : Order) : Except Refusal Report → Clerk σ → Prop
  | halted
      (hHalted : c.store.halted = true) :
      Answers c o (.error (.halted c.store.symbol)) c
  | misrouted
      (hLive : c.store.halted = false)
      (hSymbol : o.symbol ≠ c.store.symbol) :
      Answers c o
        (.error
          (.violation
            (.symbolMismatch o.id o.symbol c.store.symbol)))
        { c with store := c.store.halt }
  | held
      (hLive : c.store.halted = false)
      (hSymbol : o.symbol = c.store.symbol)
      (hHeld : c.store.contains o.id = true) :
      Answers c o
        (.error (.duplicateOrder c.store.symbol o.id)) c
  | done
      (hLive : c.store.halted = false)
      (hSymbol : o.symbol = c.store.symbol)
      (hNew : c.store.contains o.id = false)
      (report : Report)
      (c' : Clerk σ) :
      Answers c o (.ok report) c'
  | broken
      (hLive : c.store.halted = false)
      (hSymbol : o.symbol = c.store.symbol)
      (hNew : c.store.contains o.id = false)
      {cause : Violation}
      {maker taker : Order}
      (hBreaks : maker.Breaks taker cause) :
      Answers c o (.error (.violation cause))
        { c with
          store := c.store.halt
          processed := c.processed + 1 }
  | brokenAfterTrades
      (hLive : c.store.halted = false)
      (hSymbol : o.symbol = c.store.symbol)
      (hNew : c.store.contains o.id = false)
      {cause : Violation}
      {maker taker : Order}
      (hBreaks : maker.Breaks taker cause)
      (trades : List Trade)
      (c' : Clerk σ) :
      Answers c o
        (.error (.violationAfterTrades cause trades)) c'

variable [Slots σ]
variable {c c' : Clerk σ}
variable {e : Engine}
variable {o : Order}
variable {now : Timestamp}

/- An id that is held is all that it takes for this refusal. -/
theorem submit?_of_held
    (hLive : c.store.halted = false)
    (hSymbol : o.symbol = c.store.symbol)
    (hHeld : c.store.contains o.id = true) :
    c.submit? o now =
      some
        (.error (.duplicateOrder c.store.symbol o.id), c) := by
  unfold submit? process?
  rw [if_neg (by simp [hLive]), if_neg (not_not.2 hSymbol),
    if_pos hHeld]
  rfl

variable [LawfulSlots σ]

/- An order that has to wait is put to wait. -/
theorem Represents.exists_parked
    (h : c.Represents e)
    (hOrderly : Floor.IsOrderly ⟨e.book, [o]⟩)
    (hWait : c.store.mustWait o = true) :
    (c.park o).1.outcome = .ok .parked := by
  rcases hStop : o.stopPrice with _ | price
  · unfold Store.mustWait at hWait
    rw [hStop] at hWait
    cases hWait
  · have hKey : Policy.stop.sortPrice o.key = some price :=
      hStop
    rcases e.book.exists_place hKey with ⟨b, hPlace⟩
    rcases h.store.insert hOrderly hPlace with
      ⟨s, hInsert, _⟩
    unfold Clerk.park
    rw [hInsert]
    rfl

/- A cascade is answered with a report or with the contract
that it has broken. -/
theorem Represents.answers_of_cascade?
    {answer : Except Refusal Report}
    {tally : Tally}
    {s : Store σ}
    (h : c.Represents e)
    (hLive : c.store.halted = false)
    (hSymbol : o.symbol = c.store.symbol)
    (hNew : c.store.contains o.id = false)
    (hOrderly : Floor.IsOrderly ⟨e.book, [o]⟩)
    (hCascade : c.store.cascade? o now = some (tally, s))
    (hAnswer :
      ({ c with
          store := s
          processed := c.processed + 1
          executed :=
            c.executed + tally.trades.length.toUInt64 } :
        Clerk σ).answer o tally = (answer, c')) :
    c.Answers o answer c' := by
  unfold Clerk.answer at hAnswer
  cases hOutcome : tally.outcome with
  | ok disposition =>
      rw [hOutcome] at hAnswer
      cases hAnswer
      exact .done hLive hSymbol hNew _ _
  | error refusal =>
      rcases
          h.store.isBreach_of_cascade? hOrderly hCascade
            hOutcome with
        ⟨cause, rfl, maker, taker, hBreaks⟩
      rw [hOutcome] at hAnswer
      cases hTrades : tally.trades with
      | nil =>
          have hSame :=
            Store.cascade?_eq_of_trades_eq_nil hCascade
              hOutcome hTrades
          have hCount :
              c.executed + ([] : List Trade).length.toUInt64 =
                c.executed :=
            UInt64.add_zero _
          rw [hSame, hTrades, hCount] at hAnswer
          cases hAnswer
          exact .broken hLive hSymbol hNew hBreaks
      | cons t rest =>
          rw [hTrades] at hAnswer
          cases hAnswer
          exact
            .brokenAfterTrades hLive hSymbol hNew hBreaks _ _

/- Every submission that has an answer has one of these. -/
theorem Represents.answers
    {answer : Except Refusal Report}
    (h : c.Represents e)
    (hSubmit : c.submit? o now = some (answer, c')) :
    c.Answers o answer c' := by
  unfold submit? at hSubmit
  split at hSubmit
  · rename_i hHalted
    cases hSubmit
    exact .halted hHalted
  rename_i hLive
  rw [Bool.not_eq_true] at hLive
  rcases Option.map_eq_some_iff.1 hSubmit with
    ⟨⟨tally, c₁⟩, hProcess, hEq⟩
  unfold process? at hProcess
  split at hProcess
  · rename_i hSymbol
    cases hProcess
    cases hEq
    exact .misrouted hLive hSymbol
  rename_i hSymbol
  rw [not_not] at hSymbol
  split at hProcess
  · rename_i hHeld
    cases hProcess
    cases hEq
    exact .held hLive hSymbol hHeld
  rename_i hNew
  rw [Bool.not_eq_true] at hNew
  have hOrderly : Floor.IsOrderly ⟨e.book, [o]⟩ := by
    apply h.isOrderly.enter
    · rw [hSymbol, h.store.symbol_eq]
    · rw [← h.contains_eq]
      exact hNew
  dsimp only at hProcess
  split at hProcess
  · rename_i hWait
    have hParked : tally.outcome = .ok .parked := by
      cases hProcess
      exact h.exists_parked hOrderly hWait
    change c₁.answer o tally = (answer, c') at hEq
    unfold Clerk.answer at hEq
    rw [hParked] at hEq
    cases hEq
    exact .done hLive hSymbol hNew _ _
  · rcases Option.map_eq_some_iff.1 hProcess with
      ⟨⟨tally', s⟩, hCascade, hTally⟩
    cases hTally
    exact
      h.answers_of_cascade? hLive hSymbol hNew hOrderly
        hCascade hEq

------------------------------------------------------------
-- Clean refusals
------------------------------------------------------------

/-
  What refused calls of a clerk leave behind.  A refused
  insertion, an id that is held and a halted store change
  nothing at all.  A contract that is broken before the first
  trade halts the store, and the order is counted unless it is
  of another symbol; nothing else changes.
-/
structure RefusesCleanly (c : Clerk σ) : Prop where
  insertion :
    ∀ policy o r s,
      c.store.insert policy o = (.error r, s) ↔
        c.store.Refuses policy o r ∧ s = c.store
  halted :
    ∀ o now symbol c',
      c.submit? o now =
          some (.error (.halted symbol), c') ↔
        c.store.halted = true ∧
          symbol = c.store.symbol ∧ c' = c
  duplicate :
    ∀ o now symbol id c',
      c.submit? o now =
          some (.error (.duplicateOrder symbol id), c') ↔
        c.store.halted = false ∧
          o.symbol = c.store.symbol ∧
          c.store.contains o.id = true ∧
          symbol = c.store.symbol ∧ id = o.id ∧ c' = c
  violation :
    ∀ o now cause c',
      c.submit? o now =
          some (.error (.violation cause), c') →
        c' = { c with store := c.store.halt } ∧
            o.symbol ≠ c.store.symbol ∨
          c' =
              { c with
                store := c.store.halt
                processed := c.processed + 1 } ∧
            o.symbol = c.store.symbol

/- Whatever calls a clerk has gone through, what it refuses
next it refuses cleanly. -/
theorem refusesCleanly
    {symbol : String}
    {calls : List Call}
    (hRun : (new symbol : Clerk σ).run? calls = some c) :
    c.RefusesCleanly := by
  rcases exists_represented hRun with ⟨e, _, hHolds⟩
  constructor
  case insertion =>
    intro policy o r s
    exact Store.insert_eq_error_iff
  case halted =>
    intro o now symbol' c'
    constructor
    · intro hSubmit
      cases hHolds.answers hSubmit with
      | halted hHalted => exact ⟨hHalted, rfl, rfl⟩
    · rintro ⟨hHalted, rfl, rfl⟩
      unfold submit?
      rw [if_pos hHalted]
  case duplicate =>
    intro o now symbol' id c'
    constructor
    · intro hSubmit
      cases hHolds.answers hSubmit with
      | held hLive hSymbol hHeld =>
          exact ⟨hLive, hSymbol, hHeld, rfl, rfl, rfl⟩
    · rintro ⟨hLive, hSymbol, hHeld, rfl, rfl, rfl⟩
      exact submit?_of_held hLive hSymbol hHeld
  case violation =>
    intro o now cause c' hSubmit
    cases hHolds.answers hSubmit with
    | misrouted _ hSymbol => exact Or.inl ⟨rfl, hSymbol⟩
    | broken _ hSymbol => exact Or.inr ⟨rfl, hSymbol⟩

end Clerk

/- A buyer of 1 at 99, and a seller at 100 that has nothing
left to sell and is put to rest past the engine. -/
def spentCalls : List Call :=
  [.submit
      (.ordinary 1 .buy (some (.ofParts 99 0))
        (.ofParts 1 0)) (.ofNanos 0),
    .place .price
      { Order.ordinary 2 .sell (some (.ofParts 100 0))
          (.ofParts 2 0) with
        filled := .ofParts 2 0 }]

/- A buyer who meets this seller breaks a contract. -/
theorem Clerk.refusesCleanly_of_spent :
    ∃ c : Clerk Shelf,
      (Clerk.new "BTC-USDT").run? spentCalls = some c ∧
        (∃ c',
          c.submit?
              (.ordinary 3 .buy none (.ofParts 1 0))
              (.ofNanos 0) =
            some
              (.error (.violation (.exhaustedOrder 2)), c')) ∧
          c.RefusesCleanly := by
  have hEngine :
      (((Engine.new "BTC-USDT").run? spentCalls).bind fun e =>
          e.submit? (.ordinary 3 .buy none (.ofParts 1 0))
            (.ofNanos 0)).map Prod.fst =
        some (.error (.violation (.exhaustedOrder 2))) := by
    decide +kernel
  rcases Option.map_eq_some_iff.1 hEngine with
    ⟨⟨answer, e'⟩, hBoth, hAnswer⟩
  rcases Option.bind_eq_some_iff.1 hBoth with
    ⟨e, hRun, hSubmit⟩
  rcases exists_representing (σ := Shelf) hRun with
    ⟨c, hStored, hHolds⟩
  have hRelSubmit :=
    hHolds.rel_submit?
      (.ordinary 3 .buy none (.ofParts 1 0)) (.ofNanos 0)
  rw [hSubmit] at hRelSubmit
  rcases exists_of_rel hRelSubmit with
    ⟨⟨answer', c'⟩, hStoredSubmit, hSame, _⟩
  dsimp only at hAnswer hSame
  refine ⟨c, hStored, ⟨c', ?_⟩, refusesCleanly hStored⟩
  rw [hStoredSubmit, hSame, hAnswer]

end Matchbook
