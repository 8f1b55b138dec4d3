import Matchbook.Proofs.Store.Cascade

/-
  Calls of a clerk and of an engine.

  Whatever is done to a stored book and to a book that it
  represents, directly or by way of a submission, the answers
  are the same and the one goes on to represent the other.  In
  particular a store never comes to a slot that is vacant or
  to an entry of another slot: a call ends in `none` only
  where the engine comes to a number out of range.  Nor is an
  order ever refused in the middle of a cascade because its id
  is taken, which would leave trades that nobody is told of.

  Key definitions include:
    * `Clerk.Represents`
    * `Call`
    * `Clerk.run?`
    * `Engine.run?`

  The main statements are:
    * `Clerk.Represents.rel_submit?`
    * `Clerk.Represents.cancel?_eq`
    * `Clerk.Represents.rel_run?`
-/

------------------------------------------------------------
-- Clerks and engines
------------------------------------------------------------

namespace Matchbook

namespace Engine

/- Insert an order into the book without the engine; nothing
happens if the book refuses it. -/
def place
    (e : Engine)
    (policy : Policy)
    (o : Order) : Engine :=
  match e.book.insert policy o with
  | .ok b => { e with book := b }
  | .error _ => e

/- Take an order out of the book without the engine. -/
def remove (e : Engine) (id : UInt64) : Engine :=
  match e.book.cancel? id with
  | none => e
  | some (_, b) => { e with book := b }

end Engine

namespace Clerk

variable {σ : Type} [Slots σ]

/- Insert an order into the store without the engine. -/
def place
    (c : Clerk σ)
    (policy : Policy)
    (o : Order) : Clerk σ :=
  { c with store := (c.store.insert policy o).2 }

/- Whether a clerk keeps in slots what an engine keeps in
ladders. -/
structure Represents (c : Clerk σ) (e : Engine) : Prop where
  store : c.store.Represents e.book
  processed_eq : c.processed = e.processed
  executed_eq : c.executed = e.executed
  isOrderly : Floor.IsOrderly ⟨e.book, []⟩

namespace Represents

variable {c : Clerk σ}
variable {e : Engine}
variable {o : Order}

theorem mustWait_eq
    (h : c.Represents e)
    (o : Order) :
    c.store.mustWait o = e.mustWait o := by
  unfold Store.mustWait Engine.mustWait
  cases o.stopPrice with
  | none => rfl
  | some stop =>
      dsimp only
      rw [h.store.lastPrice_eq]

theorem contains_eq
    (h : c.Represents e)
    (id : UInt64) :
    c.store.contains id = e.book.contains id :=
  h.store.contains_eq h.isOrderly.isRanked id

/- A broken contract halts both. -/
theorem breakOff
    (h : c.Represents e)
    (o : Order)
    (cause : Violation)
    (trades : List Trade)
    (triggered : List UInt64) :
    let x :=
      c.answer o
        ⟨.error (.violation cause), trades, triggered⟩
    x.1 = (e.breakOff cause trades).1 ∧
      x.2.Represents (e.breakOff cause trades).2 :=
  ⟨rfl, h.store.halt, h.processed_eq, h.executed_eq,
    h.isOrderly.halt⟩

variable [LawfulSlots σ]

/- An order that has to wait is parked in both. -/
theorem park
    (h : c.Represents e)
    (hOrderly : Floor.IsOrderly ⟨e.book, [o]⟩) :
    let x := (c.park o).2.answer o (c.park o).1
    x.1 = (e.park o).1 ∧ x.2.Represents (e.park o).2 := by
  unfold Clerk.park Engine.park
  cases hPlace : e.book.place .stop o with
  | error cause =>
      rw [h.store.insert_of_place_eq_error hOrderly hPlace]
      exact h.breakOff o cause [] []
  | ok b =>
      rcases h.store.insert hOrderly hPlace with
        ⟨s, hInsert, hAfter⟩
      rw [hInsert]
      exact
        ⟨rfl, hAfter, h.processed_eq, h.executed_eq,
          hOrderly.place hPlace⟩

/- An order is executed in both with all that it sets off. -/
theorem rel_execute?
    (h : c.Represents e)
    (hOrderly : Floor.IsOrderly ⟨e.book, [o]⟩)
    (now : Timestamp) :
    Option.Rel
      (fun x y => x.1 = y.1 ∧ x.2.Represents y.2)
      ((c.store.cascade? o now).map fun (tally, s) =>
        ({ c with
            store := s
            executed :=
              c.executed + tally.trades.length.toUInt64 } :
          Clerk σ).answer o tally)
      (e.execute? o now) := by
  unfold Engine.execute?
  refine relMap (h.store.rel_cascade? hOrderly now) ?_
  rintro ⟨tally, s⟩ k ⟨hTally, hHolds, hId, hFloor⟩
  dsimp only at hTally hHolds
  subst hTally
  have hAfter :
      ({ c with
          store := s
          executed :=
            c.executed + k.trades.length.toUInt64 } :
        Clerk σ).Represents
        { e with
          book := k.book
          executed :=
            e.executed + k.trades.length.toUInt64 } :=
    ⟨hHolds, h.processed_eq, by rw [h.executed_eq], hFloor⟩
  dsimp only
  cases hOutcome : k.outcome with
  | error cause =>
      have hTally :
          k.tally.outcome = .error (.violation cause) := by
        unfold Cascade.tally
        rw [hOutcome]
        rfl
      unfold answer
      rw [hTally]
      exact hAfter.breakOff o cause k.trades []
  | ok r =>
      rcases Cascade.outcome_eq_ok_iff.1 hOutcome with
        ⟨_, disposition, _, rfl⟩
      have hTally : k.tally.outcome = .ok disposition := by
        unfold Cascade.tally
        rw [hOutcome]
        rfl
      unfold answer
      rw [hTally, hId]
      exact ⟨rfl, hAfter⟩

/- A submission is answered by a clerk as by the engine. -/
theorem rel_submit?
    (h : c.Represents e)
    (o : Order)
    (now : Timestamp) :
    Option.Rel
      (fun x y => x.1 = y.1 ∧ x.2.Represents y.2)
      (c.submit? o now) (e.submit? o now) := by
  unfold Clerk.submit? Engine.submit?
  rw [h.store.halted_eq]
  split
  · refine .some ⟨?_, h⟩
    rw [h.store.symbol_eq]
  unfold Clerk.process?
  rw [h.store.symbol_eq, h.contains_eq]
  split
  · exact .some (h.breakOff o _ [] [])
  rename_i hSymbol
  split
  · exact .some ⟨rfl, h⟩
  rename_i hNew
  have hOrderly :=
    h.isOrderly.enter (Decidable.of_not_not hSymbol)
      (by simpa using hNew)
  have hCounted :
      ({ c with processed := c.processed + 1 } :
        Clerk σ).Represents
        { e with processed := e.processed + 1 } :=
    ⟨h.store, by rw [h.processed_eq], h.executed_eq,
      h.isOrderly⟩
  dsimp only
  rw [h.mustWait_eq]
  change
    Option.Rel _ _
      (if e.mustWait o = true then
        some (Engine.park _ o)
      else
        Engine.execute? _ o now)
  split
  · exact .some (hCounted.park hOrderly)
  · rw [Option.map_map]
    exact hCounted.rel_execute? hOrderly now

/- What a cancellation takes out of a book, it takes out of
the store. -/
theorem remove
    (h : c.Represents e)
    (id : UInt64) :
    ∃ found s,
      c.store.cancel? id = some (found, s) ∧
        found = (e.book.cancel? id).map Prod.fst ∧
        ({ c with store := s } : Clerk σ).Represents
          (e.remove id) := by
  unfold Engine.remove
  rcases
      h.store.cancel?_cases h.isOrderly.isRanked id with
    ⟨hNone, hSame⟩ | ⟨o, b, s, hSome, hFound, hAfter⟩
  · rw [hNone]
    exact ⟨none, c.store, hSame, rfl, h⟩
  · rw [hSome]
    exact
      ⟨some o, s, hFound, rfl, hAfter, h.processed_eq,
        h.executed_eq, h.isOrderly.cancel hSome⟩

/- A cancellation is answered by a clerk as by the engine. -/
theorem cancel?_eq
    (h : c.Represents e)
    (id : UInt64) :
    ∃ c', c.cancel? id = some ((e.cancel id).1, c') ∧
      c'.Represents (e.cancel id).2 := by
  unfold Clerk.cancel? Engine.cancel
  rw [h.store.halted_eq, h.store.symbol_eq]
  split
  · exact ⟨c, rfl, h⟩
  rcases h.remove id with ⟨found, s, hFound, hEq, hAfter⟩
  rw [hFound]
  unfold Engine.remove at hAfter
  cases hCancel : e.book.cancel? id with
  | none =>
      rw [hCancel] at hEq hAfter
      subst hEq
      exact ⟨_, rfl, hAfter⟩
  | some x =>
      rw [hCancel] at hEq hAfter
      subst hEq
      exact ⟨_, rfl, hAfter⟩

/- What is inserted into a book is inserted into the
store. -/
theorem place
    (h : c.Represents e)
    (policy : Policy)
    (o : Order) :
    (c.place policy o).Represents (e.place policy o) := by
  unfold Clerk.place Engine.place
  rcases h.store.insert_cases h.isOrderly policy o with
    ⟨refusal, hBook, hStore⟩ |
      ⟨b, s, hBook, hStore, hAfter, hFloor⟩
  · rw [hBook, hStore]
    exact h
  · rw [hBook, hStore]
    exact ⟨hAfter, h.processed_eq, h.executed_eq, hFloor⟩

end Represents

end Clerk

------------------------------------------------------------
-- Runs
------------------------------------------------------------

/- What can be done to a book: an insertion or a removal by
way of the book itself, a submission or a cancellation by way
of its engine. -/
inductive Call where
  | place (policy : Policy) (o : Order)
  | remove (id : UInt64)
  | submit (o : Order) (now : Timestamp)
  | cancel (id : UInt64)
deriving DecidableEq

/- Whether a call goes by way of the engine. -/
def Call.IsOfEngine : Call → Prop
  | place .. | remove .. => False
  | submit .. | cancel .. => True

instance : (call : Call) → Decidable call.IsOfEngine
  | .place .. | .remove .. => isFalse not_false
  | .submit .. | .cancel .. => isTrue trivial

/- An engine after a call, whatever has been answered.
`none` if a number is out of range. -/
def Engine.call? (e : Engine) : Call → Option Engine
  | .place policy o => some (e.place policy o)
  | .remove id => some (e.remove id)
  | .submit o now => (e.submit? o now).map Prod.snd
  | .cancel id => some (e.cancel id).2

/- An engine after some calls. -/
def Engine.run?
    (e : Engine)
    (calls : List Call) : Option Engine :=
  calls.foldlM call? e

namespace Clerk

variable {σ : Type} [Slots σ]

/- A clerk after a call, whatever has been answered. -/
def call? (c : Clerk σ) : Call → Option (Clerk σ)
  | .place policy o => some (c.place policy o)
  | .remove id =>
      (c.store.cancel? id).map fun (_, s) =>
        { c with store := s }
  | .submit o now => (c.submit? o now).map Prod.snd
  | .cancel id => (c.cancel? id).map Prod.snd

/- A clerk after some calls. -/
def run?
    (c : Clerk σ)
    (calls : List Call) : Option (Clerk σ) :=
  calls.foldlM call? c

variable [LawfulSlots σ]

/- A new clerk represents a new engine. -/
theorem represents_new (symbol : String) :
    (new symbol : Clerk σ).Represents
      (Engine.new symbol) where
  store :=
    { symbol_eq := rfl
      lastPrice_eq := rfl
      nextTradeId_eq := rfl
      halted_eq := rfl
      ladder_eq := by
        intro side policy
        cases side <;> cases policy <;> rfl
      indexes := Store.Indexes.empty }
  processed_eq := rfl
  executed_eq := rfl
  isOrderly := Floor.isOrderly_new symbol

variable {c : Clerk σ}
variable {e : Engine}

/- One call. -/
theorem Represents.rel_call?
    (h : c.Represents e)
    (call : Call) :
    Option.Rel Represents (c.call? call) (e.call? call) := by
  cases call with
  | place policy o => exact .some (h.place policy o)
  | remove id =>
      rcases h.remove id with ⟨found, s, hFound, _, hAfter⟩
      change
        Option.Rel _ ((c.store.cancel? id).map _)
          (some (e.remove id))
      rw [hFound]
      exact .some hAfter
  | submit o now =>
      exact relMap (h.rel_submit? o now) fun _ _ h => h.2
  | cancel id =>
      rcases h.cancel?_eq id with ⟨c', hCancel, hAfter⟩
      change
        Option.Rel _ ((c.cancel? id).map _)
          (some (e.cancel id).2)
      rw [hCancel]
      exact .some hAfter

/-
  Any number of calls.  By induction on them; where a call
  has an outcome in one of the two, it has one in the other.
-/
theorem Represents.rel_run?
    (h : c.Represents e)
    (calls : List Call) :
    Option.Rel Represents (c.run? calls)
      (e.run? calls) := by
  unfold run? Engine.run?
  induction calls generalizing c e with
  | nil => exact .some h
  | cons call calls ih =>
      rw [List.foldlM_cons, List.foldlM_cons]
      exact relBind (h.rel_call? call) fun _ _ h => ih h

variable {symbol : String} {calls : List Call}

/- What calls have made of a new stored book, they make of a
new book. -/
theorem exists_represented
    (hRun : (new symbol : Clerk σ).run? calls = some c) :
    ∃ e, (Engine.new symbol).run? calls = some e ∧
      c.Represents e := by
  have hRel :=
    (represents_new (σ := σ) symbol).rel_run? calls
  rw [hRun] at hRel
  exact exists_of_rel_some hRel

/- And the other way around. -/
theorem exists_representing
    (hRun : (Engine.new symbol).run? calls = some e) :
    ∃ c : Clerk σ, (new symbol).run? calls = some c ∧
      c.Represents e := by
  have hRel :=
    (represents_new (σ := σ) symbol).rel_run? calls
  rw [hRun] at hRel
  exact exists_of_rel hRel

end Clerk

end Matchbook
