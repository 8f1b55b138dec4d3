import Matchbook.Engine.Cascade
import Matchbook.Proofs.Book.Orders
import Matchbook.Proofs.Engine.Matching

/-
  The course of a pass as a derivation: a matching, and what
  becomes of the taker after it.

  Key definitions include:
    * `Book.Finishes`
    * `Book.Passes`

  The main statements are:
    * `Book.passes_of_pass?`
    * `Book.byPriority_settle`
-/

------------------------------------------------------------
-- Endings
------------------------------------------------------------

namespace Matchbook

namespace Book

variable {b b' : Book}
variable {taker : Order}
variable {ending : Ending}

/- What becomes of a taker that has stopped trading. -/
inductive Finishes (b : Book) (taker : Order) :
    Ending → Book → Prop
  | filled
      (hFilled : taker.IsFilled) :
      Finishes b taker .filled b
  | discarded
      {remaining : Decimal}
      (hOpen : ¬ taker.IsFilled)
      (hPending : taker.pending? = some remaining)
      (hDiscard :
        taker.immediateOrCancel ∨ taker.isMarket) :
      Finishes b taker (.discarded remaining) b
  | rested
      {b' : Book}
      {remaining : Decimal}
      (hOpen : ¬ taker.IsFilled)
      (hPending : taker.pending? = some remaining)
      (hPlace : b.place .price taker = .ok b') :
      Finishes b taker (.rested remaining) b'
  | broken
      {remaining : Decimal}
      {cause : Violation}
      (hOpen : ¬ taker.IsFilled)
      (hPending : taker.pending? = some remaining)
      (hLimit : ¬ taker.isMarket)
      (hPlace : b.place .price taker = .error cause) :
      Finishes b taker (.broken cause) b

theorem finishes_of_finish?
    (h : b.finish? taker = some (ending, b')) :
    b.Finishes taker ending b' := by
  unfold finish? at h
  split at h
  · rename_i hFilled
    cases h
    exact .filled hFilled
  rename_i hOpen
  rcases Option.map_eq_some_iff.1 h with
    ⟨remaining, hPending, h⟩
  split at h
  · rename_i hDiscard
    cases h
    exact .discarded hOpen hPending hDiscard
  rename_i hKeep
  split at h
  · rename_i hPlace
    cases h
    exact .rested hOpen hPending hPlace
  · rename_i hPlace
    cases h
    exact
      .broken hOpen hPending (not_or.1 hKeep).2 hPlace

------------------------------------------------------------
-- Passes
------------------------------------------------------------

variable {now : Timestamp}
variable {p : Pass}

/- How a taker is executed against the other side of a
book. -/
inductive Passes
    (now : Timestamp)
    (b : Book)
    (taker : Order) : Pass → Book → Prop
  | broken
      {m : Matching}
      {cause : Violation}
      (hRuns :
        Matching.Runs now b.nextTradeId
          (b.ladder taker.side.opposite .price).byPriority
          taker m)
      (hBroken : m.violation = some cause) :
      Passes now b taker ⟨m.taker, m.deals, .broken cause⟩
        (b.settle taker.side.opposite m)
  | finished
      {m : Matching}
      {ending : Ending}
      {b' : Book}
      (hRuns :
        Matching.Runs now b.nextTradeId
          (b.ladder taker.side.opposite .price).byPriority
          taker m)
      (hIntact : m.violation = none)
      (hFinish :
        (b.settle taker.side.opposite m).Finishes m.taker
          ending b') :
      Passes now b taker ⟨m.taker, m.deals, ending⟩ b'

theorem passes_of_pass?
    (h : b.pass? taker now = some (p, b')) :
    b.Passes now taker p b' := by
  unfold pass? at h
  rcases Option.bind_eq_some_iff.1 h with ⟨m, hRun, h⟩
  have hRuns := Matching.runs_of_run? hRun
  dsimp only at h
  split at h
  · rename_i hBroken
    cases h
    exact .broken hRuns hBroken
  · rename_i hIntact
    rcases Option.map_eq_some_iff.1 h with
      ⟨⟨ending, b''⟩, hFinish, hEq⟩
    cases hEq
    exact
      .finished hRuns hIntact (finishes_of_finish? hFinish)

/- The makers of a matching are what is left of the ladder
they came from. -/
theorem byPriority_settle
    (b : Book)
    (side : Side)
    (m : Matching) :
    ((b.settle side m).ladder side .price).byPriority =
      m.makers := by
  rw [ladder_settle, ladder_withLadder_self,
    Ladder.byPriority_ofPriority]

------------------------------------------------------------
-- Doors
------------------------------------------------------------

theorem Finishes.door_eq
    (h : b.Finishes taker ending b') :
    b'.door = b.door := by
  cases h with
  | filled => rfl
  | discarded => rfl
  | rested _ _ hPlace => exact door_place hPlace
  | broken => rfl

theorem Passes.door_eq
    (h : b.Passes now taker p b') :
    b'.door = b.door := by
  cases h with
  | broken => exact door_settle b _ _
  | finished _ _ hFinish =>
      exact hFinish.door_eq.trans (door_settle b _ _)

theorem door_releaseAfter
    (b : Book)
    (p : Pass) :
    (b.releaseAfter p).2.door = b.door := by
  unfold releaseAfter
  split
  · rfl
  · exact door_release b

end Book

end Matchbook
