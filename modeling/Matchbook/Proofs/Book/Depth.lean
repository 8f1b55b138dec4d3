import Matchbook.Book.Depth
import Matchbook.Proofs.Decimal.Range
import Mathlib.Logic.Basic

/-
  The numbers that a view of the price levels can be stopped
  by: the number of levels itself, and the sum of what is
  pending at one of them.

  Key definitions include:
    * `Ladder.runEntries`
    * `Ladder.pendingAt`
    * `Ladder.SumsInRange`
    * `Book.DepthInRange`

  The main statements are:
    * `Ladder.flatMap_priceRuns`
    * `Ladder.levels?_eq_none_iff`
    * `Book.depth?_eq_none_iff`
-/

------------------------------------------------------------
-- Levels
------------------------------------------------------------

namespace Matchbook

/- A list has no outcome exactly when one of its items has
none. -/
theorem mapM_eq_none_iff
    {α β : Type}
    {f : α → Option β}
    {as : List α} :
    as.mapM f = none ↔ ∃ a ∈ as, f a = none := by
  induction as with
  | nil => simp
  | cons a as ih =>
      rw [List.mapM_cons]
      cases hHead : f a with
      | none =>
          exact
            iff_of_true rfl ⟨a, List.mem_cons_self .., hHead⟩
      | some b =>
          simp only [Option.bind_eq_bind, Option.bind_some,
            List.mem_cons, exists_eq_or_imp, hHead,
            reduceCtorEq, false_or]
          rw [← ih]
          cases as.mapM f <;> simp

namespace Ladder

variable {side : Side} {policy : Policy} {α : Type}
variable {pending : α → Option Decimal}

/- The entries of a run, best first. -/
def runEntries
    (run : Entry α × List (Entry α)) : List (Entry α) :=
  run.1 :: run.2

/- The runs are the list, cut into pieces. -/
theorem flatMap_priceRuns (es : List (Entry α)) :
    (priceRuns es).flatMap runEntries = es := by
  induction es with
  | nil => rfl
  | cons e rest ih =>
      unfold priceRuns
      split
      · rename_i hNil
        rw [hNil] at ih
        rw [← ih]
        rfl
      · rename_i first others runs hRuns
        rw [hRuns] at ih
        split
        · rw [← ih]
          rfl
        · rw [← ih]
          rfl

/- The entries of a run are those of the list it is made
from. -/
theorem mem_of_mem_priceRuns
    {es : List (Entry α)}
    {run : Entry α × List (Entry α)}
    (h : run ∈ priceRuns es) :
    ∀ e ∈ run.1 :: run.2, e ∈ es := by
  intro e he
  rw [← flatMap_priceRuns es]
  exact List.mem_flatMap.2 ⟨run, h, he⟩

/- What is pending of an entry, nothing if it is out of
range. -/
def pendingAt
    (pending : α → Option Decimal)
    (e : Entry α) : Decimal :=
  (pending e.item).getD 0

/- Whether what is pending in a run can be added up. -/
def SumsInRange
    (pending : α → Option Decimal)
    (run : Entry α × List (Entry α)) : Prop :=
  (pendingAt pending run.1).HasSums
    (run.2.map (pendingAt pending))

/- Where nothing pending is out of range, it is added up entry
by entry. -/
theorem foldlM_pending_eq
    {others : List (Entry α)}
    (h : ∀ e ∈ others, ∃ p, pending e.item = some p)
    (sum : Decimal) :
    others.foldlM
        (fun sum e => do sum.add? (← pending e.item)) sum =
      (others.map (pendingAt pending)).foldlM Decimal.add?
        sum := by
  induction others generalizing sum with
  | nil => rfl
  | cons e rest ih =>
      rcases List.forall_mem_cons.1 h with
        ⟨⟨p, hPending⟩, hRest⟩
      rw [List.map_cons, List.foldlM_cons, List.foldlM_cons]
      unfold pendingAt
      rw [hPending]
      change (sum.add? p).bind _ = (sum.add? p).bind _
      exact Option.bind_congr fun sum' _ => ih hRest sum'

theorem level?_eq_none_iff
    {run : Entry α × List (Entry α)}
    (h :
      ∀ e ∈ run.1 :: run.2,
        ∃ p, pending e.item = some p) :
    level? pending run = none ↔
      ¬ SumsInRange pending run := by
  rcases List.forall_mem_cons.1 h with
    ⟨⟨first, hFirst⟩, hOthers⟩
  have hHead : pendingAt pending run.1 = first := by
    unfold pendingAt
    rw [hFirst]
    rfl
  unfold SumsInRange
  rw [hHead, ← Decimal.foldlM_add?_eq_none_iff,
    ← foldlM_pending_eq hOthers]
  unfold level?
  rw [hFirst, Option.bind_eq_bind, Option.bind_some]
  cases
    run.2.foldlM
      (fun sum e => do sum.add? (← pending e.item)) first <;>
    simp

/- The levels of a ladder have no outcome exactly when there
is no room for them or one of them is out of range. -/
theorem levels?_eq_none_iff
    {l : Ladder side policy α}
    {n : Nat}
    (h :
      ∀ e ∈ l.byPriority, ∃ p, pending e.item = some p) :
    l.levels? n pending = none ↔
      ¬ (n ≤ maxLevels ∧
        ∀ run ∈ (priceRuns l.byPriority).take n,
          SumsInRange pending run) := by
  unfold levels?
  split
  · rename_i hRoom
    exact
      iff_of_true rfl fun hIn =>
        Nat.not_le.2 hRoom hIn.1
  · rename_i hRoom
    rw [mapM_eq_none_iff, not_and, not_forall]
    have hLevel :
        ∀ run ∈ (priceRuns l.byPriority).take n,
          (level? pending run = none ↔
            ¬ SumsInRange pending run) := by
      intro run hRun
      apply level?_eq_none_iff
      intro e he
      exact
        h e (mem_of_mem_priceRuns (List.mem_of_mem_take hRun)
          e he)
    constructor
    · rintro ⟨run, hRun, hNone⟩ _
      refine ⟨run, fun hIn => ?_⟩
      exact (hLevel run hRun).1 hNone (hIn hRun)
    · intro hOut
      rcases hOut (Nat.le_of_not_lt hRoom) with ⟨run, hRun⟩
      rcases Classical.not_imp.1 hRun with ⟨hMem, hOut⟩
      exact ⟨run, hMem, (hLevel run hMem).2 hOut⟩

end Ladder

------------------------------------------------------------
-- Depth
------------------------------------------------------------

namespace Book

/- Whether a list has room for so many levels, and the
quantities pending at each of them can be added up. -/
def DepthInRange (b : Book) (n : Nat) : Prop :=
  n ≤ Ladder.maxLevels ∧
    ∀ side,
      ∀ run ∈
          (Ladder.priceRuns
            (b.ladder side .price).byPriority).take n,
        Ladder.SumsInRange Order.pending? run

/- A view of the levels is missing exactly when it is out of
range. -/
theorem depth?_eq_none_iff
    {b : Book}
    {n : Nat}
    (h :
      ∀ side, ∀ e ∈ (b.ladder side .price).byPriority,
        ∃ p, e.item.pending? = some p) :
    b.depth? n = none ↔ ¬ b.DepthInRange n := by
  have hBids :=
    Ladder.levels?_eq_none_iff (n := n) (h .buy)
  have hAsks :=
    Ladder.levels?_eq_none_iff (n := n) (h .sell)
  change b.bids.levels? n Order.pending? = none ↔ _ at hBids
  change b.asks.levels? n Order.pending? = none ↔ _ at hAsks
  have hEither :
      b.depth? n = none ↔
        b.bids.levels? n Order.pending? = none ∨
          b.asks.levels? n Order.pending? = none := by
    unfold depth?
    cases b.bids.levels? n Order.pending? <;>
      cases b.asks.levels? n Order.pending? <;> simp
  rw [hEither, hBids, hAsks, ← not_and_or]
  unfold DepthInRange
  constructor
  · intro hOut hIn
    exact
      hOut
        ⟨⟨hIn.1, hIn.2 .buy⟩, ⟨hIn.1, hIn.2 .sell⟩⟩
  · rintro hOut ⟨⟨hRoom, hBid⟩, ⟨_, hAsk⟩⟩
    apply hOut
    refine ⟨hRoom, ?_⟩
    intro side
    cases side with
    | buy => exact hBid
    | sell => exact hAsk

end Book

end Matchbook
