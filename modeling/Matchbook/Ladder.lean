import Matchbook.Ranking

/-
  Ladders: the entries of one side in order of priority.

  A ladder is kept in ascending order, so its best entry is
  the last one.  It carries its side and the policy that it
  ranks by in its type.

  Key definitions include:
    * `Ladder`
    * `Ladder.insert`
    * `Ladder.erase?`
    * `Ladder.best?`
    * `Ladder.byPriority`
    * `Ladder.triggered`
    * `Ladder.release`
    * `Ladder.levels?`
-/

------------------------------------------------------------
-- Entries
------------------------------------------------------------

namespace Matchbook

/- An item and the key it is ranked by. -/
structure Entry (α : Type) where
  key : RankedKey
  item : α
deriving DecidableEq

/- The entries of one side, lowest priority first. -/
structure Ladder
    (side : Side)
    (policy : Policy)
    (α : Type) where
  ascending : List (Entry α) := []
deriving DecidableEq

namespace Ladder

variable {side : Side} {policy : Policy} {α : Type}

/- The ladder without entries. -/
def empty : Ladder side policy α :=
  ⟨[]⟩

/- The number of entries. -/
def size (l : Ladder side policy α) : Nat :=
  l.ascending.length

/- The entries from the highest to the lowest priority. -/
def byPriority (l : Ladder side policy α) :
    List (Entry α) :=
  l.ascending.reverse

/- The ladder with the given entries, best first. -/
def ofPriority (es : List (Entry α)) :
    Ladder side policy α :=
  ⟨es.reverse⟩

/- The entry of the highest priority. -/
def best? (l : Ladder side policy α) : Option (Entry α) :=
  l.ascending.getLast?

@[simp] theorem byPriority_ofPriority
    (es : List (Entry α)) :
    (ofPriority es : Ladder side policy α).byPriority =
      es := by
  simp [ofPriority, byPriority]

@[simp] theorem ofPriority_byPriority
    (l : Ladder side policy α) :
    ofPriority l.byPriority = l := by
  simp [ofPriority, byPriority]

theorem best?_eq_head?
    (l : Ladder side policy α) :
    l.best? = l.byPriority.head? := by
  simp [best?, byPriority]

theorem length_byPriority
    (l : Ladder side policy α) :
    l.byPriority.length = l.size := by
  simp [byPriority, size]

------------------------------------------------------------
-- Insertion and removal
------------------------------------------------------------

/- Whether an entry ranks below a key. -/
def isBelow (key : RankedKey) (e : Entry α) : Bool :=
  key.compare e.key == .gt

/- The entries below a key. -/
def below
    (l : Ladder side policy α)
    (key : RankedKey) : List (Entry α) :=
  l.ascending.takeWhile (isBelow key)

/- The entries from the first one that is not below a key. -/
def notBelow
    (l : Ladder side policy α)
    (key : RankedKey) : List (Entry α) :=
  l.ascending.dropWhile (isBelow key)

/-
  Put an item at its rank.  An entry that is already there
  keeps its key and takes the new item.
-/
def place
    (l : Ladder side policy α)
    (key : RankedKey)
    (item : α) : Ladder side policy α :=
  match l.notBelow key with
  | [] => ⟨l.below key ++ [⟨key, item⟩]⟩
  | e :: rest =>
      if key.compare e.key = .eq then
        ⟨l.below key ++ ⟨e.key, item⟩ :: rest⟩
      else
        ⟨l.below key ++ ⟨key, item⟩ :: e :: rest⟩

/-
  Insert an item under an order's key.  The key must be of
  the side of the ladder and have the price it ranks by.
-/
def insert
    (l : Ladder side policy α)
    (key : OrderKey)
    (item : α) :
    Except Violation (Ladder side policy α) :=
  if key.side ≠ side then
    .error (.wrongCollection key.id key.side side)
  else do
    let rank ← policy.rank key
    return l.place rank item

/- Take out the entry of an order's key. -/
def erase?
    (l : Ladder side policy α)
    (key : OrderKey) :
    Option (α × Ladder side policy α) :=
  match policy.rank key with
  | .error _ => none
  | .ok rank =>
      match l.notBelow rank with
      | [] => none
      | e :: rest =>
          if rank.compare e.key = .eq then
            some (e.item, ⟨l.below rank ++ rest⟩)
          else
            none

------------------------------------------------------------
-- Stop orders
------------------------------------------------------------

/- Whether a trade at a price releases an entry. -/
def isTriggered
    (side : Side)
    (last : Decimal)
    (e : Entry α) : Bool :=
  side.Triggers e.key.price last

/-
  The items that a trade at a price releases, best first.
  They stand at the low end of the ladder.
-/
def triggered
    (l : Ladder side policy α)
    (last : Decimal) : List α :=
  (l.ascending.takeWhile
    (isTriggered side last)).reverse.map Entry.item

/- The ladder without the items that a trade releases. -/
def release
    (l : Ladder side policy α)
    (last : Decimal) : Ladder side policy α :=
  ⟨l.ascending.dropWhile (isTriggered side last)⟩

/- Released items leave the ladder, no other item does. -/
theorem length_triggered_add_size_release
    (l : Ladder side policy α)
    (last : Decimal) :
    (l.triggered last).length + (l.release last).size =
      l.size := by
  simp only [triggered, release, size, List.length_map,
    List.length_reverse]
  rw [← List.length_append, List.takeWhile_append_dropWhile]

------------------------------------------------------------
-- Price levels
------------------------------------------------------------

/- Whether two entries have the same price by value. -/
def SamePrice (a b : Entry α) : Prop :=
  Decimal.Same a.key.price b.key.price

instance (a b : Entry α) : Decidable (SamePrice a b) :=
  inferInstanceAs (Decidable (Decimal.Same _ _))

/- The runs of entries of one price, each as its first entry
and the others. -/
def priceRuns :
    List (Entry α) → List (Entry α × List (Entry α))
  | [] => []
  | e :: rest =>
      match priceRuns rest with
      | [] => [(e, [])]
      | (first, others) :: runs =>
          if SamePrice e first then
            (e, first :: others) :: runs
          else
            (e, []) :: (first, others) :: runs

/-
  The price of a run and the quantity pending in it, summed
  in order of priority.
-/
def level?
    (pending : α → Option Decimal)
    (run : Entry α × List (Entry α)) :
    Option (Decimal × Decimal) := do
  let first ← pending run.1.item
  let total ←
    run.2.foldlM
      (fun sum e => do sum.add? (← pending e.item))
      first
  return (run.1.key.price, total)

/- The most price levels that a list can be asked to make room
for.  Only this limit on its capacity is part of the model:
memory itself never runs out. -/
def maxLevels : Nat := 2 ^ 58 - 1

/-
  The best `n` price levels with the quantity pending at each,
  spelled like the price of their best entry.  `none` if a
  quantity is out of range, or if the capacity of a list
  cannot be `n`.  Below that the room for the levels is taken
  to be there, however little memory there may be.
-/
def levels?
    (l : Ladder side policy α)
    (n : Nat)
    (pending : α → Option Decimal) :
    Option (List (Decimal × Decimal)) :=
  if maxLevels < n then
    none
  else
    ((priceRuns l.byPriority).take n).mapM (level? pending)

end Ladder

end Matchbook
