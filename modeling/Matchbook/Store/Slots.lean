import Matchbook.Order.Basic

/-
  Slots: numbered places for orders, used again when they are
  vacant.

  Key definitions include:
    * `Slots`
    * `LawfulSlots`
    * `Shelf`

  The main statements are:
    * `Shelf.lawfulSlots`
-/

------------------------------------------------------------
-- Slots
------------------------------------------------------------

namespace Matchbook

/- What can be done with slots: a new order goes to the slot
that is announced as vacant. -/
class Slots (σ : Type) where
  empty : σ
  get? : σ → Nat → Option Order
  vacant : σ → Nat
  insert : σ → Order → σ
  update : σ → Nat → Order → σ
  erase : σ → Nat → σ
  size : σ → Nat

/- Every slot holds what was put there last, and the size is
the number of the slots in use. -/
class LawfulSlots (σ : Type) [Slots σ] : Prop where
  get?_empty (k : Nat) :
    Slots.get? (Slots.empty : σ) k = none
  size_empty : Slots.size (Slots.empty : σ) = 0
  get?_vacant (s : σ) :
    Slots.get? s (Slots.vacant s) = none
  get?_insert (s : σ) (o : Order) (k : Nat) :
    Slots.get? (Slots.insert s o) k =
      if k = Slots.vacant s then some o else Slots.get? s k
  size_insert (s : σ) (o : Order) :
    Slots.size (Slots.insert s o) = Slots.size s + 1
  get?_update
    {s : σ} {j : Nat} {old : Order}
    (h : Slots.get? s j = some old) (o : Order) (k : Nat) :
    Slots.get? (Slots.update s j o) k =
      if k = j then some o else Slots.get? s k
  size_update
    {s : σ} {j : Nat} {old : Order}
    (h : Slots.get? s j = some old) (o : Order) :
    Slots.size (Slots.update s j o) = Slots.size s
  get?_erase (s : σ) (j k : Nat) :
    Slots.get? (Slots.erase s j) k =
      if k = j then none else Slots.get? s k
  size_erase
    {s : σ} {j : Nat} {old : Order}
    (h : Slots.get? s j = some old) :
    Slots.size (Slots.erase s j) + 1 = Slots.size s

------------------------------------------------------------
-- Shelves
------------------------------------------------------------

/- A row of cells with a list of the vacant ones: the one
vacated last is used first, and the row grows when none is
vacant. -/
structure Shelf where
  cells : List (Option Order)
  free : List Nat
  free_nodup : free.Nodup
  mem_free_iff : ∀ k, k ∈ free ↔ cells[k]? = some none

namespace Shelf

def empty : Shelf where
  cells := []
  free := []
  free_nodup := List.nodup_nil
  mem_free_iff := by simp

/- The order in a cell. -/
def get? (s : Shelf) (k : Nat) : Option Order :=
  s.cells[k]?.join

/- The cell that the next order goes to. -/
def vacant (s : Shelf) : Nat :=
  s.free.head?.getD s.cells.length

/- Put an order into a cell more. -/
def grow
    (s : Shelf)
    (o : Order)
    (h : s.free = []) : Shelf where
  cells := s.cells ++ [some o]
  free := []
  free_nodup := List.nodup_nil
  mem_free_iff := by
    intro k
    have hFree := s.mem_free_iff k
    rw [h] at hFree
    rw [List.getElem?_append, hFree]
    split
    · rfl
    · rename_i hLong
      have hNone : s.cells[k]? = none :=
        List.getElem?_eq_none (by omega)
      rw [hNone, List.getElem?_singleton]
      split <;> simp

/- Put an order into the vacant cell `k`. -/
def fill
    (s : Shelf)
    (o : Order)
    (k : Nat)
    (rest : List Nat)
    (h : s.free = k :: rest) : Shelf where
  cells := s.cells.set k (some o)
  free := rest
  free_nodup := by
    have hNodup := s.free_nodup
    rw [h] at hNodup
    exact hNodup.of_cons
  mem_free_iff := by
    intro j
    have hNodup := s.free_nodup
    have hFree := s.mem_free_iff j
    rw [h] at hNodup hFree
    rw [List.getElem?_set]
    split
    · rename_i hEq
      rw [← hEq]
      split <;> simp [(List.nodup_cons.1 hNodup).1]
    · rename_i hNe
      rw [← hFree, List.mem_cons]
      exact (or_iff_right fun hEq => hNe hEq.symm).symm

def insert (s : Shelf) (o : Order) : Shelf :=
  match h : s.free with
  | [] => s.grow o h
  | k :: rest => s.fill o k rest h

/- Put another order into a cell that is in use. -/
def change
    (s : Shelf)
    (k : Nat)
    (o : Order)
    (h : (s.get? k).isSome) : Shelf where
  cells := s.cells.set k (some o)
  free := s.free
  free_nodup := s.free_nodup
  mem_free_iff := by
    intro j
    rw [s.mem_free_iff j, List.getElem?_set]
    split
    · rename_i hEq
      rw [← hEq]
      unfold get? at h
      split
      · constructor
        · intro hNone
          rw [hNone] at h
          cases h
        · intro hNone
          cases hNone
      · rename_i hLong
        rw [List.getElem?_eq_none (by omega)]
    · rfl

def update (s : Shelf) (k : Nat) (o : Order) : Shelf :=
  if h : (s.get? k).isSome then
    s.change k o h
  else
    s

/- Vacate a cell that is in use. -/
def vacate
    (s : Shelf)
    (k : Nat)
    (h : (s.get? k).isSome) : Shelf where
  cells := s.cells.set k none
  free := k :: s.free
  free_nodup := by
    refine List.nodup_cons.2 ⟨?_, s.free_nodup⟩
    intro hMem
    unfold get? at h
    rw [(s.mem_free_iff k).1 hMem] at h
    cases h
  mem_free_iff := by
    intro j
    rw [List.mem_cons, s.mem_free_iff j, List.getElem?_set]
    unfold get? at h
    split
    · rename_i hEq
      rw [← hEq]
      split
      · simp
      · rename_i hLong
        rw [List.getElem?_eq_none (by omega)] at h
        cases h
    · rename_i hNe
      exact or_iff_right fun hEq => hNe hEq.symm

def erase (s : Shelf) (k : Nat) : Shelf :=
  if h : (s.get? k).isSome then
    s.vacate k h
  else
    s

/- The number of cells that are in use. -/
def size (s : Shelf) : Nat :=
  s.cells.countP Option.isSome

instance : Slots Shelf where
  empty := empty
  get? := get?
  vacant := vacant
  insert := insert
  update := update
  erase := erase
  size := size

------------------------------------------------------------
-- Laws
------------------------------------------------------------

variable {s : Shelf}
variable {j k : Nat}
variable {o old : Order}
variable {rest : List Nat}

theorem cell_eq
    (h : s.get? k = some o) :
    s.cells[k]? = some (some o) := by
  unfold get? at h
  exact Option.join_eq_some_iff.1 h

theorem lt_length_of_free
    (h : s.free = k :: rest) :
    ∃ hLess : k < s.cells.length, s.cells[k] = none :=
  List.getElem?_eq_some_iff.1
    ((s.mem_free_iff k).1 (by simp [h]))

theorem vacant_of_nil
    (h : s.free = []) :
    s.vacant = s.cells.length := by
  unfold vacant
  rw [h]
  rfl

theorem vacant_of_cons
    (h : s.free = k :: rest) :
    s.vacant = k := by
  unfold vacant
  rw [h]
  rfl

theorem get?_vacant (s : Shelf) :
    s.get? s.vacant = none := by
  cases hFree : s.free with
  | nil =>
      rw [vacant_of_nil hFree]
      simp [get?]
  | cons k rest =>
      rw [vacant_of_cons hFree, get?,
        (s.mem_free_iff k).1 (by simp [hFree])]
      rfl

theorem get?_set
    {cells : List (Option Order)}
    (hj : j < cells.length)
    (c : Option Order)
    (k : Nat) :
    (cells.set j c)[k]?.join =
      if k = j then c else cells[k]?.join := by
  rw [List.getElem?_set]
  by_cases hEq : j = k
  · rw [if_pos hEq, if_pos hj, if_pos hEq.symm]
    rfl
  · rw [if_neg hEq, if_neg fun h => hEq h.symm]

theorem get?_insert
    (s : Shelf)
    (o : Order)
    (k : Nat) :
    (s.insert o).get? k =
      if k = s.vacant then some o else s.get? k := by
  unfold insert
  split
  · rename_i hFree
    rw [vacant_of_nil hFree]
    unfold get? grow
    rw [List.getElem?_append]
    by_cases hLess : k < s.cells.length
    · rw [if_pos hLess, if_neg (by omega)]
    · rw [if_neg hLess,
        List.getElem?_eq_none (Nat.le_of_not_lt hLess),
        List.getElem?_singleton]
      by_cases hEq : k = s.cells.length
      · simp [hEq]
      · rw [if_neg (by omega), if_neg hEq]
  · rename_i j rest hFree
    rw [vacant_of_cons hFree]
    rcases lt_length_of_free hFree with ⟨hLess, _⟩
    exact get?_set hLess (some o) k

/- A change of one cell changes the size by what it adds and
what it takes away. -/
theorem countP_set
    {cells : List (Option Order)}
    {old : Option Order}
    (h : cells[k]? = some old)
    (c : Option Order) :
    (cells.set k c).countP Option.isSome +
        (if old.isSome then 1 else 0) =
      cells.countP Option.isSome +
        (if c.isSome then 1 else 0) := by
  rcases List.getElem?_eq_some_iff.1 h with ⟨hLess, rfl⟩
  rw [List.countP_set hLess]
  have hPos :
      cells[k].isSome →
        0 < cells.countP Option.isSome := by
    intro hSome
    exact
      List.countP_pos_iff.2
        ⟨cells[k], List.getElem_mem hLess, hSome⟩
  split
  · rename_i hSome
    have := hPos hSome
    omega
  · omega

theorem size_insert
    (s : Shelf)
    (o : Order) :
    (s.insert o).size = s.size + 1 := by
  unfold insert
  split
  · simp [size, grow]
  · rename_i j rest hFree
    exact
      countP_set ((s.mem_free_iff j).1 (by simp [hFree]))
        (some o)

theorem get?_update
    (h : s.get? j = some old)
    (o : Order)
    (k : Nat) :
    (s.update j o).get? k =
      if k = j then some o else s.get? k := by
  rcases List.getElem?_eq_some_iff.1 (cell_eq h) with
    ⟨hLess, _⟩
  unfold update
  rw [dif_pos (by rw [h]; rfl)]
  exact get?_set hLess (some o) k

theorem size_update
    (h : s.get? j = some old)
    (o : Order) :
    (s.update j o).size = s.size := by
  unfold update
  rw [dif_pos (by rw [h]; rfl)]
  exact Nat.succ.inj (countP_set (cell_eq h) (some o))

theorem get?_erase
    (s : Shelf)
    (j k : Nat) :
    (s.erase j).get? k =
      if k = j then none else s.get? k := by
  unfold erase
  split
  · rename_i hSome
    rcases Option.isSome_iff_exists.1 hSome with ⟨o, h⟩
    rcases List.getElem?_eq_some_iff.1 (cell_eq h) with
      ⟨hLess, _⟩
    exact get?_set hLess none k
  · rename_i hNone
    split
    · rename_i hEq
      rw [hEq]
      simpa using hNone
    · rfl

theorem size_erase
    (h : s.get? j = some old) :
    (s.erase j).size + 1 = s.size := by
  unfold erase
  rw [dif_pos (by rw [h]; rfl)]
  exact countP_set (cell_eq h) none

instance lawfulSlots : LawfulSlots Shelf where
  get?_empty _ := rfl
  size_empty := rfl
  get?_vacant := get?_vacant
  get?_insert := get?_insert
  size_insert := size_insert
  get?_update := get?_update
  size_update := size_update
  get?_erase := get?_erase
  size_erase := size_erase

end Shelf

end Matchbook
