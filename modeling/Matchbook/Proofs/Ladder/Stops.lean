import Matchbook.Proofs.Reach

/-
  Which waiting entries a trade at a price releases: those at
  the low end of a ladder up to the first one that the price
  does not reach, and these are all that it reaches.

  A price that reaches a stop price reaches every worse one,
  and worse entries rank lower, on either side.

  The main statements are:
    * `Side.Triggers.of_worse`
    * `Ladder.IsSorted.takeWhile_isTriggered`
    * `Ladder.IsSorted.dropWhile_isTriggered`
    * `Ladder.IsSorted.triggered_eq`
-/

------------------------------------------------------------
-- Stop prices
------------------------------------------------------------

namespace Matchbook

/- A trade that releases a waiting order also releases those
whose stop price is worse for the side. -/
theorem Side.Triggers.of_worse
    {s : Side}
    {p q last : Decimal}
    (h : s.Triggers p last)
    (hWorse : s.IsNoWorse p q) :
    s.Triggers q last := by
  cases s with
  | buy => exact Int.le_trans hWorse.ge_of_buy h
  | sell => exact Int.le_trans h hWorse.le_of_sell

/- A price that is no worse for the other side releases what
the first one does. -/
theorem Side.Triggers.of_moved
    {s : Side}
    {stop p q : Decimal}
    (h : s.Triggers stop p)
    (hMoved : s.opposite.IsNoWorse p q) :
    s.Triggers stop q := by
  cases s with
  | buy => exact Int.le_trans h hMoved.le_of_sell
  | sell => exact Int.le_trans hMoved.ge_of_buy h

------------------------------------------------------------
-- The front of a list
------------------------------------------------------------

section Front

variable {α : Type} {p : α → Bool} {l : List α}

/- A test that no element fails before one that passes keeps
the front of a list. -/
theorem takeWhile_eq_filter_of_pairwise
    (h : l.Pairwise fun a b => p b → p a) :
    l.takeWhile p = l.filter p := by
  induction l with
  | nil => rfl
  | cons a rest ih =>
      rcases List.pairwise_cons.1 h with ⟨hFirst, hRest⟩
      by_cases ha : p a
      · rw [List.takeWhile_cons_of_pos ha,
          List.filter_cons_of_pos ha, ih hRest]
      · rw [List.takeWhile_cons_of_neg ha,
          List.filter_cons_of_neg ha, eq_comm,
          List.filter_eq_nil_iff]
        intro b hb hPass
        exact ha (hFirst b hb hPass)

theorem dropWhile_eq_filter_of_pairwise
    (h : l.Pairwise fun a b => p b → p a) :
    l.dropWhile p = l.filter fun a => !p a := by
  induction l with
  | nil => rfl
  | cons a rest ih =>
      rcases List.pairwise_cons.1 h with ⟨hFirst, hRest⟩
      by_cases ha : p a
      · rw [List.dropWhile_cons_of_pos ha,
          List.filter_cons_of_neg (by simp [ha]), ih hRest]
      · rw [List.dropWhile_cons_of_neg ha, eq_comm,
          List.filter_eq_self]
        intro b hb
        rcases List.mem_cons.1 hb with rfl | hLater
        · simp [ha]
        · have hFail : ¬ p b := mt (hFirst b hLater) ha
          simp [hFail]

end Front

------------------------------------------------------------
-- Sorted ladders
------------------------------------------------------------

namespace Ladder

variable {side : Side} {α : Type}
variable {l : Ladder side .stop α} {last : Decimal}

/- What is reached never stands above what is not: it would
have the better stop price, which is harder to reach. -/
theorem IsSorted.pairwise_isTriggered
    (h : l.IsSorted)
    (last : Decimal) :
    l.ascending.Pairwise fun a b =>
      isTriggered side last b → isTriggered side last a := by
  refine h.pairwise_ascending.imp_of_mem ?_
  intro a b _ hb hOver hReached
  have hNoWorse := hOver.isNoWorse
  rw [h.side_eq b hb] at hNoWorse
  simp only [isTriggered, decide_eq_true_eq] at hReached ⊢
  exact hReached.of_worse hNoWorse

theorem IsSorted.takeWhile_isTriggered
    (h : l.IsSorted)
    (last : Decimal) :
    l.ascending.takeWhile (isTriggered side last) =
      l.ascending.filter (isTriggered side last) :=
  takeWhile_eq_filter_of_pairwise
    (h.pairwise_isTriggered last)

theorem IsSorted.dropWhile_isTriggered
    (h : l.IsSorted)
    (last : Decimal) :
    l.ascending.dropWhile (isTriggered side last) =
      l.ascending.filter fun e =>
        !isTriggered side last e :=
  dropWhile_eq_filter_of_pairwise
    (h.pairwise_isTriggered last)

/- The released items are those of all entries that the price
reaches, best first. -/
theorem IsSorted.triggered_eq
    (h : l.IsSorted)
    (last : Decimal) :
    l.triggered last =
      (l.byPriority.filter
        (isTriggered side last)).map Entry.item := by
  unfold triggered byPriority
  rw [h.takeWhile_isTriggered, List.filter_reverse]

end Ladder

end Matchbook
