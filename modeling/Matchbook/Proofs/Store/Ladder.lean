import Matchbook.Proofs.Ladder

/-
  Ladders of slots and ladders of orders.

  A ladder looks at the keys of its entries and never at their
  items, so it goes the same way whether it ranks orders or
  the numbers of the slots that hold them.

  Key definitions include:
    * `Entry.map`
    * `Ladder.map`

  The main statements are:
    * `Ladder.map_place`
    * `Ladder.map_erase?`
    * `Ladder.map_eq_of_off`
    * `Ladder.map_eq_of_change`
    * `Ladder.IsRanked.erase?_eq`
-/

------------------------------------------------------------
-- Other items
------------------------------------------------------------

namespace Matchbook

/- The entry with another item under its key. -/
def Entry.map
    {α β : Type}
    (f : α → β)
    (e : Entry α) : Entry β where
  key := e.key
  item := f e.item

namespace Ladder

variable {side : Side} {policy : Policy}
variable {α β : Type}

/- The ladder with other items under its keys. -/
def map
    (f : α → β)
    (l : Ladder side policy α) : Ladder side policy β :=
  ⟨l.ascending.map (Entry.map f)⟩

variable (f : α → β)
variable (l : Ladder side policy α)

theorem ids_map :
    (l.map f).ascending.map (fun e => e.key.id) =
      l.ascending.map fun e => e.key.id :=
  List.map_map

theorem below_map (key : RankedKey) :
    (l.map f).below key =
      (l.below key).map (Entry.map f) :=
  List.takeWhile_map ..

theorem notBelow_map (key : RankedKey) :
    (l.map f).notBelow key =
      (l.notBelow key).map (Entry.map f) :=
  List.dropWhile_map ..

theorem map_place
    (key : RankedKey)
    (a : α) :
    (l.place key a).map f = (l.map f).place key (f a) := by
  unfold place
  rw [below_map, notBelow_map]
  cases l.notBelow key with
  | nil => simp [map, Entry.map]
  | cons e rest =>
      simp only [List.map_cons, Entry.map]
      split <;> simp [map, Entry.map]

/- On the ladder of its side a key has to have a rank, and
nothing else. -/
theorem insert_of_side
    {key : OrderKey}
    (hSide : key.side = side)
    (l : Ladder side policy α)
    (a : α) :
    l.insert key a =
      (policy.rank key).map fun rank => l.place rank a := by
  unfold insert
  rw [if_neg (not_not_intro hSide)]
  cases policy.rank key <;> rfl

theorem map_erase?
    (key : OrderKey) :
    (l.erase? key).map (fun (a, l') => (f a, l'.map f)) =
      (l.map f).erase? key := by
  unfold erase?
  split
  · rfl
  · rename_i rank _
    rw [below_map, notBelow_map]
    cases l.notBelow rank with
    | nil => rfl
    | cons e rest =>
        simp only [List.map_cons, Entry.map]
        split <;> simp [map]

theorem map_best? :
    (l.map f).best? = l.best?.map (Entry.map f) :=
  List.getLast?_map

theorem map_triggered (last : Decimal) :
    (l.map f).triggered last = (l.triggered last).map f := by
  have hTake :
      (l.map f).ascending.takeWhile
          (isTriggered side last) =
        (l.ascending.takeWhile
          (isTriggered side last)).map (Entry.map f) :=
    List.takeWhile_map ..
  unfold triggered
  rw [hTake, ← List.map_reverse, List.map_map, List.map_map]
  rfl

end Ladder

------------------------------------------------------------
-- Slots of orders
------------------------------------------------------------

namespace Ladder

variable {side : Side} {policy : Policy}
variable {l : Ladder side policy Nat}
variable {l' : Ladder side policy Order}
variable {f g : Nat → Option Order}

/- Every slot of a ladder holds the order of an entry. -/
theorem exists_of_map_eq
    (h : l.map f = l'.map some)
    {e : Entry Nat}
    (he : e ∈ l.ascending) :
    ∃ e' ∈ l'.ascending, e'.key = e.key ∧
      f e.item = some e'.item := by
  have hEntries := congrArg Ladder.ascending h
  have hMem : e.map f ∈ l'.ascending.map (Entry.map some) := by
    have hMapped :=
      List.mem_map_of_mem (f := Entry.map f) he
    change e.map f ∈ (l.map f).ascending at hMapped
    rw [hEntries] at hMapped
    exact hMapped
  rcases List.mem_map.1 hMem with ⟨e', he', hEq⟩
  exact
    ⟨e', he', congrArg Entry.key hEq,
      (congrArg Entry.item hEq).symm⟩

/- Every order of a ladder is held by a slot of it. -/
theorem exists_slot_of_map_eq
    (h : l.map f = l'.map some)
    {e' : Entry Order}
    (he' : e' ∈ l'.ascending) :
    ∃ e ∈ l.ascending, e.key = e'.key ∧
      f e.item = some e'.item := by
  have hEntries := congrArg Ladder.ascending h
  have hMem : e'.map some ∈ l.ascending.map (Entry.map f) := by
    have hMapped :=
      List.mem_map_of_mem (f := Entry.map some) he'
    change e'.map some ∈ (l'.map some).ascending at hMapped
    rw [← hEntries] at hMapped
    exact hMapped
  rcases List.mem_map.1 hMem with ⟨e, he, hEq⟩
  exact
    ⟨e, he, congrArg Entry.key hEq, congrArg Entry.item hEq⟩

/- A ladder does not notice a change of a slot that holds none
of its orders. -/
theorem map_eq_of_off
    {k : Nat}
    (h : l.map f = l'.map some)
    (hOff : ∀ e ∈ l'.ascending, f k ≠ some e.item)
    (hSame : ∀ j, j ≠ k → g j = f j) :
    l.map g = l'.map some := by
  rw [← h]
  refine congrArg Ladder.mk (List.map_congr_left ?_)
  intro e he
  have hNe : e.item ≠ k := by
    rintro rfl
    rcases exists_of_map_eq h he with ⟨e', he', _, hHeld⟩
    exact hOff e' he' hHeld
  unfold Entry.map
  rw [hSame e.item hNe]

/- A change of the one slot of an order changes its entry and
no other one. -/
theorem map_eq_of_change
    {k : Nat}
    {low high : List (Entry Order)}
    {e : Entry Order}
    {o : Order}
    (h :
      l.map f =
        (⟨low ++ e :: high⟩ :
          Ladder side policy Order).map some)
    (hUnique : ∀ j, f j = some e.item → j = k)
    (hOff : ∀ e' ∈ low ++ high, f k ≠ some e'.item)
    (hSame : ∀ j, j ≠ k → g j = f j)
    (hSelf : g k = some o) :
    l.map g =
      (⟨low ++ ⟨e.key, o⟩ :: high⟩ :
        Ladder side policy Order).map some := by
  have hEntries := congrArg Ladder.ascending h
  unfold map at hEntries
  dsimp only at hEntries
  rw [List.map_append, List.map_cons] at hEntries
  rcases List.map_eq_append_iff.1 hEntries with
    ⟨low', rest, hSplit, hLow, hRest⟩
  rcases List.map_eq_cons_iff.1 hRest with
    ⟨e', high', rfl, hEntry, hHigh⟩
  have hPart :
      ∀ (part : List (Entry Nat)) (part' : List (Entry Order)),
        part.map (Entry.map f) =
          part'.map (Entry.map some) →
        (∀ e' ∈ part', e' ∈ low ++ high) →
          part.map (Entry.map g) =
            part'.map (Entry.map some) := by
    intro part part' hMap hPart
    have hLadder :
        (⟨part⟩ : Ladder side policy Nat).map f =
          (⟨part'⟩ : Ladder side policy Order).map some :=
      congrArg Ladder.mk hMap
    exact
      congrArg Ladder.ascending
        (map_eq_of_off hLadder
          (fun e' he' => hOff e' (hPart e' he')) hSame)
  have hKey : e'.key = e.key := congrArg Entry.key hEntry
  have hSlot : e'.item = k :=
    hUnique e'.item (congrArg Entry.item hEntry)
  have hEntry' : e'.map g = (⟨e.key, o⟩ : Entry Order).map some := by
    unfold Entry.map
    rw [hKey, hSlot, hSelf]
  unfold map
  rw [hSplit, List.map_append, List.map_cons,
    List.map_append, List.map_cons,
    hPart low' low hLow
      (fun _ h => List.mem_append_left _ h),
    hPart high' high hHigh
      (fun _ h => List.mem_append_right _ h),
    hEntry']

end Ladder

------------------------------------------------------------
-- Removal
------------------------------------------------------------

namespace Ladder

variable {side : Side} {policy : Policy}
variable {l : Ladder side policy Order}
variable {low high : List (Entry Order)}
variable {e : Entry Order}

/- In a ladder without repeated ids the key of an order finds
its entry. -/
theorem IsRanked.erase?_eq
    (h : l.IsRanked)
    (hNodup : (l.ascending.map fun e => e.item.id).Nodup)
    (hSplit : l.ascending = low ++ e :: high) :
    l.erase? e.item.key = some (e.item, ⟨low ++ high⟩) := by
  have hRanked : e.IsRanked side policy := by
    apply h.ranked_of_mem
    rw [hSplit]
    simp
  have hIds :
      (l.ascending.map fun e => e.key.id) =
        l.ascending.map fun e => e.item.id :=
    List.map_congr_left fun x hx =>
      (h.ranked_of_mem hx).key_id
  rw [← hIds] at hNodup
  exact
    h.isSorted.erase?_of_held hNodup hSplit hRanked.rank_eq

end Ladder

end Matchbook
