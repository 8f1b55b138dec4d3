import Matchbook.Proofs.Book.Shelves
import Matchbook.Store.Basic

/-
  The slots and the index of a store: every order is in one
  slot, and the index knows the slots of all ids.

  Key definitions include:
    * `Store.Indexes`

  The main statements are:
    * `Store.Indexes.insert`
    * `Store.Indexes.update`
    * `Store.Indexes.erase`
    * `Store.Indexes.slot_eq`
-/

------------------------------------------------------------
-- Slots and index
------------------------------------------------------------

namespace Matchbook

namespace Store

variable {σ : Type} [Slots σ]

/-
  Whether slots and an index keep the orders of some shelves:
  the index has the place of every stored order, and every
  place in it is that of a shelved one.
-/
structure Indexes
    (slots : σ)
    (index : Std.HashMap UInt64 Place)
    (shelved : List (Order × Policy)) : Prop where
  nodup : (shelved.map fun x => x.1.id).Nodup
  stored :
    ∀ k o, Slots.get? slots k = some o →
      ∃ policy, (o, policy) ∈ shelved ∧
        index[o.id]? = some ⟨k, policy⟩
  indexed :
    ∀ id place, index[id]? = some place →
      ∃ o, Slots.get? slots place.slot = some o ∧
        o.id = id ∧ (o, place.policy) ∈ shelved
  size_eq : Slots.size slots = shelved.length

namespace Indexes

variable {slots : σ}
variable {index : Std.HashMap UInt64 Place}
variable {shelved shelved' : List (Order × Policy)}
variable {o o' : Order}
variable {policy : Policy}
variable {k k' : Nat}

theorem perm
    (h : Indexes slots index shelved)
    (hPerm : shelved.Perm shelved') :
    Indexes slots index shelved' where
  nodup := (hPerm.map _).nodup_iff.1 h.nodup
  stored := by
    intro k o hk
    rcases h.stored k o hk with ⟨policy, hMem, hIndex⟩
    exact ⟨policy, hPerm.mem_iff.1 hMem, hIndex⟩
  indexed := by
    intro id place hIndex
    rcases h.indexed id place hIndex with
      ⟨o, hk, hId, hMem⟩
    exact ⟨o, hk, hId, hPerm.mem_iff.1 hMem⟩
  size_eq := h.size_eq.trans hPerm.length_eq

/- No id is in two slots. -/
theorem slot_eq
    (h : Indexes slots index shelved)
    (hk : Slots.get? slots k = some o)
    (hk' : Slots.get? slots k' = some o')
    (hId : o.id = o'.id) :
    k = k' := by
  rcases h.stored k o hk with ⟨policy, _, hIndex⟩
  rcases h.stored k' o' hk' with ⟨policy', _, hIndex'⟩
  rw [hId, hIndex'] at hIndex
  exact
    (congrArg Place.slot (Option.some.inj hIndex)).symm

/- No id is on two shelves. -/
theorem shelved_eq
    (h : Indexes slots index shelved)
    {x x' : Order × Policy}
    (hx : x ∈ shelved)
    (hx' : x' ∈ shelved)
    (hId : x.1.id = x'.1.id) :
    x = x' :=
  List.inj_on_of_nodup_map h.nodup hx hx' hId

/- The index has the shelf of every stored order. -/
theorem index_eq
    (h : Indexes slots index shelved)
    (hk : Slots.get? slots k = some o)
    (hMem : (o, policy) ∈ shelved) :
    index[o.id]? = some ⟨k, policy⟩ := by
  rcases h.stored k o hk with ⟨policy', hMem', hIndex⟩
  have hSame : policy = policy' :=
    congrArg Prod.snd (h.shelved_eq hMem hMem' rfl)
  rw [hIndex, hSame]

------------------------------------------------------------
-- Changes
------------------------------------------------------------

variable [LawfulSlots σ]

theorem empty :
    Indexes (Slots.empty : σ) ∅ [] where
  nodup := List.nodup_nil
  stored := by
    intro k o hk
    rw [LawfulSlots.get?_empty] at hk
    cases hk
  indexed := by
    intro id place hIndex
    rw [Std.HashMap.getElem?_empty] at hIndex
    cases hIndex
  size_eq := LawfulSlots.size_empty

/- A new order goes to the vacant slot. -/
theorem insert
    (h : Indexes slots index shelved)
    (hFresh : o.id ∉ shelved.map fun x => x.1.id) :
    Indexes (Slots.insert slots o)
      (index.insert o.id ⟨Slots.vacant slots, policy⟩)
      ((o, policy) :: shelved) where
  nodup := List.nodup_cons.2 ⟨hFresh, h.nodup⟩
  stored := by
    intro k x hk
    rw [LawfulSlots.get?_insert] at hk
    rw [Std.HashMap.getElem?_insert]
    split at hk
    · rename_i hVacant
      cases hk
      refine ⟨policy, List.mem_cons_self .., ?_⟩
      rw [if_pos (beq_self_eq_true _), hVacant]
    · rcases h.stored k x hk with ⟨p, hMem, hIndex⟩
      refine ⟨p, List.mem_cons_of_mem _ hMem, ?_⟩
      have hNe : ¬ (o.id == x.id) = true := by
        intro hEq
        apply hFresh
        rw [eq_of_beq hEq]
        exact
          List.mem_map_of_mem (f := fun x => x.1.id) hMem
      rw [if_neg hNe, hIndex]
  indexed := by
    intro id place hIndex
    rw [Std.HashMap.getElem?_insert] at hIndex
    rw [LawfulSlots.get?_insert]
    split at hIndex
    · rename_i hEq
      cases hIndex
      exact
        ⟨o, if_pos rfl, eq_of_beq hEq,
          List.mem_cons_self ..⟩
    · rcases h.indexed id place hIndex with
        ⟨x, hk, hId, hMem⟩
      refine
        ⟨x, ?_, hId, List.mem_cons_of_mem _ hMem⟩
      rw [if_neg ?_, hk]
      intro hVacant
      rw [hVacant, LawfulSlots.get?_vacant] at hk
      cases hk
  size_eq := by
    rw [LawfulSlots.size_insert, h.size_eq,
      List.length_cons]

/- The order in a slot may change, as long as it keeps its
id. -/
theorem update
    (h : Indexes slots index ((o, policy) :: shelved))
    (hk : Slots.get? slots k = some o)
    (hId : o'.id = o.id) :
    Indexes (Slots.update slots k o') index
      ((o', policy) :: shelved) where
  nodup := by
    have hNodup := h.nodup
    rw [List.map_cons] at hNodup ⊢
    rw [hId]
    exact hNodup
  stored := by
    intro j x hj
    rw [LawfulSlots.get?_update hk] at hj
    split at hj
    · rename_i hEq
      cases hj
      rw [hId, hEq]
      exact
        ⟨policy, List.mem_cons_self ..,
          h.index_eq hk (List.mem_cons_self ..)⟩
    · rename_i hNe
      rcases h.stored j x hj with ⟨p, hMem, hIndex⟩
      refine ⟨p, ?_, hIndex⟩
      rcases List.mem_cons.1 hMem with hEq | hRest
      · exfalso
        apply hNe
        exact
          h.slot_eq hj hk
            (congrArg (fun x => x.1.id) hEq)
      · exact List.mem_cons_of_mem _ hRest
  indexed := by
    intro id place hIndex
    rcases h.indexed id place hIndex with
      ⟨x, hj, hId', hMem⟩
    rw [LawfulSlots.get?_update hk]
    by_cases hEq : place.slot = k
    · rw [if_pos hEq]
      rw [hEq, hk] at hj
      cases hj
      have hPolicy : place.policy = policy :=
        congrArg Prod.snd
          (h.shelved_eq hMem (List.mem_cons_self ..) rfl)
      rw [hPolicy]
      exact
        ⟨o', rfl, hId.trans hId', List.mem_cons_self ..⟩
    · rw [if_neg hEq]
      refine ⟨x, hj, hId', ?_⟩
      rcases List.mem_cons.1 hMem with hSame | hRest
      · exfalso
        apply hEq
        exact
          h.slot_eq hj hk
            (congrArg (fun x => x.1.id) hSame)
      · exact List.mem_cons_of_mem _ hRest
  size_eq := by
    rw [LawfulSlots.size_update hk, h.size_eq,
      List.length_cons, List.length_cons]

/- An order leaves its slot and the index. -/
theorem erase
    (h : Indexes slots index ((o, policy) :: shelved))
    (hk : Slots.get? slots k = some o) :
    Indexes (Slots.erase slots k) (index.erase o.id)
      shelved where
  nodup := (List.nodup_cons.1 h.nodup).2
  stored := by
    intro j x hj
    rw [LawfulSlots.get?_erase] at hj
    split at hj
    · cases hj
    rename_i hNe
    rcases h.stored j x hj with ⟨p, hMem, hIndex⟩
    have hId : ¬ (o.id == x.id) = true := by
      intro hEq
      exact hNe (h.slot_eq hj hk (eq_of_beq hEq).symm)
    refine ⟨p, ?_, ?_⟩
    · rcases List.mem_cons.1 hMem with hSame | hRest
      · exfalso
        apply hId
        rw [congrArg (fun x => x.1.id) hSame]
        exact beq_self_eq_true _
      · exact hRest
    · rw [Std.HashMap.getElem?_erase, if_neg hId, hIndex]
  indexed := by
    intro id place hIndex
    rw [Std.HashMap.getElem?_erase] at hIndex
    split at hIndex
    · cases hIndex
    rename_i hId
    rcases h.indexed id place hIndex with
      ⟨x, hj, hId', hMem⟩
    have hOther : x.id ≠ o.id := by
      intro hEq
      apply hId
      rw [← hId', hEq]
      exact beq_self_eq_true _
    refine ⟨x, ?_, hId', ?_⟩
    · rw [LawfulSlots.get?_erase, if_neg ?_, hj]
      intro hEq
      rw [hEq, hk] at hj
      cases hj
      exact hOther rfl
    · rcases List.mem_cons.1 hMem with hSame | hRest
      · exact
          absurd (congrArg (fun x => x.1.id) hSame) hOther
      · exact hRest
  size_eq := by
    have hSize := LawfulSlots.size_erase hk
    rw [h.size_eq, List.length_cons] at hSize
    exact Nat.succ.inj hSize

end Indexes

end Store

end Matchbook
