import Matchbook.Proofs.Engine.Present

/-
  Orderly floors: every ladder is ranked, no two orders have
  the same id, and all orders are of the symbol of the book.
  Every move of an engine keeps a floor orderly, wherever its
  orders have come from.

  Key definitions include:
    * `Order.tag`
    * `Floor.IsOrderly`

  The main statements are:
    * `Floor.IsOrderly.of_tags`
    * `Floor.IsOrderly.trade`
    * `Floor.Reached.isOrderly`
    * `Floor.IsOrderly.matching`
    * `Floor.IsOrderly.runQueue?`
    * `Engine.isOrderly_submit?`
-/

------------------------------------------------------------
-- Orderly floors
------------------------------------------------------------

namespace Matchbook

/- What an order is known by; it never changes. -/
def Order.tag (o : Order) : UInt64 × String :=
  (o.id, o.symbol)

namespace Floor

/- A floor on which every order can be told from the others
and is in the right place. -/
structure IsOrderly (f : Floor) : Prop where
  isRanked : f.book.IsRanked
  nodup : (f.orders.map Order.id).Nodup
  symbol_eq : ∀ o ∈ f.orders, o.symbol = f.book.symbol

variable {b b' : Book}
variable {o taker : Order}
variable {queue : List Order}

/- A floor with fewer orders is as orderly, also if its orders
have changed in other respects than their ids and symbols. -/
theorem IsOrderly.of_tags
    {f f' : Floor}
    (h : f.IsOrderly)
    (hRanked : f'.book.IsRanked)
    (hSymbol : f'.book.symbol = f.book.symbol)
    (hTags :
      (f'.orders.map Order.tag).Subperm
        (f.orders.map Order.tag)) :
    f'.IsOrderly where
  isRanked := hRanked
  nodup := by
    have hIds :
        ∀ os : List Order,
          os.map Order.id = (os.map Order.tag).map Prod.fst := by
      intro os
      rw [List.map_map]
      rfl
    have hNodup := h.nodup
    rw [hIds] at hNodup ⊢
    rcases hTags with ⟨tags, hPerm, hSub⟩
    exact
      (hPerm.map Prod.fst).nodup_iff.1
        (hNodup.sublist (hSub.map Prod.fst))
  symbol_eq := by
    intro o ho
    rcases List.mem_map.1
        (hTags.subset (List.mem_map_of_mem ho)) with
      ⟨o', ho', hTag⟩
    rw [hSymbol, ← h.symbol_eq o' ho']
    exact (congrArg Prod.snd hTag).symm

theorem subperm_tags
    {os os' : List Order}
    (hSub : os'.Subperm os) :
    (os'.map Order.tag).Subperm (os.map Order.tag) := by
  rcases hSub with ⟨os'', hPerm, hSublist⟩
  exact
    ⟨os''.map Order.tag, hPerm.map Order.tag,
      hSublist.map Order.tag⟩

theorem IsOrderly.of_subperm
    {f f' : Floor}
    (h : f.IsOrderly)
    (hRanked : f'.book.IsRanked)
    (hSymbol : f'.book.symbol = f.book.symbol)
    (hSub : f'.orders.Subperm f.orders) :
    f'.IsOrderly :=
  h.of_tags hRanked hSymbol (subperm_tags hSub)

/- An order in flight is not in the book. -/
theorem IsOrderly.fresh
    (h : IsOrderly ⟨b, o :: queue⟩) :
    o.id ∉ b.allOrders.map Order.id :=
  fresh_of_nodup h.nodup

theorem IsOrderly.inFlight_symbol_eq
    (h : IsOrderly ⟨b, o :: queue⟩) :
    o.symbol = b.symbol :=
  h.symbol_eq o
    (List.mem_append_right _ (List.mem_cons_self ..))

------------------------------------------------------------
-- Moves
------------------------------------------------------------

theorem isOrderly_new (symbol : String) :
    IsOrderly ⟨Book.new symbol, []⟩ where
  isRanked := Book.isRanked_new symbol
  nodup := List.nodup_nil
  symbol_eq := by
    intro o ho
    cases ho

/- A new order of the right symbol joins those in flight. -/
theorem IsOrderly.enter
    (h : IsOrderly ⟨b, []⟩)
    (hSymbol : o.symbol = b.symbol)
    (hNew : b.contains o.id = false) :
    IsOrderly ⟨b, [o]⟩ where
  isRanked := h.isRanked
  nodup := by
    have hNodup := h.nodup
    have hFresh := Book.contains_eq_false_iff.1 hNew
    unfold orders at hNodup ⊢
    rw [List.append_nil] at hNodup
    exact
      (List.perm_append_comm.map Order.id).nodup_iff.1
        (List.nodup_cons.2 ⟨hFresh, hNodup⟩)
  symbol_eq := by
    intro o' ho'
    rcases List.mem_append.1 ho' with hHeld | hNext
    · exact h.symbol_eq o' (List.mem_append_left _ hHeld)
    · rw [List.mem_singleton.1 hNext]
      exact hSymbol

theorem IsOrderly.activate
    (h : IsOrderly ⟨b, o :: queue⟩) :
    IsOrderly ⟨b, o.activate :: queue⟩ := by
  refine h.of_tags h.isRanked rfl ?_
  simp only [orders, List.map_append, List.map_cons]
  exact List.Subperm.refl _

/- A trade changes the filled quantities of a maker and of the
taker, and a filled maker leaves. -/
theorem IsOrderly.trade
    {e : Entry Order}
    {rest : List (Entry Order)}
    {d : Deal}
    (h : IsOrderly ⟨b, taker :: queue⟩)
    (hMakers :
      (b.ladder taker.side.opposite .price).byPriority =
        e :: rest)
    (hStruck : d.IsStruck e.item taker) :
    IsOrderly
      ⟨b.settle taker.side.opposite
          ⟨[d], Matching.remaining e.key d.maker rest,
            d.taker, none⟩,
        d.taker :: queue⟩ := by
  have hRanked :
      RankedEntries taker.side.opposite .price
        (e :: rest) := by
    rw [← hMakers]
    exact h.isRanked _ .price
  have hMaker : d.maker.tag = e.item.tag := by
    rw [hStruck.maker_with_filled]
    rfl
  have hTaker : d.taker.tag = taker.tag := by
    rw [hStruck.taker_with_filled]
    rfl
  have hDoor :=
    b.door_settle taker.side.opposite
      ⟨[d], Matching.remaining e.key d.maker rest, d.taker,
        none⟩
  refine
    h.of_tags
      (h.isRanked.settle
        (hStruck.rankedEntries_remaining hRanked))
      (congrArg Prod.fst hDoor) ?_
  rcases exists_orders_of_deal hMakers taker queue d with
    ⟨others, hBefore, hAfter⟩
  refine (subperm_tags hAfter).trans ?_
  rw [List.map_cons, List.map_cons, hMaker, hTaker]
  exact (hBefore.symm.map Order.tag).subperm

/- An order in flight may leave the floor. -/
theorem IsOrderly.retire
    (h : IsOrderly ⟨b, o :: queue⟩) :
    IsOrderly ⟨b, queue⟩ :=
  h.of_subperm h.isRanked rfl
    (orders_retire_subperm b o queue)

/- An order in flight may be placed in the book. -/
theorem IsOrderly.place
    {policy : Policy}
    (h : IsOrderly ⟨b, o :: queue⟩)
    (hPlace : b.place policy o = .ok b') :
    IsOrderly ⟨b', queue⟩ :=
  h.of_subperm
    (Book.isRanked_place h.isRanked h.fresh hPlace)
    (congrArg Prod.fst (Book.door_place hPlace))
    (orders_of_place_perm h.isRanked h.fresh hPlace
      queue).subperm

/- Released orders are in flight from then on. -/
theorem IsOrderly.release
    (h : IsOrderly ⟨b, queue⟩) :
    IsOrderly ⟨b.release.2, queue ++ b.release.1⟩ :=
  h.of_subperm (Book.isRanked_release h.isRanked)
    (congrArg Prod.fst b.door_release)
    (orders_release_perm b queue).subperm

theorem orders_releaseAfter_perm
    (b : Book)
    (queue : List Order)
    (p : Pass) :
    (orders
      ⟨(b.releaseAfter p).2,
        queue ++ (b.releaseAfter p).1⟩).Perm
      (orders ⟨b, queue⟩) := by
  unfold Book.releaseAfter
  split
  · rw [List.append_nil]
  · exact orders_release_perm b queue

/- What a pass releases is in flight from then on. -/
theorem IsOrderly.releaseAfter
    (h : IsOrderly ⟨b, queue⟩)
    (p : Pass) :
    IsOrderly
      ⟨(b.releaseAfter p).2,
        queue ++ (b.releaseAfter p).1⟩ := by
  unfold Book.releaseAfter
  split
  · rw [List.append_nil]
    exact h
  · exact h.release

/- What is left of a floor when nobody is in flight any
more. -/
theorem IsOrderly.ground
    (h : IsOrderly ⟨b, queue⟩) :
    IsOrderly ⟨b, []⟩ :=
  h.of_subperm h.isRanked rfl
    ((List.nil_sublist queue).append_left
      b.allOrders).subperm

theorem IsOrderly.cancel
    {id : UInt64}
    (h : IsOrderly ⟨b, []⟩)
    (hCancel : b.cancel? id = some (o, b')) :
    IsOrderly ⟨b', []⟩ := by
  refine
    h.of_subperm (Book.isRanked_cancel? h.isRanked hCancel)
      (congrArg Prod.fst (Book.door_cancel? hCancel)) ?_
  simp only [orders, List.append_nil]
  exact Book.allOrders_cancel?_subperm hCancel

theorem IsOrderly.halt
    (h : IsOrderly ⟨b, queue⟩) :
    IsOrderly ⟨b.halt, []⟩ :=
  h.of_subperm h.isRanked rfl
    ((List.nil_sublist queue).append_left
      b.allOrders).subperm

/- Every floor that a new book comes to is orderly. -/
theorem Reached.isOrderly
    {symbol : String}
    {log : List Event}
    {f : Floor}
    (h : Reached symbol log f) :
    f.IsOrderly := by
  induction h with
  | start => exact isOrderly_new symbol
  | enter _ hSymbol hNew ih => exact ih.enter hSymbol hNew
  | activate _ ih => exact ih.activate
  | trade _ _ hMakers hMeet ih =>
      exact
        ih.trade hMakers (Deal.isStruck_of_meet? hMeet).1
  | retire _ _ ih => exact ih.retire
  | rest _ _ _ hPlace ih => exact ih.place hPlace
  | park _ hPlace ih => exact ih.place hPlace
  | release _ ih => exact ih.release
  | cancel _ hCancel ih => exact ih.cancel hCancel
  | halt _ ih => exact ih.halt

------------------------------------------------------------
-- Passes
------------------------------------------------------------

/-
  A matching keeps a floor orderly.  By induction on its
  course; after each trade the makers that are left stand on
  the ladder of the settled book.
-/
theorem IsOrderly.matching
    {side : Side}
    {now : Timestamp}
    {id : UInt64}
    {makers : List (Entry Order)}
    {m : Matching}
    (hRuns : Matching.Runs now id makers taker m)
    (h : IsOrderly ⟨b, taker :: queue⟩)
    (hSide : taker.side.opposite = side)
    (hMakers : (b.ladder side .price).byPriority = makers) :
    IsOrderly ⟨b.settle side m, m.taker :: queue⟩ := by
  induction hRuns generalizing b with
  | filled =>
      rw [← hMakers, settle_nil]
      exact h
  | empty =>
      rw [← hMakers, settle_nil]
      exact h
  | apart =>
      rw [← hMakers, settle_nil]
      exact h
  | broken =>
      rw [← hMakers, settle_nil]
      exact h
  | @traded id e rest taker d m hOpen hMeet hRest ih =>
      subst hSide
      have hStruck := (Deal.isStruck_of_meet? hMeet).1
      have hSame : d.taker.side = taker.side := by
        rw [hStruck.taker_with_filled]
      have hNext :=
        ih (h.trade hMakers hStruck) (by rw [hSame])
          (Book.byPriority_settle _ _ _)
      rw [settle_settle] at hNext
      exact hNext

/- A taker that has stopped trading is in the book, or is
gone. -/
theorem IsOrderly.orders_finishes_subperm
    {ending : Ending}
    (h : IsOrderly ⟨b, taker :: queue⟩)
    (hFinish : b.Finishes taker ending b') :
    (orders ⟨b', queue⟩).Subperm
      (orders ⟨b, taker :: queue⟩) := by
  cases hFinish with
  | filled => exact orders_retire_subperm b taker queue
  | discarded => exact orders_retire_subperm b taker queue
  | rested _ _ hPlace =>
      exact
        (orders_of_place_perm h.isRanked h.fresh hPlace
          queue).subperm
  | broken => exact orders_retire_subperm b taker queue

theorem IsOrderly.finishes
    {ending : Ending}
    (h : IsOrderly ⟨b, taker :: queue⟩)
    (hFinish : b.Finishes taker ending b') :
    IsOrderly ⟨b', queue⟩ := by
  cases hFinish with
  | filled => exact h.retire
  | discarded => exact h.retire
  | rested _ _ hPlace => exact h.place hPlace
  | broken => exact h.retire

/- After a pass its taker is not in flight any more. -/
theorem IsOrderly.pass?
    {now : Timestamp}
    {p : Pass}
    (h : IsOrderly ⟨b, taker :: queue⟩)
    (hPass : b.pass? taker now = some (p, b')) :
    IsOrderly ⟨b', queue⟩ := by
  cases Book.passes_of_pass? hPass with
  | broken hRuns => exact (h.matching hRuns rfl rfl).retire
  | finished hRuns _ hFinish =>
      exact (h.matching hRuns rfl rfl).finishes hFinish

/- Executing a queue keeps a floor orderly, wherever it
ends. -/
theorem IsOrderly.runQueue?
    {now : Timestamp}
    {passes : List Pass}
    (h : IsOrderly ⟨b, queue⟩)
    (hRun : Book.runQueue? now queue b = some (passes, b')) :
    IsOrderly ⟨b', []⟩ := by
  induction queue, b using Book.runQueue?.induct now
    generalizing passes b' with
  | case1 b =>
      rw [Book.runQueue?] at hRun
      cases hRun
      exact h
  | case2 b o rest hPass =>
      rw [Book.runQueue?_cons, hPass] at hRun
      cases hRun
  | case3 b o rest p b₁ hPass hBroken =>
      rw [Book.runQueue?_cons, hPass] at hRun
      simp only [hBroken, if_true] at hRun
      cases hRun
      exact (h.activate.pass? hPass).ground
  | case4 b o rest p b₁ hPass hIntact ih =>
      rw [Book.runQueue?_cons, hPass] at hRun
      simp only [hIntact, Bool.false_eq_true, if_false]
        at hRun
      rcases Option.map_eq_some_iff.1 hRun with
        ⟨⟨others, b₂⟩, hRest, hEq⟩
      cases hEq
      exact
        ih ((h.activate.pass? hPass).releaseAfter p) hRest

end Floor

------------------------------------------------------------
-- Submissions and cancellations
------------------------------------------------------------

namespace Engine

open Floor

variable {e e' : Engine} {o : Order} {now : Timestamp}
variable {answer : Except Refusal Report}

/- An order that is taken in leaves an orderly book, also if
it halts the book. -/
theorem isOrderly_admit?
    (h : IsOrderly ⟨e.book, [o]⟩)
    (hAdmit : e.admit? o now = some (answer, e')) :
    IsOrderly ⟨e'.book, []⟩ := by
  unfold admit? at hAdmit
  dsimp only at hAdmit
  split at hAdmit
  · have hPark := Option.some.inj hAdmit
    unfold park at hPark
    split at hPark
    · rename_i hPlace
      cases hPark
      exact h.place hPlace
    · cases hPark
      exact h.halt
  · unfold execute? at hAdmit
    rcases Option.map_eq_some_iff.1 hAdmit with
      ⟨c, hCascade, hOutcome⟩
    have hAfter :=
      h.runQueue? (Book.runQueue?_of_cascade? hCascade)
    dsimp only at hOutcome
    split at hOutcome
    · cases hOutcome
      exact hAfter
    · cases hOutcome
      exact hAfter.halt

theorem isOrderly_submit?
    (h : IsOrderly ⟨e.book, []⟩)
    (hSubmit : e.submit? o now = some (answer, e')) :
    IsOrderly ⟨e'.book, []⟩ := by
  by_cases hIn : e.TakesIn o
  · rw [submit?_of_takesIn now hIn] at hSubmit
    exact
      isOrderly_admit? (h.enter hIn.2.1 hIn.2.2) hSubmit
  · rcases submit?_of_not_takesIn hIn hSubmit with
      ⟨rfl, _⟩ | ⟨_, hBreak⟩
    · exact h
    · cases hBreak
      exact h.halt

theorem isOrderly_cancel
    (h : IsOrderly ⟨e.book, []⟩)
    (id : UInt64) :
    IsOrderly ⟨(e.cancel id).2.book, []⟩ := by
  unfold cancel
  split
  · exact h
  · split
    · exact h
    · rename_i hCancel
      exact h.cancel hCancel

end Engine

end Matchbook
