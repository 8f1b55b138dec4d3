import Matchbook.Proofs.Engine.Course

/-
  What becomes of the orders of a floor in the course of a
  submission.  Deals fill them and passes activate them;
  nothing else happens to them, and none of them is lost: in
  the end an order is in the book, or it has left it filled or
  discarded.

  Key definitions include:
    * `Order.replay?`
    * `Order.Becomes`
    * `Evolves`
    * `Pass.gone`

  The main statements are:
    * `Evolves.exists_becomes`
    * `Book.Course.evolves`
    * `Engine.Succeeds.evolves`
-/

------------------------------------------------------------
-- Replays
------------------------------------------------------------

namespace Matchbook

/- Whether an order is the maker or the taker of a trade. -/
def Trade.Involves (t : Trade) (id : UInt64) : Prop :=
  t.makerOrderId = id ∨ t.takerOrderId = id

instance (t : Trade) (id : UInt64) :
    Decidable (t.Involves id) :=
  inferInstanceAs (Decidable (_ ∨ _))

namespace Order

/- The order after a trade, which fills it if it takes part
in it. -/
def after? (o : Order) (t : Trade) : Option Order :=
  if t.Involves o.id then
    o.fill? t.quantity
  else
    some o

/- The order after some trades, one after the other.  `none`
if the filled quantity gets out of range. -/
def replay? (o : Order) (ts : List Trade) : Option Order :=
  ts.foldlM after? o

variable {o o' : Order}
variable {t : Trade}
variable {ts : List Trade}

theorem replay?_cons
    (o : Order)
    (t : Trade)
    (ts : List Trade) :
    o.replay? (t :: ts) =
      (o.after? t).bind fun o' => o'.replay? ts :=
  List.foldlM_cons

theorem replay?_append
    (o : Order)
    (ts ts' : List Trade) :
    o.replay? (ts ++ ts') =
      (o.replay? ts).bind fun o' => o'.replay? ts' :=
  List.foldlM_append

theorem replay?_append_singleton
    (o : Order)
    (ts : List Trade)
    (t : Trade) :
    o.replay? (ts ++ [t]) =
      (o.replay? ts).bind fun o' => o'.after? t := by
  rw [replay?_append]
  congr
  funext o'
  rw [replay?_cons]
  exact Option.bind_fun_some _

/- Trades do not care about the stop price. -/
theorem replay?_activate
    (o : Order)
    (ts : List Trade) :
    o.activate.replay? ts =
      (o.replay? ts).map activate := by
  induction ts generalizing o with
  | nil => rfl
  | cons t ts ih =>
      have hAfter :
          o.activate.after? t = (o.after? t).map activate := by
        unfold after?
        change (if t.Involves o.id then _ else _) = _
        split
        · unfold fill?
          rw [Option.map_map]
          rfl
        · rfl
      rw [replay?_cons, replay?_cons, hAfter]
      cases o.after? t with
      | none => rfl
      | some o' => exact ih o'

/- Trades of other orders leave the order as it is. -/
theorem replay?_of_not_involved
    (h : ∀ t ∈ ts, ¬ t.Involves o.id) :
    o.replay? ts = some o := by
  induction ts with
  | nil => rfl
  | cons t ts ih =>
      rw [replay?_cons, after?,
        if_neg (h t (List.mem_cons_self ..))]
      exact ih fun t ht => h t (List.mem_cons_of_mem _ ht)

/- The filled quantity is all that trades change, and it only
grows. -/
theorem replay?_eq_some
    (hPos : ∀ t ∈ ts, 0 < t.quantity.units)
    (h : o.replay? ts = some o') :
    o' = { o with filled := o'.filled } ∧
      o.filled ≤ o'.filled := by
  induction ts generalizing o with
  | nil =>
      cases h
      exact ⟨rfl, Int.le_refl _⟩
  | cons t ts ih =>
      rw [replay?_cons] at h
      rcases Option.bind_eq_some_iff.1 h with
        ⟨next, hAfter, hRest⟩
      have hLater :=
        ih (fun t ht => hPos t (List.mem_cons_of_mem _ ht))
          hRest
      unfold after? at hAfter
      split at hAfter
      · rcases fill?_eq_some hAfter with ⟨f, hAdd, rfl⟩
        exact
          ⟨hLater.1,
            Int.le_trans
              (Decimal.le_add? hAdd
                (hPos t (List.mem_cons_self ..)))
              hLater.2⟩
      · cases hAfter
        exact hLater

/-
  How an order has changed after some trades and the passes of
  the orders with some ids: the trades have filled it, and its
  own pass has taken its stop price away.
-/
structure Becomes
    (o : Order)
    (ids : List UInt64)
    (ts : List Trade)
    (o' : Order) : Prop where
  replay_eq :
    o.replay? ts = some { o with filled := o'.filled }
  order_eq :
    o' =
      { o with
        filled := o'.filled
        stopPrice := o'.stopPrice }
  stopPrice_eq :
    o'.stopPrice =
      if o.id ∈ ids then none else o.stopPrice

namespace Becomes

variable {ids : List UInt64}

theorem start (o : Order) : o.Becomes [] [] o where
  replay_eq := rfl
  order_eq := rfl
  stopPrice_eq := rfl

theorem id_eq
    (h : o.Becomes ids ts o') :
    o'.id = o.id := by
  rw [h.order_eq]

/- A trade that the order takes part in. -/
theorem fill
    {o'' : Order}
    (h : o.Becomes ids ts o')
    (hInvolves : t.Involves o.id)
    (hFill : o'.fill? t.quantity = some o'') :
    o.Becomes ids (ts ++ [t]) o'' := by
  rcases fill?_eq_some hFill with ⟨f, hAdd, rfl⟩
  refine ⟨?_, ?_, h.stopPrice_eq⟩
  · rw [replay?_append_singleton, h.replay_eq,
      Option.bind_some, after?, if_pos hInvolves, fill?,
      hAdd]
    rfl
  · rw [h.order_eq]

/- A trade of other orders. -/
theorem idle
    (h : o.Becomes ids ts o')
    (hOther : ¬ t.Involves o.id) :
    o.Becomes ids (ts ++ [t]) o' := by
  refine ⟨?_, h.order_eq, h.stopPrice_eq⟩
  rw [replay?_append_singleton, h.replay_eq,
    Option.bind_some, after?, if_neg hOther]

/- The pass of the order itself. -/
theorem activate
    (h : o.Becomes ids ts o') :
    o.Becomes (ids ++ [o'.id]) ts o'.activate := by
  refine ⟨h.replay_eq, ?_, ?_⟩
  · rw [h.order_eq]
    rfl
  · rw [h.id_eq, if_pos (by simp)]
    rfl

/- The pass of another order. -/
theorem wait
    {id : UInt64}
    (h : o.Becomes ids ts o')
    (hOther : o.id ≠ id) :
    o.Becomes (ids ++ [id]) ts o' := by
  refine ⟨h.replay_eq, h.order_eq, ?_⟩
  simp only [List.mem_append, List.mem_singleton, hOther,
    or_false]
  exact h.stopPrice_eq

end Becomes

end Order

------------------------------------------------------------
-- Evolutions
------------------------------------------------------------

/-
  How some orders turn into others by the passes of the orders
  with some ids and by some deals.  The order of the list does
  not matter.
-/
inductive Evolves (os : List Order) :
    List UInt64 → List Deal → List Order → Prop
  | start : Evolves os [] [] os
  | deal
      {ids : List UInt64}
      {ds : List Deal}
      {maker taker : Order}
      {others : List Order}
      {d : Deal}
      (h : Evolves os ids ds (maker :: taker :: others))
      (hStruck : d.IsStruck maker taker) :
      Evolves os ids (ds ++ [d])
        (d.maker :: d.taker :: others)
  | activate
      {ids : List UInt64}
      {ds : List Deal}
      {o : Order}
      {others : List Order}
      (h : Evolves os ids ds (o :: others)) :
      Evolves os (ids ++ [o.id]) ds (o.activate :: others)
  | perm
      {ids : List UInt64}
      {ds : List Deal}
      {os' os'' : List Order}
      (h : Evolves os ids ds os')
      (hPerm : os'.Perm os'') :
      Evolves os ids ds os''

namespace Evolves

variable {os os' : List Order}
variable {ids : List UInt64}
variable {ds : List Deal}

/- No order is lost and none is added. -/
theorem ids_perm
    (h : Evolves os ids ds os') :
    (os'.map Order.id).Perm (os.map Order.id) := by
  induction h with
  | start => exact List.Perm.refl _
  | deal _ hStruck ih =>
      rw [List.map_cons, List.map_cons,
        hStruck.maker_with_filled, hStruck.taker_with_filled]
      exact ih
  | activate _ ih => exact ih
  | perm _ hPerm ih =>
      exact (hPerm.symm.map Order.id).trans ih

/- Every deal was struck between two orders. -/
theorem exists_isStruck
    (h : Evolves os ids ds os') :
    ∀ d ∈ ds, ∃ maker taker, d.IsStruck maker taker := by
  induction h with
  | start =>
      intro d hd
      cases hd
  | deal _ hStruck ih =>
      intro d hd
      rcases List.mem_append.1 hd with hOld | hNew
      · exact ih d hOld
      · rw [List.mem_singleton.1 hNew]
        exact ⟨_, _, hStruck⟩
  | activate _ ih => exact ih
  | perm _ _ ih => exact ih

theorem quantity_pos
    (h : Evolves os ids ds os') :
    ∀ t ∈ ds.map Deal.trade, 0 < t.quantity.units := by
  intro t ht
  rcases List.mem_map.1 ht with ⟨d, hd, rfl⟩
  rcases h.exists_isStruck d hd with ⟨_, _, hStruck⟩
  exact hStruck.quantity_pos

theorem maker_id_eq
    (h : Evolves os ids ds os')
    {d : Deal}
    (hd : d ∈ ds) :
    d.maker.id = d.trade.makerOrderId := by
  rcases h.exists_isStruck d hd with ⟨_, _, hStruck⟩
  rw [hStruck.makerOrderId_eq, hStruck.maker_with_filled]

/- Every order was there from the start, and its changes are
those of its trades and its pass. -/
theorem exists_becomes
    (h : Evolves os ids ds os')
    (hNodup : (os.map Order.id).Nodup) :
    ∀ x' ∈ os', ∃ x ∈ os,
      x.Becomes ids (ds.map Deal.trade) x' := by
  induction h with
  | start =>
      intro x hx
      exact ⟨x, hx, Order.Becomes.start x⟩
  | @deal ids ds maker taker others d hBefore hStruck ih =>
      have hIds := hBefore.ids_perm.nodup_iff.2 hNodup
      simp only [List.map_cons, List.nodup_cons,
        List.mem_cons, not_or] at hIds
      rcases hIds with ⟨⟨_, hMakerNew⟩, hTakerNew, _⟩
      rw [List.map_append, List.map_singleton]
      intro x' hx'
      rcases List.mem_cons.1 hx' with rfl | hx'
      · rcases ih maker (List.mem_cons_self ..) with
          ⟨x, hx, hBecomes⟩
        refine ⟨x, hx, hBecomes.fill ?_ hStruck.maker_eq⟩
        rw [← hBecomes.id_eq]
        exact Or.inl hStruck.makerOrderId_eq
      rcases List.mem_cons.1 hx' with rfl | hOther
      · rcases
            ih taker
              (List.mem_cons_of_mem _
                (List.mem_cons_self ..)) with
          ⟨x, hx, hBecomes⟩
        refine ⟨x, hx, hBecomes.fill ?_ hStruck.taker_eq⟩
        rw [← hBecomes.id_eq]
        exact Or.inr hStruck.takerOrderId_eq
      · rcases
            ih x'
              (List.mem_cons_of_mem _
                (List.mem_cons_of_mem _ hOther)) with
          ⟨x, hx, hBecomes⟩
        have hId := List.mem_map_of_mem (f := Order.id) hOther
        refine ⟨x, hx, hBecomes.idle ?_⟩
        rw [← hBecomes.id_eq]
        rintro (hMaker | hTaker)
        · rw [hStruck.makerOrderId_eq] at hMaker
          exact hMakerNew (hMaker ▸ hId)
        · rw [hStruck.takerOrderId_eq] at hTaker
          exact hTakerNew (hTaker ▸ hId)
  | @activate ids ds o others hBefore ih =>
      have hIds := hBefore.ids_perm.nodup_iff.2 hNodup
      rw [List.map_cons, List.nodup_cons] at hIds
      intro x' hx'
      rcases List.mem_cons.1 hx' with rfl | hOther
      · rcases ih o (List.mem_cons_self ..) with
          ⟨x, hx, hBecomes⟩
        exact ⟨x, hx, hBecomes.activate⟩
      · rcases ih x' (List.mem_cons_of_mem _ hOther) with
          ⟨x, hx, hBecomes⟩
        refine ⟨x, hx, hBecomes.wait ?_⟩
        rw [← hBecomes.id_eq]
        intro hSame
        apply hIds.1
        rw [← hSame]
        exact List.mem_map_of_mem hOther
  | perm _ hPerm ih =>
      intro x' hx'
      exact ih x' (hPerm.mem_iff.2 hx')

/- What has become of an order from the start. -/
theorem becomes_of_id_eq
    (h : Evolves os ids ds os')
    (hNodup : (os.map Order.id).Nodup)
    {x x' : Order}
    (hx : x ∈ os)
    (hx' : x' ∈ os')
    (hId : x'.id = x.id) :
    x.Becomes ids (ds.map Deal.trade) x' := by
  rcases h.exists_becomes hNodup x' hx' with
    ⟨y, hy, hBecomes⟩
  have hSame : y = x := by
    apply List.inj_on_of_nodup_map hNodup hy hx
    rw [← hBecomes.id_eq, hId]
  rw [← hSame]
  exact hBecomes

end Evolves

------------------------------------------------------------
-- Orders that leave
------------------------------------------------------------

/- Whether the taker is gone after a pass that ended well: it
does not rest in the book. -/
def Ending.leaves : Ending → Bool
  | .filled => true
  | .discarded _ => true
  | .rested _ => false
  | .broken _ => false

/- The makers that some deals have filled up. -/
def filledMakers (ds : List Deal) : List Order :=
  (ds.map Deal.maker).filter fun o => o.IsFilled

/- The orders that are gone after a pass. -/
def Pass.gone (p : Pass) : List Order :=
  filledMakers p.deals ++
    if p.ending.leaves then [p.taker] else []

theorem Pass.mem_gone_iff
    {p : Pass}
    {o : Order} :
    o ∈ p.gone ↔
      (∃ d ∈ p.deals, d.maker = o ∧ o.IsFilled) ∨
        (p.ending.leaves = true ∧ p.taker = o) := by
  unfold gone filledMakers
  rw [List.mem_append, List.mem_filter, List.mem_map]
  refine or_congr ?_ ?_
  · simp only [decide_eq_true_eq]
    constructor
    · rintro ⟨⟨d, hd, hMaker⟩, hFilled⟩
      exact ⟨d, hd, hMaker, hFilled⟩
    · rintro ⟨d, hd, hMaker, hFilled⟩
      exact ⟨⟨d, hd, hMaker⟩, hFilled⟩
  · cases p.ending.leaves with
    | false => simp
    | true => simp [eq_comm]

------------------------------------------------------------
-- Passes
------------------------------------------------------------

section Passes

variable {os frame : List Order}
variable {ids : List UInt64}
variable {ds : List Deal}
variable {now : Timestamp}

/-
  A matching moves on by deals alone.  By induction on its
  course; a maker that is filled joins the frame.
-/
theorem Matching.Runs.evolves
    {id : UInt64}
    {makers : List (Entry Order)}
    {taker : Order}
    {m : Matching}
    (hRuns : Runs now id makers taker m)
    (h :
      Evolves os ids ds
        (taker :: (makers.map Entry.item ++ frame))) :
    Evolves os ids (ds ++ m.deals)
      (m.taker ::
        (m.makers.map Entry.item ++
          (filledMakers m.deals ++ frame))) := by
  induction hRuns generalizing ds frame with
  | filled => simpa [filledMakers] using h
  | empty => simpa [filledMakers] using h
  | apart => simpa [filledMakers] using h
  | broken => simpa [filledMakers] using h
  | @traded id e rest taker d m _ hMeet _ ih =>
      have hStruck := (Deal.isStruck_of_meet? hMeet).1
      have hDeal :=
        (h.perm (List.Perm.swap _ _ _)).deal hStruck
      change
        Evolves os ids (ds ++ d :: m.deals)
          (m.taker ::
            (m.makers.map Entry.item ++
              (filledMakers (d :: m.deals) ++ frame)))
      rw [List.append_cons]
      unfold Matching.remaining at ih
      by_cases hFilled : d.maker.IsFilled
      · rw [if_pos hFilled] at ih
        have hGone :
            filledMakers (d :: m.deals) =
              d.maker :: filledMakers m.deals :=
          List.filter_cons_of_pos (by simpa using hFilled)
        rw [hGone]
        have hNext :
            Evolves os ids (ds ++ [d])
              (d.taker ::
                (rest.map Entry.item ++
                  d.maker :: frame)) := by
          apply hDeal.perm
          exact
            (List.Perm.swap _ _ _).trans
              (List.perm_middle.symm.cons _)
        apply (ih hNext).perm
        exact (List.perm_middle.append_left _).cons _
      · rw [if_neg hFilled] at ih
        have hStays :
            filledMakers (d :: m.deals) =
              filledMakers m.deals :=
          List.filter_cons_of_neg (by simpa using hFilled)
        rw [hStays]
        exact ih (hDeal.perm (List.Perm.swap _ _ _))

/- A matching with one side of a book. -/
theorem Matching.Runs.evolves_settle
    {b : Book}
    {side : Side}
    {taker : Order}
    {m : Matching}
    (hRuns :
      Runs now b.nextTradeId
        (b.ladder side .price).byPriority taker m)
    (h :
      Evolves os ids ds (taker :: (b.allOrders ++ frame))) :
    Evolves os ids (ds ++ m.deals)
      (m.taker ::
        ((b.settle side m).allOrders ++
          (filledMakers m.deals ++ frame))) := by
  have hBefore := b.allOrders_perm side .price
  have hAfter := b.allOrders_settle_perm side m
  have hStart :
      Evolves os ids ds
        (taker ::
          ((b.ladder side .price).byPriority.map
              Entry.item ++
            (b.others side .price ++ frame))) := by
    apply h.perm
    rw [← List.append_assoc]
    exact (hBefore.append_right frame).cons taker
  apply (hRuns.evolves hStart).perm
  apply List.Perm.cons
  rw [List.perm_iff_count] at hAfter ⊢
  intro x
  have hCount := hAfter x
  simp only [List.count_append] at hCount ⊢
  omega

variable {symbol : String} {log : List Event}
variable {queue : List Order}
variable {b b' : Book}

/-
  A pass moves on by deals alone.  Its taker joins the book or
  leaves with the filled makers.
-/
theorem Floor.Reached.evolves_pass
    {taker : Order}
    {p : Pass}
    (hReached : Reached symbol log ⟨b, taker :: queue⟩)
    (hPass : b.pass? taker now = some (p, b'))
    (hIntact : p.violation = none)
    (h :
      Evolves os ids ds (taker :: (b.allOrders ++ frame))) :
    Evolves os ids (ds ++ p.deals)
      (b'.allOrders ++ (p.gone ++ frame)) := by
  cases Book.passes_of_pass? hPass with
  | broken => cases hIntact
  | @finished m ending _ hRuns _ hFinish =>
      have hMatched := hReached.matching hRuns rfl rfl rfl
      have hSettled := hRuns.evolves_settle h
      have hLeft
          (held left : List Order) :
          (m.taker :: (held ++ (left ++ frame))).Perm
            (held ++ (left ++ [m.taker] ++ frame)) := by
        rw [← List.append_assoc, List.append_assoc left,
          ← List.append_assoc]
        exact List.perm_middle.symm
      cases hFinish with
      | filled => exact hSettled.perm (hLeft _ _)
      | discarded => exact hSettled.perm (hLeft _ _)
      | broken => cases hIntact
      | rested _ _ hPlace =>
          have hPerm :=
            Book.allOrders_place_perm hMatched.isRanked
              (Floor.fresh_of_present hMatched.present)
              hPlace
          apply hSettled.perm
          change
            List.Perm _
              (b'.allOrders ++
                (filledMakers m.deals ++ [] ++ frame))
          rw [List.append_nil]
          exact (hPerm.append_right _).symm

/- One stage of a course, with what it releases queued at the
end. -/
theorem Floor.Reached.evolves_step
    {o : Order}
    {s : Stage}
    (hReached :
      Reached symbol log ⟨s.before, o :: queue⟩)
    (hPass :
      s.before.pass? o.activate now =
        some (s.pass, s.after))
    (hIntact : s.pass.violation = none)
    (h :
      Evolves os ids ds
        (o :: queue ++ (s.before.allOrders ++ frame))) :
    Evolves os (ids ++ [s.takerId]) (ds ++ s.pass.deals)
      (queue ++ s.released ++
        (s.remaining.allOrders ++
          (s.pass.gone ++ frame))) := by
  have hId : s.takerId = o.id := Stage.takerId_eq hPass
  have hActive :
      Evolves os (ids ++ [o.id]) ds
        (o.activate ::
          (s.before.allOrders ++ (queue ++ frame))) := by
    apply (h.activate).perm
    exact (List.perm_append_comm_assoc _ _ _).cons _
  have hReleased :
      (s.remaining.allOrders ++ s.released).Perm
        s.after.allOrders := by
    unfold Stage.remaining Stage.released Book.releaseAfter
    split
    · rw [List.append_nil]
    · exact s.after.allOrders_release_perm
  rw [hId]
  apply
    (hReached.activate.evolves_pass hPass hIntact
      hActive).perm
  rw [List.perm_iff_count] at hReleased ⊢
  intro x
  have hCount := hReleased x
  simp only [List.count_append] at hCount ⊢
  omega

/- A course empties its queue.  What has been in it and in the
book is in the book at the end, or has left it. -/
theorem Book.Course.evolves
    {stages : List Stage}
    (hCourse : Course now queue b stages b')
    (hReached : Floor.Reached symbol log ⟨b, queue⟩)
    (h :
      Evolves os ids ds
        (queue ++ (b.allOrders ++ frame))) :
    Evolves os (ids ++ stages.map Stage.takerId)
      (ds ++ stages.flatMap fun s => s.pass.deals)
      (b'.allOrders ++
        ((stages.flatMap fun s => s.pass.gone) ++
          frame)) := by
  induction hCourse generalizing log ids ds frame with
  | done => simpa using h
  | @step o rest s stages b' hPass hIntact _ ih =>
      have hStep := hReached.evolves_step hPass hIntact h
      have hRest := ih (hReached.step hPass hIntact) hStep
      rw [List.append_assoc, List.append_assoc] at hRest
      apply hRest.perm
      rw [List.perm_iff_count]
      intro x
      simp only [List.flatMap_cons, List.count_append]
      omega

/- What becomes of a submitted order and of all that the book
holds. -/
theorem Engine.Succeeds.evolves
    {e : Engine}
    {o : Order}
    {r : Report}
    {stages : List Stage}
    (h : e.Succeeds o now stages r b)
    (hReached : Floor.Reached symbol log ⟨e.book, [o]⟩) :
    Evolves (o :: e.book.allOrders)
      (stages.map Stage.takerId)
      (stages.flatMap fun s => s.pass.deals)
      (b.allOrders ++
        stages.flatMap fun s => s.pass.gone) := by
  cases h with
  | parked _ hPlace =>
      have hPerm :=
        Book.allOrders_place_perm hReached.isRanked
          (Floor.fresh_of_present hReached.present) hPlace
      apply Evolves.start.perm
      rw [List.flatMap_nil, List.append_nil]
      exact hPerm.symm
  | executed _ hCourse =>
      have hStart :
          Evolves (o :: e.book.allOrders) [] []
            ([o] ++ (e.book.allOrders ++ [])) := by
        rw [List.append_nil]
        exact Evolves.start
      have hEvolves := hCourse.evolves hReached hStart
      rw [List.append_nil] at hEvolves
      exact hEvolves

end Passes

end Matchbook
