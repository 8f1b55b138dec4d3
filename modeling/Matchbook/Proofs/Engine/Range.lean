import Matchbook.Proofs.Decimal.Range
import Matchbook.Proofs.Engine.Encounter

/-
  The numbers that a submission can be stopped by.

  The quantity that is pending of an order is always in range,
  as neither its quantity nor what is filled of it is ever
  negative.  What can go out of range is the filled quantity
  of an order that trades, for a pending quantity may have
  been rounded up.  A submission has no outcome exactly when
  it comes to such a trade.

  Key definitions include:
    * `Order.IsNonneg`
    * `Order.Strikes`
    * `Order.FillsInRange`

  The main statements are:
    * `Order.meet?_eq_none_iff`
    * `Matching.run?_eq_none_iff`
    * `Book.pass?_eq_none_iff`
    * `Book.runQueue?_eq_none_iff`
    * `Engine.submit?_eq_none_iff`
-/

------------------------------------------------------------
-- Meetings
------------------------------------------------------------

namespace Matchbook

namespace Order

/- Whether neither the quantity of an order nor what is filled
of it is negative. -/
structure IsNonneg (o : Order) : Prop where
  quantity_nonneg : 0 ≤ o.quantity
  filled_nonneg : 0 ≤ o.filled

theorem IsNonneg.exists_pending
    {o : Order}
    (h : o.IsNonneg) :
    ∃ p, o.pending? = some p :=
  Decimal.exists_sub?_of_nonneg h.quantity_nonneg
    h.filled_nonneg

/- Whether a maker and a taker come to trade a quantity: the
lesser of what is pending of them, at the price of the
maker. -/
structure Strikes
    (maker taker : Order)
    (quantity : Decimal) : Prop where
  side_ne : maker.side ≠ taker.side
  price_eq :
    ∃ price, maker.price = some price ∧
      taker.Accepts price ∧
      price.product? quantity ≠ none
  quantity_eq :
    ∃ makerOpen takerOpen,
      maker.pending? = some makerOpen ∧ ¬ makerOpen ≤ 0 ∧
      taker.pending? = some takerOpen ∧ ¬ takerOpen ≤ 0 ∧
      quantity = Decimal.least makerOpen takerOpen

/- Whether what is filled of two orders stays in range if they
trade. -/
def FillsInRange (maker taker : Order) : Prop :=
  ∀ quantity, maker.Strikes taker quantity →
    maker.filled.HasSum quantity ∧
      taker.filled.HasSum quantity

variable {maker taker : Order}
variable {id : UInt64}
variable {now : Timestamp}

theorem exchange?_eq_none_iff
    {price quantity : Decimal} :
    exchange? maker taker id price quantity now = none ↔
      price.product? quantity ≠ none ∧
        ¬ (maker.filled.HasSum quantity ∧
          taker.filled.HasSum quantity) := by
  unfold exchange?
  cases price.product? quantity with
  | none => simp
  | some total =>
      rw [← Decimal.exists_add?_iff,
        ← Decimal.exists_add?_iff]
      unfold fill?
      cases maker.filled.add? quantity <;>
        cases taker.filled.add? quantity <;> simp

/- Two orders that meet have no outcome exactly when they
should trade and a filled quantity would be out of range. -/
theorem meet?_eq_none_iff
    (id : UInt64)
    (now : Timestamp)
    (hMaker : maker.IsNonneg)
    (hTaker : taker.IsNonneg) :
    maker.meet? taker id now = none ↔
      ¬ maker.FillsInRange taker := by
  rcases hMaker.exists_pending with ⟨makerOpen, hMakerOpen⟩
  rcases hTaker.exists_pending with ⟨takerOpen, hTakerOpen⟩
  constructor
  · intro h hFills
    unfold meet? at h
    split at h
    · cases h
    rename_i hSide
    split at h
    · cases h
    rename_i price hPrice
    split at h
    · rename_i hAccepts
      rw [hMakerOpen, Option.bind_some] at h
      split at h
      · cases h
      rename_i hMakerPos
      rw [hTakerOpen, Option.bind_some] at h
      split at h
      · cases h
      rename_i hTakerPos
      rcases exchange?_eq_none_iff.1 h with ⟨hTotal, hOut⟩
      exact
        hOut
          (hFills _
            { side_ne := hSide
              price_eq := ⟨price, hPrice, hAccepts, hTotal⟩
              quantity_eq :=
                ⟨makerOpen, takerOpen, hMakerOpen,
                  hMakerPos, hTakerOpen, hTakerPos, rfl⟩ })
    · cases h
  · intro hFills
    by_contra hMeet
    apply hFills
    intro quantity hStrikes
    rcases hStrikes.price_eq with
      ⟨price, hPrice, hAccepts, hTotal⟩
    rcases hStrikes.quantity_eq with
      ⟨makerOpen', takerOpen', hMaker', hMakerPos, hTaker',
        hTakerPos, rfl⟩
    by_contra hOut
    apply hMeet
    unfold meet?
    rw [if_neg hStrikes.side_ne]
    simp only [hPrice]
    rw [if_pos hAccepts, hMaker', Option.bind_some,
      if_neg hMakerPos, hTaker', Option.bind_some,
      if_neg hTakerPos]
    exact exchange?_eq_none_iff.2 ⟨hTotal, hOut⟩

theorem fillsInRange_of_meet?
    {meeting : Meeting}
    (hMaker : maker.IsNonneg)
    (hTaker : taker.IsNonneg)
    (h : maker.meet? taker id now = some meeting) :
    maker.FillsInRange taker := by
  by_contra hOut
  have hNone :=
    (meet?_eq_none_iff id now hMaker hTaker).2 hOut
  rw [h] at hNone
  cases hNone

end Order

/- A deal only adds to what is filled. -/
theorem Order.IsNonneg.of_fill?
    {o o' : Order}
    {amount : Decimal}
    (h : o.IsNonneg)
    (hFill : o.fill? amount = some o')
    (hPos : 0 < amount.units) :
    o'.IsNonneg := by
  rcases Order.fill?_eq_some hFill with ⟨f, hSum, rfl⟩
  have hMore := Decimal.le_add? hSum hPos
  exact
    ⟨h.quantity_nonneg,
      Decimal.le_iff_units.2
        (Int.le_trans h.filled_nonneg hMore)⟩

namespace Deal.IsStruck

variable {d : Deal} {maker taker : Order}

theorem isNonneg_maker
    (h : d.IsStruck maker taker)
    (hMaker : maker.IsNonneg) :
    d.maker.IsNonneg :=
  hMaker.of_fill? h.maker_eq h.quantity_pos

theorem isNonneg_taker
    (h : d.IsStruck maker taker)
    (hTaker : taker.IsNonneg) :
    d.taker.IsNonneg :=
  hTaker.of_fill? h.taker_eq h.quantity_pos

theorem isNonneg_remaining
    {e : Entry Order}
    {rest : List (Entry Order)}
    (h : d.IsStruck e.item taker)
    (hMakers : ∀ e' ∈ e :: rest, e'.item.IsNonneg) :
    ∀ e' ∈ Matching.remaining e.key d.maker rest,
      e'.item.IsNonneg := by
  rcases List.forall_mem_cons.1 hMakers with ⟨hHead, hRest⟩
  unfold Matching.remaining
  split
  · exact hRest
  · exact
      List.forall_mem_cons.2
        ⟨h.isNonneg_maker hHead, hRest⟩

end Deal.IsStruck

------------------------------------------------------------
-- Matchings
------------------------------------------------------------

namespace Matching

variable {now : Timestamp}
variable {id : UInt64}
variable {makers : List (Entry Order)}
variable {taker : Order}
variable {m : Matching}

/- By induction on the matching, which only fills orders. -/
theorem Runs.isNonneg
    (h : Runs now id makers taker m)
    (hTaker : taker.IsNonneg) :
    m.taker.IsNonneg := by
  induction h with
  | filled => exact hTaker
  | empty => exact hTaker
  | apart => exact hTaker
  | broken => exact hTaker
  | traded _ hMeet _ ih =>
      have hStruck := (Deal.isStruck_of_meet? hMeet).1
      exact ih (hStruck.isNonneg_taker hTaker)

/- A taker that does not trade with the first maker meets no
other. -/
theorem Meets.eq_first
    {e : Entry Order}
    {rest : List (Entry Order)}
    {met comer : Order}
    (h : Meets now id (e :: rest) taker met comer)
    (hEnd :
      ∀ d : Deal,
        e.item.meet? taker id now ≠
          some (.traded d.trade d.maker d.taker)) :
    met = e.item ∧ comer = taker := by
  cases h with
  | first => exact ⟨rfl, rfl⟩
  | later _ hMeet => exact absurd hMeet (hEnd _)

/- A matching has no outcome exactly when the taker comes to a
maker with whom it would be filled out of range.  By induction
on the way of the taker through the makers. -/
theorem run?_eq_none_iff
    (now : Timestamp)
    (id : UInt64)
    (hMakers : ∀ e ∈ makers, e.item.IsNonneg)
    (hTaker : taker.IsNonneg) :
    run? now id makers taker = none ↔
      ∃ met comer, Meets now id makers taker met comer ∧
        ¬ met.FillsInRange comer := by
  induction id, makers, taker using run?.induct now with
  | case1 id makers taker hFilled =>
      rw [run?_of_isFilled hFilled]
      refine iff_of_false (Option.some_ne_none _) ?_
      rintro ⟨met, comer, hMeets, _⟩
      cases hMeets with
      | first hOpen => exact hOpen hFilled
      | later hOpen => exact hOpen hFilled
  | case2 id taker hOpen =>
      rw [run?, if_neg hOpen]
      refine iff_of_false (Option.some_ne_none _) ?_
      rintro ⟨met, comer, ⟨⟩, _⟩
  | case3 id taker hOpen e rest hMeet =>
      rw [run?_cons hOpen, hMeet]
      refine iff_of_true rfl ⟨_, _, .first hOpen, ?_⟩
      exact
        (Order.meet?_eq_none_iff id now
          (hMakers e (List.mem_cons_self ..)) hTaker).1 hMeet
  | case4 id taker hOpen e rest cause hMeet =>
      rw [run?_cons hOpen, hMeet]
      refine iff_of_false (Option.some_ne_none _) ?_
      rintro ⟨met, comer, hMeets, hOut⟩
      rcases hMeets.eq_first (by simp [hMeet]) with ⟨rfl, rfl⟩
      have hHead := hMakers e (List.mem_cons_self ..)
      exact
        hOut (Order.fillsInRange_of_meet? hHead hTaker hMeet)
  | case5 id taker hOpen e rest hMeet =>
      rw [run?_cons hOpen, hMeet]
      refine iff_of_false (Option.some_ne_none _) ?_
      rintro ⟨met, comer, hMeets, hOut⟩
      rcases hMeets.eq_first (by simp [hMeet]) with ⟨rfl, rfl⟩
      have hHead := hMakers e (List.mem_cons_self ..)
      exact
        hOut (Order.fillsInRange_of_meet? hHead hTaker hMeet)
  | case6 id taker hOpen e rest t maker' taker' hMeet ih =>
      have hHead := hMakers e (List.mem_cons_self ..)
      have hStruck :=
        (Deal.isStruck_of_meet? (d := ⟨t, maker', taker'⟩)
          hMeet).1
      have hNext :=
        ih (hStruck.isNonneg_remaining hMakers)
          (hStruck.isNonneg_taker hTaker)
      rw [run?_cons hOpen, hMeet]
      dsimp only
      rw [Option.map_eq_none_iff, hNext]
      constructor
      · rintro ⟨met, comer, hMeets, hOut⟩
        exact
          ⟨met, comer,
            .later (d := ⟨t, maker', taker'⟩) hOpen hMeet
              hMeets,
            hOut⟩
      · rintro ⟨met, comer, hMeets, hOut⟩
        cases hMeets with
        | first =>
            exact
              absurd
                (Order.fillsInRange_of_meet? hHead hTaker
                  hMeet)
                hOut
        | later _ hTraded hMeets =>
            rw [hMeet] at hTraded
            cases hTraded
            exact ⟨met, comer, hMeets, hOut⟩

end Matching

------------------------------------------------------------
-- Passes
------------------------------------------------------------

namespace Book

variable {b b' : Book}
variable {taker : Order}
variable {now : Timestamp}

/- A book whose orders have no negative numbers. -/
def IsNonneg (b : Book) : Prop :=
  ∀ side, ∀ e ∈ (b.ladder side .price).byPriority,
    e.item.IsNonneg

theorem exists_finish?
    (hTaker : taker.IsNonneg) :
    ∃ r, b.finish? taker = some r := by
  rcases hTaker.exists_pending with ⟨remaining, hPending⟩
  unfold finish?
  split
  · exact ⟨_, rfl⟩
  · rw [hPending]
    exact ⟨_, rfl⟩

theorem pass?_eq_none_iff
    (hBook : b.IsNonneg)
    (hTaker : taker.IsNonneg) :
    b.pass? taker now = none ↔
      ∃ met comer, b.Meets taker now met comer ∧
        ¬ met.FillsInRange comer := by
  have hRun :=
    Matching.run?_eq_none_iff now b.nextTradeId
      (hBook taker.side.opposite) hTaker
  refine Iff.trans ?_ hRun
  unfold pass?
  dsimp only
  cases hMatching :
      Matching.run? now b.nextTradeId
        (b.ladder taker.side.opposite .price).byPriority
        taker with
  | none => exact iff_of_true rfl rfl
  | some m =>
      refine iff_of_false ?_ (Option.some_ne_none m)
      rw [Option.bind_some]
      split
      · exact Option.some_ne_none _
      · have hEnd :=
          (Matching.runs_of_run? hMatching).isNonneg hTaker
        rcases
            exists_finish? hEnd
              (b := b.settle taker.side.opposite m) with
          ⟨r, hFinish⟩
        rw [hFinish]
        exact Option.some_ne_none _

------------------------------------------------------------
-- Queues
------------------------------------------------------------

/- A queue has no outcome exactly when one of its passes has
none.  By induction on the execution of the queue. -/
theorem runQueue?_eq_none_iff
    {queue : List Order} :
    runQueue? now queue b = none ↔
      ∃ before taker, Begins now queue b before taker ∧
        before.pass? taker now = none := by
  induction queue, b using Book.runQueue?.induct now with
  | case1 b =>
      rw [runQueue?]
      refine iff_of_false (Option.some_ne_none _) ?_
      rintro ⟨before, taker, ⟨⟩, _⟩
  | case2 b o rest hPass =>
      rw [runQueue?_cons, hPass]
      exact iff_of_true rfl ⟨_, _, .first, hPass⟩
  | case3 b o rest p b₁ hPass hBroken =>
      rw [runQueue?_cons, hPass]
      dsimp only
      rw [if_pos hBroken]
      refine iff_of_false (Option.some_ne_none _) ?_
      rintro ⟨before, taker, hBegins, hNone⟩
      cases hBegins with
      | first =>
          rw [hPass] at hNone
          cases hNone
      | later hFirst hIntact =>
          rw [hPass] at hFirst
          cases hFirst
          rw [hIntact] at hBroken
          cases hBroken
  | case4 b o rest p b₁ hPass hIntact ih =>
      rw [runQueue?_cons, hPass]
      dsimp only
      rw [if_neg hIntact, Option.map_eq_none_iff, ih]
      constructor
      · rintro ⟨before, taker, hBegins, hNone⟩
        exact
          ⟨before, taker,
            .later hPass (by simpa using hIntact) hBegins,
            hNone⟩
      · rintro ⟨before, taker, hBegins, hNone⟩
        cases hBegins with
        | first =>
            rw [hPass] at hNone
            cases hNone
        | later hFirst _ hBegins =>
            rw [hPass] at hFirst
            cases hFirst
            exact ⟨before, taker, hBegins, hNone⟩

theorem cascade?_eq_none_iff
    {o : Order} :
    b.cascade? o now = none ↔
      ∃ before taker, Begins now [o] b before taker ∧
        before.pass? taker now = none := by
  rw [← runQueue?_eq_none_iff, ← map_cascade?,
    Option.map_eq_none_iff]

end Book

------------------------------------------------------------
-- Sound runs
------------------------------------------------------------

theorem Order.IsSound.isNonneg
    {o : Order}
    (h : o.IsSound) :
    o.IsNonneg :=
  ⟨Int.le_of_lt h.quantity_pos, h.filled_nonneg⟩

/- The orders that are present after sound orders have come in
have no negative numbers.  By induction on the presence. -/
theorem Present.isNonneg
    {log : List Event}
    {os : List Order}
    (h : Present log os)
    (hSound : ∀ o ∈ entries log, o.defect? = none) :
    ∀ o ∈ os, o.IsNonneg := by
  induction h with
  | nobody =>
      intro o ho
      cases ho
  | @enter log os o _ _ ih =>
      have hEntries := entries_submission log o []
      rw [List.map_nil] at hEntries
      rw [hEntries] at hSound
      refine List.forall_mem_cons.2 ⟨?_, ih fun o' ho' => ?_⟩
      · have hOrder :=
          hSound o (List.mem_append_right _ (by simp))
        exact (Order.defect?_eq_none_iff.1 hOrder).isNonneg
      · exact hSound o' (List.mem_append_left _ ho')
  | @deal log os d maker taker _ hStruck ih =>
      have hEntries :
          entries (log ++ [.deal d]) = entries log := by
        unfold entries
        rw [List.filterMap_append]
        exact List.append_nil _
      rw [hEntries] at hSound
      have hBefore := ih hSound
      simp only [List.forall_mem_cons] at hBefore ⊢
      rcases hBefore with ⟨hMaker, hTaker, hRest⟩
      exact
        ⟨hStruck.isNonneg_maker hMaker,
          hStruck.isNonneg_taker hTaker, hRest⟩
  | activate _ ih =>
      have hBefore := ih hSound
      rw [List.forall_mem_cons] at hBefore ⊢
      rcases hBefore with ⟨⟨hQuantity, hFilled⟩, hRest⟩
      exact ⟨⟨hQuantity, hFilled⟩, hRest⟩
  | fewer _ hSub ih =>
      intro o ho
      exact ih hSound o (hSub.subset ho)

namespace Floor.Reached

variable {symbol : String}
variable {log : List Event}
variable {f : Floor}

theorem isNonneg
    (h : Reached symbol log f)
    (hSound : ∀ o ∈ entries log, o.defect? = none) :
    f.book.IsNonneg := by
  intro side e he
  refine h.present.isNonneg hSound e.item ?_
  apply List.mem_append_left
  exact
    Book.mem_allOrders_of_mem_orders
      (List.mem_map_of_mem (f := Entry.item) he)

end Floor.Reached

namespace Engine

variable {symbol : String} {log : List Event}
variable {e : Engine}
variable {o : Order}
variable {now : Timestamp}

/- Every pass that a sound order sets off starts without
negative numbers. -/
theorem Run.isNonneg_begins
    {before : Book}
    {taker : Order}
    (h : Run symbol log e)
    (hSound : ∀ o ∈ entries log, o.defect? = none)
    (hOrder : o.defect? = none)
    (hBegins : e.Begins o now before taker) :
    before.IsNonneg ∧ taker.IsNonneg := by
  rcases h.reached_begins hBegins with
    ⟨deals, inFlight, hReached⟩
  have hAll :
      ∀ o' ∈ entries (log ++ .entry o :: deals.map .deal),
        o'.defect? = none := by
    rw [entries_submission]
    intro o' ho'
    rcases List.mem_append.1 ho' with hOld | hNew
    · exact hSound o' hOld
    · rw [List.mem_singleton.1 hNew]
      exact hOrder
  refine ⟨hReached.isNonneg hAll, ?_⟩
  apply hReached.present.isNonneg hAll
  exact List.mem_append_right _ (List.mem_cons_self ..)

/- The submission of a sound order has no outcome exactly when
it comes to a trade that fills an order out of range. -/
theorem submit?_eq_none_iff
    (now : Timestamp)
    (h : Run symbol log e)
    (hSound : ∀ o ∈ entries log, o.defect? = none)
    (hOrder : o.defect? = none) :
    e.submit? o now = none ↔
      ∃ met comer, e.Meets o now met comer ∧
        ¬ met.FillsInRange comer := by
  by_cases hGo : e.TakesIn o ∧ e.mustWait o = false
  · rcases hGo with ⟨hIn, hGo⟩
    rw [submit?_of_takesIn now hIn]
    unfold admit? execute?
    dsimp only
    rw [if_neg (by simp [hGo]), Option.map_eq_none_iff,
      Book.cascade?_eq_none_iff]
    constructor
    · rintro ⟨before, taker, hQueue, hNone⟩
      have hBegins : e.Begins o now before taker :=
        ⟨hIn, hGo, hQueue⟩
      rcases h.isNonneg_begins hSound hOrder hBegins with
        ⟨hBook, hTaker⟩
      rcases (Book.pass?_eq_none_iff hBook hTaker).1 hNone with
        ⟨met, comer, hMeets, hOut⟩
      exact
        ⟨met, comer, ⟨before, taker, hBegins, hMeets⟩, hOut⟩
    · rintro ⟨met, comer, ⟨before, taker, hBegins, hMeets⟩,
        hOut⟩
      rcases h.isNonneg_begins hSound hOrder hBegins with
        ⟨hBook, hTaker⟩
      exact
        ⟨before, taker, hBegins.2.2,
          (Book.pass?_eq_none_iff hBook hTaker).2
            ⟨met, comer, hMeets, hOut⟩⟩
  · refine iff_of_false (submit?_ne_none ?_) ?_
    · intro hIn
      simpa using not_and.1 hGo hIn
    · rintro ⟨met, comer, ⟨before, taker, hBegins, _⟩, _⟩
      exact hGo ⟨hBegins.1, hBegins.2.1⟩

end Engine

end Matchbook
