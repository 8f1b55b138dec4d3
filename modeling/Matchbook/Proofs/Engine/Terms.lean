import Matchbook.Proofs.Decimal.Product
import Matchbook.Proofs.Engine.Encounter
import Matchbook.Proofs.Engine.Told

/-
  The terms of the trades: whoever trades, and however the
  submission ends, a trade is made at the price of the maker,
  within the limit of the taker, for the lesser of what is
  pending of the two, and its total is not rounded.

  Key definitions include:
    * `Trade.HasTerms`

  The main statements are:
    * `Matching.Runs.exists_meets`
    * `Deal.IsStruck.hasTerms`
    * `Engine.exists_terms`
-/

------------------------------------------------------------
-- Terms
------------------------------------------------------------

namespace Matchbook

/-
  The terms of a trade between a maker and a taker as they
  were just before it.
-/
structure Trade.HasTerms
    (t : Trade)
    (maker taker : Order) : Prop where
  makerOrderId_eq : t.makerOrderId = maker.id
  takerOrderId_eq : t.takerOrderId = taker.id
  side_eq : maker.side = taker.side.opposite
  price_eq : maker.price = some t.price
  price_le :
    taker.side = .buy →
      ∀ limit, taker.price = some limit → t.price ≤ limit
  price_ge :
    taker.side = .sell →
      ∀ limit, taker.price = some limit → limit ≤ t.price
  quantity_pos : 0 < t.quantity
  quantity_eq :
    ∃ makerOpen takerOpen,
      maker.pending? = some makerOpen ∧
      taker.pending? = some takerOpen ∧
      (t.quantity = makerOpen ∧ makerOpen ≤ takerOpen ∨
        t.quantity = takerOpen ∧ takerOpen ≤ makerOpen)
  total_eq : t.price.IsExactProduct t.quantity t.total
  checked_eq :
    ∀ times : Decimal.Multiplication,
      times.checked? t.price t.quantity = some t.total

theorem Decimal.least_cases
    (a b : Decimal) :
    least a b = a ∧ a ≤ b ∨ least a b = b ∧ b ≤ a := by
  unfold least
  split
  · rename_i hLess
    exact Or.inr ⟨rfl, Int.le_of_lt hLess⟩
  · rename_i hLess
    exact Or.inl ⟨rfl, Int.not_lt.1 hLess⟩

theorem Order.Accepts.le_of_buy
    {taker : Order}
    {price : Decimal}
    (h : taker.Accepts price)
    (hBuy : taker.side = .buy)
    {limit : Decimal}
    (hLimit : taker.price = some limit) :
    price ≤ limit := by
  unfold Accepts at h
  rw [hLimit, hBuy] at h
  exact h

theorem Order.Accepts.ge_of_sell
    {taker : Order}
    {price : Decimal}
    (h : taker.Accepts price)
    (hSell : taker.side = .sell)
    {limit : Decimal}
    (hLimit : taker.price = some limit) :
    limit ≤ price := by
  unfold Accepts at h
  rw [hLimit, hSell] at h
  exact h

theorem Deal.IsStruck.hasTerms
    {d : Deal}
    {maker taker : Order}
    (h : d.IsStruck maker taker) :
    d.trade.HasTerms maker taker where
  makerOrderId_eq := h.makerOrderId_eq
  takerOrderId_eq := h.takerOrderId_eq
  side_eq := by
    have hNe := h.side_ne
    cases hMaker : maker.side <;>
      cases hTaker : taker.side <;>
      simp_all [Side.opposite]
  price_eq := h.price_eq
  price_le := fun hBuy _ hLimit =>
    h.accepts.le_of_buy hBuy hLimit
  price_ge := fun hSell _ hLimit =>
    h.accepts.ge_of_sell hSell hLimit
  quantity_pos := by
    rw [Decimal.lt_iff_units, Decimal.units_zero]
    exact h.quantity_pos
  quantity_eq := by
    rcases h.quantity_eq with
      ⟨makerOpen, takerOpen, hMaker, hTaker, _, _, hLeast⟩
    refine ⟨makerOpen, takerOpen, hMaker, hTaker, ?_⟩
    rw [hLeast]
    exact Decimal.least_cases makerOpen takerOpen
  total_eq := Decimal.isExactProduct_of_product? h.total_eq
  checked_eq := by
    intro times
    rw [times.checked?_eq_product?]
    exact h.total_eq

------------------------------------------------------------
-- Where trades are made
------------------------------------------------------------

/- Every deal of a matching is made where two orders meet. -/
theorem Matching.Runs.exists_meets
    {now : Timestamp}
    {id : UInt64}
    {makers : List (Entry Order)}
    {taker : Order}
    {m : Matching}
    {d : Deal}
    (h : Runs now id makers taker m)
    (hd : d ∈ m.deals) :
    ∃ met comer, Meets now id makers taker met comer ∧
      d.IsStruck met comer := by
  induction h with
  | filled => cases hd
  | empty => cases hd
  | apart => cases hd
  | broken => cases hd
  | traded hOpen hMeet _ ih =>
      rcases List.mem_cons.1 hd with rfl | hLater
      · exact
          ⟨_, _, .first hOpen,
            (Deal.isStruck_of_meet? hMeet).1⟩
      · rcases ih hLater with ⟨met, comer, hMeets, hStruck⟩
        exact
          ⟨met, comer, .later hOpen hMeet hMeets, hStruck⟩

namespace Book

variable {b b' : Book}
variable {taker : Order}
variable {now : Timestamp}
variable {p : Pass}

theorem Passes.exists_meets
    {d : Deal}
    (h : b.Passes now taker p b')
    (hd : d ∈ p.deals) :
    ∃ met comer, b.Meets taker now met comer ∧
      d.IsStruck met comer := by
  cases h with
  | broken hRuns => exact hRuns.exists_meets hd
  | finished hRuns => exact hRuns.exists_meets hd

/- Every pass of a queue begins at some point of it. -/
theorem exists_begins_of_mem
    {queue : List Order}
    {passes : List Pass}
    (h : runQueue? now queue b = some (passes, b'))
    (hp : p ∈ passes) :
    ∃ before taker after,
      Begins now queue b before taker ∧
        before.pass? taker now = some (p, after) := by
  induction queue, b using Book.runQueue?.induct now
    generalizing passes b' with
  | case1 b =>
      rw [runQueue?] at h
      cases h
      cases hp
  | case2 b o rest hPass =>
      rw [runQueue?_cons, hPass] at h
      cases h
  | case3 b o rest p₁ b₁ hPass hBroken =>
      rw [runQueue?_cons, hPass] at h
      simp only [hBroken, if_true] at h
      cases h
      rw [List.mem_singleton.1 hp]
      exact ⟨b, o.activate, b₁, .first, hPass⟩
  | case4 b o rest p₁ b₁ hPass hIntact ih =>
      have hNone : p₁.violation = none := by
        simpa using hIntact
      rw [runQueue?_cons, hPass] at h
      simp only [hNone, Option.isSome_none,
        Bool.false_eq_true, if_false] at h
      rcases Option.map_eq_some_iff.1 h with
        ⟨⟨others, b₂⟩, hRest, hEq⟩
      cases hEq
      rcases List.mem_cons.1 hp with rfl | hLater
      · exact ⟨b, o.activate, b₁, .first, hPass⟩
      · rcases ih hRest hLater with
          ⟨before, taker, after, hBegins, hPass'⟩
        exact
          ⟨before, taker, after,
            .later hPass hNone hBegins, hPass'⟩

end Book

------------------------------------------------------------
-- Submissions
------------------------------------------------------------

namespace Engine

variable {e e' : Engine}
variable {o : Order}
variable {now : Timestamp}
variable {answer : Except Refusal Report}

/- Every deal of a submission is made where it makes two orders
meet. -/
theorem exists_meets_of_mem_deals
    {d : Deal}
    (hIn : e.TakesIn o)
    (hd : d ∈ e.deals o now) :
    ∃ maker taker, e.Meets o now maker taker ∧
      d.IsStruck maker taker := by
  unfold deals at hd
  split at hd
  · cases hd
  rename_i hGo
  have hStays : e.mustWait o = false := by simpa using hGo
  split at hd
  · cases hd
  rename_i c hCascade
  rcases List.mem_flatMap.1 hd with ⟨p, hp, hDeal⟩
  rcases
      Book.exists_begins_of_mem
        (Book.runQueue?_of_cascade? hCascade) hp with
    ⟨before, comer, after, hBegins, hPass⟩
  rcases
      (Book.passes_of_pass? hPass).exists_meets hDeal with
    ⟨maker, taker, hMeets, hStruck⟩
  exact
    ⟨maker, taker,
      ⟨before, comer, ⟨hIn, hStays, hBegins⟩, hMeets⟩,
      hStruck⟩

/-
  Every trade that an answer tells of has been made where the
  submission has made a maker and a taker meet, on its terms:
  at the price of the maker, within the limit of the taker,
  for all that was pending of one of them, and with the exact
  total.
-/
theorem exists_terms
    {t : Trade}
    (hSubmit : e.submit? o now = some (answer, e'))
    (ht : t ∈ toldTrades answer) :
    ∃ maker taker, e.Meets o now maker taker ∧
      t.HasTerms maker taker := by
  rw [(records_submit? hSubmit).1] at ht
  unfold events at ht
  split at ht
  · rename_i hIn
    have hDeals :
        t ∈ (e.deals o now).map Deal.trade := by
      rw [← trades_map_deal]
      exact ht
    rcases List.mem_map.1 hDeals with ⟨d, hd, rfl⟩
    rcases exists_meets_of_mem_deals hIn hd with
      ⟨maker, taker, hMeets, hStruck⟩
    exact ⟨maker, taker, hMeets, hStruck.hasTerms⟩
  · cases ht

/- A waiting buyer of 2.5 at up to 102. -/
def limitedStop : Order :=
  { Order.ordinary 4 .buy (some (.ofParts 102 0))
      (.ofParts (25 * 10 ^ 13) 14) with
    stopPrice := some (.ofParts 1005 1) }

/- Three sellers, the last one with a price of many digits,
and the waiting buyer. -/
def digitsFlow : List Order :=
  [.ordinary 1 .sell (some (.ofParts 1005 1)) (.ofParts 1 0),
    .ordinary 2 .sell (some (.ofParts 10125 2))
      (.ofParts 20 1),
    .ordinary 3 .sell (some (.ofParts (1013 * 10 ^ 13) 14))
      (.ofParts 3 0),
    limitedStop]

/- The buyer that releases the waiting one. -/
def digitsBuy : Order :=
  .ordinary 5 .buy (some (.ofParts 1005 1)) (.ofParts 1 0)

/- The released buyer trades with the second seller before it
comes to the third one, where the digits of the total do not
fit. -/
theorem exists_terms_of_digits :
    ∃ answer e' t,
      (played "BTC-USDT" digitsFlow).2.submit? digitsBuy
          (.ofNanos 0) = some (answer, e') ∧
      t ∈ toldTrades answer ∧
      (e'.book.halted = true ∧ t.takerOrderId = 4 ∧
        t.total = .ofParts 202500 3) ∧
      ∃ maker taker,
        (played "BTC-USDT" digitsFlow).2.Meets digitsBuy
            (.ofNanos 0) maker taker ∧
          t.HasTerms maker taker := by
  let told :=
    ((played "BTC-USDT" digitsFlow).2.submit? digitsBuy
      (.ofNanos 0)).get (by decide +kernel)
  let t := (toldTrades told.1).get ⟨1, by decide +kernel⟩
  have hSubmit :
      (played "BTC-USDT" digitsFlow).2.submit? digitsBuy
          (.ofNanos 0) = some (told.1, told.2) :=
    (Option.some_get _).symm
  have ht : t ∈ toldTrades told.1 := List.get_mem _ _
  exact
    ⟨told.1, told.2, t, hSubmit, ht, by decide +kernel,
      exists_terms hSubmit ht⟩

end Engine

end Matchbook
