import Matchbook.Proofs.Decimal.Exact
import Matchbook.Proofs.Engine.Present
import Matchbook.Proofs.Order.Intake
import Mathlib.Algebra.Ring.Int.Defs
import Mathlib.Data.List.Infix

/-
  The accounts of the orders of a run, as its log has them:
  each order as it was taken in, and every trade that it took
  part in.  An account balances as long as what has traded and
  what is open can both be written as amounts; beyond that the
  filled quantity is rounded, and an order may trade more than
  its quantity.

  Key definitions include:
    * `Account`
    * `Account.IsBalanced`
    * `Account.IsExact`
    * `accountOf`
    * `HasAccount`

  The main statements are:
    * `Account.IsBalanced.post`
    * `Present.tracked`
    * `Engine.Run.balanced_iff_exact`
-/

------------------------------------------------------------
-- Accounts
------------------------------------------------------------

namespace Matchbook

/- A trade of an order: its quantity, and the filled quantity
that it left the order with. -/
structure Fill where
  quantity : Decimal
  filled : Decimal
deriving DecidableEq

/- An order as it was taken in, and its trades, the last one
first. -/
structure Account where
  opened : Order
  fills : List Fill
deriving DecidableEq

namespace Account

/- The filled quantity after the last trade. -/
def filled (a : Account) : Decimal :=
  match a.fills with
  | [] => a.opened.filled
  | f :: _ => f.filled

/- The order after its last trade. -/
def order (a : Account) : Order :=
  { a.opened with filled := a.filled }

/- What was filled at first and all that has traded since, in
units of `10 ^ -28` and without any rounding. -/
def traded (a : Account) : Int :=
  a.opened.filled.units +
    (a.fills.map fun f => f.quantity.units).sum

/- The account with one more trade. -/
def post (f : Fill) (a : Account) : Account :=
  { a with fills := f :: a.fills }

/-
  The filled quantity is what has traded, it is within the
  quantity, and together with what is pending it makes up the
  quantity.
-/
structure IsBalanced (a : Account) : Prop where
  nonneg : 0 ≤ a.filled
  le_quantity : a.filled ≤ a.opened.quantity
  filled_eq : a.filled.units = a.traded
  pending_eq :
    ∃ pending, a.order.pending? = some pending ∧
      pending.units + a.filled.units =
        a.opened.quantity.units

instance (a : Account) : Decidable a.IsBalanced :=
  decidable_of_iff
    (0 ≤ a.filled ∧ a.filled ≤ a.opened.quantity ∧
      a.filled.units = a.traded ∧
      ∃ pending ∈ a.order.pending?,
        pending.units + a.filled.units =
          a.opened.quantity.units)
    ⟨fun ⟨hNonneg, hLe, hFilled, hPending⟩ =>
        ⟨hNonneg, hLe, hFilled, hPending⟩,
      fun h =>
        ⟨h.nonneg, h.le_quantity, h.filled_eq,
          h.pending_eq⟩⟩

/- Both what has traded and what is open can be written as an
amount. -/
def IsExact (a : Account) : Prop :=
  Decimal.IsAmount a.traded ∧
    Decimal.IsAmount (a.opened.quantity.units - a.traded)

theorem IsBalanced.isExact
    {a : Account}
    (h : a.IsBalanced) :
    a.IsExact := by
  rcases h.pending_eq with ⟨pending, _, hSum⟩
  constructor
  · exact ⟨a.filled, h.filled_eq⟩
  · refine ⟨pending, ?_⟩
    have hFilled := h.filled_eq
    omega

/- An account whose sums are exact has its pending quantity,
too. -/
theorem pending_eq_of_isExact
    {a : Account}
    (h : a.IsExact)
    (hFilled : a.filled.units = a.traded) :
    ∃ pending, a.order.pending? = some pending ∧
      pending.units + a.filled.units =
        a.opened.quantity.units := by
  have hAmount := h.2
  rw [← hFilled] at hAmount
  rcases Decimal.exists_sub?_of_isAmount hAmount with
    ⟨pending, hSub, hUnits⟩
  exact ⟨pending, hSub, by omega⟩

/- An order that has passed intake begins with a balanced
account, if its open quantity is an amount. -/
theorem isBalanced_opened
    {o : Order}
    (hSound : o.IsSound)
    (h : (⟨o, []⟩ : Account).IsExact) :
    (⟨o, []⟩ : Account).IsBalanced := by
  have hFilled :
      (⟨o, []⟩ : Account).filled.units =
        (⟨o, []⟩ : Account).traded :=
    (Int.add_zero _).symm
  exact
    { nonneg := hSound.filled_nonneg
      le_quantity := hSound.filled_le
      filled_eq := hFilled
      pending_eq := pending_eq_of_isExact h hFilled }

/- A balanced account stays balanced by a trade within the
pending quantity, if the new sums are exact. -/
theorem IsBalanced.post
    {a : Account}
    {f : Fill}
    {pending : Decimal}
    (h : a.IsBalanced)
    (hPending : a.order.pending? = some pending)
    (hPos : 0 < f.quantity.units)
    (hLe : f.quantity.units ≤ pending.units)
    (hFill : a.filled.add? f.quantity = some f.filled)
    (hExact : (a.post f).IsExact) :
    (a.post f).IsBalanced := by
  rcases h.pending_eq with ⟨pending', hPending', hSum⟩
  rw [hPending] at hPending'
  cases hPending'
  have hTraded :
      (a.post f).traded =
        a.filled.units + f.quantity.units := by
    rw [h.filled_eq]
    simp only [traded, Account.post, List.map_cons,
      List.sum_cons]
    omega
  have hAmount := hExact.1
  rw [hTraded] at hAmount
  rcases Decimal.exists_add?_of_isAmount hAmount with
    ⟨c, hAdd, hUnits⟩
  rw [hFill] at hAdd
  cases hAdd
  have hFilled : (a.post f).filled.units =
      (a.post f).traded := by
    rw [hTraded]
    exact hUnits
  have hNonneg := Decimal.le_iff_units.1 h.nonneg
  rw [Decimal.units_zero] at hNonneg
  refine
    ⟨?_, ?_, hFilled, pending_eq_of_isExact hExact hFilled⟩
  · rw [Decimal.le_iff_units, Decimal.units_zero]
    change 0 ≤ f.filled.units
    omega
  · rw [Decimal.le_iff_units]
    change f.filled.units ≤ a.opened.quantity.units
    omega

------------------------------------------------------------
-- Accounts that were kept
------------------------------------------------------------

/- An account in which every trade was within the pending
quantity before it and was added to the filled quantity. -/
inductive IsKept : Account → Prop
  | opened (o : Order) : IsKept ⟨o, []⟩
  | traded
      {a : Account}
      {f : Fill}
      {pending : Decimal}
      (h : IsKept a)
      (hPending : a.order.pending? = some pending)
      (hPos : 0 < f.quantity.units)
      (hLe : f.quantity.units ≤ pending.units)
      (hFill : a.filled.add? f.quantity = some f.filled) :
      IsKept (a.post f)

end Account

------------------------------------------------------------
-- Accounts of a log
------------------------------------------------------------

/- What an event does to the account of an id.  A new entry
opens a new account. -/
def Event.record
    (id : UInt64)
    (account : Option Account) :
    Event → Option Account
  | .entry o => if o.id = id then some ⟨o, []⟩ else account
  | .deal d =>
      if d.trade.makerOrderId = id then
        account.map
          (Account.post ⟨d.trade.quantity, d.maker.filled⟩)
      else if d.trade.takerOrderId = id then
        account.map
          (Account.post ⟨d.trade.quantity, d.taker.filled⟩)
      else
        account

/- The account of an id after the events of a log. -/
def accountOf
    (log : List Event)
    (id : UInt64) : Option Account :=
  log.foldl (Event.record id) none

theorem accountOf_append_singleton
    (log : List Event)
    (ev : Event)
    (id : UInt64) :
    accountOf (log ++ [ev]) id =
      ev.record id (accountOf log id) := by
  simp [accountOf]

/- An event leaves an account, opens it or adds a trade. -/
theorem Event.record_cases
    {id : UInt64}
    {account : Option Account}
    {a : Account}
    {ev : Event}
    (h : ev.record id account = some a) :
    account = some a ∨
      (∃ o, ev = .entry o ∧ a = ⟨o, []⟩) ∨
      ∃ a' f, account = some a' ∧ a = a'.post f := by
  cases ev with
  | entry o =>
      simp only [record] at h
      split at h
      · cases h
        exact Or.inr (Or.inl ⟨o, rfl, rfl⟩)
      · exact Or.inl h
  | deal d =>
      simp only [record] at h
      split at h
      · rcases Option.map_eq_some_iff.1 h with ⟨a', ha, rfl⟩
        exact Or.inr (Or.inr ⟨a', _, ha, rfl⟩)
      · split at h
        · rcases Option.map_eq_some_iff.1 h with
            ⟨a', ha, rfl⟩
          exact Or.inr (Or.inr ⟨a', _, ha, rfl⟩)
        · exact Or.inl h

/- The order of an account came in with an entry. -/
theorem entry_opened_mem
    {log : List Event}
    {id : UInt64}
    {a : Account}
    (h : accountOf log id = some a) :
    .entry a.opened ∈ log := by
  induction log using List.reverseRecOn generalizing a with
  | nil => cases h
  | append_singleton log ev ih =>
      rw [accountOf_append_singleton] at h
      rcases Event.record_cases h with
        hSame | ⟨o, rfl, rfl⟩ | ⟨a', f, hOld, rfl⟩
      · exact List.mem_append_left _ (ih hSame)
      · exact List.mem_append_right _
          (List.mem_singleton_self _)
      · exact List.mem_append_left _ (ih (a := a') hOld)

/- An account with a trade was there without it before. -/
theorem exists_accountOf_before
    {log : List Event}
    {id : UInt64}
    {a : Account}
    {f : Fill}
    (h : accountOf log id = some (a.post f)) :
    ∃ past, past <+: log ∧ accountOf past id = some a := by
  induction log using List.reverseRecOn with
  | nil => cases h
  | append_singleton log ev ih =>
      rw [accountOf_append_singleton] at h
      rcases Event.record_cases h with
        hSame | ⟨o, _, hOpened⟩ | ⟨a', f', hOld, hPost⟩
      · rcases ih hSame with ⟨past, hPast, hAccount⟩
        exact
          ⟨past, hPast.trans (List.prefix_append _ _),
            hAccount⟩
      · cases hOpened
      · cases a
        cases a'
        cases hPost
        exact ⟨log, List.prefix_append _ _, hOld⟩

/-
  Along a log whose accounts are kept, the account of an order
  that has passed intake balances as long as its sums are
  exact.  By induction on the account: each trade is added to
  an account that was balanced before.
-/
theorem isBalanced_of_isExact
    {log : List Event}
    {id : UInt64}
    {a : Account}
    (hKept : a.IsKept)
    (hSound : a.opened.IsSound)
    (hExact :
      ∀ past, past <+: log → ∀ a,
        accountOf past id = some a → a.IsExact)
    (hAccount : accountOf log id = some a) :
    a.IsBalanced := by
  induction hKept generalizing log with
  | opened o =>
      exact
        Account.isBalanced_opened hSound
          (hExact log List.prefix_rfl _ hAccount)
  | traded _ hPending hPos hLe hFill ih =>
      rcases exists_accountOf_before hAccount with
        ⟨past, hPast, hBefore⟩
      have hBalanced :=
        ih hSound
          (fun past' hPast' =>
            hExact past' (hPast'.trans hPast))
          hBefore
      exact
        hBalanced.post hPending hPos hLe hFill
          (hExact log List.prefix_rfl _ hAccount)

------------------------------------------------------------
-- Accounts of present orders
------------------------------------------------------------

/- Whether an account is that of an order as it stands now.
Only a stop price is not kept track of. -/
def Account.Tracks (a : Account) (o : Order) : Prop :=
  o = { a.order with stopPrice := o.stopPrice }

/- The account of an order that is filled within its pending
quantity. -/
theorem Account.Tracks.fill
    {a : Account}
    {o o' : Order}
    {quantity pending : Decimal}
    (h : a.Tracks o)
    (hKept : a.IsKept)
    (hPending : o.pending? = some pending)
    (hPos : 0 < quantity.units)
    (hLe : quantity.units ≤ pending.units)
    (hFill : o.fill? quantity = some o') :
    (a.post ⟨quantity, o'.filled⟩).IsKept ∧
      (a.post ⟨quantity, o'.filled⟩).Tracks o' := by
  rcases Order.fill?_eq_some hFill with ⟨f, hAdd, rfl⟩
  unfold Tracks at h
  constructor
  · apply IsKept.traded hKept ?_ hPos hLe
    · rw [h] at hAdd
      exact hAdd
    · rw [h] at hPending
      exact hPending
  · unfold Tracks
    rw [h]
    rfl

/- Whether a log keeps an account of an order. -/
def HasAccount (log : List Event) (o : Order) : Prop :=
  ∃ a, accountOf log o.id = some a ∧ a.IsKept ∧ a.Tracks o

section Deal

variable {log : List Event}
variable {d : Deal} {maker taker : Order}

theorem record_deal_other
    {id : UInt64}
    {account : Option Account}
    (h : d.IsStruck maker taker)
    (hMaker : maker.id ≠ id)
    (hTaker : taker.id ≠ id) :
    (Event.deal d).record id account = account := by
  simp only [Event.record]
  rw [h.makerOrderId_eq, if_neg hMaker, h.takerOrderId_eq,
    if_neg hTaker]

/- A deal goes into the account of its maker. -/
theorem HasAccount.deal_maker
    (h : HasAccount log maker)
    (hStruck : d.IsStruck maker taker) :
    HasAccount (log ++ [.deal d]) d.maker := by
  rcases h with ⟨a, ha, hKept, hTracks⟩
  rcases hStruck.quantity_le_maker with
    ⟨pending, hPending, hLe⟩
  have hId : d.maker.id = maker.id := by
    rw [hStruck.maker_with_filled]
  unfold HasAccount
  rw [accountOf_append_singleton, hId, ha]
  refine
    ⟨_, if_pos hStruck.makerOrderId_eq,
      hTracks.fill hKept hPending hStruck.quantity_pos hLe
        hStruck.maker_eq⟩

/- A deal goes into the account of its taker. -/
theorem HasAccount.deal_taker
    (h : HasAccount log taker)
    (hStruck : d.IsStruck maker taker)
    (hNe : maker.id ≠ taker.id) :
    HasAccount (log ++ [.deal d]) d.taker := by
  rcases h with ⟨a, ha, hKept, hTracks⟩
  rcases hStruck.quantity_le_taker with
    ⟨pending, hPending, hLe⟩
  have hId : d.taker.id = taker.id := by
    rw [hStruck.taker_with_filled]
  unfold HasAccount
  rw [accountOf_append_singleton, hId, ha]
  simp only [Event.record]
  rw [hStruck.makerOrderId_eq, if_neg hNe,
    if_pos hStruck.takerOrderId_eq]
  exact
    ⟨_, rfl,
      hTracks.fill hKept hPending hStruck.quantity_pos hLe
        hStruck.taker_eq⟩

end Deal

namespace Present

variable {log : List Event} {os : List Order}

/- Every present order has an account. -/
theorem tracked
    (h : Present log os) :
    ∀ o ∈ os, HasAccount log o := by
  induction h with
  | nobody =>
      intro o ho
      cases ho
  | @enter log os new _ hNew ih =>
      intro o ho
      unfold HasAccount
      rw [accountOf_append_singleton]
      rcases List.mem_cons.1 ho with rfl | hOld
      · exact
          ⟨⟨o, []⟩, if_pos rfl, Account.IsKept.opened o, rfl⟩
      · have hNe : new.id ≠ o.id := by
          intro hEq
          apply hNew
          rw [hEq]
          exact List.mem_map_of_mem hOld
        simp only [Event.record]
        rw [if_neg hNe]
        exact ih o hOld
  | @deal log os d maker taker hBefore hStruck ih =>
      have hNodup := hBefore.nodup
      simp only [List.map_cons, List.nodup_cons,
        List.mem_cons, not_or] at hNodup
      rcases hNodup with
        ⟨⟨hNe, hMakerNew⟩, hTakerNew, _⟩
      have hMaker := ih maker (List.mem_cons_self ..)
      have hTaker :=
        ih taker
          (List.mem_cons_of_mem _ (List.mem_cons_self ..))
      intro o ho
      rcases List.mem_cons.1 ho with rfl | ho
      · exact hMaker.deal_maker hStruck
      rcases List.mem_cons.1 ho with rfl | hOther
      · exact hTaker.deal_taker hStruck hNe
      · have hId := List.mem_map_of_mem (f := Order.id) hOther
        have hMakerNe : maker.id ≠ o.id := by
          intro hEq
          exact hMakerNew (hEq ▸ hId)
        have hTakerNe : taker.id ≠ o.id := by
          intro hEq
          exact hTakerNew (hEq ▸ hId)
        unfold HasAccount
        rw [accountOf_append_singleton,
          record_deal_other hStruck hMakerNe hTakerNe]
        exact
          ih o
            (List.mem_cons_of_mem _
              (List.mem_cons_of_mem _ hOther))
  | @activate log os o _ ih =>
      intro o' ho'
      rcases List.mem_cons.1 ho' with rfl | hOther
      · rcases ih o (List.mem_cons_self ..) with
          ⟨a, ha, hKept, hTracks⟩
        refine ⟨a, ha, hKept, ?_⟩
        unfold Account.Tracks at *
        rw [hTracks]
        rfl
      · exact ih o' (List.mem_cons_of_mem _ hOther)
  | fewer _ hSub ih =>
      intro o ho
      exact ih o (hSub.subset ho)

/- Every account of a log is kept, also that of an order that
is gone. -/
theorem isKept
    (h : Present log os)
    {id : UInt64}
    {a : Account}
    (ha : accountOf log id = some a) :
    a.IsKept := by
  induction h generalizing a with
  | nobody => cases ha
  | @enter log os o hBefore hNew ih =>
      rw [accountOf_append_singleton] at ha
      simp only [Event.record] at ha
      split at ha
      · cases ha
        exact Account.IsKept.opened o
      · exact ih ha
  | @deal log os d maker taker hBefore hStruck ih =>
      have hAfter := (hBefore.deal hStruck).tracked
      by_cases hMaker : d.maker.id = id
      · rcases hAfter d.maker (List.mem_cons_self ..) with
          ⟨a', ha', hKept, _⟩
        rw [hMaker, ha] at ha'
        cases ha'
        exact hKept
      by_cases hTaker : d.taker.id = id
      · rcases
            hAfter d.taker
              (List.mem_cons_of_mem _
                (List.mem_cons_self ..)) with
          ⟨a', ha', hKept, _⟩
        rw [hTaker, ha] at ha'
        cases ha'
        exact hKept
      · rw [hStruck.maker_with_filled] at hMaker
        rw [hStruck.taker_with_filled] at hTaker
        rw [accountOf_append_singleton,
          record_deal_other hStruck hMaker hTaker] at ha
        exact ih ha
  | activate _ ih => exact ih ha
  | fewer _ _ ih => exact ih ha

/- Some orders are present at every point of a log. -/
theorem exists_of_prefix
    (h : Present log os)
    {past : List Event}
    (hPast : past <+: log) :
    ∃ os', Present past os' := by
  induction h with
  | nobody =>
      rw [List.prefix_nil.1 hPast]
      exact ⟨[], Present.nobody⟩
  | enter hBefore hNew ih =>
      rcases List.prefix_concat_iff.1 hPast with rfl | hPast
      · exact ⟨_, hBefore.enter hNew⟩
      · exact ih hPast
  | deal hBefore hStruck ih =>
      rcases List.prefix_concat_iff.1 hPast with rfl | hPast
      · exact ⟨_, hBefore.deal hStruck⟩
      · exact ih hPast
  | activate _ ih => exact ih hPast
  | fewer _ _ ih => exact ih hPast

end Present

------------------------------------------------------------
-- Runs
------------------------------------------------------------

/- The order that an event takes in. -/
def Event.entered? : Event → Option Order
  | .entry o => some o
  | .deal _ => none

/- The orders that were taken in. -/
def entries (log : List Event) : List Order :=
  log.filterMap Event.entered?

theorem mem_entries_of_mem
    {log : List Event}
    {o : Order}
    (h : .entry o ∈ log) :
    o ∈ entries log :=
  List.mem_filterMap.2 ⟨.entry o, h, rfl⟩

/- Deals take in nobody. -/
theorem entries_deals
    (deals : List Deal) :
    entries (deals.map .deal) = [] := by
  unfold entries
  rw [List.filterMap_eq_nil_iff]
  intro ev hEv
  rcases List.mem_map.1 hEv with ⟨d, _, rfl⟩
  rfl

/- What a submission takes in, whatever it sets off. -/
theorem entries_submission
    (log : List Event)
    (o : Order)
    (deals : List Deal) :
    entries (log ++ .entry o :: deals.map .deal) =
      entries log ++ [o] := by
  have hDeals := entries_deals deals
  unfold entries at *
  rw [List.filterMap_append]
  change
    _ ++ o :: List.filterMap Event.entered? _ = _
  rw [hDeals]

/- The price of a present order has passed intake with it. -/
theorem Present.price_pos
    {log : List Event}
    {os : List Order}
    (h : Present log os)
    (hSound : ∀ o ∈ entries log, o.defect? = none)
    {o : Order}
    (ho : o ∈ os)
    {p : Decimal}
    (hPrice : o.price = some p) :
    0 < p := by
  rcases h.tracked o ho with ⟨a, ha, _, hTracks⟩
  have hOpened :=
    hSound a.opened
      (mem_entries_of_mem (entry_opened_mem ha))
  unfold Account.Tracks at hTracks
  rw [hTracks] at hPrice
  exact
    (Order.defect?_eq_none_iff.1 hOpened).price_pos p hPrice

namespace Engine

/-
  In a run of orders that have passed intake every order that
  is held is as its account says.  An account is balanced all
  along the run just when all its sums on the way are exact.
-/
theorem Run.balanced_iff_exact
    {symbol : String}
    {log : List Event}
    {e : Engine}
    (h : Run symbol log e)
    (hSound : ∀ o ∈ entries log, o.defect? = none) :
    (∀ o ∈ e.book.allOrders,
      ∃ a, accountOf log o.id = some a ∧ a.Tracks o) ∧
    ∀ id,
      (∀ past, past <+: log → ∀ a,
        accountOf past id = some a → a.IsBalanced) ↔
      (∀ past, past <+: log → ∀ a,
        accountOf past id = some a → a.IsExact) := by
  have hPresent := h.reached.present
  constructor
  · intro o ho
    rcases
        hPresent.tracked o (List.mem_append_left _ ho) with
      ⟨a, ha, _, hTracks⟩
    exact ⟨a, ha, hTracks⟩
  intro id
  constructor
  · intro hBalanced past hPast a ha
    exact (hBalanced past hPast a ha).isExact
  · intro hExact past hPast a ha
    rcases hPresent.exists_of_prefix hPast with
      ⟨os, hThen⟩
    have hOpened : a.opened.defect? = none := by
      apply hSound
      apply mem_entries_of_mem
      exact hPast.subset (entry_opened_mem ha)
    apply
      isBalanced_of_isExact (hThen.isKept ha)
        (Order.defect?_eq_none_iff.1 hOpened) ?_ ha
    intro past' hPast'
    exact hExact past' (hPast'.trans hPast)

/- A seller of almost the largest quantity there is, a buyer
of a half and a buyer of as much as the seller came with. -/
def roundedFlow : List Order :=
  [.ordinary 1 .sell (some (.ofParts 1 0))
      (.ofParts 79228162514264337593543950334 0),
    .ordinary 2 .buy none (.ofParts 5 1),
    .ordinary 3 .buy none
      (.ofParts 79228162514264337593543950334 0)]

/- A seller of 3 and two buyers of 1.25 and 1.75. -/
def exactFlow : List Order :=
  [.ordinary 1 .sell (some (.ofParts 1 0)) (.ofParts 3 0),
    .ordinary 2 .buy none (.ofParts 125 2),
    .ordinary 3 .buy none (.ofParts 175 2)]

/- Both sides hold of the seller of 3, who sells all of it in
two trades; neither holds of the seller of almost the largest
quantity. -/
theorem balanced_iff_exact_of_flows :
    (∀ o ∈ entries (played "BTC-USDT" roundedFlow).1,
      o.defect? = none) ∧
    ((∀ past, past <+: (played "BTC-USDT" roundedFlow).1 →
        ∀ a, accountOf past 1 = some a → a.IsBalanced) ↔
      (∀ past, past <+: (played "BTC-USDT" roundedFlow).1 →
        ∀ a, accountOf past 1 = some a → a.IsExact)) ∧
    (let log := (played "BTC-USDT" exactFlow).1
    (∀ o ∈ entries log, o.defect? = none) ∧
      (accountOf log 1).map Account.fills =
        some
          [⟨.ofParts 175 2, .ofParts 300 2⟩,
            ⟨.ofParts 125 2, .ofParts 125 2⟩] ∧
      (∀ past, past <+: log →
        ∀ a, accountOf past 1 = some a → a.IsBalanced) ∧
      (∀ past, past <+: log →
        ∀ a, accountOf past 1 = some a → a.IsExact)) := by
  have hRounded :
      ∀ o ∈ entries (played "BTC-USDT" roundedFlow).1,
        o.defect? = none := by
    decide +kernel
  have hRun := run_played "BTC-USDT" roundedFlow
  refine
    ⟨hRounded, (hRun.balanced_iff_exact hRounded).2 1, ?_⟩
  intro log
  have hSound : ∀ o ∈ entries log, o.defect? = none := by
    decide +kernel
  have hPoints :
      ∀ past ∈ log.inits, ∀ a ∈ accountOf past 1,
        a.IsBalanced := by
    decide +kernel
  have hBalanced :
      ∀ past, past <+: log → ∀ a,
        accountOf past 1 = some a → a.IsBalanced := by
    intro past hPast
    exact hPoints past ((List.mem_inits _ _).2 hPast)
  have hExact :=
    ((run_played "BTC-USDT" exactFlow).balanced_iff_exact
      hSound).2 1
  exact
    ⟨hSound, by decide +kernel, hBalanced,
      hExact.1 hBalanced⟩

/- The half is rounded away: after it the seller's pending and
filled quantities do not make up its quantity, and in the end
it has sold a half more than it came with. -/
theorem sells_more_than_quantity :
    (∀ o ∈ roundedFlow, o.defect? = none) ∧
    (∃ o ∈ (played "BTC-USDT"
        (roundedFlow.take 2)).2.book.allOrders,
      ∃ pending, o.pending? = some pending ∧
        pending.units + o.filled.units ≠
          o.quantity.units) ∧
    ∃ a,
      accountOf (played "BTC-USDT" roundedFlow).1 1 =
        some a ∧
      a.opened.quantity.units < a.traded := by
  refine ⟨by decide +kernel, ?_, ?_⟩
  · refine
      ⟨{ Order.ordinary 1 .sell (some (.ofParts 1 0))
          (.ofParts 79228162514264337593543950334 0) with
        filled := .ofParts 5 1 }, by decide +kernel,
        .ofParts 79228162514264337593543950334 0,
        by decide +kernel, by decide +kernel⟩
  · refine
      ⟨(accountOf
          (played "BTC-USDT" roundedFlow).1 1).get
            (by decide +kernel),
        (Option.some_get _).symm, by decide +kernel⟩

end Engine

end Matchbook
