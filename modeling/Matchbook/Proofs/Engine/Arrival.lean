import Matchbook.Proofs.Book.Canonical
import Matchbook.Proofs.Engine.Course
import Matchbook.Proofs.Engine.Replies

/-
  Orders that arrive without trading: each of them is parked
  or rests in full, and the order in which they arrive does
  not matter to any of them or to the book they leave.

  Key definitions include:
    * `Report.IsQuiet`
    * `Engine.Suits`
    * `Engine.Joins`
    * `Engine.JoinsAll`
    * `submissions`

  The main statements are:
    * `Engine.submit?_of_joins`
    * `Engine.exists_joins_of_submit?`
    * `Engine.Joins.swap`
    * `Engine.JoinsAll.exists_of_perm`
    * `Engine.exists_replies_of_perm`
-/

------------------------------------------------------------
-- Quiet reports
------------------------------------------------------------

namespace Matchbook

/- Whether the order is in the book after its submission. -/
def Disposition.isKept : Disposition → Bool
  | .rested _ => true
  | .parked => true
  | _ => false

/- A report on an order that is parked or rests, without a
trade. -/
def Report.IsQuiet (r : Report) : Prop :=
  r.trades = [] ∧ r.disposition.isKept = true

instance (r : Report) : Decidable r.IsQuiet :=
  inferInstanceAs (Decidable (_ ∧ _))

/- The quiet answer to the submission of an order. -/
def Reply.IsQuiet : Reply → Prop
  | .submitted (.ok r) => r.IsQuiet
  | _ => False

instance : (reply : Reply) → Decidable reply.IsQuiet
  | .submitted (.ok r) => inferInstanceAs (Decidable r.IsQuiet)
  | .submitted (.error _) => isFalse not_false
  | .placed _ => isFalse not_false
  | .removed _ => isFalse not_false
  | .cancelled _ => isFalse not_false

/- Submissions of some orders, each at its own time. -/
def submissions
    (calls : List (Order × Timestamp)) : List Call :=
  calls.map fun (o, now) => .submit o now

------------------------------------------------------------
-- Orders that are apart
------------------------------------------------------------

/- Two orders with prices are apart, whichever of them is the
maker. -/
theorem Order.IsApartFrom.symm
    {maker taker : Order}
    (h : maker.IsApartFrom taker) :
    taker.IsApartFrom maker := by
  rcases h with ⟨hSide, price, hPrice, hFar⟩
  refine ⟨hSide.symm, ?_⟩
  unfold Accepts at hFar ⊢
  cases hLimit : taker.price with
  | none =>
      rw [hLimit] at hFar
      exact absurd trivial hFar
  | some limit =>
      refine ⟨limit, rfl, ?_⟩
      rw [hLimit] at hFar
      rw [hPrice]
      cases hTaker : taker.side <;>
        cases hMaker : maker.side <;>
        simp_all

namespace Matching

variable {now : Timestamp} {id : UInt64}
variable {makers : List (Entry Order)}
variable {taker : Order}
variable {m : Matching}

/- A taker that is apart from all makers stops at once. -/
theorem run?_of_isApartFrom
    (hOpen : ¬ taker.IsFilled)
    (hApart : ∀ e ∈ makers, e.item.IsApartFrom taker) :
    run? now id makers taker =
      some ⟨[], makers, taker, none⟩ := by
  cases makers with
  | nil => rw [run?, if_neg hOpen]
  | cons e rest =>
      have hFar := hApart e List.mem_cons_self
      rw [run?_cons hOpen, Order.meet?_eq_apart_iff.2 hFar]

/- A taker that stops without a deal, and not because it is
filled or stuck, is apart from all makers. -/
theorem Runs.eq_of_idle
    {side : Side}
    (h : Runs now id makers taker m)
    (hRanked : RankedEntries side .price makers)
    (hIdle : m.deals = [])
    (hIntact : m.violation = none)
    (hOpen : ¬ m.taker.IsFilled) :
    m = ⟨[], makers, taker, none⟩ ∧
      ∀ e ∈ makers, e.item.IsApartFrom taker := by
  cases h with
  | filled hFilled => exact absurd hFilled hOpen
  | empty => exact ⟨rfl, List.forall_mem_nil _⟩
  | apart _ hApart =>
      exact ⟨rfl, hRanked.isApartFrom_of_head hApart⟩
  | broken => cases hIntact
  | traded => cases hIdle

end Matching

/- The pass of a taker that is apart from all makers and
rests. -/
theorem Book.pass?_of_isApartFrom
    {b b' : Book}
    {taker : Order}
    {now : Timestamp}
    {remaining : Decimal}
    (hOpen : ¬ taker.IsFilled)
    (hPending : taker.pending? = some remaining)
    (hKeep : taker.immediateOrCancel = false)
    (hApart :
      ∀ maker ∈ b.orders taker.side.opposite .price,
        maker.IsApartFrom taker)
    (hPlace : b.place .price taker = .ok b') :
    b.pass? taker now =
      some (⟨taker, [], .rested remaining⟩, b') := by
  rcases Book.exists_price_of_place hPlace with
    ⟨price, hPrice⟩
  have hRun :
      Matching.run? now b.nextTradeId
          (b.ladder taker.side.opposite .price).byPriority
          taker =
        some
          ⟨[], (b.ladder taker.side.opposite
            .price).byPriority, taker, none⟩ :=
    Matching.run?_of_isApartFrom hOpen fun e he =>
      hApart e.item (List.mem_map_of_mem he)
  unfold Book.pass?
  dsimp only
  rw [hRun, Option.bind_some]
  dsimp only
  rw [Floor.settle_nil]
  unfold Book.finish?
  rw [if_neg hOpen, hPending, Option.map_some,
    if_neg (by simp [hKeep, Order.isMarket, hPrice]),
    hPlace]
  rfl

/- What it takes to rest. -/
theorem Book.finish?_eq_rested
    {b b' : Book}
    {taker : Order}
    {remaining : Decimal}
    (h : b.finish? taker = some (.rested remaining, b')) :
    ¬ taker.IsFilled ∧ taker.pending? = some remaining ∧
      taker.immediateOrCancel = false ∧
        b.place .price taker = .ok b' := by
  unfold finish? at h
  split at h
  · cases h
  rename_i hOpen
  rcases Option.map_eq_some_iff.1 h with
    ⟨remaining', hPending, hEq⟩
  split at hEq
  · cases hEq
  rename_i hKeep
  split at hEq
  · rename_i hPlace
    cases hEq
    exact
      ⟨hOpen, hPending,
        by simpa using (not_or.1 hKeep).1, hPlace⟩
  · cases hEq

/- The cascade of such an order is its own pass. -/
theorem Book.cascade?_of_isApartFrom
    {b b' : Book}
    {o : Order}
    {now : Timestamp}
    {remaining : Decimal}
    (hPass :
      b.pass? o.activate now =
        some (⟨o.activate, [], .rested remaining⟩, b')) :
    b.cascade? o now =
      some ⟨⟨o.activate, [], .rested remaining⟩, [], b'⟩ := by
  unfold Book.cascade?
  rw [hPass, Option.bind_some]
  change (Book.runQueue? now [] b').map _ = _
  rw [Book.runQueue?]
  rfl

------------------------------------------------------------
-- Joining a book
------------------------------------------------------------

namespace Engine

variable {e e' : Engine}
variable {o u : Order}
variable {b b' : Book}
variable {d d' : Disposition}
variable {policy : Policy}
variable {x : Order}
variable {now : Timestamp}

/-
  Whether an order suits a book: how it is disposed of, the
  policy of the ladder that it is placed on, and the order as
  it is placed there.  It either has to wait or is apart from
  all orders of the other side.
-/
inductive Suits (e : Engine) (o : Order) :
    Disposition → Policy → Order → Prop
  | parked
      (hWait : e.mustWait o = true) :
      Suits e o .parked .stop o
  | rested
      {remaining : Decimal}
      (hGo : e.mustWait o = false)
      (hOpen : ¬ o.IsFilled)
      (hPending : o.pending? = some remaining)
      (hKeep : o.immediateOrCancel = false)
      (hApart :
        ∀ maker ∈ e.book.orders o.side.opposite .price,
          maker.IsApartFrom o.activate) :
      Suits e o (.rested remaining) .price o.activate

/- Whether an order joins a book without a trade, and the
book with it. -/
def Joins
    (e : Engine)
    (o : Order)
    (d : Disposition)
    (b : Book) : Prop :=
  ∃ policy x, e.Suits o d policy x ∧
    e.book.place policy x = .ok b

/- The engine after an order has joined its book. -/
def joined (e : Engine) (b : Book) : Engine :=
  { e with
    book := b
    processed := e.processed + 1 }

/- The report on an order that has joined a book. -/
def joinReport (o : Order) (d : Disposition) : Report where
  orderId := o.id
  disposition := d
  trades := []
  triggered := []

theorem Suits.id_eq
    (h : e.Suits o d policy x) :
    x.id = o.id := by
  cases h <;> rfl

theorem Suits.side_eq
    (h : e.Suits o d policy x) :
    x.side = o.side := by
  cases h <;> rfl

theorem Suits.isKept
    (h : e.Suits o d policy x) :
    d.isKept = true := by
  cases h <;> rfl

theorem Suits.isApartFrom
    (h : e.Suits o d .price x)
    {maker : Order}
    (hMaker : maker ∈ e.book.orders o.side.opposite .price) :
    maker.IsApartFrom x := by
  cases h with
  | rested _ _ _ _ hApart => exact hApart maker hMaker

/- What an order suits, it suits after another one has joined
or left, if it is apart from the makers there. -/
theorem Suits.congr
    (h : e.Suits o d policy x)
    (hLast : e'.book.lastPrice = e.book.lastPrice)
    (hApart :
      policy = .price →
        ∀ maker ∈ e'.book.orders o.side.opposite .price,
          maker.IsApartFrom x) :
    e'.Suits o d policy x := by
  have hWait : e'.mustWait o = e.mustWait o := by
    unfold mustWait
    rw [hLast]
  cases h with
  | parked hMust => exact .parked (hWait.trans hMust)
  | rested hGo hOpen hPending hKeep =>
      exact
        .rested (hWait.trans hGo) hOpen hPending hKeep
          (hApart rfl)

------------------------------------------------------------
-- Quiet submissions
------------------------------------------------------------

/- The submission of an order that joins the book. -/
theorem submit?_of_joins
    (hIn : e.TakesIn o)
    (h : e.Joins o d b)
    (now : Timestamp) :
    e.submit? o now =
      some (.ok (joinReport o d), e.joined b) := by
  rcases h with ⟨policy, x, hSuits, hPlace⟩
  rw [submit?_of_takesIn now hIn]
  unfold admit?
  dsimp only
  cases hSuits with
  | parked hWait =>
      rw [if_pos hWait]
      unfold park
      dsimp only
      rw [hPlace]
      rfl
  | rested hGo hOpen hPending hKeep hApart =>
      have hPass :
          e.book.pass? o.activate now = some _ :=
        Book.pass?_of_isApartFrom hOpen hPending hKeep hApart
          hPlace
      have hCount :
          e.executed + (0 : Nat).toUInt64 = e.executed :=
        UInt64.add_zero _
      rw [if_neg (by simp [hGo])]
      unfold execute?
      dsimp only
      rw [Book.cascade?_of_isApartFrom hPass,
        Option.map_some]
      exact
        congrArg
          (fun n =>
            some
              (Except.ok (joinReport o (.rested _)),
                Engine.mk b (e.processed + 1) n))
          hCount

/- A taker that comes to rest without a deal is apart from
all makers. -/
theorem suits_of_pass?
    {p : Pass}
    {remaining : Decimal}
    (hRanked : e.book.IsRanked)
    (hGo : e.mustWait o = false)
    (hPass : e.book.pass? o.activate now = some (p, b))
    (hIdle : p.deals = [])
    (hEnding : p.ending = .rested remaining) :
    e.Suits o (.rested remaining) .price o.activate ∧
      e.book.place .price o.activate = .ok b := by
  unfold Book.pass? at hPass
  rcases Option.bind_eq_some_iff.1 hPass with
    ⟨m, hRun, hFinish⟩
  have hRuns := Matching.runs_of_run? hRun
  dsimp only at hFinish
  split at hFinish
  · cases hFinish
    cases hEnding
  · rename_i hIntact
    rcases Option.map_eq_some_iff.1 hFinish with
      ⟨⟨ending, b'⟩, hEnd, hEq⟩
    cases hEq
    dsimp only at hIdle hEnding
    subst hEnding
    rcases Book.finish?_eq_rested hEnd with
      ⟨hOpen, hPending, hKeep, hPlace⟩
    rcases
        hRuns.eq_of_idle (hRanked _ .price) hIdle hIntact
          hOpen with
      ⟨rfl, hApart⟩
    rw [Floor.settle_nil] at hPlace
    refine ⟨.rested hGo hOpen hPending hKeep ?_, hPlace⟩
    intro maker hMaker
    rcases List.mem_map.1 hMaker with ⟨entry, hEntry, rfl⟩
    exact hApart entry hEntry

/- A course that begins with a pass without a trade is that
pass: nothing is released. -/
theorem pass?_of_idle_course
    {s : Stage}
    {later : List Stage}
    (hCourse : Book.Course now [o] b (s :: later) b')
    (hIdle : s.pass.trades = []) :
    b.pass? o.activate now = some (s.pass, b') := by
  rcases hCourse.exists_of_cons with
    ⟨o', rest, hQueue, rfl, hPass, _, hRest⟩
  cases hQueue
  have hReleased :
      s.after.releaseAfter s.pass = ([], s.after) := by
    unfold Book.releaseAfter
    rw [if_pos (by simp [hIdle])]
  unfold Stage.released Stage.remaining at hRest
  rw [hReleased] at hRest
  cases hRest
  exact hPass

/- Of the orders that are executed, those that rest are
kept. -/
theorem exists_rested_of_isKept
    {ending : Ending}
    (hEnding : ending.disposition = .ok d)
    (hKept : d.isKept = true) :
    ∃ remaining, ending = .rested remaining ∧
      d = .rested remaining := by
  cases ending with
  | rested remaining =>
      cases hEnding
      exact ⟨remaining, rfl, rfl⟩
  | filled =>
      cases hEnding
      cases hKept
  | discarded remaining =>
      cases hEnding
      cases hKept
  | broken cause => cases hEnding

/- A quiet submission lets the order join the book. -/
theorem exists_joins_of_succeeds
    {r : Report}
    {stages : List Stage}
    (hRanked : e.book.IsRanked)
    (h : e.Succeeds o now stages r b)
    (hQuiet : r.IsQuiet) :
    e.Joins o r.disposition b := by
  rcases hQuiet with ⟨hTrades, hKept⟩
  cases h with
  | parked hWait hPlace =>
      exact ⟨.stop, o, .parked hWait, hPlace⟩
  | @executed first others _ _ hGo hCourse hEnding =>
      dsimp only at hTrades hKept ⊢
      rw [List.flatMap_cons, List.append_eq_nil_iff]
        at hTrades
      have hPass := pass?_of_idle_course hCourse hTrades.1
      rcases exists_rested_of_isKept hEnding hKept with
        ⟨remaining, hRested, rfl⟩
      rcases
          suits_of_pass? hRanked hGo hPass
            (List.map_eq_nil_iff.1 hTrades.1) hRested with
        ⟨hSuits, hPlace⟩
      exact ⟨.price, o.activate, hSuits, hPlace⟩

theorem exists_joins_of_submit?
    {r : Report}
    (hRanked : e.book.IsRanked)
    (hSubmit : e.submit? o now = some (.ok r, e'))
    (hQuiet : r.IsQuiet) :
    e.TakesIn o ∧
      ∃ b, e.Joins o r.disposition b ∧
        r = joinReport o r.disposition ∧
          e' = e.joined b := by
  rcases exists_succeeds hSubmit with
    ⟨hIn, stages, hSucceeds⟩
  have hJoins :=
    exists_joins_of_succeeds hRanked hSucceeds hQuiet
  have hAgain := submit?_of_joins hIn hJoins now
  have hSame := Option.some.inj (hSubmit.symm.trans hAgain)
  exact
    ⟨hIn, e'.book, hJoins,
      Except.ok.inj (congrArg Prod.fst hSame),
      congrArg Prod.snd hSame⟩

------------------------------------------------------------
-- Two arrivals
------------------------------------------------------------

open Floor

theorem TakesIn.fresh
    (h : e.TakesIn o) :
    o.id ∉ e.book.allOrders.map Order.id :=
  Book.contains_eq_false_iff.1 h.2.2

theorem isOrderly_joined
    (hOrderly : IsOrderly ⟨e.book, []⟩)
    (hIn : e.TakesIn o)
    (h : e.Joins o d b) :
    IsOrderly ⟨(e.joined b).book, []⟩ := by
  rcases h with ⟨policy, x, hSuits, hPlace⟩
  have hEnter := hOrderly.enter hIn.2.1 hIn.2.2
  cases hSuits with
  | parked => exact hEnter.place hPlace
  | rested => exact hEnter.activate.place hPlace

/- An order keeps out those with its id and nobody else. -/
theorem takesIn_joined_iff
    (hRanked : e.book.IsRanked)
    (hFresh : x.id ∉ e.book.allOrders.map Order.id)
    (hPlace : e.book.place policy x = .ok b) :
    (e.joined b).TakesIn u ↔
      e.TakesIn u ∧ u.id ≠ x.id := by
  have hDoor := Book.door_place hPlace
  have hSymbol : b.symbol = e.book.symbol :=
    congrArg Prod.fst hDoor
  have hHalted : b.halted = e.book.halted :=
    congrArg Prod.snd hDoor
  unfold TakesIn joined
  dsimp only
  rw [hSymbol, hHalted, Book.contains_eq_false_iff,
    Book.contains_eq_false_iff,
    Book.fresh_place_iff hRanked hFresh hPlace]
  tauto

/- Of two orders that suit a book one after the other the
first one suits it after the second, too: they were apart when
the second one came, whichever of them is the maker. -/
theorem Suits.of_swapped
    {policy' : Policy}
    {y : Order}
    {b₁ : Book}
    (hRanked : e.book.IsRanked)
    (hFresh : x.id ∉ e.book.allOrders.map Order.id)
    (hFresh' : y.id ∉ e.book.allOrders.map Order.id)
    (h : e.Suits o d policy x)
    (hPlace : e.book.place policy x = .ok b)
    (h' : (e.joined b).Suits u d' policy' y)
    (hFirst : e.book.place policy' y = .ok b₁) :
    (e.joined b₁).Suits o d policy x := by
  refine h.congr (Book.lastPrice_place hFirst) ?_
  rintro rfl maker hMaker
  have hOrders :=
    Book.orders_place_perm_append hRanked hFresh' hFirst
      o.side.opposite .price
  rcases List.mem_append.1 (hOrders.mem_iff.1 hMaker) with
    hNew | hHeld
  · unfold Order.landing at hNew
    split at hNew
    · rename_i hLadder
      rw [Prod.mk.injEq] at hLadder
      rcases hLadder with ⟨hSide, rfl⟩
      rw [List.mem_singleton.1 hNew]
      apply Order.IsApartFrom.symm
      apply h'.isApartFrom
      have hAcross : u.side.opposite = x.side := by
        rw [← h'.side_eq, hSide, h.side_eq]
        cases o.side <;> rfl
      rw [hAcross]
      exact
        (Book.orders_place_perm hRanked hFresh
          hPlace).mem_iff.2 List.mem_cons_self
    · cases hNew
  · exact h.isApartFrom hHeld

/- Two orders that join a book one after the other may join it
the other way around. -/
theorem Joins.swap
    (hOrderly : IsOrderly ⟨e.book, []⟩)
    (hIn : e.TakesIn o)
    (h : e.Joins o d b)
    (hIn' : (e.joined b).TakesIn u)
    (h' : (e.joined b).Joins u d' b') :
    ∃ b₁, e.TakesIn u ∧ e.Joins u d' b₁ ∧
      (e.joined b₁).TakesIn o ∧
        (e.joined b₁).Joins o d b' := by
  rcases h with ⟨policy, x, hSuits, hPlace⟩
  rcases h' with ⟨policy', y, hSuits', hPlace'⟩
  have hRanked := hOrderly.isRanked
  have hFresh : x.id ∉ e.book.allOrders.map Order.id := by
    rw [hSuits.id_eq]
    exact hIn.fresh
  have hAfter : y.id ∉ b.allOrders.map Order.id := by
    rw [hSuits'.id_eq]
    exact hIn'.fresh
  rcases
      (takesIn_joined_iff hRanked hFresh hPlace).1 hIn' with
    ⟨hInFirst, hOther⟩
  have hFresh' : y.id ∉ e.book.allOrders.map Order.id := by
    rw [hSuits'.id_eq]
    exact hInFirst.fresh
  rcases
      Book.place_comm hRanked hFresh hAfter hPlace hPlace'
      with
    ⟨b₁, hFirst, hSecond⟩
  refine
    ⟨b₁, hInFirst, ⟨policy', y, ?_, hFirst⟩, ?_,
      ⟨policy, x, ?_, hSecond⟩⟩
  case refine_1 =>
    refine
      hSuits'.congr (Book.lastPrice_place hPlace).symm ?_
    rintro rfl maker hMaker
    apply hSuits'.isApartFrom
    exact
      (Book.orders_place_perm_append hRanked hFresh hPlace
        _ .price).mem_iff.2 (List.mem_append_right _ hMaker)
  case refine_2 =>
    rw [takesIn_joined_iff hRanked hFresh' hFirst,
      hSuits'.id_eq, ← hSuits.id_eq]
    exact ⟨hIn, hOther.symm⟩
  case refine_3 =>
    exact
      hSuits.of_swapped hRanked hFresh hFresh' hPlace hSuits'
        hFirst

------------------------------------------------------------
-- Many arrivals
------------------------------------------------------------

/- Orders that join a book one after the other, each with its
disposition. -/
inductive JoinsAll :
    Engine → List (Order × Disposition) → Engine → Prop
  | nil
      {e : Engine} :
      JoinsAll e [] e
  | cons
      {e e' : Engine}
      {o : Order}
      {d : Disposition}
      {b : Book}
      {rest : List (Order × Disposition)}
      (hIn : e.TakesIn o)
      (hJoins : e.Joins o d b)
      (h : JoinsAll (e.joined b) rest e') :
      JoinsAll e ((o, d) :: rest) e'

/-
  Orders that join a book in one order join it in every other,
  with the same dispositions and to the same effect.  By
  induction on the permutation; neighbours change places by
  `Joins.swap`.
-/
theorem JoinsAll.exists_of_perm
    {os os' : List Order}
    {xs : List (Order × Disposition)}
    (hOrderly : IsOrderly ⟨e.book, []⟩)
    (hPerm : os.Perm os')
    (hOrders : xs.map Prod.fst = os)
    (h : JoinsAll e xs e') :
    ∃ ys, ys.map Prod.fst = os' ∧ ys.Perm xs ∧
      JoinsAll e ys e' := by
  induction hPerm generalizing e xs with
  | nil =>
      cases List.map_eq_nil_iff.1 hOrders
      exact ⟨[], rfl, List.Perm.refl _, h⟩
  | cons o _ ih =>
      cases h with
      | nil => cases hOrders
      | @cons _ _ o' d b rest hIn hJoins hRest =>
          rcases List.cons_eq_cons.1 hOrders with
            ⟨rfl, hOthers⟩
          rcases
              ih (isOrderly_joined hOrderly hIn hJoins)
                hOthers hRest with
            ⟨ys, hIds, hMoved, hAll⟩
          exact
            ⟨(o', d) :: ys, congrArg (List.cons o') hIds,
              hMoved.cons _, .cons hIn hJoins hAll⟩
  | swap o u os =>
      cases h with
      | nil => cases hOrders
      | @cons _ _ o₁ d₁ b rest hIn hJoins hRest =>
          cases hRest with
          | nil => cases hOrders
          | @cons _ _ o₂ d₂ b' rest hIn' hJoins' hRest =>
              have hSwap :=
                hJoins.swap hOrderly hIn hIn' hJoins'
              rcases hSwap with
                ⟨b₁, hFirst, hFirst', hThen, hThen'⟩
              refine
                ⟨(o₂, d₂) :: (o₁, d₁) :: rest, ?_,
                  List.Perm.swap _ _ _,
                  .cons hFirst hFirst'
                    (.cons hThen hThen' hRest)⟩
              simp only [List.map_cons, List.cons.injEq]
                at hOrders ⊢
              exact
                ⟨hOrders.2.1, hOrders.1, hOrders.2.2⟩
  | trans _ _ ih ih' =>
      rcases ih hOrderly hOrders h with
        ⟨ys, hMiddle, hMoved, hAll⟩
      rcases ih' hOrderly hMiddle hAll with
        ⟨zs, hLast, hMoved', hAll'⟩
      exact ⟨zs, hLast, hMoved'.trans hMoved, hAll'⟩

/- The reply to the submission of an order that has joined the
book. -/
def joinReply (x : Order × Disposition) : Reply :=
  .submitted (.ok (joinReport x.1 x.2))

/- Submissions that are all answered quietly. -/
theorem exists_joinsAll_of_replies?
    {calls : List (Order × Timestamp)}
    {replies : List Reply}
    (hOrderly : IsOrderly ⟨e.book, []⟩)
    (h : e.replies? (submissions calls) = some (replies, e'))
    (hQuiet : ∀ reply ∈ replies, reply.IsQuiet) :
    ∃ xs, xs.map Prod.fst = calls.map Prod.fst ∧
      replies = xs.map joinReply ∧ JoinsAll e xs e' := by
  induction calls generalizing e replies with
  | nil =>
      cases h
      exact ⟨[], rfl, rfl, .nil⟩
  | cons call calls ih =>
      rcases call with ⟨o, now⟩
      rcases replies?_cons_eq_some h with
        ⟨reply, e₁, later, hReply, hLater, rfl⟩
      rcases Option.map_eq_some_iff.1 hReply with
        ⟨⟨answer, e₂⟩, hSubmit, hEq⟩
      cases hEq
      rcases List.forall_mem_cons.1 hQuiet with
        ⟨hFirst, hOthers⟩
      cases answer with
      | error refusal => cases hFirst
      | ok r =>
          rcases
              exists_joins_of_submit? hOrderly.isRanked
                hSubmit hFirst with
            ⟨hIn, b, hJoins, hReport, rfl⟩
          rcases
              ih (isOrderly_joined hOrderly hIn hJoins)
                hLater hOthers with
            ⟨xs, hOrders, hReplies, hAll⟩
          refine
            ⟨(o, r.disposition) :: xs,
              congrArg (List.cons o) hOrders, ?_,
              .cons hIn hJoins hAll⟩
          rw [List.map_cons, ← hReplies]
          unfold joinReply
          rw [← hReport]

/- And the other way around, at whatever times. -/
theorem JoinsAll.replies?_eq
    {calls : List (Order × Timestamp)}
    {xs : List (Order × Disposition)}
    (h : JoinsAll e xs e')
    (hOrders : xs.map Prod.fst = calls.map Prod.fst) :
    e.replies? (submissions calls) =
      some (xs.map joinReply, e') := by
  induction h generalizing calls with
  | nil =>
      cases List.map_eq_nil_iff.1 hOrders.symm
      rfl
  | @cons e e' o d b rest hIn hJoins _ ih =>
      cases calls with
      | nil => cases hOrders
      | cons call calls =>
          rcases call with ⟨o', now⟩
          rcases List.cons_eq_cons.1 hOrders with
            ⟨rfl, hOthers⟩
          have hReply :
              e.reply? (.submit o now) =
                some (joinReply (o, d), e.joined b) := by
            unfold reply?
            dsimp only
            rw [submit?_of_joins hIn hJoins now]
            rfl
          change
            e.replies? (.submit o now :: submissions calls) =
              _
          rw [replies?, hReply, Option.bind_some]
          dsimp only
          rw [ih hOthers]
          rfl

theorem JoinsAll.isQuiet
    {xs : List (Order × Disposition)}
    (h : JoinsAll e xs e') :
    ∀ reply ∈ xs.map joinReply, reply.IsQuiet := by
  induction h with
  | nil => exact List.forall_mem_nil _
  | cons _ hJoins _ ih =>
      rcases hJoins with ⟨_, _, hSuits, _⟩
      exact
        List.forall_mem_cons.2 ⟨⟨rfl, hSuits.isKept⟩, ih⟩

/-
  Orders that come to rest or to wait, one after the other and
  without a trade, may as well be submitted in any other order
  and at other times.  Each of them gets the same answer, and
  the engine ends up the same: its book with all four ladders,
  the last price and the next trade id, and its counts.
-/
theorem exists_replies_of_perm
    {symbol : String}
    {before : List Call}
    {calls calls' : List (Order × Timestamp)}
    {replies : List Reply}
    (hReach : (new symbol).run? before = some e)
    (hReplies :
      e.replies? (submissions calls) = some (replies, e'))
    (hQuiet : ∀ reply ∈ replies, reply.IsQuiet)
    (hPerm :
      (calls.map Prod.fst).Perm (calls'.map Prod.fst)) :
    ∃ replies',
      e.replies? (submissions calls') =
          some (replies', e') ∧
        (∀ reply ∈ replies', reply.IsQuiet) ∧
          ((calls'.map Prod.fst).zip replies').Perm
            ((calls.map Prod.fst).zip replies) := by
  have hOrderly := isOrderly_run? hReach
  rcases
      exists_joinsAll_of_replies? hOrderly hReplies hQuiet
      with
    ⟨xs, hOrders, rfl, hAll⟩
  rcases
      hAll.exists_of_perm hOrderly hPerm hOrders with
    ⟨ys, hOrders', hMoved, hAll'⟩
  refine
    ⟨ys.map joinReply, hAll'.replies?_eq hOrders',
      hAll'.isQuiet, ?_⟩
  rw [← hOrders, ← hOrders', List.zip_map', List.zip_map']
  exact hMoved.map _

/- A trade at 100, and a seller that asks for more. -/
def tradedCalls : List Call :=
  submissions
    [(.ordinary 1 .sell (some (.ofParts 100 0))
        (.ofParts 1 0), .ofNanos 0),
      (.ordinary 2 .buy (some (.ofParts 100 0))
        (.ofParts 1 0), .ofNanos 0),
      (.ordinary 3 .sell (some (.ofParts 105 0))
        (.ofParts 1 0), .ofNanos 0)]

/- Two buyers that differ in their ids alone, a seller, and
orders that wait for 103 and for 97. -/
def calmCalls : List (Order × Timestamp) :=
  [(.ordinary 10 .buy (some (.ofParts 99 0)) (.ofParts 1 0),
      .ofNanos 0),
    (.ordinary 11 .sell (some (.ofParts 101 0))
      (.ofParts 2 0), .ofNanos 0),
    (.ordinary 12 .buy (some (.ofParts 99 0)) (.ofParts 1 0),
      .ofNanos 0),
    (.ordinaryStop 13 .buy (.ofParts 103 0) (.ofParts 1 0),
      .ofNanos 0),
    (.ordinaryStop 14 .sell (.ofParts 97 0) (.ofParts 1 0),
      .ofNanos 0)]

/- They may come in the reverse order. -/
theorem exists_replies_of_perm_of_calm :
    ∃ e replies e',
      (new "BTC-USDT").run? tradedCalls = some e ∧
      e.book.lastPrice = some (.ofParts 100 0) ∧
      e.replies? (submissions calmCalls) =
          some (replies, e') ∧
        (∀ reply ∈ replies, reply.IsQuiet) ∧
      ∃ replies',
        e.replies? (submissions calmCalls.reverse) =
            some (replies', e') ∧
          (∀ reply ∈ replies', reply.IsQuiet) ∧
            ((calmCalls.reverse.map Prod.fst).zip
                replies').Perm
              ((calmCalls.map Prod.fst).zip replies) := by
  have hSeen :
      ((new "BTC-USDT").run? tradedCalls).any (fun e =>
        decide
            (e.book.lastPrice = some (.ofParts 100 0)) &&
          (e.replies? (submissions calmCalls)).any fun r =>
            decide (∀ reply ∈ r.1, reply.IsQuiet)) := by
    decide +kernel
  rcases (Option.any_eq_true _ _).1 hSeen with
    ⟨e, hReach, hCalm⟩
  rcases (Bool.and_eq_true_iff).1 hCalm with
    ⟨hLast, hCalm⟩
  rcases (Option.any_eq_true _ _).1 hCalm with
    ⟨⟨replies, e'⟩, hReplies, hQuiet⟩
  have hPerm :
      (calmCalls.map Prod.fst).Perm
        (calmCalls.reverse.map Prod.fst) :=
    (List.reverse_perm calmCalls).symm.map Prod.fst
  exact
    ⟨e, replies, e', hReach, of_decide_eq_true hLast,
      hReplies, of_decide_eq_true hQuiet,
      exists_replies_of_perm hReach hReplies
        (of_decide_eq_true hQuiet) hPerm⟩

end Engine

end Matchbook
