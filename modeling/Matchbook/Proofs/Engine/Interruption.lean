import Matchbook.Proofs.Engine.Replies

/-
  What a broken contract in the middle of a cascade leaves of
  the orders that waited before it.

  Orders that a pass releases leave the book at once and queue
  up for a pass of their own.  A pass that meets a broken
  contract is the last one, and what is still in the queue
  does not return to the book.  Orders that no pass has
  released wait on in the halted book.

  Key definitions include:
    * `Refusal.IsViolation`
    * `Engine.Releases`
    * `Book.Holds`

  The main statements are:
    * `Book.mem_waiting_of_runQueue?`
    * `Book.not_mem_allOrders_of_queued`
    * `Book.not_mem_allOrders_of_released`
    * `Engine.holds_iff_not_releases`
-/

------------------------------------------------------------
-- Broken contracts
------------------------------------------------------------

namespace Matchbook

/- Whether a request was refused for a broken contract of its
own. -/
def Refusal.IsViolation : Refusal → Prop
  | violation _ => True
  | violationAfterTrades _ _ => True
  | _ => False

instance (r : Refusal) : Decidable r.IsViolation := by
  unfold Refusal.IsViolation
  split <;> infer_instance

/- Whether the execution of a queue comes to a pass that ends
well and releases the order `w`. -/
def Book.Releases
    (now : Timestamp)
    (queue : List Order)
    (b : Book)
    (w : Order) : Prop :=
  ∃ s : Stage, ∃ taker,
    Begins now queue b s.before taker ∧
      s.before.pass? taker now = some (s.pass, s.after) ∧
      s.pass.violation = none ∧ s.EndsAt w

/- Whether the submission of an order comes to a pass that
ends well and releases the order `w`. -/
def Engine.Releases
    (e : Engine)
    (o : Order)
    (now : Timestamp)
    (w : Order) : Prop :=
  e.TakesIn o ∧ e.mustWait o = false ∧
    Book.Releases now [o] e.book w

/- Whether a book holds an order with the id, the quantity
and the filled quantity of another one. -/
def Book.Holds (b : Book) (w : Order) : Prop :=
  ∃ x, b.get? w.id = some x ∧ x.quantity = w.quantity ∧
    x.filled = w.filled

------------------------------------------------------------
-- Queues
------------------------------------------------------------

namespace Book

variable {now : Timestamp}
variable {queue : List Order}
variable {b b' b'' : Book}
variable {passes others : List Pass}
variable {p : Pass}
variable {o w : Order}
variable {rest : List Order}
variable {id : UInt64}

/- How a queue goes on after a pass that ends well. -/
theorem exists_rest_of_runQueue?
    (hRun :
      runQueue? now (o :: rest) b = some (passes, b''))
    (hPass : b.pass? o.activate now = some (p, b'))
    (hIntact : p.violation = none) :
    ∃ others,
      runQueue? now (rest ++ (b'.releaseAfter p).1)
          (b'.releaseAfter p).2 =
        some (others, b'') ∧ passes = p :: others := by
  rw [runQueue?_cons, hPass] at hRun
  simp only [hIntact, Option.isSome_none,
    Bool.false_eq_true, if_false] at hRun
  rcases Option.map_eq_some_iff.1 hRun with
    ⟨⟨others, b₂⟩, hRest, hEq⟩
  cases hEq
  exact ⟨others, hRest, rfl⟩

/-
  An order that no pass releases waits on, wherever the queue
  ends.  By induction on the queue; a pass on its own does not
  touch the waiting orders.
-/
theorem mem_waiting_of_runQueue?
    (h : Floor.IsOrderly ⟨b, queue⟩)
    (hRun : runQueue? now queue b = some (passes, b'))
    (hw : w ∈ b.waiting)
    (hStays : ¬ Releases now queue b w) :
    w ∈ b'.waiting := by
  induction queue, b using Book.runQueue?.induct now
    generalizing passes b' with
  | case1 b =>
      rw [runQueue?] at hRun
      cases hRun
      exact hw
  | case2 b o rest hPass =>
      rw [runQueue?_cons, hPass] at hRun
      cases hRun
  | case3 b o rest p b₁ hPass hBroken =>
      rw [runQueue?_cons, hPass] at hRun
      simp only [hBroken, if_true] at hRun
      cases hRun
      rw [(passes_of_pass? hPass).waiting_eq]
      exact hw
  | case4 b o rest p b₁ hPass hIntact ih =>
      have hNone : p.violation = none := by
        simpa using hIntact
      rcases exists_rest_of_runQueue? hRun hPass hNone with
        ⟨others, hRest, _⟩
      have hAfter := h.activate.pass? hPass
      have hNot :
          w ∉ (Stage.mk b p b₁).released := by
        intro hReleased
        apply hStays
        exact
          ⟨⟨b, p, b₁⟩, o.activate, .first, hPass, hNone,
            ((Stage.mem_released_iff_of_isRanked
              hAfter.isRanked hPass).1 hReleased).2⟩
      have hStill : w ∈ (Stage.mk b p b₁).remaining.waiting := by
        have hMem :=
          (Stage.waiting_perm
            (s := ⟨b, p, b₁⟩) hPass).mem_iff.2 hw
        exact (List.mem_append.1 hMem).resolve_right hNot
      apply ih (hAfter.releaseAfter p) hRest hStill
      rintro ⟨s, taker, hBegins, hOwn, hWell, hEnds⟩
      exact
        hStays
          ⟨s, taker, .later hPass hNone hBegins, hOwn, hWell,
            hEnds⟩

/-
  A queued order whose pass does not begin is lost.  By
  induction on the queue: it never gets to the front, so it is
  in flight until the queue is given up.
-/
theorem not_mem_allOrders_of_queued
    (h : Floor.IsOrderly ⟨b, queue⟩)
    (hRun : runQueue? now queue b = some (passes, b'))
    (hQueued : id ∈ queue.map Order.id)
    (hIdle :
      ∀ before taker, Begins now queue b before taker →
        taker.id ≠ id) :
    id ∉ b'.allOrders.map Order.id := by
  induction queue, b using Book.runQueue?.induct now
    generalizing passes b' with
  | case1 b => cases hQueued
  | case2 b o rest hPass =>
      rw [runQueue?_cons, hPass] at hRun
      cases hRun
  | case3 b o rest p b₁ hPass hBroken =>
      rw [runQueue?_cons, hPass] at hRun
      simp only [hBroken, if_true] at hRun
      cases hRun
      have hBehind : id ∈ rest.map Order.id :=
        (List.mem_cons.1 hQueued).resolve_left
          (hIdle b o.activate .first).symm
      have hNodup := (h.activate.pass? hPass).nodup
      unfold Floor.orders at hNodup
      rw [List.map_append] at hNodup
      intro hHeld
      exact
        List.disjoint_of_nodup_append hNodup hHeld hBehind
  | case4 b o rest p b₁ hPass hIntact ih =>
      have hNone : p.violation = none := by
        simpa using hIntact
      rcases exists_rest_of_runQueue? hRun hPass hNone with
        ⟨others, hRest, _⟩
      have hBehind : id ∈ rest.map Order.id :=
        (List.mem_cons.1 hQueued).resolve_left
          (hIdle b o.activate .first).symm
      apply
        ih ((h.activate.pass? hPass).releaseAfter p) hRest
      · rw [List.map_append]
        exact List.mem_append_left _ hBehind
      · intro before taker hBegins
        exact
          hIdle before taker (.later hPass hNone hBegins)

/- What the first pass releases is queued from then on. -/
theorem not_mem_allOrders_of_releaseAfter
    (h : Floor.IsOrderly ⟨b, o :: rest⟩)
    (hRun :
      runQueue? now (o :: rest) b = some (passes, b''))
    (hPass : b.pass? o.activate now = some (p, b'))
    (hIntact : p.violation = none)
    (hReleased : w ∈ (b'.releaseAfter p).1)
    (hIdle :
      ∀ before taker, Begins now (o :: rest) b before taker →
        taker.id ≠ w.id) :
    w.id ∉ b''.allOrders.map Order.id := by
  rcases exists_rest_of_runQueue? hRun hPass hIntact with
    ⟨others, hRest, _⟩
  apply
    not_mem_allOrders_of_queued
      ((h.activate.pass? hPass).releaseAfter p) hRest
  · rw [List.map_append]
    exact
      List.mem_append_right _ (List.mem_map_of_mem hReleased)
  · intro before taker hBegins
    exact hIdle before taker (.later hPass hIntact hBegins)

/-
  A waiting order that is released and whose pass does not
  begin is lost.  By induction on the passes up to the one
  that releases it, or to an earlier one that does so already.
-/
theorem not_mem_allOrders_of_released
    (h : Floor.IsOrderly ⟨b, queue⟩)
    (hRun : runQueue? now queue b = some (passes, b''))
    (hw : w ∈ b.waiting)
    (hReleases : Releases now queue b w)
    (hIdle :
      ∀ before taker, Begins now queue b before taker →
        taker.id ≠ w.id) :
    w.id ∉ b''.allOrders.map Order.id := by
  rcases hReleases with
    ⟨s, taker, hBegins, hOwn, hWell, hEnds⟩
  generalize hBefore : s.before = before at hBegins
  induction hBegins generalizing passes with
  | @first o rest b =>
      subst hBefore
      have hRanked := (h.activate.pass? hOwn).isRanked
      exact
        not_mem_allOrders_of_releaseAfter h hRun hOwn hWell
          ((Stage.mem_released_iff_of_isRanked hRanked
            hOwn).2 ⟨hw, hEnds⟩)
          hIdle
  | @later o taker rest b b₁ before p hPass hIntact hBegins
      ih =>
      by_cases hNow : w ∈ (b₁.releaseAfter p).1
      · exact
          not_mem_allOrders_of_releaseAfter h hRun hPass
            hIntact hNow hIdle
      rcases exists_rest_of_runQueue? hRun hPass hIntact with
        ⟨others, hRest, _⟩
      have hParts :=
        Stage.waiting_perm (s := ⟨b, p, b₁⟩) hPass
      have hStill : w ∈ (b₁.releaseAfter p).2.waiting :=
        (List.mem_append.1
          (hParts.mem_iff.2 hw)).resolve_right hNow
      exact
        ih ((h.activate.pass? hPass).releaseAfter p) hRest
          hStill
          (fun before taker hBegins =>
            hIdle before taker
              (.later hPass hIntact hBegins))
          hOwn hBefore

/- The passes that have begun are those of an execution. -/
theorem Begins.id_mem
    {before : Book}
    {taker : Order}
    (h : Begins now queue b before taker)
    (hRun : runQueue? now queue b = some (passes, b'')) :
    taker.id ∈ passes.map fun p => p.taker.id := by
  induction h generalizing passes with
  | @first o rest b =>
      rw [runQueue?_cons] at hRun
      cases hPass : b.pass? o.activate now with
      | none =>
          rw [hPass] at hRun
          cases hRun
      | some r =>
          rcases r with ⟨p, b₁⟩
          have hId : o.activate.id = p.taker.id :=
            (Stage.takerId_eq (s := ⟨b, p, b₁⟩) hPass).symm
          rw [hPass] at hRun
          dsimp only at hRun
          rw [hId]
          split at hRun
          · cases hRun
            exact List.mem_cons_self ..
          · rcases Option.map_eq_some_iff.1 hRun with
              ⟨⟨others, b₂⟩, _, hEq⟩
            cases hEq
            exact List.mem_cons_self ..
  | @later o taker rest b b₁ before p hPass hIntact _ ih =>
      rcases exists_rest_of_runQueue? hRun hPass hIntact with
        ⟨others, hRest, rfl⟩
      exact List.mem_cons_of_mem _ (ih hRest)

------------------------------------------------------------
-- Halted books
------------------------------------------------------------

/- An order of a book is found by its id. -/
theorem holds_of_mem_waiting
    (hNodup : (b.allOrders.map Order.id).Nodup)
    (hw : w ∈ b.waiting) :
    b.Holds w := by
  have hFound : b.locate? w.id = some (w, .stop) := by
    rw [locate?_eq_some_iff hNodup]
    exact
      ⟨List.mem_append_right _
        (List.mem_map_of_mem (f := (·, Policy.stop)) hw),
        rfl⟩
  refine ⟨w, ?_, rfl, rfl⟩
  unfold get?
  rw [hFound]
  rfl

theorem not_holds_of_not_mem
    (hGone : w.id ∉ b.allOrders.map Order.id) :
    ¬ b.Holds w := by
  rintro ⟨x, hGet, _⟩
  have hNone :=
    locate?_eq_none_iff.2 (contains_eq_false_iff.2 hGone)
  unfold get? at hGet
  rw [hNone] at hGet
  cases hGet

end Book

------------------------------------------------------------
-- Submissions
------------------------------------------------------------

namespace Engine

variable {symbol : String} {calls : List Call}
variable {e e' : Engine} {o w : Order} {now : Timestamp}
variable {r : Refusal}

/- Without a cascade a broken contract halts the book as it
is. -/
theorem book_of_not_takesIn
    (hOut : ¬ e.TakesIn o)
    (hSubmit : e.submit? o now = some (.error r, e'))
    (hBroken : r.IsViolation) :
    e'.book = e.book.halt := by
  unfold submit? at hSubmit
  split at hSubmit
  · cases hSubmit
    exact hBroken.elim
  rename_i hLive
  split at hSubmit
  · unfold breakOff at hSubmit
    cases hSubmit
    rfl
  rename_i hSymbol
  split at hSubmit
  · cases hSubmit
    exact hBroken.elim
  rename_i hHeld
  exfalso
  apply hOut
  exact
    ⟨by simpa using hLive, Decidable.of_not_not hSymbol,
      by simpa using hHeld⟩

theorem book_of_mustWait
    (hIn : e.TakesIn o)
    (hWait : e.mustWait o = true)
    (hSubmit : e.submit? o now = some (.error r, e')) :
    e'.book = e.book.halt := by
  rw [submit?_of_takesIn now hIn] at hSubmit
  unfold admit? at hSubmit
  dsimp only at hSubmit
  rw [if_pos hWait] at hSubmit
  have hPark := Option.some.inj hSubmit
  unfold park at hPark
  split at hPark
  · cases hPark
  · unfold breakOff at hPark
    cases hPark
    rfl

/- A broken contract in a cascade halts the book that its
passes leave. -/
theorem exists_runQueue?_of_error
    (hIn : e.TakesIn o)
    (hGo : e.mustWait o = false)
    (hSubmit : e.submit? o now = some (.error r, e')) :
    ∃ passes b,
      Book.runQueue? now [o] e.book = some (passes, b) ∧
        e'.book = b.halt := by
  rw [submit?_of_takesIn now hIn] at hSubmit
  unfold admit? at hSubmit
  dsimp only at hSubmit
  rw [hGo, if_neg Bool.false_ne_true] at hSubmit
  unfold execute? at hSubmit
  rcases Option.map_eq_some_iff.1 hSubmit with
    ⟨c, hCascade, hOutcome⟩
  have hRun := Book.runQueue?_of_cascade? hCascade
  refine ⟨c.passes, c.book, hRun, ?_⟩
  dsimp only at hOutcome
  split at hOutcome
  · cases hOutcome
  · unfold breakOff at hOutcome
    cases hOutcome
    rfl

/-
  An order that waited before a broken contract and whose pass
  did not begin is in the halted book as it was, unless a pass
  that ended well had released it: then it is gone.
-/
theorem holds_iff_not_releases
    (hReach : (new symbol).run? calls = some e)
    (hSubmit : e.submit? o now = some (.error r, e'))
    (hBroken : r.IsViolation)
    (hw : w ∈ e.book.waiting)
    (hIdle :
      ∀ before taker, e.Begins o now before taker →
        taker.id ≠ w.id) :
    e'.book.halted = true ∧
      (e'.book.Holds w ↔ ¬ e.Releases o now w) ∧
      (¬ e.Releases o now w → w ∈ e'.book.waiting) := by
  have hOrderly := isOrderly_run? hReach
  have hNodup := (isOrderly_submit? hOrderly hSubmit).nodup
  unfold Floor.orders at hNodup
  rw [List.append_nil] at hNodup
  by_cases hGo : e.TakesIn o ∧ e.mustWait o = false
  · rcases exists_runQueue?_of_error hGo.1 hGo.2 hSubmit with
      ⟨passes, b, hRun, hBook⟩
    have hEntered := hOrderly.enter hGo.1.2.1 hGo.1.2.2
    have hStays :
        ¬ e.Releases o now w → w ∈ e'.book.waiting := by
      intro hNot
      rw [hBook]
      apply Book.mem_waiting_of_runQueue? hEntered hRun hw
      intro hReleases
      exact hNot ⟨hGo.1, hGo.2, hReleases⟩
    refine ⟨by rw [hBook]; rfl, ⟨?_, ?_⟩, hStays⟩
    · rintro hHolds ⟨_, _, hReleases⟩
      refine Book.not_holds_of_not_mem ?_ hHolds
      rw [hBook]
      apply
        Book.not_mem_allOrders_of_released hEntered hRun hw
          hReleases
      intro before taker hBegins
      exact hIdle before taker ⟨hGo.1, hGo.2, hBegins⟩
    · intro hNot
      exact Book.holds_of_mem_waiting hNodup (hStays hNot)
  · have hBook : e'.book = e.book.halt := by
      by_cases hIn : e.TakesIn o
      · apply book_of_mustWait hIn ?_ hSubmit
        cases hWait : e.mustWait o with
        | false => exact absurd ⟨hIn, hWait⟩ hGo
        | true => rfl
      · exact book_of_not_takesIn hIn hSubmit hBroken
    have hStill : w ∈ e'.book.waiting := by
      rw [hBook]
      exact hw
    have hNot : ¬ e.Releases o now w := by
      rintro ⟨hIn, hWait, _⟩
      exact hGo ⟨hIn, hWait⟩
    exact
      ⟨by rw [hBook]; rfl,
        iff_of_true
          (Book.holds_of_mem_waiting hNodup hStill) hNot,
        fun _ => hStill⟩

/- A seller at 10, one at 20 whose price is spelled with 14
places, and three buyers that wait. -/
def interruptedCalls : List Call :=
  [.ordinary 1 .sell (some (.ofParts 10 0)) (.ofParts 1 0),
    .ordinary 2 .sell (some (.ofParts (2 * 10 ^ 15) 14))
      (.ofParts 1 0),
    .ordinaryStop 3 .buy (.ofParts 10 0)
      (.ofParts (5 * 10 ^ 13) 14),
    .ordinaryStop 5 .buy (.ofParts 10 0) (.ofParts 1 0),
    .ordinaryStop 6 .buy (.ofParts 30 0)
      (.ofParts 1 0)].map fun o => .submit o (.ofNanos 0)

/- It trades at 10, which releases the buyers 3 and 5. -/
def interruptingBuy : Order :=
  .ordinary 4 .buy (some (.ofParts 10 0)) (.ofParts 1 0)

/- The total of the buyer 3 and the seller at 20 does not
fit. -/
def interruption : Refusal :=
  .violationAfterTrades
    (.totalOutOfRange 2 3 (.ofParts (2 * 10 ^ 15) 14)
      (.ofParts (5 * 10 ^ 13) 14))
    [(Order.ordinary 1 .sell (some (.ofParts 10 0))
        (.ofParts 1 0)).trade interruptingBuy 1
      (.ofParts 10 0) (.ofParts 1 0) (.ofParts 10 0)
      (.ofNanos 0)]

/- The pass of the buyer 3 breaks a contract; that of the
buyer 5 never begins. -/
theorem exists_interrupted :
    ∃ e e',
      (new "BTC-USDT").run? interruptedCalls = some e ∧
      e.submit? interruptingBuy (.ofNanos 0) =
        some (.error interruption, e') ∧
      .ordinaryStop 5 .buy (.ofParts 10 0) (.ofParts 1 0) ∈
        e.book.waiting ∧
      .ordinaryStop 6 .buy (.ofParts 30 0) (.ofParts 1 0) ∈
        e.book.waiting ∧
      (∀ before taker,
        e.Begins interruptingBuy (.ofNanos 0) before taker →
          taker.id ∈ [4, 3]) ∧
      e'.book.get? 5 = none := by
  have hSeen :
      ((new "BTC-USDT").run? interruptedCalls).any
        (fun e =>
          decide
              (.ordinaryStop 5 .buy (.ofParts 10 0)
                  (.ofParts 1 0) ∈ e.book.waiting ∧
                .ordinaryStop 6 .buy (.ofParts 30 0)
                  (.ofParts 1 0) ∈ e.book.waiting) &&
            ((e.book.cascade? interruptingBuy
                (.ofNanos 0)).any fun c =>
              decide
                (c.passes.map (fun p => p.taker.id) =
                  [4, 3])) &&
            (e.submit? interruptingBuy (.ofNanos 0)).any
              fun answered =>
                decide
                  (answered.1 = .error interruption ∧
                    answered.2.book.get? 5 = none)) := by
    decide +kernel
  rcases (Option.any_eq_true _ _).1 hSeen with
    ⟨e, hReach, hAll⟩
  rcases Bool.and_eq_true_iff.1 hAll with ⟨hAll, hEnd⟩
  rcases Bool.and_eq_true_iff.1 hAll with
    ⟨hWaiting, hPasses⟩
  rcases (Option.any_eq_true _ _).1 hPasses with
    ⟨c, hCascade, hIds⟩
  rcases (Option.any_eq_true _ _).1 hEnd with
    ⟨⟨answer, e'⟩, hSubmit, hAnswer⟩
  rcases of_decide_eq_true hAnswer with ⟨hError, hGone⟩
  dsimp only at hError hGone
  subst hError
  rcases of_decide_eq_true hWaiting with ⟨hFifth, hSixth⟩
  refine
    ⟨e, e', hReach, hSubmit, hFifth, hSixth, ?_, hGone⟩
  rintro before taker ⟨_, _, hBegins⟩
  rw [← of_decide_eq_true hIds]
  exact hBegins.id_mem (Book.runQueue?_of_cascade? hCascade)

/- The buyer that no pass releases waits on. -/
theorem holds_iff_not_releases_of_interrupted :
    ∃ e e' w,
      (new "BTC-USDT").run? interruptedCalls = some e ∧
      e.submit? interruptingBuy (.ofNanos 0) =
        some (.error interruption, e') ∧
      interruption.IsViolation ∧ w ∈ e.book.waiting ∧
      (∀ before taker,
        e.Begins interruptingBuy (.ofNanos 0) before taker →
          taker.id ≠ w.id) ∧
      e'.book.halted = true ∧
      (e'.book.Holds w ↔
        ¬ e.Releases interruptingBuy (.ofNanos 0) w) ∧
      (¬ e.Releases interruptingBuy (.ofNanos 0) w →
        w ∈ e'.book.waiting) := by
  rcases exists_interrupted with
    ⟨e, e', hReach, hSubmit, _, hSixth, hBegun, _⟩
  have hIdle :
      ∀ before taker,
        e.Begins interruptingBuy (.ofNanos 0) before taker →
          taker.id ≠ 6 := by
    intro before taker hBegins hId
    have hMem := hBegun before taker hBegins
    rw [hId] at hMem
    revert hMem
    decide
  exact
    ⟨e, e', _, hReach, hSubmit, trivial, hSixth, hIdle,
      holds_iff_not_releases hReach hSubmit trivial hSixth
        hIdle⟩

/- A buyer that waited and whose pass did not begin is gone
after a broken contract. -/
theorem not_holds_of_interrupted :
    ∃ e e' w,
      (new "BTC-USDT").run? interruptedCalls = some e ∧
      e.submit? interruptingBuy (.ofNanos 0) =
        some (.error interruption, e') ∧
      interruption.IsViolation ∧ w ∈ e.book.waiting ∧
      (∀ before taker,
        e.Begins interruptingBuy (.ofNanos 0) before taker →
          taker.id ≠ w.id) ∧
      ¬ e'.book.Holds w := by
  rcases exists_interrupted with
    ⟨e, e', hReach, hSubmit, hFifth, _, hBegun, hGone⟩
  refine
    ⟨e, e', _, hReach, hSubmit, trivial, hFifth, ?_, ?_⟩
  · intro before taker hBegins hId
    have hMem := hBegun before taker hBegins
    rw [hId] at hMem
    revert hMem
    decide
  · rintro ⟨x, hGet, _⟩
    have hNone :
        e'.book.get? (Order.ordinaryStop 5 .buy
          (.ofParts 10 0) (.ofParts 1 0)).id = none :=
      hGone
    rw [hNone] at hGet
    cases hGet

end Engine

end Matchbook
