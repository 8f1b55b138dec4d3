import Matchbook.Proofs.Engine.Makers
import Matchbook.Proofs.Engine.Queue

/-
  Plain orders.

  An engine leaves only plain orders to rest: what has to
  trade at once is discarded, and what has waited for its stop
  price has lost it.

  Key definitions include:
    * `Order.IsPlain`
    * `Book.IsPlain`

  The main statements are:
    * `Book.IsPlain.pass?`
    * `Engine.isPlain_submit?`
    * `Engine.isPlain_cancel`
-/

------------------------------------------------------------
-- Plain books
------------------------------------------------------------

namespace Matchbook

/- Whether an order may rest and does not wait for a stop
price. -/
def Order.IsPlain (o : Order) : Prop :=
  o.immediateOrCancel = false ∧ o.stopPrice = none

namespace Book

/- A book whose active orders are all plain. -/
def IsPlain (b : Book) : Prop :=
  ∀ side, ∀ e ∈ (b.ladder side .price).ascending,
    e.item.IsPlain

theorem isPlain_new (symbol : String) :
    (new symbol).IsPlain := by
  intro side e he
  cases side <;> cases he

variable {b b' : Book}
variable {o taker : Order}
variable {side : Side} {policy : Policy}

/- A ladder may be replaced by one whose orders are plain if
they are active. -/
theorem IsPlain.withLadder
    (h : b.IsPlain)
    {l : Ladder side policy Order}
    (hLadder :
      policy = .price → ∀ e ∈ l.ascending, e.item.IsPlain) :
    (b.withLadder l).IsPlain := by
  intro side' e he
  by_cases hSame : (side, policy) = (side', .price)
  · cases hSame
    rw [ladder_withLadder_self] at he
    exact hLadder rfl e he
  · rw [ladder_withLadder_of_ne b l hSame] at he
    exact h side' e he

theorem IsPlain.place
    (h : b.IsPlain)
    (hPlain : policy = .price → o.IsPlain)
    (hPlace : b.place policy o = .ok b') :
    b'.IsPlain := by
  rcases place_eq_ok hPlace with ⟨l, hInsert, rfl⟩
  rcases Ladder.insert_eq_ok hInsert with ⟨key, _, rfl⟩
  refine h.withLadder ?_
  rintro rfl e he
  rcases Ladder.item_mem_of_mem_place he with hNew | hOld
  · rw [hNew]
    exact hPlain rfl
  · exact h o.side e hOld

theorem IsPlain.cancel?
    {id : UInt64}
    (h : b.IsPlain)
    (hCancel : b.cancel? id = some (o, b')) :
    b'.IsPlain := by
  rcases cancel?_eq_some hCancel with
    ⟨side, policy, l, hSub, rfl⟩
  refine h.withLadder ?_
  rintro rfl e he
  exact h side e (hSub.subset he)

theorem IsPlain.release
    (h : b.IsPlain) :
    b.release.2.IsPlain := by
  intro side e he
  unfold Book.release at he
  split at he
  · exact h side e he
  · cases side <;> exact h _ e he

------------------------------------------------------------
-- Passes
------------------------------------------------------------

/- Active orders may be replaced by plain ones. -/
theorem IsPlain.settle
    {m : Matching}
    (h : b.IsPlain)
    (hMakers : ∀ e ∈ m.makers, e.item.IsPlain) :
    (b.settle side m).IsPlain := by
  intro side' e he
  rw [ladder_settle] at he
  refine h.withLadder ?_ side' e he
  intro _ e he
  exact hMakers e (List.mem_reverse.1 he)

/- A taker that has to trade at once does not rest. -/
theorem IsPlain.finish?
    {ending : Ending}
    (h : b.IsPlain)
    (hStop : taker.stopPrice = none)
    (hFinish : b.finish? taker = some (ending, b')) :
    b'.IsPlain := by
  unfold Book.finish? at hFinish
  split at hFinish
  · cases hFinish
    exact h
  rcases Option.map_eq_some_iff.1 hFinish with
    ⟨remaining, _, hEnd⟩
  split at hEnd
  · cases hEnd
    exact h
  rename_i hKeep
  split at hEnd
  · rename_i hPlace
    cases hEnd
    refine h.place (fun _ => ⟨?_, hStop⟩) hPlace
    simpa using (not_or.1 hKeep).1
  · cases hEnd
    exact h

end Book

namespace Matching

variable {now : Timestamp}
variable {id : UInt64}
variable {makers : List (Entry Order)}
variable {taker : Order}
variable {m : Matching}

/- A matching leaves plain makers plain. -/
theorem Runs.isPlain
    (h : Runs now id makers taker m)
    (hPlain : ∀ e ∈ makers, e.item.IsPlain) :
    ∀ e ∈ m.makers, e.item.IsPlain := by
  induction h with
  | filled => exact hPlain
  | empty => exact hPlain
  | apart => exact hPlain
  | broken => exact hPlain
  | traded _ hMeet _ ih =>
      apply ih
      intro e' he'
      have hStruck := (Deal.isStruck_of_meet? hMeet).1
      rcases hStruck.with_filled_of_mem_remaining he' with
        ⟨e, he, hSame⟩
      rw [hSame]
      exact hPlain e he

end Matching

namespace Book

variable {b b' : Book}
variable {taker : Order}
variable {now : Timestamp}

/- A pass of an order without a stop price leaves a plain book
plain. -/
theorem IsPlain.pass?
    {p : Pass}
    (h : b.IsPlain)
    (hStop : taker.stopPrice = none)
    (hPass : b.pass? taker now = some (p, b')) :
    b'.IsPlain := by
  unfold Book.pass? at hPass
  rcases Option.bind_eq_some_iff.1 hPass with
    ⟨m, hRun, hEnd⟩
  have hRuns := Matching.runs_of_run? hRun
  have hSettled :
      (b.settle taker.side.opposite m).IsPlain := by
    refine h.settle (hRuns.isPlain ?_)
    intro e he
    exact h _ e (List.mem_reverse.1 he)
  dsimp only at hEnd
  split at hEnd
  · cases hEnd
    exact hSettled
  · rcases Option.map_eq_some_iff.1 hEnd with
      ⟨⟨ending, b''⟩, hFinish, hEq⟩
    cases hEq
    refine hSettled.finish? ?_ hFinish
    rw [hRuns.taker_with_filled]
    exact hStop

theorem IsPlain.releaseAfter
    (h : b.IsPlain)
    (p : Pass) :
    (b.releaseAfter p).2.IsPlain := by
  unfold Book.releaseAfter
  split
  · exact h
  · exact h.release

/- A queue of orders leaves a plain book plain: each of them
loses its stop price before its pass. -/
theorem IsPlain.runQueue?
    {queue : List Order}
    {passes : List Pass}
    (h : b.IsPlain)
    (hRun : runQueue? now queue b = some (passes, b')) :
    b'.IsPlain := by
  induction queue, b using Book.runQueue?.induct now
    generalizing passes b' with
  | case1 b =>
      rw [Book.runQueue?] at hRun
      cases hRun
      exact h
  | case2 b o rest hPass =>
      rw [runQueue?_cons, hPass] at hRun
      cases hRun
  | case3 b o rest p b₁ hPass hBroken =>
      rw [runQueue?_cons, hPass] at hRun
      simp only [hBroken, if_true] at hRun
      cases hRun
      exact h.pass? rfl hPass
  | case4 b o rest p b₁ hPass hIntact ih =>
      rw [runQueue?_cons, hPass] at hRun
      simp only [hIntact, Bool.false_eq_true, if_false]
        at hRun
      rcases Option.map_eq_some_iff.1 hRun with
        ⟨⟨others, b₂⟩, hRest, hEq⟩
      cases hEq
      exact ih ((h.pass? rfl hPass).releaseAfter p) hRest

end Book

------------------------------------------------------------
-- Engines
------------------------------------------------------------

namespace Engine

variable {e e' : Engine}
variable {o : Order}
variable {now : Timestamp}
variable {answer : Except Refusal Report}

/- What is taken in waits or ends as a plain order. -/
theorem isPlain_admit?
    (h : e.book.IsPlain)
    (hAdmit : e.admit? o now = some (answer, e')) :
    e'.book.IsPlain := by
  unfold admit? at hAdmit
  dsimp only at hAdmit
  split at hAdmit
  · have hPark := Option.some.inj hAdmit
    unfold park at hPark
    split at hPark
    · rename_i hPlace
      cases hPark
      have hWaits : Policy.stop = .price → o.IsPlain := by
        intro hPrice
        cases hPrice
      exact h.place hWaits hPlace
    · cases hPark
      exact h
  · unfold execute? at hAdmit
    rcases Option.map_eq_some_iff.1 hAdmit with
      ⟨c, hCascade, hOutcome⟩
    have hPlain : c.book.IsPlain :=
      h.runQueue? (Book.runQueue?_of_cascade? hCascade)
    dsimp only at hOutcome
    split at hOutcome
    · cases hOutcome
      exact hPlain
    · cases hOutcome
      exact hPlain

theorem isPlain_submit?
    (h : e.book.IsPlain)
    (hSubmit : e.submit? o now = some (answer, e')) :
    e'.book.IsPlain := by
  by_cases hIn : e.TakesIn o
  · rw [submit?_of_takesIn now hIn] at hSubmit
    exact isPlain_admit? h hSubmit
  · rcases submit?_of_not_takesIn hIn hSubmit with
      ⟨rfl, _⟩ | ⟨_, hBreak⟩
    · exact h
    · cases hBreak
      exact h

theorem isPlain_cancel
    (h : e.book.IsPlain)
    (id : UInt64) :
    (e.cancel id).2.book.IsPlain := by
  unfold cancel
  split
  · exact h
  · split
    · exact h
    · rename_i hCancel
      exact h.cancel? hCancel

end Engine

end Matchbook
