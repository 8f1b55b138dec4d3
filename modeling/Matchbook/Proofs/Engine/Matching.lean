import Matchbook.Engine.Pass
import Matchbook.Proofs.Meeting

/-
  The course of a matching as a derivation: one case for each
  way in which the taker goes on or stops.

  Key definitions include:
    * `Matching.Runs`
    * `Matching.IsStopped`

  The main statements are:
    * `Matching.runs_of_run?`
    * `Matching.Runs.isStopped`
    * `Matching.Runs.taker_with_filled`
-/

------------------------------------------------------------
-- Derivations
------------------------------------------------------------

namespace Matchbook

namespace Matching

variable {now : Timestamp}
variable {id : UInt64}
variable {makers : List (Entry Order)}
variable {taker : Order}
variable {m : Matching}

/- How a taker comes to a stop among the makers, best one
first, when its next trade has the number `id`. -/
inductive Runs (now : Timestamp) :
    UInt64 → List (Entry Order) → Order → Matching → Prop
  | filled
      {id : UInt64}
      {makers : List (Entry Order)}
      {taker : Order}
      (hFilled : taker.IsFilled) :
      Runs now id makers taker ⟨[], makers, taker, none⟩
  | empty
      {id : UInt64}
      {taker : Order}
      (hOpen : ¬ taker.IsFilled) :
      Runs now id [] taker ⟨[], [], taker, none⟩
  | apart
      {id : UInt64}
      {e : Entry Order}
      {rest : List (Entry Order)}
      {taker : Order}
      (hOpen : ¬ taker.IsFilled)
      (hApart : e.item.IsApartFrom taker) :
      Runs now id (e :: rest) taker
        ⟨[], e :: rest, taker, none⟩
  | broken
      {id : UInt64}
      {e : Entry Order}
      {rest : List (Entry Order)}
      {taker : Order}
      {cause : Violation}
      (hOpen : ¬ taker.IsFilled)
      (hMeet :
        e.item.meet? taker id now = some (.broken cause)) :
      Runs now id (e :: rest) taker
        ⟨[], e :: rest, taker, some cause⟩
  | traded
      {id : UInt64}
      {e : Entry Order}
      {rest : List (Entry Order)}
      {taker : Order}
      {d : Deal}
      {m : Matching}
      (hOpen : ¬ taker.IsFilled)
      (hMeet :
        e.item.meet? taker id now =
          some (.traded d.trade d.maker d.taker))
      (hRest :
        Runs now (id + 1)
          (remaining e.key d.maker rest) d.taker m) :
      Runs now id (e :: rest) taker (m.after d)

theorem run?_of_isFilled
    (hFilled : taker.IsFilled) :
    run? now id makers taker =
      some ⟨[], makers, taker, none⟩ := by
  rw [run?.eq_def, if_pos hFilled]

/- One step of a matching, by the outcome of the meeting. -/
theorem run?_cons
    {e : Entry Order}
    {rest : List (Entry Order)}
    (hOpen : ¬ taker.IsFilled) :
    run? now id (e :: rest) taker =
      match e.item.meet? taker id now with
      | none => none
      | some (.broken cause) =>
          some ⟨[], e :: rest, taker, some cause⟩
      | some .apart => some ⟨[], e :: rest, taker, none⟩
      | some (.traded t maker' taker') =>
          (run? now (id + 1)
            (remaining e.key maker' rest) taker').map
            (after ⟨t, maker', taker'⟩) := by
  rw [run?, if_neg hOpen]
  split <;> rename_i hMeet <;> rw [hMeet]

theorem runs_of_run?
    (h : run? now id makers taker = some m) :
    Runs now id makers taker m := by
  induction id, makers, taker using run?.induct now
    generalizing m with
  | case1 id makers taker hFilled =>
      rw [run?_of_isFilled hFilled] at h
      cases h
      exact Runs.filled hFilled
  | case2 id taker hOpen =>
      rw [run?, if_neg hOpen] at h
      cases h
      exact Runs.empty hOpen
  | case3 id taker hOpen e rest hMeet =>
      rw [run?_cons hOpen, hMeet] at h
      cases h
  | case4 id taker hOpen e rest cause hMeet =>
      rw [run?_cons hOpen, hMeet] at h
      cases h
      exact Runs.broken hOpen hMeet
  | case5 id taker hOpen e rest hMeet =>
      rw [run?_cons hOpen, hMeet] at h
      cases h
      exact
        Runs.apart hOpen (Order.meet?_eq_apart_iff.1 hMeet)
  | case6 id taker hOpen e rest t maker' taker' hMeet ih =>
      rw [run?_cons hOpen, hMeet] at h
      rcases Option.map_eq_some_iff.1 h with
        ⟨m', hRest, rfl⟩
      exact
        Runs.traded (d := ⟨t, maker', taker'⟩) hOpen hMeet
          (ih hRest)

------------------------------------------------------------
-- Where matchings stop
------------------------------------------------------------

/- The reasons for a taker to stop trading. -/
inductive IsStopped (m : Matching) : Prop
  | filled
      (hFilled : m.taker.IsFilled)
      (hIntact : m.violation = none)
  | empty
      (hOpen : ¬ m.taker.IsFilled)
      (hNone : m.makers = [])
      (hIntact : m.violation = none)
  | apart
      {e : Entry Order}
      {rest : List (Entry Order)}
      (hOpen : ¬ m.taker.IsFilled)
      (hMakers : m.makers = e :: rest)
      (hApart : e.item.IsApartFrom m.taker)
      (hIntact : m.violation = none)
  | broken
      {e : Entry Order}
      {rest : List (Entry Order)}
      {cause : Violation}
      {id : UInt64}
      {now : Timestamp}
      (hOpen : ¬ m.taker.IsFilled)
      (hMakers : m.makers = e :: rest)
      (hMeet :
        e.item.meet? m.taker id now = some (.broken cause))
      (hBroken : m.violation = some cause)

theorem Runs.isStopped
    (h : Runs now id makers taker m) :
    m.IsStopped := by
  induction h with
  | filled hFilled => exact .filled hFilled rfl
  | empty hOpen => exact .empty hOpen rfl rfl
  | apart hOpen hApart => exact .apart hOpen rfl hApart rfl
  | broken hOpen hMeet => exact .broken hOpen rfl hMeet rfl
  | traded _ _ _ ih =>
      cases ih with
      | filled hFilled hIntact =>
          exact .filled hFilled hIntact
      | empty hOpen hNone hIntact =>
          exact .empty hOpen hNone hIntact
      | apart hOpen hMakers hApart hIntact =>
          exact .apart hOpen hMakers hApart hIntact
      | broken hOpen hMakers hMeet hBroken =>
          exact .broken hOpen hMakers hMeet hBroken

/- The filled quantity is all that changes of a taker. -/
theorem Runs.taker_with_filled
    (h : Runs now id makers taker m) :
    m.taker = { taker with filled := m.taker.filled } := by
  induction h with
  | filled => rfl
  | empty => rfl
  | apart => rfl
  | broken => rfl
  | traded _ hMeet _ ih =>
      have hStruck := (Deal.isStruck_of_meet? hMeet).1
      change _ = _ at ih
      rw [hStruck.taker_with_filled] at ih
      exact ih

end Matching

end Matchbook
