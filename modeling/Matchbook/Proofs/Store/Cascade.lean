import Matchbook.Proofs.Engine.Succession
import Matchbook.Proofs.Store.Trading

/-
  Cascades against a store.

  A sweep takes the released orders out of their slots one by
  one, each one found by its own key.  It leaves what the
  release of the book leaves, so that the whole cascade goes
  as it does in the book.

  Key definitions include:
    * `Pass.answer`

  The main statements are:
    * `Store.Represents.removeSlots?`
    * `Store.Represents.sweepAfter?`
    * `Store.Represents.rel_drain?`
    * `Store.Represents.rel_cascade?`
-/

------------------------------------------------------------
-- Several slots
------------------------------------------------------------

namespace Matchbook

namespace Store

variable {σ : Type} [Slots σ]
variable {s s₁ s₂ : Store σ}
variable {side : Side} {policy : Policy}
variable {k : Nat}
variable {slots : List Nat}

theorem Spares.cons
    (h : s.Spares side policy [k] s₁)
    (hRest : s₁.Spares side policy slots s₂) :
    s.Spares side policy (k :: slots) s₂ where
  slots_eq := by
    intro j hj
    rw [List.mem_cons, not_or] at hj
    rw [hRest.slots_eq j hj.2,
      h.slots_eq j (by simpa using hj.1)]
  ladder_eq := by
    intro side' policy' hNe
    rw [hRest.ladder_eq side' policy' hNe,
      h.ladder_eq side' policy' hNe]

theorem removeSlots?_append
    (slots' : List Nat) :
    Store.removeSlots? policy (slots ++ slots') s =
      (Store.removeSlots? policy slots s).bind
        fun (os, s') =>
          (Store.removeSlots? policy slots' s').map
            fun (os', s'') => (os ++ os', s'') := by
  induction slots generalizing s with
  | nil =>
      simp [Store.removeSlots?]
  | cons k slots ih =>
      simp only [List.cons_append, Store.removeSlots?, ih,
        Option.bind_eq_bind, Option.map_eq_bind,
        Option.bind_assoc, Function.comp_def,
        Option.bind_some]

namespace Represents

variable {b : Book}

/- A change of the slot of one entry is none for the slots of
the other ones: no two orders have the same id. -/
theorem map_get?_of_spares
    {low high taken : List (Entry Order)}
    {e : Entry Order}
    (h : s.Represents b)
    (hk : Slots.get? s.slots k = some e.item)
    (hSplit :
      (b.ladder side policy).ascending =
        low ++ e :: high)
    (hSpares : s.Spares side policy [k] s₁)
    (hOthers : ∀ e' ∈ taken, e' ∈ low ++ high)
    (hSlots :
      slots.map (Slots.get? s.slots) =
        taken.map fun e => some e.item) :
    slots.map (Slots.get? s₁.slots) =
      taken.map fun e => some e.item := by
  rw [← hSlots]
  refine List.map_congr_left fun j hj => ?_
  refine hSpares.slots_eq j fun hSame => ?_
  rw [List.mem_singleton.1 hSame] at hj
  have hHeld :
      Slots.get? s.slots k ∈
        taken.map fun e => some e.item := by
    rw [← hSlots]
    exact List.mem_map_of_mem hj
  rcases List.mem_map.1 hHeld with ⟨e', he', hEq⟩
  exact
    h.off_of_split hk hSplit e' (hOthers e' he') hEq.symm

variable [LawfulSlots σ]

/-
  The slots of the best orders of a ladder can be vacated one
  after the other.  By induction on the slots; the entries
  that are still to go are those that the ladder has left.
-/
theorem removeSlots?
    {taken stay : List (Entry Order)}
    (h : s.Represents b)
    (hRanked : b.IsRanked)
    (hSlots :
      slots.map (Slots.get? s.slots) =
        taken.map fun e => some e.item)
    (hSplit :
      (b.ladder side policy).ascending =
        taken.reverse ++ stay) :
    ∃ s',
      Store.removeSlots? policy slots s =
          some (taken.map Entry.item, s') ∧
        s'.Represents
          (b.withLadder
            (⟨stay⟩ : Ladder side policy Order)) ∧
        s.Spares side policy slots s' := by
  induction slots generalizing s b taken with
  | nil =>
      have hNone := List.map_eq_nil_iff.1 hSlots.symm
      subst hNone
      have hSame : b.ladder side policy = ⟨stay⟩ :=
        congrArg Ladder.mk hSplit
      refine ⟨s, rfl, ?_, ?_⟩
      · rw [← hSame, Book.withLadder_ladder]
        exact h
      · exact ⟨fun _ _ => rfl, fun _ _ _ => rfl⟩
  | cons k slots ih =>
      rcases List.map_eq_cons_iff.1 hSlots.symm with
        ⟨e, taken, rfl, hk, hRest⟩
      rw [List.reverse_cons, List.append_assoc,
        List.singleton_append] at hSplit
      rcases h.removeSlot? hRanked hk.symm hSplit with
        ⟨s₁, hFirst, hAfter, hSpares⟩
      have hLess :
          (taken.reverse ++ stay).Sublist
            (b.ladder side policy).ascending := by
        rw [hSplit]
        exact
          (List.Sublist.refl _).append
            (List.sublist_cons_self _ _)
      have hOthers :
          ∀ e' ∈ taken, e' ∈ taken.reverse ++ stay :=
        fun e' he' =>
          List.mem_append_left _ (List.mem_reverse.2 he')
      rcases
          ih hAfter
            (hRanked.withLadder
              ((hRanked side policy).of_sublist hLess))
            (h.map_get?_of_spares hk.symm hSplit hSpares
              hOthers hRest.symm)
            (congrArg Ladder.ascending
              (Book.ladder_withLadder_self b _)) with
        ⟨s₂, hNext, hHolds, hSpares'⟩
      rw [Book.withLadder_withLadder] at hHolds
      refine ⟨s₂, ?_, hHolds, hSpares.cons hSpares'⟩
      unfold Store.removeSlots?
      rw [hFirst]
      change (Store.removeSlots? policy slots s₁).map _ = _
      rw [hNext]
      rfl

/- The triggered orders of one side are taken out. -/
theorem removeTriggered?
    (h : s.Represents b)
    (hRanked : b.IsRanked)
    (side : Side)
    (last : Decimal) :
    ∃ s',
      Store.removeSlots? .stop
            ((s.ladder side .stop).triggered last) s =
          some ((b.ladder side .stop).triggered last, s') ∧
        s'.Represents
          (b.withLadder
            ((b.ladder side .stop).release last)) ∧
        s.Spares side .stop
          ((s.ladder side .stop).triggered last) s' := by
  have hSlots :=
    Ladder.map_triggered (Slots.get? s.slots)
      (s.ladder side .stop) last
  rw [h.ladder_eq, Ladder.map_triggered] at hSlots
  refine h.removeSlots? hRanked ?_ ?_
  · rw [← hSlots]
    unfold Ladder.triggered
    rw [List.map_map]
    rfl
  · rw [List.reverse_reverse]
    exact List.takeWhile_append_dropWhile.symm

end Represents

end Store

namespace Book

variable {b : Book}

theorem release_of_none
    (h : b.lastPrice = none) :
    b.release = ([], b) := by
  unfold release
  rw [h]

theorem release_of_some
    {last : Decimal}
    (h : b.lastPrice = some last) :
    b.release =
      (b.stopBids.triggered last ++
          b.stopAsks.triggered last,
        (b.withLadder (b.stopBids.release last)).withLadder
          (b.stopAsks.release last)) := by
  unfold release withLadder
  rw [h]

end Book

namespace Store.Represents

variable {σ : Type} [Slots σ] [LawfulSlots σ]
variable {s : Store σ}
variable {b : Book}

/- A sweep takes out what the release of the book takes
out. -/
theorem sweep?
    (h : s.Represents b)
    (hRanked : b.IsRanked) :
    ∃ s', s.sweep? = some (b.release.1, s') ∧
      s'.Represents b.release.2 := by
  unfold Store.sweep?
  rw [h.lastPrice_eq]
  cases hLast : b.lastPrice with
  | none =>
      rw [Book.release_of_none hLast]
      exact ⟨s, rfl, h⟩
  | some last =>
      rw [Book.release_of_some hLast]
      rcases h.removeTriggered? hRanked .buy last with
        ⟨s₁, hBids, hAfter, hSpares⟩
      have hRanked' :=
        hRanked.withLadder
          ((hRanked .buy .stop).of_sublist
            (Ladder.sublist_release _ last))
      rcases hAfter.removeTriggered? hRanked' .sell last with
        ⟨s₂, hAsks, hHolds, _⟩
      have hSame : s₁.stopAsks = s.stopAsks :=
        hSpares.ladder_eq .sell .stop (by simp)
      refine ⟨s₂, ?_, hHolds⟩
      change
        Store.removeSlots? .stop
            ((s.ladder .buy .stop).triggered last ++
              s.stopAsks.triggered last) s = _
      rw [removeSlots?_append, hBids, Option.bind_some,
        ← hSame]
      change
        (Store.removeSlots? .stop
          ((s₁.ladder .sell .stop).triggered last) s₁).map
            _ = _
      rw [hAsks]
      rfl

/- The store is swept if the pass has traded. -/
theorem sweepAfter?
    (h : s.Represents b)
    (hRanked : b.IsRanked)
    (p : Pass)
    (trades : List Trade) :
    ∃ s',
      s.sweepAfter? trades (trades ++ p.trades) =
          some ((b.releaseAfter p).1, s') ∧
        s'.Represents (b.releaseAfter p).2 := by
  unfold Store.sweepAfter? Book.releaseAfter
  cases p.trades with
  | nil =>
      rw [List.append_nil, if_neg (Nat.lt_irrefl _)]
      exact ⟨s, rfl, h⟩
  | cons t ts =>
      have hMore :
          trades.length < (trades ++ t :: ts).length := by
        simp
      rw [if_pos hMore]
      exact h.sweep? hRanked

end Store.Represents

------------------------------------------------------------
-- Queues
------------------------------------------------------------

/- The taker of a pass keeps its id. -/
theorem takerId_of_pass?
    {b b' : Book}
    {o : Order}
    {now : Timestamp}
    {p : Pass}
    (h : b.pass? o.activate now = some (p, b')) :
    p.taker.id = o.id :=
  Stage.takerId_eq (s := ⟨b, p, b'⟩) h

namespace Pass

/- The answer after some passes: the first broken contract
refuses. -/
def answer (passes : List Pass) : Except Refusal Unit :=
  match passes.findSome? violation with
  | some cause => .error (.violation cause)
  | none => .ok ()

theorem answer_cons
    {p : Pass}
    (h : p.violation = none)
    (passes : List Pass) :
    answer (p :: passes) = answer passes := by
  unfold answer
  rw [List.findSome?_cons, h]

/- A broken contract refuses the taker of its pass. -/
theorem disposition_eq_error
    {p : Pass}
    {cause : Violation}
    (h : p.violation = some cause) :
    p.ending.disposition = .error cause := by
  unfold violation at h
  split at h
  · rename_i hEnding
    cases h
    rw [hEnding]
    rfl
  · cases h

theorem ending_answer_eq_error
    {p : Pass}
    {cause : Violation}
    (h : p.violation = some cause) :
    p.ending.answer = .error (.violation cause) := by
  unfold Ending.answer
  rw [disposition_eq_error h]
  rfl

theorem ending_answer_eq_ok
    {p : Pass}
    {disposition : Disposition}
    (h : p.ending.disposition = .ok disposition) :
    p.ending.answer = .ok disposition := by
  unfold Ending.answer
  rw [h]
  rfl

end Pass

namespace Store.Represents

variable {σ : Type} [Slots σ] [LawfulSlots σ]
variable {s : Store σ}
variable {b : Book}
variable {now : Timestamp}

/-
  Released orders are executed in a store as they are in the
  book.  By induction on the execution of the queue; after
  each pass the released orders are in flight.
-/
theorem rel_drain?
    {queue : List Order}
    (h : s.Represents b)
    (hOrderly : Floor.IsOrderly ⟨b, queue⟩)
    (trades : List Trade)
    (triggered : List UInt64) :
    Option.Rel
      (fun x y =>
        x.1 = Pass.answer y.1 ∧
          x.2.1 = trades ++ y.1.flatMap Pass.trades ∧
            x.2.2.1 =
                triggered ++ y.1.map (·.taker.id) ∧
              x.2.2.2.Represents y.2 ∧
                Floor.IsOrderly ⟨y.2, []⟩)
      (s.drain? now queue trades triggered)
      (Book.runQueue? now queue b) := by
  induction queue, b using Book.runQueue?.induct now
    generalizing s trades triggered with
  | case1 b =>
      rw [drain?, Book.runQueue?]
      refine .some ⟨rfl, ?_, ?_, h, hOrderly⟩
      · exact (List.append_nil trades).symm
      · exact (List.append_nil triggered).symm
  | case2 b o rest hPass =>
      rw [drain?, Book.runQueue?_cons, hPass,
        h.execute?_eq_none hOrderly.activate hPass]
      exact .none
  | case3 b o rest p b' hPass hBroken =>
      rcases Option.isSome_iff_exists.1 hBroken with
        ⟨cause, hCause⟩
      rcases
          h.exists_execute? hOrderly.activate hPass trades with
        ⟨s', hExecute, hHolds, hFloor⟩
      rw [Pass.ending_answer_eq_error hCause] at hExecute
      rw [drain?, Book.runQueue?_cons, hPass, hExecute]
      dsimp only [Option.bind_eq_bind, Option.bind_some]
      rw [if_pos hBroken]
      refine .some ⟨?_, ?_, ?_, hHolds, hFloor.ground⟩
      · simp [Pass.answer, hCause]
      · simp
      · simp [takerId_of_pass? hPass]
  | case4 b o rest p b' hPass hIntact ih =>
      have hNone : p.violation = none := by
        simpa using hIntact
      rcases Pass.exists_disposition hNone with
        ⟨disposition, hEnding⟩
      rcases
          h.exists_execute? hOrderly.activate hPass trades with
        ⟨s', hExecute, hHolds, hFloor⟩
      rcases hHolds.sweepAfter? hFloor.isRanked p trades with
        ⟨s'', hSweep, hAfter⟩
      rw [Pass.ending_answer_eq_ok hEnding] at hExecute
      rw [drain?, Book.runQueue?_cons, hPass, hExecute]
      dsimp only [Option.bind_eq_bind, Option.bind_some]
      rw [if_neg hIntact, hSweep]
      dsimp only [Option.bind_some]
      refine
        relMapRight
          (ih hAfter (hFloor.releaseAfter p)
            (trades ++ p.trades) (triggered ++ [o.id])) ?_
      rintro x ⟨passes, b''⟩
        ⟨hDrained, hTold, hIds, hEnd, hGround⟩
      refine ⟨?_, ?_, ?_, hEnd, hGround⟩
      · rw [hDrained, Pass.answer_cons hNone]
      · rw [hTold, List.append_assoc]
        rfl
      · rw [hIds, List.append_assoc,
          ← takerId_of_pass? hPass]
        rfl

end Store.Represents

------------------------------------------------------------
-- Cascades
------------------------------------------------------------

namespace Cascade

/- What has come of the order that set off a cascade. -/
def tally (c : Cascade) : Tally where
  outcome :=
    (c.outcome.map Report.disposition).mapError .violation
  trades := c.trades
  triggered := c.others.map (·.taker.id)

theorem tally_of_broken
    {p : Pass}
    {cause : Violation}
    (h : p.violation = some cause)
    (b : Book) :
    tally ⟨p, [], b⟩ =
      ⟨.error (.violation cause), p.trades, []⟩ := by
  unfold tally outcome
  rw [Pass.disposition_eq_error h]
  simp [trades, passes, Except.map, Except.mapError]

theorem tally_of_intact
    {p : Pass}
    {disposition : Disposition}
    (h : p.violation = none)
    (hEnding : p.ending.disposition = .ok disposition)
    (others : List Pass)
    (b : Book) :
    tally ⟨p, others, b⟩ =
      ⟨(Pass.answer others).map fun _ => disposition,
        p.trades ++ others.flatMap Pass.trades,
        others.map (·.taker.id)⟩ := by
  have hSame :
      violation ⟨p, others, b⟩ =
        others.findSome? Pass.violation := by
    simp [violation, passes, h]
  unfold tally outcome Pass.answer
  rw [hEnding, hSame]
  cases others.findSome? Pass.violation <;>
    simp [trades, passes, Except.map, Except.mapError]

end Cascade

namespace Store.Represents

variable {σ : Type} [Slots σ] [LawfulSlots σ]
variable {s : Store σ}
variable {b : Book}
variable {o : Order}

/- An order sets off in a store what it sets off in the
book. -/
theorem rel_cascade?
    (h : s.Represents b)
    (hOrderly : Floor.IsOrderly ⟨b, [o]⟩)
    (now : Timestamp) :
    Option.Rel
      (fun x c =>
        x.1 = c.tally ∧ x.2.Represents c.book ∧
          c.first.taker.id = o.id ∧
            Floor.IsOrderly ⟨c.book, []⟩)
      (s.cascade? o now) (b.cascade? o now) := by
  unfold Store.cascade? Book.cascade?
  cases hPass : b.pass? o.activate now with
  | none =>
      rw [h.execute?_eq_none hOrderly.activate hPass]
      exact .none
  | some r =>
      rcases r with ⟨p, b'⟩
      have hId := takerId_of_pass? hPass
      rcases h.exists_execute? hOrderly.activate hPass [] with
        ⟨s', hExecute, hHolds, hFloor⟩
      rw [List.nil_append] at hExecute
      cases hViolation : p.violation with
      | some cause =>
          rw [Pass.ending_answer_eq_error hViolation]
            at hExecute
          rw [hExecute]
          dsimp only [Option.bind_eq_bind, Option.bind_some]
          rw [hViolation]
          refine .some ⟨?_, hHolds, hId, hFloor⟩
          exact (Cascade.tally_of_broken hViolation b').symm
      | none =>
          rcases Pass.exists_disposition hViolation with
            ⟨disposition, hEnding⟩
          rcases hHolds.sweepAfter? hFloor.isRanked p [] with
            ⟨s'', hSweep, hAfter⟩
          rw [List.nil_append] at hSweep
          rw [Pass.ending_answer_eq_ok hEnding] at hExecute
          rw [hExecute]
          dsimp only [Option.bind_eq_bind, Option.bind_some]
          rw [hViolation, hSweep]
          dsimp only [Option.bind_some]
          refine
            relMap
              (hAfter.rel_drain? (hFloor.releaseAfter p)
                p.trades []) ?_
          rintro ⟨drained, trades', triggered, s₃⟩
            ⟨others, b''⟩
            ⟨hDrained, hTold, hIds, hEnd, hGround⟩
          dsimp only at hDrained hTold hIds
          refine ⟨?_, hEnd, hId, hGround⟩
          dsimp only
          rw [Cascade.tally_of_intact hViolation hEnding,
            hDrained, hTold, hIds, List.nil_append]

end Store.Represents

end Matchbook
