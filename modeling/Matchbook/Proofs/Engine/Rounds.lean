import Matchbook.Proofs.Engine.Queue
import Matchbook.Proofs.Engine.Present

/-
  The loops behind a submission, one round after the other: a
  round takes the next order from the queue, lets the taker
  meet the best maker, or ends a pass and releases what it has
  to.

  Nothing about a round says that there is a last one.  What
  the rounds come to, if they end, is what the passes come to.

  Key definitions include:
    * `Book.meetBest?`
    * `Progress`
    * `Progress.round`
    * `Progress.Ends`
    * `Progress.Reaches`
    * `Progress.Moves`

  The main statements are:
    * `Book.pass?_eq`
    * `Progress.result?_round`
    * `Progress.moves_of_round`
-/

------------------------------------------------------------
-- One round of a pass
------------------------------------------------------------

namespace Matchbook

namespace Book

variable {b b' : Book} {taker : Order} {now : Timestamp}
variable {e : Entry Order} {rest : List (Entry Order)}

/- The meeting of a taker with the best maker, who are apart
if there is none or the taker is filled. -/
def meetBest?
    (b : Book)
    (taker : Order)
    (now : Timestamp) : Option Meeting :=
  if taker.IsFilled then
    some .apart
  else
    match
      (b.ladder taker.side.opposite .price).byPriority with
    | [] => some .apart
    | e :: _ => e.item.meet? taker b.nextTradeId now

/- The book after a deal with the best maker of a side. -/
def strike
    (b : Book)
    (side : Side)
    (d : Deal) : Book :=
  match (b.ladder side .price).byPriority with
  | [] => b
  | e :: rest =>
      b.settle side
        ⟨[d], Matching.remaining e.key d.maker rest, d.taker,
          none⟩

/- A meeting of a taker that goes on is one with the first
entry of a ladder. -/
theorem exists_cons_of_meetBest?
    {t : Trade}
    {maker' taker' : Order}
    (h :
      b.meetBest? taker now =
        some (.traded t maker' taker')) :
    ¬ taker.IsFilled ∧
      ∃ e rest,
        (b.ladder taker.side.opposite .price).byPriority =
            e :: rest ∧
          e.item.meet? taker b.nextTradeId now =
            some (.traded t maker' taker') := by
  unfold meetBest? at h
  split at h
  · cases h
  rename_i hOpen
  refine ⟨hOpen, ?_⟩
  split at h
  · cases h
  · rename_i e rest hMakers
    exact ⟨e, rest, hMakers, h⟩

/- A taker that does not go on is finished as it came. -/
theorem pass?_of_run?_nil
    (hRun :
      Matching.run? now b.nextTradeId
          (b.ladder taker.side.opposite .price).byPriority
          taker =
        some
          ⟨[], (b.ladder taker.side.opposite
            .price).byPriority, taker, none⟩) :
    b.pass? taker now =
      (b.finish? taker).map fun (ending, b') =>
        (⟨taker, [], ending⟩, b') := by
  unfold pass?
  dsimp only
  rw [hRun, Option.bind_some]
  dsimp only
  rw [Floor.settle_nil]

/- A taker that trades goes on after the deal, on the book
that the deal leaves. -/
theorem pass?_of_traded
    {d : Deal}
    (hOpen : ¬ taker.IsFilled)
    (hMakers :
      (b.ladder taker.side.opposite .price).byPriority =
        e :: rest)
    (hMeet :
      e.item.meet? taker b.nextTradeId now =
        some (.traded d.trade d.maker d.taker)) :
    b.pass? taker now =
      ((b.strike taker.side.opposite d).pass? d.taker
        now).map
        fun (p, b') =>
          ({ p with deals := d :: p.deals }, b') := by
  rcases Deal.isStruck_of_meet? hMeet with ⟨hStruck, hId⟩
  have hSide : d.taker.side = taker.side := by
    rw [hStruck.taker_with_filled]
  have hStrike :
      b.strike taker.side.opposite d =
        b.settle taker.side.opposite
          ⟨[d], Matching.remaining e.key d.maker rest,
            d.taker, none⟩ := by
    unfold strike
    rw [hMakers]
  have hNext :
      (b.settle taker.side.opposite
        ⟨[d], Matching.remaining e.key d.maker rest, d.taker,
          none⟩).nextTradeId = b.nextTradeId + 1 := by
    rw [← hId]
    rfl
  unfold pass?
  dsimp only
  rw [hStrike, hSide, hMakers, Matching.run?_cons hOpen,
    hMeet, hNext, byPriority_settle]
  dsimp only
  rw [Option.bind_map, Option.map_bind]
  apply Option.bind_congr
  intro m _
  dsimp only [Function.comp_apply]
  rw [Floor.settle_settle]
  unfold Matching.after
  cases m.violation with
  | some cause => rfl
  | none =>
      dsimp only
      rw [Option.map_map]
      rfl

/- A pass, by the outcome of its first meeting. -/
theorem pass?_eq
    (b : Book)
    (taker : Order)
    (now : Timestamp) :
    b.pass? taker now =
      match b.meetBest? taker now with
      | none => none
      | some (.broken cause) =>
          some (⟨taker, [], .broken cause⟩, b)
      | some .apart =>
          (b.finish? taker).map fun (ending, b') =>
            (⟨taker, [], ending⟩, b')
      | some (.traded t maker' taker') =>
          ((b.strike taker.side.opposite
              ⟨t, maker', taker'⟩).pass? taker' now).map
            fun (p, b') =>
              ({ p with
                deals := ⟨t, maker', taker'⟩ :: p.deals },
                b') := by
  by_cases hFilled : taker.IsFilled
  · unfold meetBest?
    rw [if_pos hFilled]
    exact
      pass?_of_run?_nil (Matching.run?_of_isFilled hFilled)
  cases hMakers :
      (b.ladder taker.side.opposite .price).byPriority with
  | nil =>
      unfold meetBest?
      rw [if_neg hFilled, hMakers]
      apply pass?_of_run?_nil
      rw [hMakers, Matching.run?, if_neg hFilled]
  | cons e rest =>
      unfold meetBest?
      rw [if_neg hFilled, hMakers]
      dsimp only
      cases hMeet : e.item.meet? taker b.nextTradeId now with
      | none =>
          change b.pass? taker now = none
          unfold pass?
          dsimp only
          rw [hMakers, Matching.run?_cons hFilled, hMeet]
          rfl
      | some met =>
          cases met with
          | broken cause =>
              change
                b.pass? taker now =
                  some (⟨taker, [], .broken cause⟩, b)
              unfold pass?
              dsimp only
              rw [hMakers, Matching.run?_cons hFilled, hMeet]
              dsimp only
              rw [Option.bind_some, ← hMakers]
              dsimp only
              rw [Floor.settle_nil]
          | apart =>
              apply pass?_of_run?_nil
              rw [hMakers, Matching.run?_cons hFilled, hMeet]
          | traded t maker' taker' =>
              exact
                pass?_of_traded (d := ⟨t, maker', taker'⟩)
                  hFilled hMakers hMeet

end Book

------------------------------------------------------------
-- Rounds
------------------------------------------------------------

/-
  How far the execution of a submission has come: the passes
  that have ended, the book, the released orders whose pass
  has not begun, and the taker of the pass that is under way
  with its deals so far.
-/
structure Progress where
  past : List Pass
  book : Book
  queue : List Order
  current : Option (Order × List Deal)
deriving DecidableEq

/- What a round leads to: to the next one, or to an end with
the passes and the book, which is `none` for a number out of
range. -/
inductive Round where
  | next (g : Progress)
  | ended (result : Option (List Pass × Book))
deriving DecidableEq

namespace Progress

/- Where the execution of an order begins. -/
def start (b : Book) (o : Order) : Progress :=
  ⟨[], b, [o], none⟩

/- The end of a pass: what it releases queues up, unless it
has met a broken contract. -/
def endPass
    (g : Progress)
    (p : Pass)
    (b : Book) : Round :=
  if p.violation.isSome then
    .ended (some (g.past ++ [p], b))
  else
    .next
      { past := g.past ++ [p]
        book := (b.releaseAfter p).2
        queue := g.queue ++ (b.releaseAfter p).1
        current := none }

/- One round of the loops. -/
def round (now : Timestamp) (g : Progress) : Round :=
  match g.current, g.queue with
  | none, [] => .ended (some (g.past, g.book))
  | none, o :: rest =>
      .next
        { g with
          queue := rest
          current := some (o.activate, []) }
  | some (taker, deals), _ =>
      match g.book.meetBest? taker now with
      | none => .ended none
      | some (.broken cause) =>
          g.endPass ⟨taker, deals, .broken cause⟩ g.book
      | some .apart =>
          match g.book.finish? taker with
          | none => .ended none
          | some (ending, b) =>
              g.endPass ⟨taker, deals, ending⟩ b
      | some (.traded t maker' taker') =>
          .next
            { g with
              book :=
                g.book.strike taker.side.opposite
                  ⟨t, maker', taker'⟩
              current :=
                some
                  (taker', deals ++ [⟨t, maker', taker'⟩]) }

/- What is left to do leads to its end after `n` rounds. -/
inductive Ends (now : Timestamp) :
    Progress → Nat → Option (List Pass × Book) → Prop
  | ended
      {g : Progress}
      {result : Option (List Pass × Book)}
      (hRound : g.round now = .ended result) :
      Ends now g 1 result
  | next
      {g g' : Progress}
      {n : Nat}
      {result : Option (List Pass × Book)}
      (hRound : g.round now = .next g')
      (h : Ends now g' n result) :
      Ends now g (n + 1) result

/- What the rounds come to from a start. -/
inductive Reaches (now : Timestamp) (g : Progress) :
    Progress → Prop
  | refl : Reaches now g g
  | next
      {g₁ g₂ : Progress}
      (h : Reaches now g g₁)
      (hRound : g₁.round now = .next g₂) :
      Reaches now g g₂

------------------------------------------------------------
-- Rounds and passes
------------------------------------------------------------

/- What comes of a queue after some passes. -/
def queueResult?
    (now : Timestamp)
    (past : List Pass)
    (queue : List Order)
    (b : Book) : Option (List Pass × Book) :=
  (Book.runQueue? now queue b).map fun r =>
    (past ++ r.1, r.2)

/- What comes of a pass and the queue behind it. -/
def passResult?
    (now : Timestamp)
    (g : Progress)
    (p : Pass)
    (b : Book) : Option (List Pass × Book) :=
  if p.violation.isSome then
    some (g.past ++ [p], b)
  else
    queueResult? now (g.past ++ [p])
      (g.queue ++ (b.releaseAfter p).1) (b.releaseAfter p).2

/- What comes of the execution, by its passes. -/
def result?
    (now : Timestamp)
    (g : Progress) : Option (List Pass × Book) :=
  match g.current with
  | none => queueResult? now g.past g.queue g.book
  | some (taker, deals) =>
      (g.book.pass? taker now).bind fun r =>
        g.passResult? now
          { r.1 with deals := deals ++ r.1.deals } r.2

end Progress

/- What comes of a round. -/
def Round.result? (now : Timestamp) :
    Round → Option (List Pass × Book)
  | .next g => g.result? now
  | .ended result => result

namespace Progress

variable {now : Timestamp} {g g' : Progress}

theorem result?_endPass
    (g : Progress)
    (p : Pass)
    (b : Book) :
    (g.endPass p b).result? now = g.passResult? now p b := by
  unfold endPass passResult?
  split <;> rfl

/- A queue goes on with the pass of its first order. -/
theorem queueResult?_cons
    (past : List Pass)
    (o : Order)
    (rest : List Order)
    (b : Book) :
    queueResult? now past (o :: rest) b =
      result? now ⟨past, b, rest, some (o.activate, [])⟩ := by
  unfold queueResult? result?
  dsimp only
  rw [Book.runQueue?_cons]
  cases b.pass? o.activate now with
  | none => rfl
  | some r =>
      rcases r with ⟨p, b'⟩
      rw [Option.bind_some, List.nil_append]
      dsimp only
      unfold passResult? queueResult?
      dsimp only
      split
      · rfl
      · rw [Option.map_map]
        apply Option.map_congr
        intro r _
        simp

/- A round does not change what the execution comes to. -/
theorem result?_round (g : Progress) :
    (g.round now).result? now = g.result? now := by
  rcases g with ⟨past, b, queue, current⟩
  cases current with
  | none =>
      cases queue with
      | nil =>
          change some (past, b) = queueResult? now past [] b
          unfold queueResult?
          rw [Book.runQueue?]
          simp
      | cons o rest =>
          exact (queueResult?_cons past o rest b).symm
  | some under =>
      rcases under with ⟨taker, deals⟩
      unfold round result?
      dsimp only
      rw [b.pass?_eq taker now]
      cases hMeet : b.meetBest? taker now with
      | none => rfl
      | some met =>
          cases met with
          | broken cause =>
              dsimp only
              rw [result?_endPass, Option.bind_some,
                List.append_nil]
          | apart =>
              dsimp only
              cases hFinish : b.finish? taker with
              | none => rfl
              | some r =>
                  rcases r with ⟨ending, b'⟩
                  rw [Option.map_some, Option.bind_some,
                    result?_endPass, List.append_nil]
          | traded t maker' taker' =>
              dsimp only
              rw [Option.bind_map]
              unfold Round.result? result?
              dsimp only
              apply Option.bind_congr
              intro r _
              dsimp only [Function.comp_apply]
              rw [List.append_assoc]
              rfl

------------------------------------------------------------
-- Moves
------------------------------------------------------------

/- The orders on the floor, that of the taker in front of the
queue. -/
def floor (g : Progress) : Floor :=
  ⟨g.book, (g.current.map Prod.fst).toList ++ g.queue⟩

/- What a round can do, if it is not the last one. -/
inductive Moves (now : Timestamp) :
    Progress → Progress → Prop
  | begin
      {past : List Pass}
      {b : Book}
      {o : Order}
      {rest : List Order} :
      Moves now ⟨past, b, o :: rest, none⟩
        ⟨past, b, rest, some (o.activate, [])⟩
  | trade
      {past : List Pass}
      {b : Book}
      {queue : List Order}
      {taker : Order}
      {deals : List Deal}
      {e : Entry Order}
      {rest : List (Entry Order)}
      {d : Deal}
      (hMakers :
        (b.ladder taker.side.opposite .price).byPriority =
          e :: rest)
      (hMeet :
        e.item.meet? taker b.nextTradeId now =
          some (.traded d.trade d.maker d.taker)) :
      Moves now ⟨past, b, queue, some (taker, deals)⟩
        ⟨past,
          b.settle taker.side.opposite
            ⟨[d], Matching.remaining e.key d.maker rest,
              d.taker, none⟩,
          queue, some (d.taker, deals ++ [d])⟩
  | finish
      {past : List Pass}
      {b b' : Book}
      {queue : List Order}
      {taker : Order}
      {deals : List Deal}
      {p : Pass}
      {ending : Ending}
      (hFinish : b.finish? taker = some (ending, b'))
      (hPass : p = ⟨taker, deals, ending⟩) :
      Moves now ⟨past, b, queue, some (taker, deals)⟩
        ⟨past ++ [p], (b'.releaseAfter p).2,
          queue ++ (b'.releaseAfter p).1, none⟩

theorem endPass_eq_next
    {p : Pass}
    {b : Book}
    (h : g.endPass p b = .next g') :
    p.violation = none ∧
      g' =
        ⟨g.past ++ [p], (b.releaseAfter p).2,
          g.queue ++ (b.releaseAfter p).1, none⟩ := by
  unfold endPass at h
  split at h
  · cases h
  · rename_i hIntact
    cases h
    exact ⟨by simpa using hIntact, rfl⟩

/- A round that is not the last one makes a move. -/
theorem moves_of_round
    (h : g.round now = .next g') :
    Moves now g g' := by
  rcases g with ⟨past, b, queue, current⟩
  cases current with
  | none =>
      cases queue with
      | nil => cases h
      | cons o rest =>
          cases h
          exact .begin
  | some under =>
      rcases under with ⟨taker, deals⟩
      unfold round at h
      dsimp only at h
      cases hMeet : b.meetBest? taker now with
      | none =>
          rw [hMeet] at h
          cases h
      | some met =>
          rw [hMeet] at h
          cases met with
          | broken cause =>
              cases (endPass_eq_next h).1
          | apart =>
              dsimp only at h
              cases hFinish : b.finish? taker with
              | none =>
                  rw [hFinish] at h
                  cases h
              | some r =>
                  rcases r with ⟨ending, b'⟩
                  rw [hFinish] at h
                  rw [(endPass_eq_next h).2]
                  exact .finish hFinish rfl
          | traded t maker' taker' =>
              rcases Book.exists_cons_of_meetBest? hMeet with
                ⟨_, e, rest, hMakers, hMet⟩
              cases h
              unfold Book.strike
              rw [hMakers]
              exact
                .trade (d := ⟨t, maker', taker'⟩) hMakers
                  hMet

end Progress

end Matchbook
