import Matchbook.Proofs.Engine.Halting
import Matchbook.Proofs.Engine.Orderly
import Matchbook.Proofs.Store.Calls

/-
  What a series of calls answers.  The answers and the book
  come from the calls and the book before them alone; what an
  engine has counted so far does not matter.

  Key definitions include:
    * `Reply`
    * `Engine.reply?`
    * `Engine.replies?`
    * `Engine.answers?`
    * `Call.orderId`

  The main statements are:
    * `Engine.isOrderly_run?`
    * `Engine.halted_of_replies?`
    * `Engine.answers?_congr`
    * `Engine.answers?_append`
-/

------------------------------------------------------------
-- Replies
------------------------------------------------------------

namespace Matchbook

/- The answer to a call. -/
inductive Reply where
  | placed (answer : Except Refusal Unit)
  | removed (o : Option Order)
  | submitted (answer : Except Refusal Report)
  | cancelled (answer : Except Refusal (Option Order))
deriving DecidableEq

/- The id that a call is about. -/
def Call.orderId : Call → UInt64
  | .place _ o => o.id
  | .remove id => id
  | .submit o _ => o.id
  | .cancel id => id

/- What it takes to insert an order. -/
theorem Book.insert_eq_ok
    {b b' : Book}
    {policy : Policy}
    {o : Order}
    (h : b.insert policy o = .ok b') :
    o.symbol = b.symbol ∧ b.contains o.id = false ∧
      b.place policy o = .ok b' := by
  unfold Book.insert at h
  split at h
  · cases h
  rename_i hSymbol
  split at h
  · cases h
  rename_i hNew
  cases hPlace : b.place policy o with
  | error v =>
      rw [hPlace] at h
      cases h
  | ok b₁ =>
      rw [hPlace] at h
      cases h
      exact
        ⟨Decidable.of_not_not hSymbol, by simpa using hNew,
          rfl⟩

namespace Engine

/- The answer to a call and the engine after it.  `none` if a
number is out of range. -/
def reply? (e : Engine) : Call → Option (Reply × Engine)
  | .place policy o =>
      some
        (.placed
          ((e.book.insert policy o).map fun _ => ()),
          e.place policy o)
  | .remove id =>
      some
        (.removed ((e.book.cancel? id).map Prod.fst),
          e.remove id)
  | .submit o now =>
      (e.submit? o now).map fun (answer, e') =>
        (.submitted answer, e')
  | .cancel id =>
      some (.cancelled (e.cancel id).1, (e.cancel id).2)

/- The answers to some calls, one after the other, and the
engine after them. -/
def replies?
    (e : Engine) :
    List Call → Option (List Reply × Engine)
  | [] => some ([], e)
  | call :: rest =>
      (e.reply? call).bind fun (reply, e') =>
        (e'.replies? rest).map fun (replies, e'') =>
          (reply :: replies, e'')

variable {e e' : Engine}
variable {call : Call} {calls : List Call}
variable {reply : Reply} {replies : List Reply}

theorem call?_eq_map_reply?
    (e : Engine)
    (call : Call) :
    e.call? call = (e.reply? call).map Prod.snd := by
  cases call with
  | place => rfl
  | remove => rfl
  | submit o now =>
      unfold call? reply?
      rw [Option.map_map]
      rfl
  | cancel => rfl

theorem replies?_cons_eq_some
    {call : Call}
    {rest : List Call}
    (h : e.replies? (call :: rest) = some (replies, e')) :
    ∃ reply e₁ later,
      e.reply? call = some (reply, e₁) ∧
        e₁.replies? rest = some (later, e') ∧
          replies = reply :: later := by
  rw [replies?] at h
  rcases Option.bind_eq_some_iff.1 h with
    ⟨⟨reply, e₁⟩, hReply, hRest⟩
  rcases Option.map_eq_some_iff.1 hRest with
    ⟨⟨later, e₂⟩, hLater, hEq⟩
  cases hEq
  exact ⟨reply, e₁, later, hReply, hLater, rfl⟩

/- Calls are answered one part after the other. -/
theorem replies?_append
    (e : Engine)
    (calls calls' : List Call) :
    e.replies? (calls ++ calls') =
      (e.replies? calls).bind fun (replies, e') =>
        (e'.replies? calls').map fun (replies', e'') =>
          (replies ++ replies', e'') := by
  induction calls generalizing e with
  | nil =>
      simp only [List.nil_append, replies?, Option.bind_some,
        Option.map_id']
  | cons call calls ih =>
      simp only [List.cons_append, replies?, ih,
        Option.bind_assoc, Option.bind_map, Option.map_bind,
        Function.comp_def, Option.map_map,
        List.cons_append]

------------------------------------------------------------
-- Orderly books
------------------------------------------------------------

open Floor

theorem isOrderly_place
    (h : IsOrderly ⟨e.book, []⟩)
    (policy : Policy)
    (o : Order) :
    IsOrderly ⟨(e.place policy o).book, []⟩ := by
  unfold place
  split
  · rename_i b hInsert
    rcases Book.insert_eq_ok hInsert with
      ⟨hSymbol, hNew, hPlace⟩
    exact (h.enter hSymbol hNew).place hPlace
  · exact h

theorem isOrderly_remove
    (h : IsOrderly ⟨e.book, []⟩)
    (id : UInt64) :
    IsOrderly ⟨(e.remove id).book, []⟩ := by
  unfold remove
  split
  · exact h
  · rename_i hCancel
    exact h.cancel hCancel

/- No call disturbs an orderly book. -/
theorem isOrderly_reply?
    (h : IsOrderly ⟨e.book, []⟩)
    (hReply : e.reply? call = some (reply, e')) :
    IsOrderly ⟨e'.book, []⟩ := by
  cases call with
  | place policy o =>
      cases hReply
      exact isOrderly_place h policy o
  | remove id =>
      cases hReply
      exact isOrderly_remove h id
  | submit o now =>
      rcases Option.map_eq_some_iff.1 hReply with
        ⟨⟨answer, e₁⟩, hSubmit, hEq⟩
      cases hEq
      exact isOrderly_submit? h hSubmit
  | cancel id =>
      cases hReply
      exact isOrderly_cancel h id

theorem isOrderly_replies?
    (h : IsOrderly ⟨e.book, []⟩)
    (hReplies : e.replies? calls = some (replies, e')) :
    IsOrderly ⟨e'.book, []⟩ := by
  induction calls generalizing e replies with
  | nil =>
      cases hReplies
      exact h
  | cons call calls ih =>
      rcases replies?_cons_eq_some hReplies with
        ⟨reply, e₁, later, hReply, hLater, rfl⟩
      exact ih (isOrderly_reply? h hReply) hLater

/- Calls leave an orderly book, whatever they answer. -/
theorem isOrderly_of_run?
    (h : IsOrderly ⟨e.book, []⟩)
    (hRun : e.run? calls = some e') :
    IsOrderly ⟨e'.book, []⟩ := by
  unfold run? at hRun
  induction calls generalizing e with
  | nil =>
      cases hRun
      exact h
  | cons call calls ih =>
      rw [List.foldlM_cons] at hRun
      rcases Option.bind_eq_some_iff.1 hRun with
        ⟨e₁, hCall, hRest⟩
      rw [call?_eq_map_reply?] at hCall
      rcases Option.map_eq_some_iff.1 hCall with
        ⟨⟨reply, e₂⟩, hReply, hEq⟩
      cases hEq
      exact ih (isOrderly_reply? h hReply) hRest

/- Every book that calls have made of a new one is
orderly. -/
theorem isOrderly_run?
    {symbol : String}
    (hRun : (new symbol).run? calls = some e) :
    IsOrderly ⟨e.book, []⟩ :=
  isOrderly_of_run? (isOrderly_new symbol) hRun

------------------------------------------------------------
-- Halted books
------------------------------------------------------------

/- A book that is halted stays so. -/
theorem halted_of_reply?
    (hHalted : e.book.halted = true)
    (hReply : e.reply? call = some (reply, e')) :
    e'.book.halted = true := by
  cases call with
  | place policy o =>
      cases hReply
      unfold place
      split
      · rename_i b hInsert
        rcases Book.insert_eq_ok hInsert with
          ⟨_, _, hPlace⟩
        have hDoor := Book.door_place hPlace
        exact (congrArg Prod.snd hDoor).trans hHalted
      · exact hHalted
  | remove id =>
      cases hReply
      unfold remove
      split
      · exact hHalted
      · rename_i hCancel
        have hDoor := Book.door_cancel? hCancel
        exact (congrArg Prod.snd hDoor).trans hHalted
  | submit o now =>
      rcases Option.map_eq_some_iff.1 hReply with
        ⟨⟨answer, e₁⟩, hSubmit, hEq⟩
      cases hEq
      rw [submit?_of_halted hHalted] at hSubmit
      cases hSubmit
      exact hHalted
  | cancel id =>
      cases hReply
      rw [cancel_of_halted hHalted]
      exact hHalted

theorem halted_of_replies?
    (hHalted : e.book.halted = true)
    (hReplies : e.replies? calls = some (replies, e')) :
    e'.book.halted = true := by
  induction calls generalizing e replies with
  | nil =>
      cases hReplies
      exact hHalted
  | cons call calls ih =>
      rcases replies?_cons_eq_some hReplies with
        ⟨reply, e₁, later, hReply, hLater, rfl⟩
      exact ih (halted_of_reply? hHalted hReply) hLater

------------------------------------------------------------
-- Counts
------------------------------------------------------------

variable {e₂ : Engine}

/- Whether two engines answer the same and are left with the
same book. -/
def Agree
    {α : Type}
    (x y : α × Engine) : Prop :=
  x.1 = y.1 ∧ x.2.book = y.2.book

theorem agree_breakOff
    (hBook : e.book = e₂.book)
    (cause : Violation)
    (trades : List Trade) :
    Agree (e.breakOff cause trades)
      (e₂.breakOff cause trades) :=
  ⟨rfl, congrArg Book.halt hBook⟩

theorem agree_park
    (hBook : e.book = e₂.book)
    (o : Order) :
    Agree (e.park o) (e₂.park o) := by
  unfold park
  rw [hBook]
  split
  · exact ⟨rfl, rfl⟩
  · exact agree_breakOff hBook _ _

theorem rel_execute?
    (hBook : e.book = e₂.book)
    (o : Order)
    (now : Timestamp) :
    Option.Rel Agree (e.execute? o now)
      (e₂.execute? o now) := by
  unfold execute?
  rw [hBook]
  cases e₂.book.cascade? o now with
  | none => exact .none
  | some c =>
      refine .some ?_
      dsimp only
      split
      · exact ⟨rfl, rfl⟩
      · exact agree_breakOff rfl _ _

theorem rel_submit?
    (hBook : e.book = e₂.book)
    (o : Order)
    (now : Timestamp) :
    Option.Rel Agree (e.submit? o now)
      (e₂.submit? o now) := by
  unfold submit?
  rw [hBook]
  split
  · exact .some ⟨rfl, hBook⟩
  split
  · exact .some (agree_breakOff hBook _ _)
  split
  · exact .some ⟨rfl, hBook⟩
  dsimp only
  have hWait :
      (Engine.mk e₂.book (e.processed + 1)
          e.executed).mustWait o =
        (Engine.mk e₂.book (e₂.processed + 1)
          e₂.executed).mustWait o :=
    rfl
  rw [hWait]
  split
  · exact .some (agree_park (by rfl) o)
  · exact rel_execute? (by rfl) o now

theorem rel_reply?
    (hBook : e.book = e₂.book)
    (call : Call) :
    Option.Rel Agree (e.reply? call) (e₂.reply? call) := by
  cases call with
  | place policy o =>
      refine .some ?_
      unfold place
      rw [hBook]
      split
      · exact ⟨rfl, rfl⟩
      · exact ⟨rfl, hBook⟩
  | remove id =>
      refine .some ?_
      unfold remove
      rw [hBook]
      split
      · exact ⟨rfl, hBook⟩
      · exact ⟨rfl, rfl⟩
  | submit o now =>
      exact
        relMap (rel_submit? hBook o now) fun _ _ h =>
          ⟨congrArg Reply.submitted h.1, h.2⟩
  | cancel id =>
      refine .some ?_
      unfold cancel
      rw [hBook]
      split
      · exact ⟨rfl, hBook⟩
      split
      · exact ⟨rfl, hBook⟩
      · exact ⟨rfl, rfl⟩

/- What engines answer comes from their books alone.  By
induction on the calls. -/
theorem rel_replies?
    (hBook : e.book = e₂.book)
    (calls : List Call) :
    Option.Rel Agree (e.replies? calls)
      (e₂.replies? calls) := by
  induction calls generalizing e e₂ with
  | nil => exact .some ⟨rfl, hBook⟩
  | cons call calls ih =>
      unfold replies?
      refine relBind (rel_reply? hBook call) ?_
      rintro ⟨reply, e'⟩ ⟨reply', e₂'⟩ ⟨hReply, hAfter⟩
      refine relMap (ih hAfter) ?_
      rintro ⟨later, e''⟩ ⟨later', e₂''⟩ ⟨hLater, hEnd⟩
      exact ⟨congrArg₂ List.cons hReply hLater, hEnd⟩

/- The answers to some calls and the book after them. -/
def answers?
    (e : Engine)
    (calls : List Call) : Option (List Reply × Book) :=
  (e.replies? calls).map fun (replies, e') =>
    (replies, e'.book)

theorem answers?_congr
    (hBook : e.book = e₂.book)
    (calls : List Call) :
    e.answers? calls = e₂.answers? calls := by
  have hAgree := rel_replies? hBook calls
  unfold answers?
  revert hAgree
  generalize e.replies? calls = x, e₂.replies? calls = y
  intro hAgree
  cases hAgree with
  | some hBoth =>
      exact congrArg some (Prod.ext hBoth.1 hBoth.2)
  | none => rfl

/- What follows on calls that are answered. -/
theorem answers?_append
    (hReplies : e.replies? calls = some (replies, e'))
    (calls' : List Call) :
    e.answers? (calls ++ calls') =
      (e'.answers? calls').map fun (later, b) =>
        (replies ++ later, b) := by
  unfold answers?
  rw [replies?_append, hReplies, Option.bind_some]
  dsimp only
  rw [Option.map_map, Option.map_map]
  rfl

end Engine

end Matchbook
