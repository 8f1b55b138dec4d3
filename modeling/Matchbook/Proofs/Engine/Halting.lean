import Matchbook.Exchange
import Matchbook.Proofs.Engine.Queue

/-
  How books are halted.

  A submission halts its book exactly when it is refused for
  good, and so does a cancellation.  A book that is halted
  refuses every command from then on, and nothing about its
  engine changes any more.

  Key definitions include:
    * `IsFatal`
    * `Engine.IsCandid`
    * `Engine.answerAll?`
    * `Engine.Concludes`

  The main statements are:
    * `Engine.isCandid_submit?`
    * `Engine.isCandid_cancel`
    * `Engine.answerAll?_of_halted`
    * `Engine.concludes_of_answerAll?`
-/

------------------------------------------------------------
-- Fatal answers
------------------------------------------------------------

namespace Matchbook

/- Whether a request is refused because the book can no longer
be trusted. -/
def IsFatal
    {α : Type}
    (answer : Except Refusal α) : Prop :=
  ∃ r, answer = .error r ∧ r.isFatal = true

section Fatal

variable {α β : Type}

@[simp] theorem not_isFatal_ok
    (a : α) :
    ¬ IsFatal (.ok a : Except Refusal α) := by
  rintro ⟨r, hError, _⟩
  cases hError

@[simp] theorem isFatal_error_iff
    {r : Refusal} :
    IsFatal (.error r : Except Refusal α) ↔
      r.isFatal = true := by
  constructor
  · rintro ⟨r', hError, hFatal⟩
    cases hError
    exact hFatal
  · intro hFatal
    exact ⟨r, rfl, hFatal⟩

/- What else an answer says does not matter. -/
@[simp] theorem isFatal_map_iff
    {answer : Except Refusal α}
    {f : α → β} :
    IsFatal (answer.map f) ↔ IsFatal answer := by
  cases answer with
  | ok a =>
      exact
        iff_of_false (not_isFatal_ok (f a))
          (not_isFatal_ok a)
  | error r =>
      exact isFatal_error_iff.trans isFatal_error_iff.symm

end Fatal

------------------------------------------------------------
-- Submissions and cancellations
------------------------------------------------------------

namespace Engine

variable {e e' : Engine}
variable {o : Order}
variable {now : Timestamp}

/- An answer, together with the engine that gave it, that is
fatal exactly when the book is halted. -/
def IsCandid
    {α : Type}
    (answered : Except Refusal α × Engine) : Prop :=
  IsFatal answered.1 ↔ answered.2.book.halted = true

/- A broken contract is told of and halts the book. -/
theorem isCandid_breakOff
    (e : Engine)
    (cause : Violation)
    (trades : List Trade) :
    IsCandid (e.breakOff cause trades) := by
  refine iff_of_true ?_ rfl
  unfold breakOff
  rw [isFatal_error_iff]
  split <;> rfl

theorem isCandid_ok
    {α : Type}
    {a : α}
    (hLive : e.book.halted = false) :
    IsCandid ((.ok a : Except Refusal α), e) :=
  iff_of_false (not_isFatal_ok a) (by simp [hLive])

theorem isCandid_park
    (hLive : e.book.halted = false) :
    IsCandid (e.park o) := by
  unfold park
  split
  · rename_i hPlace
    have hDoor := Book.door_place hPlace
    exact isCandid_ok ((congrArg Prod.snd hDoor).trans hLive)
  · exact e.isCandid_breakOff _ _

/- Wherever a cascade breaks off, the book is halted. -/
theorem isCandid_execute?
    {answered : Except Refusal Report × Engine}
    (hLive : e.book.halted = false)
    (hExecute : e.execute? o now = some answered) :
    IsCandid answered := by
  unfold execute? at hExecute
  rcases Option.map_eq_some_iff.1 hExecute with
    ⟨c, hCascade, rfl⟩
  have hDoor :=
    Book.door_runQueue?
      (Book.runQueue?_of_cascade? hCascade)
  dsimp only
  split
  · exact isCandid_ok ((congrArg Prod.snd hDoor).trans hLive)
  · exact isCandid_breakOff _ _ _

/- Whether a submission is refused at the door, while the
order is parked or in a pass, the answer is candid. -/
theorem isCandid_submit?
    {answered : Except Refusal Report × Engine}
    (hSubmit : e.submit? o now = some answered) :
    IsCandid answered := by
  unfold submit? at hSubmit
  split at hSubmit
  · rename_i hHalted
    cases hSubmit
    exact iff_of_true (isFatal_error_iff.2 rfl) hHalted
  rename_i hLive
  rw [Bool.not_eq_true] at hLive
  split at hSubmit
  · cases hSubmit
    exact e.isCandid_breakOff _ _
  split at hSubmit
  · cases hSubmit
    refine iff_of_false ?_ (by simp [hLive])
    rw [isFatal_error_iff]
    exact Bool.false_ne_true
  dsimp only at hSubmit
  split at hSubmit
  · cases hSubmit
    exact isCandid_park hLive
  · exact isCandid_execute? (by exact hLive) hSubmit

theorem isCandid_cancel
    (e : Engine)
    (id : UInt64) :
    IsCandid (e.cancel id) := by
  unfold cancel
  split
  · rename_i hHalted
    exact iff_of_true (isFatal_error_iff.2 rfl) hHalted
  rename_i hLive
  rw [Bool.not_eq_true] at hLive
  split
  · exact isCandid_ok hLive
  · rename_i hCancel
    have hDoor := Book.door_cancel? hCancel
    exact isCandid_ok ((congrArg Prod.snd hDoor).trans hLive)

------------------------------------------------------------
-- Commands
------------------------------------------------------------

/- Questions are answered by live books only. -/
theorem isCandid_answer?
    {command : Command}
    {answered : Except Refusal Answer × Engine}
    (hAnswer : e.answer? now command = some answered) :
    IsCandid answered := by
  unfold answer? at hAnswer
  cases command with
  | submit o =>
      rcases Option.map_eq_some_iff.1 hAnswer with
        ⟨⟨report, e'⟩, hSubmit, rfl⟩
      exact isFatal_map_iff.trans (isCandid_submit? hSubmit)
  | cancel id =>
      rw [← Option.some.inj hAnswer]
      exact isFatal_map_iff.trans (e.isCandid_cancel id)
  | query q =>
      dsimp only at hAnswer
      split at hAnswer
      · rename_i hHalted
        cases hAnswer
        exact iff_of_true (isFatal_error_iff.2 rfl) hHalted
      · rename_i hLive
        rcases Option.map_eq_some_iff.1 hAnswer with
          ⟨a, _, rfl⟩
        exact isCandid_ok (by simpa using hLive)

/- A halted book refuses submissions, ... -/
theorem submit?_of_halted
    (hHalted : e.book.halted = true)
    (o : Order)
    (now : Timestamp) :
    e.submit? o now =
      some (.error (.halted e.book.symbol), e) := by
  unfold submit?
  rw [if_pos hHalted]

/- ... cancellations ... -/
theorem cancel_of_halted
    (hHalted : e.book.halted = true)
    (id : UInt64) :
    e.cancel id = (.error (.halted e.book.symbol), e) := by
  unfold cancel
  rw [if_pos hHalted]

/- ... and all else. -/
theorem answer?_of_halted
    (hHalted : e.book.halted = true)
    (now : Timestamp)
    (command : Command) :
    e.answer? now command =
      some (.error (.halted e.book.symbol), e) := by
  unfold answer?
  cases command with
  | submit o =>
      dsimp only
      rw [submit?_of_halted hHalted]
      rfl
  | cancel id =>
      dsimp only
      rw [cancel_of_halted hHalted]
      rfl
  | query q =>
      dsimp only
      rw [if_pos hHalted]

------------------------------------------------------------
-- Runs
------------------------------------------------------------

/- The answers to commands, one after the other, and the
engine after them.  `none` if one of them comes to a number
out of range. -/
def answerAll?
    (e : Engine) :
    List (Command × Timestamp) →
    Option (List (Except Refusal Answer) × Engine)
  | [] => some ([], e)
  | (command, now) :: rest =>
      (e.answer? now command).bind fun (answer, e') =>
        (e'.answerAll? rest).map fun (answers, e'') =>
          (answer :: answers, e'')

/- What a halted book answers. -/
def lastWord (e : Engine) : Except Refusal Answer :=
  .error (.halted e.book.symbol)

/- A halted book gives the same answer to everything, and its
engine stays as it is.  By induction on the commands. -/
theorem answerAll?_of_halted
    (hHalted : e.book.halted = true)
    (commands : List (Command × Timestamp)) :
    e.answerAll? commands =
      some (commands.map fun _ => e.lastWord, e) := by
  induction commands with
  | nil => rfl
  | cons head rest ih =>
      rw [answerAll?, answer?_of_halted hHalted,
        Option.bind_some]
      dsimp only
      rw [ih]
      rfl

/-
  The answers of a run.  None is fatal as long as the book is
  live; if one halts the book, then it is fatal and all that
  come after it are the last word of the book.
-/
inductive Concludes (e' : Engine) :
    List (Except Refusal Answer) → Prop
  | live
      {answers : List (Except Refusal Answer)}
      (hMild : ∀ answer ∈ answers, ¬ IsFatal answer)
      (hLive : e'.book.halted = false) :
      Concludes e' answers
  | halted
      {mild : List (Except Refusal Answer)}
      {answer : Except Refusal Answer}
      (hMild : ∀ answer ∈ mild, ¬ IsFatal answer)
      (hFatal : IsFatal answer)
      (hHalted : e'.book.halted = true)
      (n : Nat) :
      Concludes e'
        (mild ++ answer :: List.replicate n e'.lastWord)

theorem Concludes.cons
    {answer : Except Refusal Answer}
    {answers : List (Except Refusal Answer)}
    (h : Concludes e' answers)
    (hMild : ¬ IsFatal answer) :
    Concludes e' (answer :: answers) := by
  cases h with
  | live hRest hLive =>
      exact .live (List.forall_mem_cons.2 ⟨hMild, hRest⟩) hLive
  | halted hRest hFatal hHalted n =>
      rw [← List.cons_append]
      exact
        .halted (List.forall_mem_cons.2 ⟨hMild, hRest⟩)
          hFatal hHalted n

/- By induction on the commands: the first one that halts the
book decides what is answered to all the others. -/
theorem concludes_of_answerAll?
    {commands : List (Command × Timestamp)}
    {answers : List (Except Refusal Answer)}
    (hLive : e.book.halted = false)
    (h : e.answerAll? commands = some (answers, e')) :
    Concludes e' answers := by
  induction commands generalizing e answers with
  | nil =>
      cases h
      exact .live (by simp) hLive
  | cons head rest ih =>
      rcases head with ⟨command, now⟩
      rcases Option.bind_eq_some_iff.1 h with
        ⟨⟨answer, e₁⟩, hAnswer, hRest⟩
      rcases Option.map_eq_some_iff.1 hRest with
        ⟨⟨others, e₂⟩, hOthers, hEq⟩
      cases hEq
      have hCandid := isCandid_answer? hAnswer
      cases hHalted : e₁.book.halted with
      | false =>
          refine (ih hHalted hOthers).cons ?_
          intro hFatal
          have hContrary := hCandid.1 hFatal
          rw [hHalted] at hContrary
          cases hContrary
      | true =>
          rw [answerAll?_of_halted hHalted] at hOthers
          cases hOthers
          rw [List.map_const']
          have hNone :
              ∀ answer' ∈ ([] : List (Except Refusal Answer)),
                ¬ IsFatal answer' :=
            List.forall_mem_nil _
          exact
            .halted hNone (hCandid.2 hHalted) hHalted
              rest.length

end Engine

end Matchbook
