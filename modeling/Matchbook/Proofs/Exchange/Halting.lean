import Matchbook.Proofs.Engine.Halting
import Matchbook.Proofs.Engine.Interruption
import Matchbook.Proofs.Exchange.Run

/-
  Halting is exact and final: a fatal answer and a halted book
  always come together, and no command gets past the halt of
  its book, neither at the engine nor through an exchange.

  Key definitions include:
    * `Exchange.AllAnswered`
    * `Engine.HaltsForGood`

  The main statements are:
    * `Exchange.serveAll_of_halted`
    * `Engine.haltsForGood`
-/

------------------------------------------------------------
-- Desks of halted books
------------------------------------------------------------

namespace Matchbook

namespace Exchange

variable {x : Exchange} {symbol : String}
variable {now : Timestamp} {r : Request}

/- The desk of a halted book answers with the last word of its
book and stays as it is. -/
theorem request_of_halted
    {e : Engine}
    {command : Command}
    (hDesk : x.desk? symbol = some (some e))
    (hHalted : e.book.halted = true) :
    (x.request symbol command now).1 = e.lastWord ∧
      (x.request symbol command now).2.desk? symbol =
        some (some e) := by
  have hServe :
      Desk.serve symbol now command (some e) =
        (e.lastWord, some e) := by
    unfold Desk.serve
    dsimp only
    rw [Engine.answer?_of_halted hHalted]
    rfl
  unfold request
  rw [hDesk]
  dsimp only
  rw [hServe]
  exact ⟨rfl, desk?_withDesk_self _ hDesk⟩

/- One request never changes the desk of a halted book. -/
theorem desk?_serve_of_halted
    {e : Engine}
    (hDesk : x.desk? symbol = some (some e))
    (hHalted : e.book.halted = true) :
    (x.serve now r).2.desk? symbol = some (some e) := by
  by_cases hTarget : r.target? = some symbol
  · rw [serve_of_target? hTarget]
    exact (request_of_halted hDesk hHalted).2
  · rw [desk?_serve_of_target?_ne hTarget]
    exact hDesk

/- Whether every request that reaches the desk of a symbol
gets the same answer. -/
def AllAnswered
    (symbol : String)
    (answer : Except Refusal Answer)
    (requests : List (Request × Timestamp))
    (answers : List (Except Refusal Answer)) : Prop :=
  List.Forall₂
    (fun r a => r.1.target? = some symbol → a = answer)
    requests answers

/- By induction on the requests. -/
theorem serveAll_of_halted
    {e : Engine}
    (hDesk : x.desk? symbol = some (some e))
    (hHalted : e.book.halted = true)
    (requests : List (Request × Timestamp)) :
    AllAnswered symbol e.lastWord requests
        (x.serveAll requests).1 ∧
      (x.serveAll requests).2.desk? symbol =
        some (some e) := by
  induction requests generalizing x with
  | nil => exact ⟨List.Forall₂.nil, hDesk⟩
  | cons head rest ih =>
      rcases head with ⟨r, now⟩
      rcases
          ih (x := (x.serve now r).2)
            (desk?_serve_of_halted hDesk hHalted) with
        ⟨hAnswers, hLast⟩
      refine ⟨List.Forall₂.cons ?_ hAnswers, hLast⟩
      intro hTarget
      change (x.serve now r).1 = e.lastWord
      rw [serve_of_target? hTarget]
      exact (request_of_halted hDesk hHalted).1

end Exchange

------------------------------------------------------------
-- Halting
------------------------------------------------------------

namespace Engine

/-
  How an engine comes to halt its book, and what it does from
  then on.  Its answers are fatal exactly when the book is
  halted after them.  No success and no repeated id halts a
  live book.  Once the book is halted, everything it is asked
  for is refused and changes nothing, at the engine as through
  any exchange with a desk for it.  In a run of commands the
  first fatal answer is thus the one that halts the book.
-/
structure HaltsForGood (e : Engine) : Prop where
  submit_fatal_iff :
    ∀ o now answer e',
      e.submit? o now = some (answer, e') →
        (IsFatal answer ↔ e'.book.halted = true)
  cancel_fatal_iff :
    ∀ id,
      IsFatal (e.cancel id).1 ↔
        (e.cancel id).2.book.halted = true
  submit_live :
    ∀ o now answer e',
      e.book.halted = false →
        e.submit? o now = some (answer, e') →
          (∃ report, answer = .ok report) ∨
              (∃ symbol id,
                answer = .error (.duplicateOrder symbol id)) →
            e'.book.halted = false
  cancel_live :
    ∀ id held,
      e.book.halted = false →
        (e.cancel id).1 = .ok held →
          (e.cancel id).2.book.halted = false
  submit_halted :
    e.book.halted = true →
      ∀ o now,
        e.submit? o now =
          some (.error (.halted e.book.symbol), e)
  cancel_halted :
    e.book.halted = true →
      ∀ id,
        e.cancel id = (.error (.halted e.book.symbol), e)
  commands_halted :
    e.book.halted = true →
      ∀ commands,
        e.answerAll? commands =
          some (commands.map fun _ => e.lastWord, e)
  requests_halted :
    e.book.halted = true →
      ∀ (x : Exchange) symbol,
        x.desk? symbol = some (some e) →
          ∀ requests,
            Exchange.AllAnswered symbol e.lastWord requests
                (x.serveAll requests).1 ∧
              (x.serveAll requests).2.desk? symbol =
                some (some e)
  runs :
    e.book.halted = false →
      ∀ commands answers e',
        e.answerAll? commands = some (answers, e') →
          Concludes e' answers

/- Whatever its book has come to, an engine halts it only with
a fatal answer and then for good. -/
theorem haltsForGood (e : Engine) : e.HaltsForGood := by
  constructor
  case submit_fatal_iff =>
    intro o now answer e' hSubmit
    exact isCandid_submit? hSubmit
  case cancel_fatal_iff => exact e.isCandid_cancel
  case submit_live =>
    intro o now answer e' _ hSubmit hMild
    rw [← Bool.not_eq_true]
    apply (isCandid_submit? hSubmit).not.1
    rcases hMild with ⟨report, rfl⟩ | ⟨symbol, id, rfl⟩
    · exact not_isFatal_ok report
    · rw [isFatal_error_iff]
      exact Bool.false_ne_true
  case cancel_live =>
    intro id held _ hAnswer
    rw [← Bool.not_eq_true]
    apply (e.isCandid_cancel id).not.1
    rw [hAnswer]
    exact not_isFatal_ok held
  case submit_halted => exact submit?_of_halted
  case cancel_halted => exact cancel_of_halted
  case commands_halted => exact answerAll?_of_halted
  case requests_halted =>
    intro hHalted x symbol hDesk requests
    exact Exchange.serveAll_of_halted hDesk hHalted requests
  case runs =>
    intro hLive commands answers e' hRun
    exact concludes_of_answerAll? hLive hRun

/- A submission, a cancellation of an order that waits, and
two questions. -/
def lateRequests : List (Request × Timestamp) :=
  [.submit (.ordinary 7 .sell none (.ofParts 1 0)),
    .cancel "BTC-USDT" 6,
    .query "BTC-USDT" .bestAsk,
    .query "BTC-USDT" .root].map (·, .ofNanos 1)

/- A book that is halted in the middle of a cascade, by the
answer that tells of it, refuses them all. -/
theorem haltsForGood_of_interrupted :
    ∃ e e',
      (new "BTC-USDT").run? interruptedCalls = some e ∧
      e.submit? interruptingBuy (.ofNanos 0) =
        some (.error interruption, e') ∧
      e'.book.halted = true ∧
      (let commands :=
        lateRequests.map fun r => (r.1.command, r.2)
      e'.answerAll? commands =
        some (commands.map fun _ => e'.lastWord, e')) ∧
      (let x : Exchange := ⟨[("BTC-USDT", some e')]⟩
      Exchange.AllAnswered "BTC-USDT" e'.lastWord
          lateRequests (x.serveAll lateRequests).1 ∧
        (x.serveAll lateRequests).2.desk? "BTC-USDT" =
          some (some e')) := by
  rcases exists_interrupted with
    ⟨e, e', hReach, hSubmit, _⟩
  have hFatal :
      IsFatal (.error interruption : Except Refusal Report) :=
    isFatal_error_iff.2 rfl
  have hHalted : e'.book.halted = true :=
    ((haltsForGood e).submit_fatal_iff interruptingBuy
      (.ofNanos 0) _ e' hSubmit).1 hFatal
  have hForGood := haltsForGood e'
  have hDesk :
      (⟨[("BTC-USDT", some e')]⟩ : Exchange).desk?
          "BTC-USDT" =
        some (some e') :=
    rfl
  exact
    ⟨e, e', hReach, hSubmit, hHalted,
      hForGood.commands_halted hHalted _,
      hForGood.requests_halted hHalted _ _ hDesk _⟩

end Engine

end Matchbook
