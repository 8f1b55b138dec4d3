import Matchbook.Exchange
import Matchbook.Proofs.Engine.Encounter

/-
  Runs of an exchange: requests of all kinds, one after the
  other, from its start on.  The engine of every desk is then
  in a run of its own, with sound orders only.

  Key definitions include:
    * `Request`
    * `Exchange.serve`
    * `Exchange.serveAll`
    * `Request.target?`
    * `Request.command`
    * `Exchange.IsSound`
    * `Exchange.IsLive`

  The main statements are:
    * `Exchange.forall_desks_request`
    * `Exchange.serve_of_target?`
    * `Exchange.isSound_start?`
    * `Exchange.isSound_serve`
-/

------------------------------------------------------------
-- Requests
------------------------------------------------------------

namespace Matchbook

/- What an exchange can be asked for. -/
inductive Request where
  | submit (o : Order)
  | cancel (symbol : String) (id : UInt64)
  | query (symbol : String) (q : Query)
deriving DecidableEq

/- The symbol of the desk that a request is passed to.  An
order with a defect reaches none. -/
def Request.target? : Request → Option String
  | .submit o =>
      match o.defect? with
      | some _ => none
      | none => some o.symbol
  | .cancel symbol _ => some symbol
  | .query symbol _ => some symbol

/- What a request asks of that desk. -/
def Request.command : Request → Command
  | .submit o => .submit o
  | .cancel _ id => .cancel id
  | .query _ q => .query q

/- A submission reaches no desk with a defect. -/
theorem Request.defect?_eq_none
    {r : Request}
    {symbol : String}
    (hTarget : r.target? = some symbol) :
    ∀ o, r.command = .submit o → o.defect? = none := by
  rintro o hCommand
  cases r with
  | submit o' =>
      cases hCommand
      unfold target? at hTarget
      dsimp only at hTarget
      cases hDefect : o.defect? with
      | none => rfl
      | some d =>
          rw [hDefect] at hTarget
          cases hTarget
  | cancel => cases hCommand
  | query => cases hCommand

namespace Exchange

/- The answer to a request and the exchange after it. -/
def serve
    (x : Exchange)
    (now : Timestamp) :
    Request → Except Refusal Answer × Exchange
  | .submit o => x.submit o now
  | .cancel symbol id => x.request symbol (.cancel id) now
  | .query symbol q => x.request symbol (.query q) now

/- The answers to requests, one after the other. -/
def serveAll
    (x : Exchange) :
    List (Request × Timestamp) →
    List (Except Refusal Answer) × Exchange
  | [] => ([], x)
  | (r, now) :: rest =>
      let (answer, x') := x.serve now r
      let (answers, x'') := x'.serveAll rest
      (answer :: answers, x'')

------------------------------------------------------------
-- Desks
------------------------------------------------------------

variable {x : Exchange} {symbol : String}
variable {command : Command} {now : Timestamp}

theorem desk?_withDesk_self
    {desk : Desk}
    (desk' : Desk)
    (h : x.desk? symbol = some desk) :
    (x.withDesk symbol desk').desk? symbol =
      some desk' := by
  cases x with
  | mk desks =>
      simp only [withDesk, desk?] at *
      induction desks with
      | nil => cases h
      | cons entry rest ih =>
          rcases entry with ⟨s, d⟩
          simp only [List.map_cons, List.lookup_cons] at *
          by_cases hs : symbol = s
          · subst hs
            simp
          · have hBeq : (symbol == s) = false := by
              simpa using hs
            rw [hBeq] at h ⊢
            exact ih h

/-
  What holds of the engines of all desks holds after a
  command, too, if it does of the engine that takes it.
-/
theorem forall_desks_request
    {P : String → Engine → Prop}
    (h :
      ∀ s e, x.desk? s = some (some e) → P s e)
    (hStep :
      ∀ e e' answer,
        x.desk? symbol = some (some e) →
          e.answer? now command = some (answer, e') →
            P symbol e') :
    ∀ s e,
      (x.request symbol command now).2.desk? s =
          some (some e) →
        P s e := by
  intro s e' hDesk'
  by_cases hSame : s = symbol
  · subst hSame
    unfold request at hDesk'
    cases hDesk : x.desk? s with
    | none =>
        rw [hDesk] at hDesk'
        exact h s e' hDesk'
    | some desk =>
        simp only [hDesk] at hDesk'
        rw [desk?_withDesk_self _ hDesk] at hDesk'
        have hServed := Option.some.inj hDesk'
        cases desk with
        | none => cases hServed
        | some e =>
            unfold Desk.serve at hServed
            simp only at hServed
            split at hServed
            · cases hServed
            · rename_i answer e'' hAnswer
              cases hServed
              exact hStep e e' answer hDesk hAnswer
  · rw [desk?_request_of_ne hSame] at hDesk'
    exact h s e' hDesk'

/- The answer to a command is that of an engine, or the desk
is closed. -/
theorem answer_request
    (x : Exchange)
    (symbol : String)
    (command : Command)
    (now : Timestamp) :
    (∃ e e',
      x.desk? symbol = some (some e) ∧
        e.answer? now command =
          some ((x.request symbol command now).1, e')) ∨
      ∃ r, (x.request symbol command now).1 = .error r ∧
        r.isFatal = false := by
  unfold request
  cases hDesk : x.desk? symbol with
  | none => exact Or.inr ⟨_, rfl, rfl⟩
  | some desk =>
      cases desk with
      | none => exact Or.inr ⟨_, rfl, rfl⟩
      | some e =>
          simp only [Desk.serve]
          cases hAnswer : e.answer? now command with
          | none => exact Or.inr ⟨_, rfl, rfl⟩
          | some r =>
              exact Or.inl ⟨e, r.2, rfl, by rw [hAnswer]⟩

------------------------------------------------------------
-- The desk that a request reaches
------------------------------------------------------------

variable {r : Request}

/- A request that reaches a desk is a command to it. -/
theorem serve_of_target?
    (hTarget : r.target? = some symbol) :
    x.serve now r = x.request symbol r.command now := by
  cases r with
  | submit o =>
      have hDefect := Request.defect?_eq_none hTarget o rfl
      unfold Request.target? at hTarget
      unfold serve submit
      dsimp only at hTarget ⊢
      rw [hDefect] at hTarget ⊢
      cases hTarget
      rfl
  | cancel symbol' id =>
      cases hTarget
      rfl
  | query symbol' q =>
      cases hTarget
      rfl

/- A request that reaches none changes nothing. -/
theorem serve_of_target?_eq_none
    (x : Exchange)
    (now : Timestamp)
    (hTarget : r.target? = none) :
    ∃ d, x.serve now r = (.error (.invalidOrder d), x) := by
  cases r with
  | submit o =>
      unfold Request.target? at hTarget
      unfold serve submit
      dsimp only at hTarget ⊢
      cases hDefect : o.defect? with
      | some d => exact ⟨d, rfl⟩
      | none =>
          rw [hDefect] at hTarget
          cases hTarget
  | cancel => cases hTarget
  | query => cases hTarget

/- A request leaves the desks alone that it does not reach. -/
theorem desk?_serve_of_target?_ne
    (hTarget : r.target? ≠ some symbol) :
    (x.serve now r).2.desk? symbol = x.desk? symbol := by
  cases hReached : r.target? with
  | some symbol' =>
      rw [serve_of_target? hReached]
      apply desk?_request_of_ne
      rintro rfl
      exact hTarget hReached
  | none =>
      rcases
          serve_of_target?_eq_none x now hReached with
        ⟨d, hServe⟩
      rw [hServe]

------------------------------------------------------------
-- Sound exchanges
------------------------------------------------------------

/- An exchange whose engines have each come from a new book
of their symbol, by sound orders. -/
def IsSound (x : Exchange) : Prop :=
  ∀ s e, x.desk? s = some (some e) →
    ∃ log, Engine.Run s log e ∧
      ∀ o ∈ entries log, o.defect? = none

/- An exchange none of whose books is halted. -/
def IsLive (x : Exchange) : Prop :=
  ∀ s e, x.desk? s = some (some e) →
    e.book.halted = false

/- It is enough to look through the desks. -/
theorem isLive_of_forall_desks
    (h :
      ∀ entry ∈ x.desks, ∀ e ∈ entry.2,
        e.book.halted = false) :
    x.IsLive := by
  intro s e hDesk
  rcases List.lookup_eq_some_iff.1 hDesk with
    ⟨before, rest, hDesks, _⟩
  have hMem : (s, some e) ∈ x.desks := by
    rw [hDesks]
    exact List.mem_append_right _ List.mem_cons_self
  exact h (s, some e) hMem e rfl

/- At the start every desk has a new engine. -/
theorem desk_eq_of_start?
    {c : Config}
    {desk : Desk}
    (hStart : start? c = some (.ok x))
    (hDesk : x.desk? symbol = some desk) :
    desk = some (Engine.new symbol) := by
  unfold start? at hStart
  split at hStart
  · cases hStart
  · split at hStart
    · cases hStart
    · cases hStart
      simp only [desk?] at hDesk
      generalize c.symbols = symbols at hDesk
      induction symbols with
      | nil => cases hDesk
      | cons s rest ih =>
          rw [List.map_cons, List.lookup_cons] at hDesk
          by_cases hs : symbol = s
          · subst hs
            simp at hDesk
            exact hDesk.symm
          · have hBeq : (symbol == s) = false := by
              simpa using hs
            rw [hBeq] at hDesk
            exact ih hDesk

theorem desk?_start?
    {c : Config}
    {e : Engine}
    (hStart : start? c = some (.ok x))
    (hDesk : x.desk? symbol = some (some e)) :
    e = Engine.new symbol :=
  Option.some.inj (desk_eq_of_start? hStart hDesk)

theorem isSound_start?
    {c : Config}
    (hStart : start? c = some (.ok x)) :
    x.IsSound := by
  intro s e hDesk
  rw [desk?_start? hStart hDesk]
  refine ⟨[], Engine.Run.start, ?_⟩
  intro o ho
  cases ho

theorem isLive_start?
    {c : Config}
    (hStart : start? c = some (.ok x)) :
    x.IsLive := by
  intro s e hDesk
  rw [desk?_start? hStart hDesk]
  rfl

/- What a submission writes to the log are the order and its
deals. -/
theorem sound_events
    {e : Engine}
    {o : Order}
    {log : List Event}
    (hSound : ∀ o ∈ entries log, o.defect? = none)
    (hOrder : o.defect? = none) :
    ∀ o' ∈ entries (log ++ e.events o now),
      o'.defect? = none := by
  intro o' ho'
  unfold Engine.events at ho'
  split at ho'
  · rw [entries_submission] at ho'
    rcases List.mem_append.1 ho' with hOld | hNew
    · exact hSound o' hOld
    · rw [List.mem_singleton.1 hNew]
      exact hOrder
  · rw [List.append_nil] at ho'
    exact hSound o' ho'

theorem isSound_request
    (hSound : x.IsSound)
    (hCommand :
      ∀ o, command = .submit o → o.defect? = none) :
    (x.request symbol command now).2.IsSound := by
  apply forall_desks_request hSound
  intro e e' answer hDesk hAnswer
  rcases hSound symbol e hDesk with ⟨log, hRun, hLog⟩
  cases command with
  | submit o =>
      rcases Option.map_eq_some_iff.1 hAnswer with
        ⟨⟨report, e''⟩, hSubmit, hEq⟩
      cases hEq
      exact
        ⟨_, hRun.submit hSubmit,
          sound_events hLog (hCommand o rfl)⟩
  | cancel id =>
      cases hAnswer
      exact ⟨log, hRun.cancel id, hLog⟩
  | query q =>
      unfold Engine.answer? at hAnswer
      simp only at hAnswer
      split at hAnswer
      · cases hAnswer
        exact ⟨log, hRun, hLog⟩
      · rcases Option.map_eq_some_iff.1 hAnswer with
          ⟨a, _, hEq⟩
        cases hEq
        exact ⟨log, hRun, hLog⟩

theorem isSound_serve
    (hSound : x.IsSound)
    (r : Request) :
    (x.serve now r).2.IsSound := by
  cases r with
  | submit o =>
      unfold serve submit
      simp only
      split
      · exact hSound
      · rename_i hOrder
        apply isSound_request hSound
        rintro o' ⟨⟩
        exact hOrder
  | cancel symbol id =>
      apply isSound_request hSound
      rintro o ⟨⟩
  | query symbol q =>
      apply isSound_request hSound
      rintro o ⟨⟩

end Exchange

end Matchbook
