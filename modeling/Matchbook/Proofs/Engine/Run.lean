import Matchbook.Decimal.Text
import Matchbook.Engine.Submit

/-
  Runs of an engine: submissions and cancellations from a new
  book on, with a log of the orders taken in and the deals
  made, in their order.

  Key definitions include:
    * `Event`
    * `Engine.TakesIn`
    * `Engine.deals`
    * `Engine.Run`
    * `Engine.played`

  The main statements are:
    * `Engine.submit?_of_not_takesIn`
    * `Engine.run_played`
-/

------------------------------------------------------------
-- Logs
------------------------------------------------------------

namespace Matchbook

/- What is written to the log of an engine. -/
inductive Event where
  | entry (o : Order)
  | deal (d : Deal)
deriving DecidableEq

namespace Engine

/- Whether a submitted order gets past the door: the book is
live and of the symbol of the order, and it does not hold the
id. -/
def TakesIn (e : Engine) (o : Order) : Prop :=
  e.book.halted = false ∧ o.symbol = e.book.symbol ∧
    e.book.contains o.id = false

instance (e : Engine) (o : Order) :
    Decidable (e.TakesIn o) :=
  inferInstanceAs (Decidable (_ ∧ _ ∧ _))

/- The deals that an order sets off once it is taken in. -/
def deals
    (e : Engine)
    (o : Order)
    (now : Timestamp) : List Deal :=
  if e.mustWait o then
    []
  else
    match e.book.cascade? o now with
    | none => []
    | some c => c.deals

/- What a submission writes to the log. -/
def events
    (e : Engine)
    (o : Order)
    (now : Timestamp) : List Event :=
  if e.TakesIn o then
    .entry o :: (e.deals o now).map .deal
  else
    []

/- An engine that has come from a new book by submissions and
cancellations, with its log. -/
inductive Run (symbol : String) :
    List Event → Engine → Prop
  | start : Run symbol [] (Engine.new symbol)
  | submit
      {log : List Event}
      {e e' : Engine}
      {o : Order}
      {now : Timestamp}
      {answer : Except Refusal Report}
      (h : Run symbol log e)
      (hSubmit : e.submit? o now = some (answer, e')) :
      Run symbol (log ++ e.events o now) e'
  | cancel
      {log : List Event}
      {e : Engine}
      (h : Run symbol log e)
      (id : UInt64) :
      Run symbol log (e.cancel id).2

------------------------------------------------------------
-- Submissions
------------------------------------------------------------

/- What happens to an order that is taken in. -/
def admit?
    (e : Engine)
    (o : Order)
    (now : Timestamp) :
    Option (Except Refusal Report × Engine) :=
  let e' := { e with processed := e.processed + 1 }
  if e.mustWait o then
    some (e'.park o)
  else
    e'.execute? o now

theorem submit?_of_takesIn
    {e : Engine}
    {o : Order}
    (now : Timestamp)
    (h : e.TakesIn o) :
    e.submit? o now = e.admit? o now := by
  rcases h with ⟨hLive, hSymbol, hNew⟩
  unfold submit? admit?
  rw [if_neg (by simp [hLive]), if_neg (not_not_intro hSymbol),
    if_neg (by simp [hNew])]
  rfl

/- An order that is turned away at the door or has to wait is
answered. -/
theorem submit?_ne_none
    {e : Engine}
    {o : Order}
    {now : Timestamp}
    (hIdle : e.TakesIn o → e.mustWait o = true) :
    e.submit? o now ≠ none := by
  by_cases hIn : e.TakesIn o
  · rw [submit?_of_takesIn now hIn]
    unfold admit?
    dsimp only
    rw [if_pos (hIdle hIn)]
    exact Option.some_ne_none _
  · unfold submit?
    split
    · exact Option.some_ne_none _
    rename_i hLive
    split
    · exact Option.some_ne_none _
    rename_i hSymbol
    split
    · exact Option.some_ne_none _
    rename_i hHeld
    exfalso
    apply hIn
    exact
      ⟨by simpa using hLive, Decidable.of_not_not hSymbol,
        by simpa using hHeld⟩

/- Outside the door an order only halts a live book of another
symbol. -/
theorem submit?_of_not_takesIn
    {e e' : Engine}
    {o : Order}
    {now : Timestamp}
    {answer : Except Refusal Report}
    (h : ¬ e.TakesIn o)
    (hSubmit : e.submit? o now = some (answer, e')) :
    e' = e ∧
        (e.book.halted = true ∨
          answer =
            .error
              (.duplicateOrder e.book.symbol o.id)) ∨
      o.symbol ≠ e.book.symbol ∧
        (answer, e') = e.breakOff (e.book.misrouted o) [] := by
  unfold submit? at hSubmit
  split at hSubmit
  · rename_i hHalted
    cases hSubmit
    exact Or.inl ⟨rfl, Or.inl hHalted⟩
  rename_i hLive
  split at hSubmit
  · rename_i hSymbol
    exact Or.inr ⟨hSymbol, (Option.some.inj hSubmit).symm⟩
  rename_i hSymbol
  split at hSubmit
  · cases hSubmit
    exact Or.inl ⟨rfl, Or.inr rfl⟩
  rename_i hHeld
  exfalso
  apply h
  exact
    ⟨by simpa using hLive, Decidable.of_not_not hSymbol,
      by simpa using hHeld⟩

------------------------------------------------------------
-- Computed runs
------------------------------------------------------------

/- Continue a run by a submission, unless the engine comes to
a number out of range. -/
def play
    (now : Timestamp)
    (run : List Event × Engine)
    (o : Order) : List Event × Engine :=
  match run.2.submit? o now with
  | none => run
  | some (_, e') => (run.1 ++ run.2.events o now, e')

/- The log and the engine that some submissions lead to. -/
def played
    (symbol : String)
    (os : List Order) : List Event × Engine :=
  os.foldl (play (Timestamp.ofNanos 0)) ([], new symbol)

theorem Run.foldl_play
    {symbol : String}
    {now : Timestamp}
    {run : List Event × Engine}
    (os : List Order)
    (h : Run symbol run.1 run.2) :
    Run symbol (os.foldl (play now) run).1
      (os.foldl (play now) run).2 := by
  induction os generalizing run with
  | nil => exact h
  | cons o os ih =>
      apply ih
      unfold play
      split
      · exact h
      · rename_i hSubmit
        exact h.submit hSubmit

theorem run_played
    (symbol : String)
    (os : List Order) :
    Run symbol (played symbol os).1 (played symbol os).2 :=
  Run.foldl_play os Run.start

end Engine

/- The amount with the given parts, zero if there is none. -/
def Decimal.ofParts (m : Int) (s : Nat) : Decimal :=
  (ofParts? m s).getD 0

/- An ordinary order of one market, submitted at the start of
1970: a limit order if it has a price. -/
def Order.ordinary
    (id : UInt64)
    (side : Side)
    (price : Option Decimal)
    (quantity : Decimal) : Order where
  id := id
  symbol := "BTC-USDT"
  memberId := 0
  side := side
  price := price
  stopPrice := none
  quantity := quantity
  filled := 0
  immediateOrCancel := false
  createdAt := Timestamp.ofNanos 0

end Matchbook
