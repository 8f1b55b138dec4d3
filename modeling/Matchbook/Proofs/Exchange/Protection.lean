import Matchbook.Proofs.Exchange.Run
import Mathlib.Data.List.Infix

/-
  How far intake protects the books: no book is ever halted as
  long as all digits of every total fit.  Intake sees to the
  digits of one order at a time, so that two sound orders can
  still halt a book when they meet.

  Key definitions include:
    * `Exchange.Meets`
    * `Exchange.MeetsWithin`
    * `Exchange.NeverHalts`

  The main statements are:
    * `Exchange.isFatal_serve_of_meets`
    * `Exchange.isLive_serve`
    * `Exchange.never_halts_iff`
-/

------------------------------------------------------------
-- Live exchanges
------------------------------------------------------------

namespace Matchbook

namespace Engine

/- A cancellation leaves a live book live. -/
theorem live_cancel
    {e : Engine}
    (hLive : e.book.halted = false)
    (id : UInt64) :
    (e.cancel id).2.book.halted = false ∧
      ∀ r, (e.cancel id).1 = .error r →
        r.isFatal = false := by
  unfold cancel
  rw [if_neg (by simp [hLive])]
  split
  · refine ⟨hLive, ?_⟩
    rintro r ⟨⟩
  · rename_i hCancel
    have hDoor := Book.door_cancel? hCancel
    refine ⟨(congrArg Prod.snd hDoor).trans hLive, ?_⟩
    rintro r ⟨⟩

/- A command to a live engine leaves it live, unless it makes
two orders meet that cannot trade. -/
theorem live_answer?
    {symbol : String}
    {log : List Event}
    {e e' : Engine}
    {now : Timestamp}
    {command : Command}
    {answer : Except Refusal Answer}
    (h : Run symbol log e)
    (hLive : e.book.halted = false)
    (hAnswer : e.answer? now command = some (answer, e'))
    (hFree :
      ∀ o, command = .submit o →
        o.symbol = symbol ∧
          ∀ met comer, e.Meets o now met comer →
            ¬ met.IsStuckWith comer) :
    e'.book.halted = false ∧
      ∀ r, answer = .error r → r.isFatal = false := by
  unfold answer? at hAnswer
  cases command with
  | submit o =>
      rcases hFree o rfl with ⟨hSymbol, hPairs⟩
      rcases Option.map_eq_some_iff.1 hAnswer with
        ⟨⟨report, e''⟩, hSubmit, hEq⟩
      cases hEq
      have hSame : o.symbol = e.book.symbol := by
        rw [hSymbol, h.reached.symbol_eq]
      rcases live_submit? h hLive hSame hSubmit hPairs with
        ⟨hAfter, hMild⟩
      refine ⟨hAfter, ?_⟩
      intro r hError
      cases report with
      | error r' =>
          cases hError
          exact hMild r rfl
      | ok => cases hError
  | cancel id =>
      rcases live_cancel hLive id with ⟨hAfter, hMild⟩
      simp only [Option.some.injEq, Prod.mk.injEq]
        at hAnswer
      rcases hAnswer with ⟨rfl, rfl⟩
      refine ⟨hAfter, ?_⟩
      intro r hError
      cases hCancel : (e.cancel id).1 with
      | error r' =>
          rw [hCancel] at hError
          cases hError
          exact hMild r hCancel
      | ok =>
          rw [hCancel] at hError
          cases hError
  | query q =>
      simp only [hLive, Bool.false_eq_true, if_false]
        at hAnswer
      rcases Option.map_eq_some_iff.1 hAnswer with
        ⟨a, _, hEq⟩
      cases hEq
      refine ⟨hLive, ?_⟩
      rintro r ⟨⟩

end Engine

namespace Exchange

variable {x : Exchange} {now : Timestamp}

/- Whether a request makes two orders meet. -/
def Meets
    (x : Exchange)
    (now : Timestamp) :
    Request → Order → Order → Prop
  | .submit o, met, comer =>
      o.defect? = none ∧
        ∃ e, x.desk? o.symbol = some (some e) ∧
          e.Meets o now met comer
  | _, _, _ => False

/- Whether one of the requests makes two orders meet. -/
def MeetsWithin
    (x : Exchange) :
    List (Request × Timestamp) → Order → Order → Prop
  | [], _, _ => False
  | (r, now) :: rest, met, comer =>
      x.Meets now r met comer ∨
        (x.serve now r).2.MeetsWithin rest met comer

/- An order that is met has a positive price. -/
theorem Meets.canTradeWith_iff
    {r : Request}
    {met comer : Order}
    (h : x.Meets now r met comer)
    (hSound : x.IsSound) :
    ¬ met.IsStuckWith comer ↔ met.CanTradeWith comer := by
  cases r with
  | cancel => cases h
  | query => cases h
  | submit o =>
      rcases h with ⟨hOrder, e, hDesk, hMeets⟩
      rcases hSound o.symbol e hDesk with
        ⟨log, hRun, hLog⟩
      apply Order.not_isStuckWith_iff
      intro p hPrice
      exact hMeets.price_pos hRun hLog hOrder hPrice

/- Two orders that meet and cannot trade halt the book. -/
theorem isFatal_serve_of_meets
    {r : Request}
    {met comer : Order}
    (hSound : x.IsSound)
    (h : x.Meets now r met comer)
    (hStuck : met.IsStuckWith comer) :
    ∃ refusal, (x.serve now r).1 = .error refusal ∧
      refusal.isFatal := by
  cases r with
  | cancel => cases h
  | query => cases h
  | submit o =>
      rcases h with ⟨hOrder, e, hDesk, hMeets⟩
      rcases hSound o.symbol e hDesk with
        ⟨log, hRun, hLog⟩
      rcases Engine.isFatal_of_meets hRun hMeets hStuck with
        ⟨refusal, e', hSubmit, hFatal⟩
      refine ⟨refusal, ?_, hFatal⟩
      unfold serve submit request
      simp only [hOrder, hDesk, Desk.serve,
        Engine.answer?, hSubmit, Option.map_some]
      rfl

/- What is not refused for good leaves the desks live. -/
theorem isLive_request
    {symbol : String}
    {command : Command}
    (hSound : x.IsSound)
    (hLive : x.IsLive)
    (hFree :
      ∀ e o, x.desk? symbol = some (some e) →
        command = .submit o →
          o.symbol = symbol ∧
            ∀ met comer, e.Meets o now met comer →
              ¬ met.IsStuckWith comer) :
    (x.request symbol command now).2.IsLive ∧
      ∀ r, (x.request symbol command now).1 = .error r →
        r.isFatal = false := by
  have hStep :
      ∀ e e' answer,
        x.desk? symbol = some (some e) →
          e.answer? now command = some (answer, e') →
            e'.book.halted = false ∧
              ∀ r, answer = .error r →
                r.isFatal = false := by
    intro e e' answer hDesk hAnswer
    rcases hSound symbol e hDesk with ⟨log, hRun, _⟩
    exact
      Engine.live_answer? hRun (hLive symbol e hDesk)
        hAnswer fun o hSubmit => hFree e o hDesk hSubmit
  constructor
  · apply forall_desks_request hLive
    intro e e' answer hDesk hAnswer
    exact (hStep e e' answer hDesk hAnswer).1
  · intro r hError
    rcases answer_request x symbol command now with
      ⟨e, e', hDesk, hAnswer⟩ | ⟨r', hRefused, hMild⟩
    · exact (hStep e e' _ hDesk hAnswer).2 r hError
    · rw [hError] at hRefused
      cases hRefused
      exact hMild

theorem isLive_serve
    {r : Request}
    (hSound : x.IsSound)
    (hLive : x.IsLive)
    (hFree :
      ∀ met comer, x.Meets now r met comer →
        ¬ met.IsStuckWith comer) :
    (x.serve now r).2.IsLive ∧
      ∀ refusal, (x.serve now r).1 = .error refusal →
        refusal.isFatal = false := by
  cases r with
  | submit o =>
      unfold serve submit
      simp only
      split
      · refine ⟨hLive, ?_⟩
        rintro refusal ⟨⟩
        rfl
      · rename_i hOrder
        apply isLive_request hSound hLive
        rintro e o' hDesk ⟨⟩
        refine ⟨rfl, ?_⟩
        intro met comer hMeets
        exact hFree met comer ⟨hOrder, e, hDesk, hMeets⟩
  | cancel symbol id =>
      apply isLive_request hSound hLive
      rintro e o hDesk ⟨⟩
  | query symbol q =>
      apply isLive_request hSound hLive
      rintro e o hDesk ⟨⟩

------------------------------------------------------------
-- Runs
------------------------------------------------------------

/- Whether no book is ever halted, and no request is refused
for good. -/
def NeverHalts
    (x : Exchange)
    (requests : List (Request × Timestamp)) : Prop :=
  (∀ past, past <+: requests → (x.serveAll past).2.IsLive) ∧
    ∀ refusal,
      .error refusal ∈ (x.serveAll requests).1 →
        refusal.isFatal = false

/- One request after the other. -/
theorem neverHalts_cons_iff
    {r : Request}
    {rest : List (Request × Timestamp)} :
    x.NeverHalts ((r, now) :: rest) ↔
      x.IsLive ∧
        (∀ refusal, (x.serve now r).1 = .error refusal →
          refusal.isFatal = false) ∧
        (x.serve now r).2.NeverHalts rest := by
  constructor
  · rintro ⟨hLive, hMild⟩
    refine ⟨hLive [] (List.nil_prefix), ?_, ?_, ?_⟩
    · intro refusal hError
      apply hMild
      rw [← hError]
      exact List.mem_cons_self ..
    · intro past hPast
      exact
        hLive ((r, now) :: past)
          ((List.prefix_cons_inj _).2 hPast)
    · intro refusal hMem
      exact hMild refusal (List.mem_cons_of_mem _ hMem)
  · rintro ⟨hLive, hFirst, hAfter, hMild⟩
    constructor
    · intro past hPast
      cases past with
      | nil => exact hLive
      | cons first past =>
          rcases List.cons_prefix_cons.1 hPast with
            ⟨rfl, hShort⟩
          exact hAfter past hShort
    · intro refusal hMem
      rcases List.mem_cons.1 hMem with hError | hRest
      · exact hFirst refusal hError.symm
      · exact hMild refusal hRest

/- The books of a sound exchange stay live just as long as all
orders that meet can trade.  By induction on the requests. -/
theorem neverHalts_iff_of_isSound
    {requests : List (Request × Timestamp)}
    (hSound : x.IsSound)
    (hLive : x.IsLive) :
    x.NeverHalts requests ↔
      ∀ met comer, x.MeetsWithin requests met comer →
        met.CanTradeWith comer := by
  induction requests generalizing x with
  | nil =>
      constructor
      · rintro _ met comer ⟨⟩
      · intro _
        constructor
        · intro past hPast
          rw [List.prefix_nil.1 hPast]
          exact hLive
        · intro refusal hMem
          cases hMem
  | cons request rest ih =>
      rcases request with ⟨r, now⟩
      have hNext : (x.serve now r).2.IsSound :=
        isSound_serve hSound r
      rw [neverHalts_cons_iff]
      constructor
      · rintro ⟨_, hMild, hRest⟩
        have hFree :
            ∀ met comer, x.Meets now r met comer →
              ¬ met.IsStuckWith comer := by
          intro met comer hMeets hStuck
          rcases
              isFatal_serve_of_meets hSound hMeets hStuck with
            ⟨refusal, hError, hFatal⟩
          rw [hMild refusal hError] at hFatal
          cases hFatal
        have hAfter :=
          (isLive_serve hSound hLive hFree).1
        rintro met comer (hMeets | hMeets)
        · exact
            (hMeets.canTradeWith_iff hSound).1
              (hFree met comer hMeets)
        · exact (ih hNext hAfter).1 hRest met comer hMeets
      · intro hCan
        have hFree :
            ∀ met comer, x.Meets now r met comer →
              ¬ met.IsStuckWith comer := by
          intro met comer hMeets
          exact
            (hMeets.canTradeWith_iff hSound).2
              (hCan met comer (Or.inl hMeets))
        rcases isLive_serve hSound hLive hFree with
          ⟨hAfter, hMild⟩
        refine ⟨hLive, hMild, (ih hNext hAfter).2 ?_⟩
        intro met comer hMeets
        exact hCan met comer (Or.inr hMeets)

/-
  From its start on, and whatever it is asked for, an exchange
  never halts a book just as long as all digits fit of every
  total that comes up between two orders that are open.
-/
theorem never_halts_iff
    {c : Config}
    (hStart : start? c = some (.ok x))
    (requests : List (Request × Timestamp)) :
    x.NeverHalts requests ↔
      ∀ met comer, x.MeetsWithin requests met comer →
        met.CanTradeWith comer :=
  neverHalts_iff_of_isSound (isSound_start? hStart)
    (isLive_start? hStart)

/- The exchange of a single book. -/
def single : Exchange :=
  ⟨[("BTC-USDT", some (Engine.new "BTC-USDT"))]⟩

/- It is what the default configuration starts. -/
theorem start?_default : start? {} = some (.ok single) := by
  decide +kernel

/- A seller of 1 at 20 and a buyer of a half, both spelled with
as many decimal places as intake lets pass. -/
def longSpellings : List Order :=
  [.ordinary 1 .sell
      (some (.ofParts 2000000000000000 14))
      (.ofParts 1 0),
    .ordinary 2 .buy none (.ofParts 50000000000000 14)]

/- The same two orders in short spellings. -/
def shortSpellings : List Order :=
  [.ordinary 1 .sell (some (.ofParts 20 0)) (.ofParts 1 0),
    .ordinary 2 .buy none (.ofParts 5 1)]

/- The seller rests, and then the half is traded for 10. -/
def spelledAnswers : List (Except Refusal Answer) :=
  [.ok (.report ⟨1, .rested (.ofParts 1 0), [], []⟩),
    .ok
      (.report
        ⟨2, .filled,
          [(Order.ordinary 1 .sell (some (.ofParts 20 0))
              (.ofParts 1 0)).trade
            (.ordinary 2 .buy none (.ofParts 5 1)) 1
            (.ofParts 20 0) (.ofParts 5 1) (.ofParts 100 1)
            (.ofNanos 0)],
          []⟩)]

/- Both sides hold of the short spellings, with which the two
orders trade; neither holds of the long ones. -/
theorem never_halts_iff_of_spellings :
    start? {} = some (.ok single) ∧
      (single.NeverHalts
          (longSpellings.map fun o =>
            (.submit o, .ofNanos 0)) ↔
        ∀ met comer,
          single.MeetsWithin
              (longSpellings.map fun o =>
                (.submit o, .ofNanos 0))
              met comer →
            met.CanTradeWith comer) ∧
      (let requests : List (Request × Timestamp) :=
        shortSpellings.map fun o => (.submit o, .ofNanos 0)
      (single.serveAll requests).1 = spelledAnswers ∧
        single.NeverHalts requests ∧
        ∀ met comer,
          single.MeetsWithin requests met comer →
            met.CanTradeWith comer) := by
  refine
    ⟨start?_default, never_halts_iff start?_default _, ?_⟩
  intro requests
  have hAnswers :
      (single.serveAll requests).1 = spelledAnswers := by
    decide +kernel
  have hDesks :
      ∀ past ∈ requests.inits,
        ∀ entry ∈ (single.serveAll past).2.desks,
          ∀ e ∈ entry.2, e.book.halted = false := by
    decide +kernel
  have hNever : single.NeverHalts requests := by
    constructor
    · intro past hPast
      exact
        isLive_of_forall_desks
          (hDesks past ((List.mem_inits _ _).2 hPast))
    · intro refusal hError
      rw [hAnswers] at hError
      simp [spelledAnswers] at hError
  exact
    ⟨hAnswers, hNever,
      (never_halts_iff start?_default _).1 hNever⟩

/- Both orders are sound and their total is 10, and yet the
book is halted when they meet: the digits of 10 do not fit at
the scale of the product. -/
theorem halts_at_total_of_ten :
    (∀ o ∈ longSpellings, o.defect? = none) ∧
      Decimal.IsAmount (20 * 10 ^ 28 / 2) ∧
      ¬ single.NeverHalts
        (longSpellings.map fun o =>
          (.submit o, .ofNanos 0)) := by
  refine ⟨by decide +kernel, ⟨.ofParts 10 0, ?_⟩, ?_⟩
  · decide +kernel
  · intro hNever
    have hMild :=
      hNever.2
        (.violation
          (.totalOutOfRange 1 2
            (.ofParts 2000000000000000 14)
            (.ofParts 50000000000000 14)))
        (by decide +kernel)
    cases hMild

end Exchange

end Matchbook
