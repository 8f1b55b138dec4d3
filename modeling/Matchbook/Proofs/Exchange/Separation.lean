import Matchbook.Proofs.Engine.Stamps
import Matchbook.Proofs.Exchange.Availability

/-
  Symbols do not interfere.

  The requests of one symbol are answered by its desk as if
  the exchange had no other desk and were asked for nothing
  else, whatever becomes of the other desks meanwhile.

  Key definitions include:
    * `Request.symbol`
    * `Exchange.answersFor`
    * `unstamped`

  The main statements are:
    * `Exchange.serve_of_desk?_eq`
    * `Exchange.answersFor_eq_filter`
    * `Exchange.serveAll_stamped`
    * `Exchange.exists_answers_alone`
-/

------------------------------------------------------------
-- Requests of a symbol
------------------------------------------------------------

namespace Matchbook

/- The symbol that a request is about, whether it reaches the
desk or not. -/
def Request.symbol : Request → String
  | .submit o => o.symbol
  | .cancel symbol _ => symbol
  | .query symbol _ => symbol

/- A request reaches no other desk than that of its symbol. -/
theorem Request.symbol_eq_of_target?
    {r : Request}
    {symbol : String}
    (hTarget : r.target? = some symbol) :
    r.symbol = symbol := by
  cases r with
  | submit o =>
      unfold target? at hTarget
      dsimp only at hTarget
      split at hTarget
      · cases hTarget
      · exact Option.some.inj hTarget
  | cancel => exact Option.some.inj hTarget
  | query => exact Option.some.inj hTarget

namespace Exchange

/- The answers to the requests of one symbol among others, in
their order. -/
def answersFor
    (x : Exchange)
    (symbol : String)
    (requests : List (Request × Timestamp)) :
    List (Except Refusal Answer) :=
  ((requests.zip (x.serveAll requests).1).filter
      fun asked => asked.1.1.symbol = symbol).map
    (·.2)

variable {x y : Exchange}
variable {symbol : String}
variable {r : Request}
variable {now : Timestamp}
variable {command : Command}

theorem serveAll_cons
    (x : Exchange)
    (r : Request)
    (now : Timestamp)
    (rest : List (Request × Timestamp)) :
    x.serveAll ((r, now) :: rest) =
      ((x.serve now r).1 ::
          ((x.serve now r).2.serveAll rest).1,
        ((x.serve now r).2.serveAll rest).2) :=
  rfl

theorem answersFor_cons
    (x : Exchange)
    (symbol : String)
    (r : Request)
    (now : Timestamp)
    (rest : List (Request × Timestamp)) :
    x.answersFor symbol ((r, now) :: rest) =
      if r.symbol = symbol then
        (x.serve now r).1 ::
          (x.serve now r).2.answersFor symbol rest
      else
        (x.serve now r).2.answersFor symbol rest := by
  unfold answersFor
  rw [serveAll_cons, List.zip_cons_cons, List.filter_cons]
  by_cases hSymbol : r.symbol = symbol <;> simp [hSymbol]

------------------------------------------------------------
-- One desk
------------------------------------------------------------

/- What becomes of a command is decided by the desk that it is
passed to. -/
theorem request_of_desk?_eq
    (hDesk : x.desk? symbol = y.desk? symbol)
    (command : Command)
    (now : Timestamp) :
    (x.request symbol command now).1 =
        (y.request symbol command now).1 ∧
      (x.request symbol command now).2.desk? symbol =
        (y.request symbol command now).2.desk? symbol := by
  unfold request
  rw [hDesk]
  cases hDesk' : y.desk? symbol with
  | none => exact ⟨rfl, hDesk⟩
  | some desk =>
      dsimp only
      rw [desk?_withDesk_self _ (hDesk.trans hDesk'),
        desk?_withDesk_self _ hDesk']
      exact ⟨rfl, rfl⟩

/- So is what becomes of a request, even if it is refused
before it reaches the desk. -/
theorem serve_of_desk?_eq
    (hDesk : x.desk? symbol = y.desk? symbol)
    (hSymbol : r.symbol = symbol)
    (now : Timestamp) :
    (x.serve now r).1 = (y.serve now r).1 ∧
      (x.serve now r).2.desk? symbol =
        (y.serve now r).2.desk? symbol := by
  subst hSymbol
  cases r with
  | submit o =>
      unfold serve submit
      dsimp only
      split
      · exact ⟨rfl, hDesk⟩
      · exact request_of_desk?_eq hDesk _ now
  | cancel => exact request_of_desk?_eq hDesk _ now
  | query => exact request_of_desk?_eq hDesk _ now

/- A request of another symbol leaves the desk alone. -/
theorem desk?_serve_of_symbol_ne
    (hSymbol : r.symbol ≠ symbol) :
    (x.serve now r).2.desk? symbol = x.desk? symbol :=
  desk?_serve_of_target?_ne fun hTarget =>
    hSymbol (Request.symbol_eq_of_target? hTarget)

/-
  Two exchanges with the same desk for a symbol answer its
  requests alike, also if one of them is asked for other
  things in between.  By induction on all requests; the two
  desks stay the same.
-/
theorem answersFor_eq_filter
    (hDesk : x.desk? symbol = y.desk? symbol)
    (requests : List (Request × Timestamp)) :
    let own :=
      requests.filter fun asked => asked.1.symbol = symbol
    x.answersFor symbol requests = (y.serveAll own).1 ∧
      (x.serveAll requests).2.desk? symbol =
        (y.serveAll own).2.desk? symbol := by
  induction requests generalizing x y with
  | nil => exact ⟨rfl, hDesk⟩
  | cons asked rest ih =>
      rcases asked with ⟨r, now⟩
      dsimp only at ih ⊢
      rw [answersFor_cons]
      by_cases hSymbol : r.symbol = symbol
      · rcases serve_of_desk?_eq hDesk hSymbol now with
          ⟨hAnswer, hAfter⟩
        rcases ih hAfter with ⟨hAnswers, hLast⟩
        rw [if_pos hSymbol,
          List.filter_cons_of_pos (by simpa using hSymbol),
          serveAll_cons, serveAll_cons, hAnswer, hAnswers]
        exact ⟨rfl, hLast⟩
      · have hAfter :
            (x.serve now r).2.desk? symbol =
              y.desk? symbol :=
          (desk?_serve_of_symbol_ne hSymbol).trans hDesk
        rw [if_neg hSymbol,
          List.filter_cons_of_neg (by simpa using hSymbol),
          serveAll_cons]
        exact ih hAfter

------------------------------------------------------------
-- Stamps
------------------------------------------------------------

end Exchange

/- An answer without the stamps of its trades. -/
def unstamped :
    Except Refusal Answer → Except Refusal Answer :=
  restamped Answer.stamped (.ofNanos 0)

theorem unstamped_restamped
    (now : Timestamp)
    (answer : Except Refusal Answer) :
    unstamped (restamped Answer.stamped now answer) =
      unstamped answer := by
  have hTrades :
      ∀ trades : List Trade,
        (trades.map (Trade.stamped now)).map
            (Trade.stamped (.ofNanos 0)) =
          trades.map (Trade.stamped (.ofNanos 0)) := by
    intro trades
    rw [List.map_map]
    rfl
  cases answer with
  | ok a =>
      cases a with
      | report r =>
          exact
            congrArg
              (fun trades =>
                Except.ok
                  (Answer.report { r with trades := trades }))
              (hTrades r.trades)
      | cancelled => rfl
      | order => rfl
      | price => rfl
      | depth => rfl
      | root => rfl
  | error refusal =>
      cases refusal with
      | violationAfterTrades cause trades =>
          exact
            congrArg
              (fun trades =>
                Except.error
                  (Refusal.violationAfterTrades cause trades))
              (hTrades trades)
      | violation => rfl
      | halted => rfl
      | invalidOrder => rfl
      | unknownSymbol => rfl
      | duplicateOrder => rfl
      | unavailable => rfl

namespace Exchange

variable {x : Exchange}

theorem request_stamped
    (x : Exchange)
    (symbol : String)
    (command : Command)
    (now now' : Timestamp) :
    x.request symbol command now =
      (restamped Answer.stamped now
          (x.request symbol command now').1,
        (x.request symbol command now').2) := by
  unfold request
  cases x.desk? symbol with
  | none => rfl
  | some desk =>
      cases desk with
      | none => rfl
      | some e =>
          simp only [Desk.serve]
          rw [Engine.answer?_stamped e now now' command]
          cases e.answer? now' command <;> rfl

theorem serve_stamped
    (x : Exchange)
    (r : Request)
    (now now' : Timestamp) :
    x.serve now r =
      (restamped Answer.stamped now (x.serve now' r).1,
        (x.serve now' r).2) := by
  cases r with
  | submit o =>
      unfold serve submit
      dsimp only
      split
      · rfl
      · exact request_stamped x o.symbol _ now now'
  | cancel symbol id =>
      exact request_stamped x symbol (.cancel id) now now'
  | query symbol q =>
      exact request_stamped x symbol (.query q) now now'

/- Asked for the same at other times an exchange answers the
same but for the stamps, and it comes to the same. -/
theorem serveAll_stamped
    {requests requests' : List (Request × Timestamp)}
    (h : requests.map Prod.fst = requests'.map Prod.fst)
    (x : Exchange) :
    (x.serveAll requests).1.map unstamped =
        (x.serveAll requests').1.map unstamped ∧
      (x.serveAll requests).2 = (x.serveAll requests').2 := by
  induction requests generalizing requests' x with
  | nil =>
      rw [List.map_nil, eq_comm, List.map_eq_nil_iff] at h
      rw [h]
      exact ⟨rfl, rfl⟩
  | cons asked rest ih =>
      rcases asked with ⟨r, now⟩
      cases requests' with
      | nil => cases h
      | cons asked' rest' =>
          rcases asked' with ⟨r', now'⟩
          rcases List.cons_eq_cons.1 h with ⟨hEq, hRest⟩
          cases hEq
          rcases ih hRest (x.serve now' r).2 with
            ⟨hAnswers, hLast⟩
          rw [serveAll_cons, serveAll_cons,
            serve_stamped x r now now', List.map_cons,
            List.map_cons, unstamped_restamped, hAnswers,
            hLast]
          exact ⟨rfl, rfl⟩

------------------------------------------------------------
-- Exchanges of one symbol
------------------------------------------------------------

end Exchange

namespace Config

/- Symbols without a defect are not blank. -/
theorem not_isBlank_of_symbolDefect?_eq_none
    {before symbols : List String}
    {symbol : String}
    (h : symbolDefect? before symbols = none)
    (hMem : symbol ∈ symbols) :
    isBlankText symbol = false := by
  induction symbols generalizing before with
  | nil => cases hMem
  | cons s rest ih =>
      unfold symbolDefect? at h
      split at h
      · cases h
      rename_i hBlank
      split at h
      · cases h
      rcases List.mem_cons.1 hMem with rfl | hRest
      · simpa using hBlank
      · exact ih h hRest

/- A configuration without a defect has none either if it is
cut down to one of its symbols. -/
theorem defect?_alone
    {c : Config}
    {symbol : String}
    (h : c.defect? = none)
    (hMem : symbol ∈ c.symbols) :
    { c with symbols := [symbol] }.defect? = none := by
  unfold defect? at h ⊢
  split at h
  · cases h
  split at h
  · cases h
  rename_i hSymbols
  have hSolid :=
    not_isBlank_of_symbolDefect?_eq_none hSymbols hMem
  have hAlone : symbolDefect? [] [symbol] = none := by
    simp [symbolDefect?, hSolid]
  simpa [hAlone] using h

end Config

namespace Exchange

variable {x : Exchange}
variable {symbol : String}
variable {c : Config}

/- What has to hold of a configuration that is accepted. -/
theorem start?_eq_ok_iff :
    start? c = some (.ok x) ↔
      c.defect? = none ∧
        ¬ (maxQueue < c.channelCapacity ∨
          Book.maxRoom < c.bookCapacity) ∧
        x = ⟨c.symbols.map fun s =>
          (s, some (Engine.new s))⟩ := by
  unfold start?
  cases c.defect? with
  | some d => simp
  | none =>
      dsimp only
      split
      · rename_i hLarge
        simp [hLarge]
      · rename_i hSmall
        simp [hSmall, eq_comm]

/- At the start every symbol of the configuration has a desk
with a new book. -/
theorem desk?_of_start?
    (hStart : start? c = some (.ok x))
    (hMem : symbol ∈ c.symbols) :
    x.desk? symbol = some (some (Engine.new symbol)) := by
  have hDesk : ∃ desk, x.desk? symbol = some desk := by
    rw [(start?_eq_ok_iff.1 hStart).2.2]
    simp only [desk?]
    rw [← Option.isSome_iff_exists, List.lookup_isSome_iff]
    exact ⟨_, List.mem_map_of_mem hMem, by simp⟩
  rcases hDesk with ⟨desk, hDesk⟩
  rw [hDesk, desk_eq_of_start? hStart hDesk]

/-
  In every exchange, whatever it is asked for, the requests of
  one of its symbols are answered as in an exchange of that
  symbol alone, which is asked for nothing else, and the desk
  of the symbol ends in the same state.  If these requests
  come at other times, only the stamps of trades differ.
-/
theorem exists_answers_alone
    (hStart : start? c = some (.ok x))
    (hMem : symbol ∈ c.symbols) :
    ∃ y,
      start? { c with symbols := [symbol] } =
          some (.ok y) ∧
        ∀ requests alone : List (Request × Timestamp),
          alone.map Prod.fst =
              (requests.map Prod.fst).filter
                (fun r => r.symbol = symbol) →
            (x.answersFor symbol requests).map unstamped =
                (y.serveAll alone).1.map unstamped ∧
              (x.serveAll requests).2.desk? symbol =
                (y.serveAll alone).2.desk? symbol := by
  rcases start?_eq_ok_iff.1 hStart with
    ⟨hSound, hSmall, _⟩
  have hAlone :
      start? { c with symbols := [symbol] } =
        some (.ok ⟨[(symbol, some (Engine.new symbol))]⟩) :=
    start?_eq_ok_iff.2
      ⟨Config.defect?_alone hSound hMem, hSmall, rfl⟩
  refine ⟨_, hAlone, ?_⟩
  intro requests alone hRequests
  have hDesk :=
    (desk?_of_start? hStart hMem).trans
      (desk?_of_start? hAlone
        (List.mem_singleton_self symbol)).symm
  rcases answersFor_eq_filter hDesk requests with
    ⟨hAnswers, hLast⟩
  have hSame :
      alone.map Prod.fst =
        (requests.filter fun asked =>
          asked.1.symbol = symbol).map Prod.fst := by
    rw [hRequests, List.filter_map]
    rfl
  rcases serveAll_stamped hSame
      ⟨[(symbol, some (Engine.new symbol))]⟩ with
    ⟨hStamps, hEnd⟩
  rw [hAnswers, hLast, hStamps, hEnd]
  exact ⟨rfl, rfl⟩

/- Three symbols. -/
def threeSymbols : Config :=
  { symbols := ["BTC-USDT", "ETH-USDT", "SOL-USDT"] }

/- The requests of the first symbol: a seller, a buyer of half
as much and a repeated cancellation. -/
def quietRequests : List Request :=
  [.submit
      (.ordinary 1 .sell (some (.ofParts 100 0))
        (.ofParts 2 0)),
    .submit (.ordinary 2 .buy none (.ofParts 1 0)),
    .cancel "BTC-USDT" 1,
    .cancel "BTC-USDT" 1]

/- Some orders for the book of another symbol. -/
def sentTo (symbol : String) (os : List Order) :
    List Request :=
  os.map fun o => .submit { o with symbol := symbol }

/- The same requests among others with the same ids, after
which the second book is halted and the third desk closed. -/
def turmoil : List (Request × Timestamp) :=
  (quietRequests.take 1 ++
    sentTo "ETH-USDT" longSpellings ++
    sentTo "SOL-USDT" largeSales ++
    quietRequests.drop 1).map (·, .ofNanos 1)

theorem exists_answers_alone_of_turmoil :
    ∃ x y,
      start? threeSymbols = some (.ok x) ∧
      start? { threeSymbols with symbols := ["BTC-USDT"] } =
        some (.ok y) ∧
      ((x.serveAll turmoil).2.desk? "ETH-USDT").any
          (fun desk => desk.any (·.book.halted)) = true ∧
      (x.serveAll turmoil).2.desk? "SOL-USDT" = some none ∧
      (x.answersFor "BTC-USDT" turmoil).map unstamped =
        (y.serveAll
          (quietRequests.map (·, .ofNanos 0))).1.map
            unstamped ∧
      (x.serveAll turmoil).2.desk? "BTC-USDT" =
        (y.serveAll
          (quietRequests.map (·, .ofNanos 0))).2.desk?
            "BTC-USDT" := by
  have hStart :
      start? threeSymbols =
        some
          (.ok
            ⟨threeSymbols.symbols.map fun s =>
              (s, some (Engine.new s))⟩) := by
    decide +kernel
  have hMem : "BTC-USDT" ∈ threeSymbols.symbols := by
    decide
  rcases exists_answers_alone hStart hMem with
    ⟨y, hAlone, hSame⟩
  rcases
      hSame turmoil (quietRequests.map (·, .ofNanos 0))
        (by decide +kernel) with
    ⟨hAnswers, hDesk⟩
  exact
    ⟨_, y, hStart, hAlone, by decide +kernel,
      by decide +kernel, hAnswers, hDesk⟩

end Exchange

end Matchbook
