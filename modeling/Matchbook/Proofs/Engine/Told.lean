import Matchbook.Proofs.Engine.Course

/-
  What an engine tells of its trades.

  The trades of all answers together are numbered without a
  gap, and nothing that is traded is left out, whatever way a
  submission ends.

  Key definitions include:
    * `Trade.AreNumbered`
    * `Book.Records`
    * `Engine.toldTrades`
    * `Engine.Tells`

  The main statements are:
    * `Book.Passes.records`
    * `Book.records_runQueue?`
    * `Engine.records_submit?`
    * `Engine.Tells.exists_run`
    * `Engine.Tells.gapless`
-/

------------------------------------------------------------
-- Numbered trades
------------------------------------------------------------

namespace Matchbook

namespace Trade

/- Whether trades are numbered one after the other. -/
def AreNumbered : UInt64 → List Trade → Prop
  | _, [] => True
  | id, t :: ts => t.id = id ∧ AreNumbered (id + 1) ts

variable {id : UInt64}
variable {ts ts' : List Trade}

theorem add_ofNat_succ
    (id : UInt64)
    (n : Nat) :
    id + 1 + UInt64.ofNat n = id + UInt64.ofNat (n + 1) := by
  rw [UInt64.add_assoc, UInt64.add_comm 1, UInt64.ofNat_add]
  rfl

theorem AreNumbered.append
    (h : AreNumbered id ts)
    (h' :
      AreNumbered (id + UInt64.ofNat ts.length) ts') :
    AreNumbered id (ts ++ ts') := by
  induction ts generalizing id with
  | nil =>
      rw [List.length_nil] at h'
      simpa using h'
  | cons t ts ih =>
      refine ⟨h.1, ih h.2 ?_⟩
      rw [add_ofNat_succ]
      exact h'

/- The number after that of the last trade. -/
theorem AreNumbered.next_eq
    (h : AreNumbered id ts)
    {t : Trade}
    (hLast : ts.getLast? = some t) :
    t.id + 1 = id + UInt64.ofNat ts.length := by
  induction ts generalizing id with
  | nil => cases hLast
  | cons first ts ih =>
      rw [List.length_cons, ← add_ofNat_succ]
      cases ts with
      | nil =>
          have hEq : first = t := Option.some.inj hLast
          rw [← hEq, h.1]
          simp
      | cons second ts =>
          rw [List.getLast?_cons_cons] at hLast
          exact ih h.2 hLast

/- As long as the numbers last, no two of them are equal. -/
theorem AreNumbered.toNat_eq_range'
    (h : AreNumbered id ts)
    (hFew : id.toNat + ts.length ≤ 2 ^ 64) :
    (ts.map fun t => t.id.toNat) =
      List.range' id.toNat ts.length := by
  induction ts generalizing id with
  | nil => rfl
  | cons t ts ih =>
      rw [List.length_cons] at hFew
      rw [List.map_cons, List.length_cons, List.range'_succ,
        h.1]
      congr 1
      cases ts with
      | nil => rfl
      | cons second ts =>
          have hNext : (id + 1).toNat = id.toNat + 1 := by
            rw [List.length_cons] at hFew
            rw [UInt64.toNat_add, UInt64.toNat_one]
            omega
          rw [ih h.2 (by rw [hNext]; omega), hNext]

end Trade

------------------------------------------------------------
-- Recorded trades
------------------------------------------------------------

namespace Book

/-
  Whether some trades have led from a book to another one, as
  far as the books tell: they have the next numbers, and the
  last one has set the last price.
-/
structure Records
    (b : Book)
    (ts : List Trade)
    (b' : Book) : Prop where
  numbered : Trade.AreNumbered b.nextTradeId ts
  next_eq :
    b'.nextTradeId =
      b.nextTradeId + UInt64.ofNat ts.length
  last_eq :
    b'.lastPrice =
      (ts.getLast?.map Trade.price).or b.lastPrice

variable {b b' b'' : Book}
variable {ts ts' : List Trade}

/- Nothing is traded where neither the next number nor the
last price changes. -/
theorem records_nil
    (hNext : b'.nextTradeId = b.nextTradeId)
    (hLast : b'.lastPrice = b.lastPrice) :
    b.Records [] b' where
  numbered := trivial
  next_eq := by
    rw [hNext]
    simp
  last_eq := hLast

theorem Records.trans
    (h : b.Records ts b')
    (h' : b'.Records ts' b'') :
    b.Records (ts ++ ts') b'' where
  numbered := by
    refine h.numbered.append ?_
    rw [← h.next_eq]
    exact h'.numbered
  next_eq := by
    rw [h'.next_eq, h.next_eq, UInt64.add_assoc,
      List.length_append, UInt64.ofNat_add]
  last_eq := by
    rw [h'.last_eq, h.last_eq, List.getLast?_append]
    cases ts'.getLast? <;> rfl

/- What trades nothing adds nothing. -/
theorem Records.trans_nil
    (h : b.Records ts b')
    (h' : b'.Records [] b'') :
    b.Records ts b'' := by
  have hAll := h.trans h'
  rw [List.append_nil] at hAll
  exact hAll

variable {policy : Policy}
variable {o taker : Order}
variable {now : Timestamp}
variable {m : Matching}

theorem records_withLadder
    {side : Side}
    (b : Book)
    (l : Ladder side policy Order) :
    b.Records [] (b.withLadder l) := by
  apply records_nil
  · cases side <;> cases policy <;> rfl
  · exact lastPrice_withLadder b l

theorem records_place
    (h : b.place policy o = .ok b') :
    b.Records [] b' := by
  rcases place_eq_ok h with ⟨l, _, rfl⟩
  exact records_withLadder b l

theorem records_cancel?
    {id : UInt64}
    (h : b.cancel? id = some (o, b')) :
    b.Records [] b' := by
  rcases cancel?_eq_some h with ⟨_, _, l, _, rfl⟩
  exact records_withLadder b l

theorem records_release (b : Book) :
    b.Records [] b.release.2 := by
  apply records_nil
  · unfold release
    split <;> rfl
  · exact lastPrice_release b

theorem records_releaseAfter
    (b : Book)
    (p : Pass) :
    b.Records [] (b.releaseAfter p).2 := by
  unfold releaseAfter
  split
  · exact records_nil rfl rfl
  · exact records_release b

theorem records_halt (b : Book) :
    b.Records [] b.halt :=
  records_nil rfl rfl

end Book

------------------------------------------------------------
-- Passes
------------------------------------------------------------

theorem Matching.Runs.areNumbered
    {now : Timestamp}
    {id : UInt64}
    {makers : List (Entry Order)}
    {taker : Order}
    {m : Matching}
    (h : Runs now id makers taker m) :
    Trade.AreNumbered id m.trades := by
  induction h with
  | filled => trivial
  | empty => trivial
  | apart => trivial
  | broken => trivial
  | traded _ hMeet _ ih =>
      exact ⟨(Deal.isStruck_of_meet? hMeet).2, ih⟩

namespace Book

variable {b b' : Book}
variable {taker : Order}
variable {now : Timestamp}
variable {p : Pass}

theorem records_settle
    {side : Side}
    {m : Matching}
    (hNumbered : Trade.AreNumbered b.nextTradeId m.trades) :
    b.Records m.trades (b.settle side m) where
  numbered := hNumbered
  next_eq := by
    have hSame :=
      b.records_withLadder
        (Ladder.ofPriority m.makers :
          Ladder side .price Order)
    unfold settle
    dsimp only
    split
    · rename_i hNone
      rw [List.getLast?_eq_none_iff.1 hNone]
      exact hSame.next_eq
    · rename_i t hLast
      exact hNumbered.next_eq hLast
  last_eq := lastPrice_settle b side m

theorem Finishes.records
    {ending : Ending}
    (h : b.Finishes taker ending b') :
    b.Records [] b' := by
  cases h with
  | filled => exact records_nil rfl rfl
  | discarded => exact records_nil rfl rfl
  | rested _ _ hPlace => exact records_place hPlace
  | broken => exact records_nil rfl rfl

/- A book records the trades of a pass, however it ends. -/
theorem Passes.records
    (h : b.Passes now taker p b') :
    b.Records p.trades b' := by
  cases h with
  | broken hRuns =>
      exact records_settle hRuns.areNumbered
  | finished hRuns _ hFinish =>
      exact
        (records_settle hRuns.areNumbered).trans_nil
          hFinish.records

/- The trades of a queue are recorded pass by pass. -/
theorem records_runQueue?
    {queue : List Order}
    {passes : List Pass}
    (h : runQueue? now queue b = some (passes, b')) :
    b.Records (passes.flatMap Pass.trades) b' := by
  induction queue, b using Book.runQueue?.induct now
    generalizing passes b' with
  | case1 b =>
      rw [runQueue?] at h
      cases h
      exact records_nil rfl rfl
  | case2 b o rest hPass =>
      rw [runQueue?_cons, hPass] at h
      cases h
  | case3 b o rest p b₁ hPass hBroken =>
      rw [runQueue?_cons, hPass] at h
      simp only [hBroken, if_true] at h
      cases h
      rw [List.flatMap_singleton]
      exact (passes_of_pass? hPass).records
  | case4 b o rest p b₁ hPass hIntact ih =>
      rw [runQueue?_cons, hPass] at h
      simp only [hIntact, Bool.false_eq_true, if_false] at h
      rcases Option.map_eq_some_iff.1 h with
        ⟨⟨others, b₂⟩, hRest, hEq⟩
      cases hEq
      have hFirst := (passes_of_pass? hPass).records
      have hReleased := b₁.records_releaseAfter p
      exact (hFirst.trans_nil hReleased).trans (ih hRest)

theorem records_cascade?
    {o : Order}
    {c : Cascade}
    (h : b.cascade? o now = some c) :
    b.Records c.trades c.book :=
  records_runQueue? (runQueue?_of_cascade? h)

end Book

------------------------------------------------------------
-- Answers
------------------------------------------------------------

namespace Engine

variable {e e' : Engine}
variable {o : Order}
variable {now : Timestamp}
variable {answer : Except Refusal Report}

/- The trades that an answer tells of: those of a report, and
those that were made before a contract was broken. -/
def toldTrades : Except Refusal Report → List Trade
  | .ok r => r.trades
  | .error (.violationAfterTrades _ trades) => trades
  | .error _ => []

theorem toldTrades_breakOff
    (e : Engine)
    (cause : Violation)
    (trades : List Trade) :
    toldTrades (e.breakOff cause trades).1 = trades := by
  unfold breakOff
  dsimp only
  split
  · rename_i hNone
    exact (List.isEmpty_iff.1 hNone).symm
  · rfl

/- What an engine has done with some trades, by its own
book-keeping. -/
structure Records
    (e : Engine)
    (ts : List Trade)
    (e' : Engine) : Prop where
  book : e.book.Records ts e'.book
  executed_eq :
    e'.executed = e.executed + UInt64.ofNat ts.length

theorem records_nil
    (hBook : e.book.Records [] e'.book)
    (hExecuted : e'.executed = e.executed) :
    e.Records [] e' where
  book := hBook
  executed_eq := by
    rw [hExecuted]
    simp

theorem Records.trans
    {e'' : Engine}
    {ts ts' : List Trade}
    (h : e.Records ts e')
    (h' : e'.Records ts' e'') :
    e.Records (ts ++ ts') e'' where
  book := h.book.trans h'.book
  executed_eq := by
    rw [h'.executed_eq, h.executed_eq, UInt64.add_assoc,
      List.length_append, UInt64.ofNat_add]

theorem records_breakOff
    (e : Engine)
    (cause : Violation)
    (trades : List Trade) :
    e.Records [] (e.breakOff cause trades).2 :=
  records_nil e.book.records_halt rfl

/- An executed order is answered with all trades of its
cascade. -/
theorem records_execute?
    (h : e.execute? o now = some (answer, e')) :
    ∃ c, e.book.cascade? o now = some c ∧
      toldTrades answer = c.trades ∧
        e.Records c.trades e' := by
  unfold execute? at h
  rcases Option.map_eq_some_iff.1 h with
    ⟨c, hCascade, hOutcome⟩
  refine ⟨c, hCascade, ?_⟩
  have hBook := Book.records_cascade? hCascade
  dsimp only at hOutcome
  split at hOutcome
  · rename_i report hReport
    cases hOutcome
    rcases Cascade.outcome_eq_ok_iff.1 hReport with
      ⟨_, _, _, rfl⟩
    exact ⟨rfl, hBook, rfl⟩
  · have hTold := congrArg (toldTrades ∘ Prod.fst) hOutcome
    have hEngine := congrArg Prod.snd hOutcome
    dsimp only [Function.comp] at hTold hEngine
    rw [toldTrades_breakOff] at hTold
    subst hEngine
    exact
      ⟨hTold.symm, hBook.trans_nil (Book.records_halt _),
        rfl⟩

theorem records_park
    (h : e.park o = (answer, e')) :
    toldTrades answer = [] ∧ e.Records [] e' := by
  unfold park at h
  split at h
  · rename_i hPlace
    cases h
    exact ⟨rfl, records_nil (Book.records_place hPlace) rfl⟩
  · have hTold := congrArg (toldTrades ∘ Prod.fst) h
    have hEngine := congrArg Prod.snd h
    dsimp only [Function.comp] at hTold hEngine
    rw [toldTrades_breakOff] at hTold
    subst hEngine
    exact ⟨hTold.symm, records_breakOff e _ []⟩

/- An order that is taken in is answered with the deals that
it sets off. -/
theorem records_admit?
    (h : e.admit? o now = some (answer, e')) :
    toldTrades answer = (e.deals o now).map Deal.trade ∧
      e.Records (toldTrades answer) e' := by
  unfold admit? at h
  unfold deals
  dsimp only at h
  split at h
  · rename_i hWait
    rcases records_park (Option.some.inj h) with
      ⟨hTold, hRecords⟩
    rw [if_pos hWait, hTold]
    exact ⟨rfl, hRecords.book, hRecords.executed_eq⟩
  · rename_i hGo
    rcases records_execute? h with
      ⟨c, hCascade, hTold, hRecords⟩
    dsimp only at hCascade
    rw [if_neg hGo, hCascade, hTold]
    refine ⟨?_, hRecords.book, hRecords.executed_eq⟩
    exact (List.map_flatMap ..).symm

/- The trade that is written to a log. -/
def Event.trade? : Event → Option Trade
  | .entry _ => none
  | .deal d => some d.trade

/- All trades in a log. -/
def trades (log : List Event) : List Trade :=
  log.filterMap Event.trade?

theorem trades_map_deal (ds : List Deal) :
    trades (ds.map .deal) = ds.map Deal.trade := by
  unfold trades
  rw [List.filterMap_map]
  exact congrFun List.filterMap_eq_map ds

/- However a submission ends, its answer tells of exactly what
is written to the log, and the engine keeps count of it. -/
theorem records_submit?
    (h : e.submit? o now = some (answer, e')) :
    toldTrades answer = trades (e.events o now) ∧
      e.Records (toldTrades answer) e' := by
  unfold events
  by_cases hIn : e.TakesIn o
  · rw [submit?_of_takesIn now hIn] at h
    rw [if_pos hIn, trades, List.filterMap_cons]
    exact
      ⟨(records_admit? h).1.trans
        (trades_map_deal (e.deals o now)).symm,
        (records_admit? h).2⟩
  · rw [if_neg hIn]
    rcases submit?_of_not_takesIn hIn h with
      ⟨rfl, hHalted | rfl⟩ | ⟨_, hBreak⟩
    · unfold submit? at h
      rw [if_pos hHalted] at h
      cases h
      exact ⟨rfl, records_nil (Book.records_nil rfl rfl) rfl⟩
    · exact ⟨rfl, records_nil (Book.records_nil rfl rfl) rfl⟩
    · have hTold :=
        toldTrades_breakOff e (e.book.misrouted o) []
      have hEngine := congrArg Prod.snd hBreak
      rw [← hBreak] at hTold
      dsimp only at hTold hEngine
      rw [hTold, hEngine]
      exact ⟨rfl, records_breakOff e _ []⟩

theorem records_cancel
    (e : Engine)
    (id : UInt64) :
    e.Records [] (e.cancel id).2 := by
  unfold cancel
  split
  · exact records_nil (Book.records_nil rfl rfl) rfl
  · split
    · exact records_nil (Book.records_nil rfl rfl) rfl
    · rename_i hCancel
      exact records_nil (Book.records_cancel? hCancel) rfl

------------------------------------------------------------
-- Runs
------------------------------------------------------------

/- An engine that has come from a new book by submissions and
cancellations, with the trades that its answers have told of
so far. -/
inductive Tells (symbol : String) :
    List Trade → Engine → Prop
  | start : Tells symbol [] (Engine.new symbol)
  | submit
      {told : List Trade}
      {e e' : Engine}
      {o : Order}
      {now : Timestamp}
      {answer : Except Refusal Report}
      (h : Tells symbol told e)
      (hSubmit : e.submit? o now = some (answer, e')) :
      Tells symbol (told ++ toldTrades answer) e'
  | cancel
      {told : List Trade}
      {e : Engine}
      (h : Tells symbol told e)
      (id : UInt64) :
      Tells symbol told (e.cancel id).2

namespace Tells

variable {symbol : String}
variable {told : List Trade}

/- Every trade that is made is told of. -/
theorem exists_run
    (h : Tells symbol told e) :
    ∃ log, Run symbol log e ∧ trades log = told := by
  induction h with
  | start => exact ⟨[], .start, rfl⟩
  | submit _ hSubmit ih =>
      rcases ih with ⟨log, hRun, hTrades⟩
      refine ⟨_, hRun.submit hSubmit, ?_⟩
      rw [(records_submit? hSubmit).1, ← hTrades]
      exact List.filterMap_append
  | cancel _ id ih =>
      rcases ih with ⟨log, hRun, hTrades⟩
      exact ⟨log, hRun.cancel id, hTrades⟩

theorem records
    (h : Tells symbol told e) :
    (Engine.new symbol).Records told e := by
  induction h with
  | start => exact Engine.records_nil (Book.records_nil rfl rfl) rfl
  | submit _ hSubmit ih =>
      exact ih.trans (records_submit? hSubmit).2
  | cancel _ id ih =>
      have hAll := ih.trans (records_cancel _ id)
      rw [List.append_nil] at hAll
      exact hAll

/-
  In every run the trades that are told of have the numbers
  from 1 on without a gap.  The next number, the count of the
  trades and the last price are those of the last one of them,
  and nothing else has been traded.
-/
theorem gapless
    (h : Tells symbol told e)
    (hFew : told.length < 2 ^ 64) :
    (told.map fun t => t.id.toNat) =
        List.range' 1 told.length ∧
      e.book.nextTradeId =
        UInt64.ofNat (told.length + 1) ∧
      e.executed.toNat = told.length ∧
      e.book.lastPrice = told.getLast?.map Trade.price ∧
      ∃ log, Run symbol log e ∧ trades log = told := by
  have hRecords := h.records
  have hFirst : (Engine.new symbol).book.nextTradeId = 1 := rfl
  refine ⟨?_, ?_, ?_, ?_, h.exists_run⟩
  · have hNumbered := hRecords.book.numbered
    rw [hFirst] at hNumbered
    exact
      hNumbered.toNat_eq_range' (by
        rw [UInt64.toNat_one]
        omega)
  · rw [hRecords.book.next_eq, hFirst, UInt64.ofNat_add,
      UInt64.add_comm]
    rfl
  · rw [hRecords.executed_eq]
    have hNone : (Engine.new symbol).executed = 0 := rfl
    rw [hNone, UInt64.zero_add, UInt64.toNat_ofNat']
    exact Nat.mod_eq_of_lt hFew
  · have hLast := hRecords.book.last_eq
    have hNone :
        (Engine.new symbol).book.lastPrice = none := rfl
    rw [hNone, Option.or_none] at hLast
    exact hLast

end Tells

/- Continue by a submission, unless the engine comes to a
number out of range. -/
def hear
    (now : Timestamp)
    (run : List Trade × Engine)
    (o : Order) : List Trade × Engine :=
  match run.2.submit? o now with
  | none => run
  | some (answer, e') => (run.1 ++ toldTrades answer, e')

/- What is told on some submissions, and the engine that they
lead to. -/
def heard
    (symbol : String)
    (os : List Order) : List Trade × Engine :=
  os.foldl (hear (Timestamp.ofNanos 0)) ([], new symbol)

theorem Tells.foldl_hear
    {symbol : String}
    {run : List Trade × Engine}
    (os : List Order)
    (h : Tells symbol run.1 run.2) :
    Tells symbol (os.foldl (hear now) run).1
      (os.foldl (hear now) run).2 := by
  induction os generalizing run with
  | nil => exact h
  | cons o os ih =>
      apply ih
      unfold hear
      split
      · exact h
      · rename_i hSubmit
        exact h.submit hSubmit

theorem tells_heard
    (symbol : String)
    (os : List Order) :
    Tells symbol (heard symbol os).1 (heard symbol os).2 :=
  Tells.foldl_hear os Tells.start

/- Two sellers, a buyer of a part of the first one, and a
buyer of more than that is left of it: the total with the
second seller has too many digits. -/
def breakingFlow : List Order :=
  [.ordinary 1 .sell (some (.ofParts 10 0)) (.ofParts 2 0),
    .ordinary 2 .sell (some (.ofParts (2 * 10 ^ 15) 14))
      (.ofParts 1 0),
    .ordinary 3 .buy none (.ofParts 1 0),
    .ordinary 4 .buy none (.ofParts (15 * 10 ^ 13) 14)]

/- The trade before the broken contract is told of. -/
theorem gapless_of_breaking :
    let told := (heard "BTC-USDT" breakingFlow).1
    let e := (heard "BTC-USDT" breakingFlow).2
    (told.length = 2 ∧ e.book.halted = true) ∧
      ((told.map fun t => t.id.toNat) =
          List.range' 1 told.length ∧
        e.book.nextTradeId =
          UInt64.ofNat (told.length + 1) ∧
        e.executed.toNat = told.length ∧
        e.book.lastPrice = told.getLast?.map Trade.price ∧
        ∃ log, Run "BTC-USDT" log e ∧
          trades log = told) := by
  refine ⟨by decide +kernel, ?_⟩
  exact
    (tells_heard "BTC-USDT" breakingFlow).gapless
      (by decide +kernel)

end Engine

end Matchbook
