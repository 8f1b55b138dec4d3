import Matchbook.Proofs.Book.Depth
import Matchbook.Proofs.Engine.Course
import Matchbook.Proofs.Engine.Replies
import Mathlib.Data.List.Dedup

/-
  The price levels of a book.

  A view of the levels is made in one scan of the ladder, that
  merges an entry with the next one where the prices agree.
  The ranking puts orders of one price next to each other, so
  that the scan counts no price twice and leaves no order out.

  Key definitions include:
    * `Order.restsAt`
    * `pendingSum?`
    * `priceCount`
    * `Aggregates`
    * `Depth.levels`
    * `Book.IsShownBy`

  The main statements are:
    * `Ladder.pairwise_priceRuns`
    * `Ladder.filter_restsAt`
    * `Ladder.IsRanked.aggregates`
    * `Aggregates.eq`
    * `Engine.isShownBy_depth?`
-/

------------------------------------------------------------
-- Levels
------------------------------------------------------------

namespace Matchbook

/- Whether an order has a price, however that is spelled. -/
def Order.restsAt (price : Decimal) (o : Order) : Bool :=
  o.price.any fun p => Decimal.Same p price

/- What is pending of some orders, added up one after the
other. -/
def pendingSum? (os : List Order) : Option Decimal :=
  os.foldlM (fun sum o => do sum.add? (← o.pending?)) 0

/- The number of prices of some orders that differ by
value. -/
def priceCount (os : List Order) : Nat :=
  ((os.filterMap Order.price).map Decimal.units).dedup.length

/-
  What it takes for a list to be the best `n` price levels of
  the orders of a side, which come in order of priority: each
  level is spelled like the price of the first of its orders
  and sums up all of them.
-/
structure Aggregates
    (side : Side)
    (os : List Order)
    (n : Nat)
    (levels : List (Decimal × Decimal)) : Prop where
  length_eq : levels.length = min n (priceCount os)
  sorted : levels.Pairwise fun a b => side.IsBetter a.1 b.1
  best :
    ∀ o ∈ os, ∃ price, o.price = some price ∧
      ((∃ level ∈ levels, Decimal.Same price level.1) ∨
        ∀ level ∈ levels, side.IsBetter level.1 price)
  price_eq :
    ∀ level ∈ levels,
      (os.find? (Order.restsAt level.1)).bind Order.price =
        some level.1
  quantity_eq :
    ∀ level ∈ levels,
      pendingSum? (os.filter (Order.restsAt level.1)) =
        some level.2

/- The levels of a side. -/
def Depth.levels (d : Depth) : Side → List (Decimal × Decimal)
  | .buy => d.bids
  | .sell => d.asks

/-
  What it takes for a view to show the best `n` levels of a
  book: both sides sum up their active orders, none of which
  waits for its stop price.
-/
structure Book.IsShownBy
    (b : Book)
    (n : Nat)
    (d : Depth) : Prop where
  symbol_eq : d.symbol = b.symbol
  aggregates :
    ∀ side,
      Aggregates side (b.orders side .price) n
        (d.levels side)
  active :
    ∀ side, ∀ o ∈ b.orders side .price,
      b.isPendingStop o.id = false

------------------------------------------------------------
-- Sums
------------------------------------------------------------

theorem Decimal.zero_add?
    (a : Decimal) :
    Decimal.add? 0 a = some a :=
  if_pos rfl

theorem pendingSum?_cons
    (o : Order)
    (os : List Order) :
    pendingSum? (o :: os) =
      o.pending?.bind fun p =>
        os.foldlM (fun sum o => do sum.add? (← o.pending?))
          p := by
  unfold pendingSum?
  rw [List.foldlM_cons, Option.bind_eq_bind,
    Option.bind_assoc]
  apply Option.bind_congr
  intro p _
  rw [Decimal.zero_add?, Option.bind_some]

/- A list has an outcome exactly when all its items have. -/
theorem mapM_eq_some_iff
    {α β : Type}
    {f : α → Option β}
    {as : List α}
    {bs : List β} :
    as.mapM f = some bs ↔ as.map f = bs.map some := by
  induction as generalizing bs with
  | nil => cases bs <;> simp
  | cons a as ih =>
      rw [List.mapM_cons]
      cases bs with
      | nil =>
          cases f a <;> cases as.mapM f <;> simp
      | cons b bs =>
          rw [List.map_cons, List.map_cons, List.cons_eq_cons,
            ← ih]
          cases f a <;> cases as.mapM f <;> simp

namespace Ladder

variable {side : Side}

/- A level sums up the orders of its run. -/
theorem level?_eq_map_pendingSum?
    (run : Entry Order × List (Entry Order)) :
    level? Order.pending? run =
      (pendingSum? ((runEntries run).map Entry.item)).map
        (run.1.key.price, ·) := by
  unfold level? runEntries
  rw [List.map_cons, pendingSum?_cons]
  cases run.1.item.pending? with
  | none => rfl
  | some first =>
      rw [Option.bind_eq_bind, Option.bind_some,
        Option.bind_some, List.foldlM_map]
      cases
        run.2.foldlM
          (fun sum e => do sum.add? (← e.item.pending?))
          first <;> rfl

------------------------------------------------------------
-- Runs of one price
------------------------------------------------------------

/- All entries of a run have the price of its first one. -/
theorem samePrice_of_mem_priceRuns
    {α : Type}
    {es : List (Entry α)}
    {run : Entry α × List (Entry α)}
    (h : run ∈ priceRuns es) :
    ∀ e ∈ runEntries run, SamePrice e run.1 := by
  induction es generalizing run with
  | nil => cases h
  | cons head rest ih =>
      have hAlone :
          ∀ e ∈ runEntries (head, []), SamePrice e head := by
        intro e he
        rw [List.mem_singleton.1 he]
        exact rfl
      unfold priceRuns at h
      split at h
      · rw [List.mem_singleton.1 h]
        exact hAlone
      · rename_i first others runs hRuns
        rw [hRuns] at ih
        split at h
        · rename_i hSame
          rcases List.mem_cons.1 h with rfl | hLater
          · intro e he
            rcases List.mem_cons.1 he with rfl | he
            · exact rfl
            · have hFirst := ih (List.mem_cons_self ..) e he
              exact hFirst.trans hSame.symm
          · exact ih (List.mem_cons_of_mem _ hLater)
        · rcases List.mem_cons.1 h with rfl | hLater
          · exact hAlone
          · exact ih hLater

theorem fst_mem_of_mem_priceRuns
    {α : Type}
    {es : List (Entry α)}
    {run : Entry α × List (Entry α)}
    (h : run ∈ priceRuns es) :
    run.1 ∈ es :=
  mem_of_mem_priceRuns h _ (List.mem_cons_self ..)

/-
  Of ranked entries each run has a better price than the ones
  after it.  By induction on the entries: a new one is no
  worse than all others, so it joins the first run or is
  better than it.
-/
theorem pairwise_priceRuns
    {es : List (Entry Order)}
    (h : RankedEntries side .price es) :
    (priceRuns es).Pairwise fun a b =>
      side.IsBetter a.1.key.price b.1.key.price := by
  induction es with
  | nil => exact List.Pairwise.nil
  | cons e rest ih =>
      have hRuns := ih (h.sublist (List.sublist_cons_self ..))
      have hSide :=
        (h.ranked e (List.mem_cons_self ..)).key_side
      have hOver := (List.pairwise_cons.1 h.sorted).1
      unfold priceRuns
      split
      · exact List.pairwise_singleton _ _
      · rename_i first others runs hEq
        rw [hEq] at hRuns
        rcases List.pairwise_cons.1 hRuns with
          ⟨hLater, hRest⟩
        split
        · rename_i hSame
          refine List.pairwise_cons.2 ⟨?_, hRest⟩
          intro run hRun
          exact (hLater run hRun).congr hSame.symm rfl
        · rename_i hDiffer
          have hHead : (first, others) ∈ priceRuns rest := by
            rw [hEq]
            exact List.mem_cons_self ..
          have hFirst : first ∈ rest :=
            fst_mem_of_mem_priceRuns hHead
          have hBetter :
              side.IsBetter e.key.price first.key.price := by
            rcases (hOver first hFirst).isNoWorse with
              hBetter | hSame
            · rw [← hSide]
              exact hBetter
            · exact absurd hSame hDiffer
          refine List.pairwise_cons.2 ⟨?_, hRuns⟩
          intro run hRun
          rcases List.mem_cons.1 hRun with rfl | hRun
          · exact hBetter
          · exact hBetter.trans (hLater run hRun)

end Ladder

theorem Side.IsBetter.not_same
    {s : Side}
    {p q : Decimal}
    (h : s.IsBetter p q) :
    ¬ Decimal.Same p q := by
  intro hSame
  unfold Decimal.Same at hSame
  cases s with
  | buy => exact Int.ne_of_lt h hSame.symm
  | sell => exact Int.ne_of_lt h hSame

theorem Entry.IsRanked.restsAt_iff
    {side : Side}
    {e : Entry Order}
    (h : e.IsRanked side .price)
    {price : Decimal} :
    e.item.restsAt price ↔
      Decimal.Same e.key.price price := by
  unfold Order.restsAt
  rw [h.price_eq]
  simp

namespace Ladder

variable {side : Side} {es : List (Entry Order)}
variable {run : Entry Order × List (Entry Order)}

/- The orders of one price are those of one run. -/
theorem filter_restsAt
    (h : RankedEntries side .price es)
    (hRun : run ∈ priceRuns es) :
    (es.map Entry.item).filter
        (Order.restsAt run.1.key.price) =
      (runEntries run).map Entry.item := by
  rcases List.append_of_mem hRun with ⟨before, after, hEq⟩
  have hApart := pairwise_priceRuns h
  rw [hEq, List.pairwise_append, List.pairwise_cons] at hApart
  rcases hApart with ⟨_, ⟨hAfter, _⟩, hBefore⟩
  have hNone :
      ∀ runs : List (Entry Order × List (Entry Order)),
        (∀ r ∈ runs, r ∈ priceRuns es ∧
          ¬ Decimal.Same r.1.key.price run.1.key.price) →
        (runs.flatMap runEntries).filter
          (fun e => e.item.restsAt run.1.key.price) = [] := by
    intro runs hOther
    rw [List.filter_eq_nil_iff]
    intro e he
    rcases List.mem_flatMap.1 he with ⟨r, hr, heRun⟩
    rcases hOther r hr with ⟨hMem, hDiffer⟩
    rw [(h.ranked e
      (mem_of_mem_priceRuns hMem e heRun)).restsAt_iff]
    intro hSame
    exact
      hDiffer
        ((samePrice_of_mem_priceRuns hMem e heRun).symm.trans
          hSame)
  have hOwn :
      (runEntries run).filter
          (fun e => e.item.restsAt run.1.key.price) =
        runEntries run := by
    rw [List.filter_eq_self]
    intro e he
    rw [(h.ranked e
      (mem_of_mem_priceRuns hRun e he)).restsAt_iff]
    exact samePrice_of_mem_priceRuns hRun e he
  have hSplit :
      es =
        before.flatMap runEntries ++ runEntries run ++
          after.flatMap runEntries := by
    conv_lhs => rw [← flatMap_priceRuns es, hEq]
    simp
  rw [List.filter_map]
  congr 1
  conv_lhs => rw [hSplit]
  change
    List.filter
        (fun e : Entry Order =>
          e.item.restsAt run.1.key.price) _ =
      _
  rw [List.filter_append, List.filter_append, hOwn,
    hNone before, hNone after, List.nil_append,
    List.append_nil]
  · intro r hr
    refine ⟨?_, fun hSame => (hAfter r hr).not_same hSame.symm⟩
    rw [hEq]
    exact
      List.mem_append_right _ (List.mem_cons_of_mem _ hr)
  · intro r hr
    refine
      ⟨?_,
        (hBefore r hr run (List.mem_cons_self ..)).not_same⟩
    rw [hEq]
    exact List.mem_append_left _ hr

/- There is one run for each price. -/
theorem length_priceRuns
    (h : RankedEntries side .price es) :
    (priceRuns es).length =
      priceCount (es.map Entry.item) := by
  have hPrices :
      (es.map Entry.item).filterMap Order.price =
        es.map fun e => e.key.price := by
    rw [List.filterMap_map, ← List.filterMap_eq_map]
    apply List.filterMap_congr
    intro e he
    exact (h.ranked e he).price_eq
  have hNodup :
      ((priceRuns es).map
        fun run => run.1.key.price.units).Nodup := by
    apply List.pairwise_map.2
    exact (pairwise_priceRuns h).imp fun hBetter =>
      hBetter.not_same
  have hMem :
      ∀ u,
        u ∈ (priceRuns es).map
            (fun run => run.1.key.price.units) ↔
          u ∈ (es.map fun e => e.key.price.units).dedup := by
    intro u
    rw [List.mem_dedup, List.mem_map, List.mem_map]
    constructor
    · rintro ⟨run, hRun, rfl⟩
      exact ⟨run.1, fst_mem_of_mem_priceRuns hRun, rfl⟩
    · rintro ⟨e, he, rfl⟩
      rw [← flatMap_priceRuns es] at he
      rcases List.mem_flatMap.1 he with ⟨run, hRun, he⟩
      exact
        ⟨run, hRun,
          (samePrice_of_mem_priceRuns hRun e he).symm⟩
  have hPerm :=
    (List.perm_ext_iff_of_nodup hNodup
      (List.nodup_dedup _)).2 hMem
  unfold priceCount
  rw [hPrices, List.map_map, ← List.length_map, hPerm.length_eq]
  rfl

/- Each order is in one of the runs. -/
theorem exists_mem_priceRuns
    (h : RankedEntries side .price es)
    {o : Order}
    (ho : o ∈ es.map Entry.item) :
    ∃ run ∈ priceRuns es, ∃ price, o.price = some price ∧
      Decimal.Same price run.1.key.price := by
  rcases List.mem_map.1 ho with ⟨e, he, rfl⟩
  have hPrice := (h.ranked e he).price_eq
  rw [← flatMap_priceRuns es] at he
  rcases List.mem_flatMap.1 he with ⟨run, hRun, he⟩
  exact
    ⟨run, hRun, e.key.price, hPrice,
      samePrice_of_mem_priceRuns hRun e he⟩

/- The parts of a level. -/
theorem level?_eq_some
    {level : Decimal × Decimal}
    (h : level? Order.pending? run = some level) :
    level.1 = run.1.key.price ∧
      pendingSum? ((runEntries run).map Entry.item) =
        some level.2 := by
  rw [level?_eq_map_pendingSum?] at h
  rcases Option.map_eq_some_iff.1 h with ⟨sum, hSum, rfl⟩
  exact ⟨rfl, hSum⟩

theorem map_fst_of_map_level?_eq
    {runs : List (Entry Order × List (Entry Order))}
    {levels : List (Decimal × Decimal)}
    (h : runs.map (level? Order.pending?) = levels.map some) :
    levels.map Prod.fst =
      runs.map fun run => run.1.key.price := by
  induction runs generalizing levels with
  | nil =>
      rw [List.map_eq_nil_iff.1 h.symm]
      rfl
  | cons run runs ih =>
      cases levels with
      | nil => cases h
      | cons level levels =>
          rcases List.cons.inj h with ⟨hHead, hTail⟩
          rw [List.map_cons, List.map_cons, ih hTail,
            (level?_eq_some hHead).1]

/- The levels that a ladder shows are those of its first
runs. -/
theorem map_level?_of_levels?
    {l : Ladder side .price Order}
    {n : Nat}
    {levels : List (Decimal × Decimal)}
    (h : l.levels? n Order.pending? = some levels) :
    ((priceRuns l.byPriority).take n).map
        (level? Order.pending?) =
      levels.map some := by
  unfold levels? at h
  split at h
  · cases h
  · exact mapM_eq_some_iff.1 h

/- Fewer levels are the first ones of more levels. -/
theorem levels?_prefix
    {l : Ladder side .price Order}
    {n m : Nat}
    {few many : List (Decimal × Decimal)}
    (hLe : n ≤ m)
    (hFew : l.levels? n Order.pending? = some few)
    (hMany : l.levels? m Order.pending? = some many) :
    few <+: many := by
  have hTake : few.map some = (many.take n).map some := by
    rw [← map_level?_of_levels? hFew, List.map_take,
      List.map_take, ← map_level?_of_levels? hMany,
      List.map_take, List.take_take, Nat.min_eq_left hLe]
  rw [(List.map_inj_right fun _ _ => Option.some.inj).1
    hTake]
  exact List.take_prefix n many

/-
  The best levels that a ladder shows are what its orders add
  up to: there is a run for each price, and it has all orders
  of the price.
-/
theorem IsRanked.aggregates
    {l : Ladder side .price Order}
    {n : Nat}
    {levels : List (Decimal × Decimal)}
    (h : l.IsRanked)
    (hLevels : l.levels? n Order.pending? = some levels) :
    Aggregates side (l.byPriority.map Entry.item) n
      levels := by
  have hRuns := map_level?_of_levels? hLevels
  have hPrices := map_fst_of_map_level?_eq hRuns
  have hRun :
      ∀ level ∈ levels,
        ∃ run ∈ priceRuns l.byPriority,
          level? Order.pending? run = some level := by
    intro level hLevel
    have hMem := List.mem_map_of_mem (f := some) hLevel
    rw [← hRuns] at hMem
    rcases List.mem_map.1 hMem with ⟨run, hRun, hEq⟩
    exact ⟨run, List.mem_of_mem_take hRun, hEq⟩
  have hSplit :=
    List.take_append_drop n (priceRuns l.byPriority)
  have hApart := pairwise_priceRuns h
  rw [← hSplit, List.pairwise_append] at hApart
  rcases hApart with ⟨hSorted, _, hAcross⟩
  exact
    { length_eq := by
        rw [← length_priceRuns h, ← List.length_take,
          ← List.length_map (Prod.fst), hPrices,
          List.length_map]
      sorted := by
        apply List.pairwise_map.1
        rw [hPrices]
        exact List.pairwise_map.2 hSorted
      best := by
        intro o ho
        rcases exists_mem_priceRuns h ho with
          ⟨run, hMem, price, hPrice, hSame⟩
        refine ⟨price, hPrice, ?_⟩
        rw [← hSplit] at hMem
        rcases List.mem_append.1 hMem with hShown | hLater
        · left
          have hFirst :
              run.1.key.price ∈ levels.map Prod.fst := by
            rw [hPrices]
            exact List.mem_map_of_mem hShown
          rcases List.mem_map.1 hFirst with
            ⟨level, hLevel, hEq⟩
          exact ⟨level, hLevel, hEq ▸ hSame⟩
        · right
          intro level hLevel
          have hFirst :=
            List.mem_map_of_mem (f := Prod.fst) hLevel
          rw [hPrices] at hFirst
          rcases List.mem_map.1 hFirst with
            ⟨shown, hShown, hEq⟩
          rw [← hEq]
          exact
            (hAcross shown hShown run hLater).congr rfl
              hSame.symm
      price_eq := by
        intro level hLevel
        rcases hRun level hLevel with ⟨run, hMem, hEq⟩
        rw [(level?_eq_some hEq).1, ← List.head?_filter,
          filter_restsAt h hMem]
        exact
          (h.ranked _
            (fst_mem_of_mem_priceRuns hMem)).price_eq
      quantity_eq := by
        intro level hLevel
        rcases hRun level hLevel with ⟨run, hMem, hEq⟩
        rw [(level?_eq_some hEq).1, filter_restsAt h hMem]
        exact (level?_eq_some hEq).2 }

end Ladder

------------------------------------------------------------
-- One list of levels
------------------------------------------------------------

theorem Order.restsAt_congr
    {p q : Decimal}
    (h : Decimal.Same p q) :
    Order.restsAt p = Order.restsAt q := by
  funext o
  unfold Order.restsAt
  cases o.price with
  | none => rfl
  | some r =>
      exact
        decide_eq_decide.2
          ⟨fun hr => hr.trans h, fun hr => hr.trans h.symm⟩

namespace Aggregates

variable {side : Side} {os : List Order} {n : Nat}
variable {levels levels' : List (Decimal × Decimal)}
variable {level level' : Decimal × Decimal}

theorem exists_order
    (h : Aggregates side os n levels)
    (hLevel : level ∈ levels) :
    ∃ o ∈ os, o.price = some level.1 := by
  rcases Option.bind_eq_some_iff.1 (h.price_eq level hLevel)
    with ⟨o, hFind, hPrice⟩
  exact ⟨o, List.mem_of_find?_eq_some hFind, hPrice⟩

/- A price is listed, or it is worse than all that are. -/
theorem exists_same_or_better
    (h : Aggregates side os n levels)
    (h' : Aggregates side os n levels')
    (hLevel' : level' ∈ levels') :
    (∃ level ∈ levels, Decimal.Same level'.1 level.1) ∨
      ∀ level ∈ levels, side.IsBetter level.1 level'.1 := by
  rcases h'.exists_order hLevel' with ⟨o, ho, hPrice⟩
  rcases h.best o ho with ⟨price, hEq, hBest⟩
  rw [hPrice] at hEq
  cases hEq
  exact hBest

/-
  Two lists of the best levels have the same prices: if one
  price were in only one of the lists, all of the other list
  would be better and so be in the first one as well, which
  would then be longer.
-/
theorem exists_same
    (h : Aggregates side os n levels)
    (h' : Aggregates side os n levels')
    (hLevel : level ∈ levels) :
    ∃ level' ∈ levels', Decimal.Same level.1 level'.1 := by
  rcases h'.exists_same_or_better h hLevel with
    hListed | hWorse
  · exact hListed
  exfalso
  have hOthers :
      ∀ level' ∈ levels', ∃ other ∈ levels,
        Decimal.Same level'.1 other.1 := by
    intro level' hLevel'
    rcases h.exists_same_or_better h' hLevel' with
      hListed | hBetter
    · exact hListed
    · exact
        absurd rfl
          ((hBetter level hLevel).trans
            (hWorse level' hLevel')).not_same
  have hUnits :
      ((level :: levels').map fun x => x.1.units).Nodup := by
    refine
      List.pairwise_map.2 (List.pairwise_cons.2 ⟨?_, ?_⟩)
    · intro level' hLevel' hSame
      exact (hWorse level' hLevel').not_same hSame.symm
    · exact h'.sorted.imp fun hBetter => hBetter.not_same
  have hSub :
      ((level :: levels').map fun x => x.1.units) ⊆
        levels.map fun x => x.1.units := by
    intro u hu
    rcases List.mem_map.1 hu with ⟨x, hx, rfl⟩
    rcases List.mem_cons.1 hx with rfl | hx
    · exact List.mem_map_of_mem hLevel
    · rcases hOthers x hx with ⟨other, hOther, hSame⟩
      exact List.mem_map.2 ⟨other, hOther, hSame.symm⟩
  have hLength := (hUnits.subperm hSub).length_le
  rw [List.length_map, List.length_map, List.length_cons,
    h.length_eq, h'.length_eq] at hLength
  omega

theorem mem_of_mem
    (h : Aggregates side os n levels)
    (h' : Aggregates side os n levels')
    (hLevel : level ∈ levels) :
    level ∈ levels' := by
  rcases h.exists_same h' hLevel with
    ⟨level', hLevel', hSame⟩
  have hRests := Order.restsAt_congr hSame
  have hPrice := h.price_eq level hLevel
  have hQuantity := h.quantity_eq level hLevel
  rw [hRests, h'.price_eq level' hLevel'] at hPrice
  rw [hRests, h'.quantity_eq level' hLevel'] at hQuantity
  have hEq : level' = level :=
    Prod.ext (Option.some.inj hPrice)
      (Option.some.inj hQuantity)
  exact hEq ▸ hLevel'

/- There is one list of the best levels. -/
theorem eq
    (h : Aggregates side os n levels)
    (h' : Aggregates side os n levels') :
    levels = levels' := by
  have hNe :
      ∀ {x y : Decimal × Decimal},
        side.IsBetter x.1 y.1 → x ≠ y := by
    rintro x y hBetter rfl
    exact hBetter.not_same rfl
  have hPerm :=
    (List.perm_ext_iff_of_nodup (h.sorted.imp hNe)
      (h'.sorted.imp hNe)).2
      fun level => ⟨h.mem_of_mem h', h'.mem_of_mem h⟩
  refine hPerm.eq_of_pairwise ?_ h.sorted h'.sorted
  intro x y _ _ hOver hUnder
  exact absurd rfl (hOver.trans hUnder).not_same

end Aggregates

------------------------------------------------------------
-- Views
------------------------------------------------------------

namespace Book

variable {b : Book} {n m : Nat} {d d' : Depth}

/- A view is made of the levels of both sides. -/
theorem depth?_eq_some_iff :
    b.depth? n = some d ↔
      d.symbol = b.symbol ∧
        ∀ side,
          (b.ladder side .price).levels? n Order.pending? =
            some (d.levels side) := by
  constructor
  · intro h
    unfold depth? at h
    rcases Option.bind_eq_some_iff.1 h with
      ⟨bids, hBids, hRest⟩
    rcases Option.bind_eq_some_iff.1 hRest with
      ⟨asks, hAsks, hEq⟩
    cases hEq
    refine ⟨rfl, ?_⟩
    intro side
    cases side with
    | buy => exact hBids
    | sell => exact hAsks
  · rintro ⟨hSymbol, hLevels⟩
    have hBids :
        b.bids.levels? n Order.pending? = some d.bids :=
      hLevels .buy
    have hAsks :
        b.asks.levels? n Order.pending? = some d.asks :=
      hLevels .sell
    unfold depth?
    rw [hBids, hAsks, ← hSymbol]
    rfl

/- An active order of an orderly book does not wait. -/
theorem isPendingStop_eq_false
    {side : Side}
    {o : Order}
    (hNodup : (b.allOrders.map Order.id).Nodup)
    (ho : o ∈ b.orders side .price) :
    b.isPendingStop o.id = false := by
  have hActive : o ∈ b.active := by
    cases side with
    | buy => exact List.mem_append_left _ ho
    | sell => exact List.mem_append_right _ ho
  have hFound : b.locate? o.id = some (o, .price) := by
    rw [locate?_eq_some_iff hNodup]
    exact
      ⟨List.mem_append_left _
        (List.mem_map_of_mem (f := (·, Policy.price)) hActive),
        rfl⟩
  unfold isPendingStop
  rw [hFound]
  rfl

/- What a book of ranked ladders shows is the sum of its
active orders. -/
theorem IsRanked.isShownBy
    (hRanked : b.IsRanked)
    (hNodup : (b.allOrders.map Order.id).Nodup)
    (h : b.depth? n = some d) :
    b.IsShownBy n d where
  symbol_eq := (depth?_eq_some_iff.1 h).1
  aggregates := by
    intro side
    exact
      (hRanked side .price).aggregates
        ((depth?_eq_some_iff.1 h).2 side)
  active := by
    intro side o ho
    exact isPendingStop_eq_false hNodup ho

/- The waiting orders have no part in a view. -/
theorem depth?_stops
    (b : Book)
    (n : Nat)
    (stopBids : Ladder .buy .stop Order)
    (stopAsks : Ladder .sell .stop Order) :
    { b with
      stopBids := stopBids
      stopAsks := stopAsks }.depth? n = b.depth? n :=
  rfl

/- A shorter view is the first part of a longer one. -/
theorem levels_prefix_of_depth?
    (hLe : n ≤ m)
    (h : b.depth? n = some d)
    (h' : b.depth? m = some d')
    (side : Side) :
    d.levels side <+: d'.levels side :=
  Ladder.levels?_prefix hLe
    ((depth?_eq_some_iff.1 h).2 side)
    ((depth?_eq_some_iff.1 h').2 side)

end Book

/-
  What an engine shows after any calls: the best `n` levels of
  either side, each with all that is pending there, whatever
  waits for its stop price; and more levels go on where fewer
  end.
-/
theorem Engine.isShownBy_depth?
    {symbol : String}
    {calls : List Call}
    {e : Engine}
    {n : Nat}
    {d : Depth}
    (hReach : (Engine.new symbol).run? calls = some e)
    (hDepth : e.book.depth? n = some d) :
    e.book.IsShownBy n d ∧
      (∀ stopBids stopAsks,
        { e.book with
          stopBids := stopBids
          stopAsks := stopAsks }.depth? n = some d) ∧
      ∀ m d', n ≤ m → e.book.depth? m = some d' →
        ∀ side, d.levels side <+: d'.levels side := by
  have hOrderly := isOrderly_run? hReach
  refine ⟨?_, ?_, ?_⟩
  · have hNodup := hOrderly.nodup
    unfold Floor.orders at hNodup
    rw [List.append_nil] at hNodup
    exact hOrderly.isRanked.isShownBy hNodup hDepth
  · intro stopBids stopAsks
    rw [Book.depth?_stops]
    exact hDepth
  · intro m d' hLe hMore side
    exact
      Book.levels_prefix_of_depth? hLe hDepth hMore side

/- Two spellings of one bid, a lower bid, two asks, and a
buyer that waits for 105. -/
def Engine.leveledCalls : List Call :=
  [.ordinary 1 .buy (some (.ofParts 10000 2)) (.ofParts 1 0),
    .ordinary 2 .buy (some (.ofParts 100 0))
      (.ofParts 25 1),
    .ordinary 3 .buy (some (.ofParts 99 0)) (.ofParts 5 0),
    .ordinary 4 .sell (some (.ofParts 102 0)) (.ofParts 1 0),
    .ordinary 5 .sell (some (.ofParts 101 0)) (.ofParts 3 0),
    .ordinaryStop 6 .buy (.ofParts 105 0)
      (.ofParts 7 0)].map fun o => .submit o (.ofNanos 0)

/- One level of each side, and both of them. -/
theorem Engine.isShownBy_depth?_of_leveled :
    ∃ e d,
      (new "BTC-USDT").run? leveledCalls = some e ∧
        e.book.depth? 1 = some d ∧
          d.bids = [(.ofParts 10000 2, .ofParts 35 1)] ∧
          d.asks = [(.ofParts 101 0, .ofParts 3 0)] ∧
      e.book.IsShownBy 1 d ∧
        (∀ stopBids stopAsks,
          { e.book with
            stopBids := stopBids
            stopAsks := stopAsks }.depth? 1 = some d) ∧
        ∀ m d', 1 ≤ m → e.book.depth? m = some d' →
          ∀ side, d.levels side <+: d'.levels side := by
  have hSeen :
      ((new "BTC-USDT").run? leveledCalls).any (fun e =>
        (e.book.depth? 1).any fun d =>
          decide
            (d.bids = [(.ofParts 10000 2, .ofParts 35 1)] ∧
              d.asks =
                [(.ofParts 101 0, .ofParts 3 0)])) := by
    decide +kernel
  rcases (Option.any_eq_true _ _).1 hSeen with
    ⟨e, hReach, hShown⟩
  rcases (Option.any_eq_true _ _).1 hShown with
    ⟨d, hDepth, hLevels⟩
  rcases of_decide_eq_true hLevels with ⟨hBids, hAsks⟩
  exact
    ⟨e, d, hReach, hDepth, hBids, hAsks,
      isShownBy_depth? hReach hDepth⟩

end Matchbook
