import Matchbook.Ranking

/-
  The ranking of the keys of one side, in plain words: the
  better price first, of equal prices the earlier time, of
  equal times the lower id.

  Key definitions include:
    * `Timestamp.IsBefore`
    * `Side.IsBetter`
    * `RankedKey.Outranks`

  The main statements are:
    * `RankedKey.Outranks.trans`
    * `RankedKey.Outranks.asymm`
    * `RankedKey.outranks_total`
    * `RankedKey.compare_eq_gt_iff`
-/

------------------------------------------------------------
-- Times
------------------------------------------------------------

namespace Matchbook

namespace Timestamp

/- An earlier time; leap seconds count on in nanoseconds. -/
def IsBefore (a b : Timestamp) : Prop :=
  a.second < b.second ∨
    a.second = b.second ∧ a.nano < b.nano

theorem compare_eq_gt_iff
    {a b : Timestamp} :
    compare a b = .gt ↔ b.IsBefore a := by
  rw [compare_eq_then, Ordering.then_eq_gt,
    Int.compare_eq_gt, Int.compare_eq_eq,
    Nat.compare_eq_gt]
  unfold IsBefore
  omega

theorem IsBefore.trans
    {a b c : Timestamp}
    (hab : a.IsBefore b)
    (hbc : b.IsBefore c) :
    a.IsBefore c := by
  unfold IsBefore at *
  omega

/- Of two times one is earlier or they are the same. -/
theorem isBefore_trichotomy
    (a b : Timestamp) :
    a.IsBefore b ∨ a = b ∨ b.IsBefore a := by
  by_cases hEq : a = b
  · exact Or.inr (Or.inl hEq)
  have hNe := mt compare_eq_iff.1 hEq
  rw [compare_eq_then, Ordering.then_eq_eq,
    Int.compare_eq_eq, Nat.compare_eq_eq] at hNe
  unfold IsBefore
  omega

end Timestamp

------------------------------------------------------------
-- Prices
------------------------------------------------------------

namespace Side

/- A better price for a side: buyers pay more, sellers ask
less. -/
def IsBetter (s : Side) (p q : Decimal) : Prop :=
  match s with
  | buy => q < p
  | sell => p < q

theorem comparePrices_eq_gt_iff
    {s : Side}
    {p q : Decimal} :
    s.comparePrices p q = .gt ↔ s.IsBetter p q := by
  cases s with
  | buy => exact Int.compare_eq_gt
  | sell => exact Int.compare_eq_gt

theorem comparePrices_eq_eq_iff
    {s : Side}
    {p q : Decimal} :
    s.comparePrices p q = .eq ↔ Decimal.Same p q := by
  cases s with
  | buy => exact Int.compare_eq_eq
  | sell => exact Int.compare_eq_eq.trans eq_comm

theorem not_isBetter_self (s : Side) (p : Decimal) :
    ¬ s.IsBetter p p := by
  cases s with
  | buy => exact Int.lt_irrefl _
  | sell => exact Int.lt_irrefl _

theorem IsBetter.trans
    {s : Side}
    {p q r : Decimal}
    (hpq : s.IsBetter p q)
    (hqr : s.IsBetter q r) :
    s.IsBetter p r := by
  cases s with
  | buy => exact Int.lt_trans hqr hpq
  | sell => exact Int.lt_trans hpq hqr

theorem IsBetter.congr
    {s : Side}
    {p q p' q' : Decimal}
    (hp : Decimal.Same p p')
    (hq : Decimal.Same q q')
    (h : s.IsBetter p q) :
    s.IsBetter p' q' := by
  unfold Decimal.Same at hp hq
  cases s with
  | buy =>
      change q.units < p.units at h
      change q'.units < p'.units
      omega
  | sell =>
      change p.units < q.units at h
      change p'.units < q'.units
      omega

/- Of two prices one is better or they are the same by
value. -/
theorem isBetter_trichotomy
    (s : Side)
    (p q : Decimal) :
    s.IsBetter p q ∨ Decimal.Same p q ∨ s.IsBetter q p := by
  cases s with
  | buy =>
      change q.units < p.units ∨ p.units = q.units ∨
        p.units < q.units
      omega
  | sell =>
      change p.units < q.units ∨ p.units = q.units ∨
        q.units < p.units
      omega

end Side

------------------------------------------------------------
-- Keys
------------------------------------------------------------

namespace RankedKey

/- The higher rank of two keys of one side. -/
def Outranks (a b : RankedKey) : Prop :=
  a.side.IsBetter a.price b.price ∨
    Decimal.Same a.price b.price ∧
      (a.createdAt.IsBefore b.createdAt ∨
        a.createdAt = b.createdAt ∧ a.id < b.id)

/- Keys of different ids compare by rank. -/
theorem compare_eq_gt_iff
    {a b : RankedKey}
    (hId : a.id ≠ b.id) :
    a.compare b = .gt ↔ a.Outranks b := by
  unfold compare Outranks
  rw [if_neg hId, Ordering.then_eq_gt,
    Ordering.then_eq_gt, Side.comparePrices_eq_gt_iff,
    Side.comparePrices_eq_eq_iff,
    Timestamp.compare_eq_gt_iff,
    Timestamp.compare_eq_iff, Std.compare_eq_gt,
    eq_comm (a := b.createdAt)]

theorem compare_eq_eq_of_id_eq
    {a b : RankedKey}
    (hId : a.id = b.id) :
    a.compare b = .eq :=
  if_pos hId

/- Of two keys with different ids one outranks the other. -/
theorem outranks_total
    {a b : RankedKey}
    (hSide : a.side = b.side)
    (hId : a.id ≠ b.id) :
    a.Outranks b ∨ b.Outranks a := by
  unfold Outranks
  rw [← hSide]
  rcases a.side.isBetter_trichotomy a.price b.price with
    hPrice | hPrice | hPrice
  · exact Or.inl (Or.inl hPrice)
  · rcases
        Timestamp.isBefore_trichotomy a.createdAt
          b.createdAt with
      hTime | hTime | hTime
    · exact Or.inl (Or.inr ⟨hPrice, Or.inl hTime⟩)
    · rcases UInt64.lt_or_lt_of_ne hId with hLess | hLess
      · exact
          Or.inl (Or.inr ⟨hPrice, Or.inr ⟨hTime, hLess⟩⟩)
      · exact
          Or.inr
            (Or.inr
              ⟨hPrice.symm, Or.inr ⟨hTime.symm, hLess⟩⟩)
    · exact Or.inr (Or.inr ⟨hPrice.symm, Or.inl hTime⟩)
  · exact Or.inr (Or.inl hPrice)

theorem Outranks.trans
    {a b c : RankedKey}
    (hSide : a.side = b.side)
    (hab : a.Outranks b)
    (hbc : b.Outranks c) :
    a.Outranks c := by
  unfold Outranks at *
  rw [← hSide] at hbc
  rcases hab with hab | ⟨hPriceAB, hab⟩
  · left
    rcases hbc with hbc | ⟨hPriceBC, _⟩
    · exact hab.trans hbc
    · exact hab.congr rfl hPriceBC
  · rcases hbc with hbc | ⟨hPriceBC, hbc⟩
    · exact Or.inl (hbc.congr hPriceAB.symm rfl)
    · refine Or.inr ⟨hPriceAB.trans hPriceBC, ?_⟩
      rcases hab with hab | ⟨hTimeAB, hab⟩
      · left
        rcases hbc with hbc | ⟨hTimeBC, _⟩
        · exact hab.trans hbc
        · exact hTimeBC ▸ hab
      · rcases hbc with hbc | ⟨hTimeBC, hbc⟩
        · exact Or.inl (hTimeAB ▸ hbc)
        · exact
            Or.inr
              ⟨hTimeAB.trans hTimeBC,
                UInt64.lt_trans hab hbc⟩

theorem not_outranks_self (a : RankedKey) :
    ¬ a.Outranks a := by
  rintro (hPrice | ⟨_, hTime | ⟨_, hId⟩⟩)
  · exact a.side.not_isBetter_self a.price hPrice
  · unfold Timestamp.IsBefore at hTime
    omega
  · exact UInt64.lt_irrefl _ hId

/- No two keys of one side outrank each other. -/
theorem Outranks.asymm
    {a b : RankedKey}
    (hSide : a.side = b.side)
    (h : a.Outranks b) :
    ¬ b.Outranks a :=
  fun h' => a.not_outranks_self (h.trans hSide h')

end RankedKey

end Matchbook
