import Matchbook.Decimal.Basic

/-
  The two sides of a market.

  Key definitions include:
    * `Side`
    * `Side.opposite`
    * `Side.name`
    * `Side.Triggers`
-/

------------------------------------------------------------
-- Sides
------------------------------------------------------------

namespace Matchbook

/- Buyers bid, sellers ask. -/
inductive Side where
  | buy
  | sell
deriving DecidableEq

namespace Side

/- The side an order trades against. -/
def opposite : Side → Side
  | buy => sell
  | sell => buy

@[simp] theorem opposite_opposite (s : Side) :
    s.opposite.opposite = s := by
  cases s <;> rfl

theorem ne_iff_eq_opposite {s t : Side} :
    s ≠ t ↔ t = s.opposite := by
  cases s <;> cases t <;> decide

/- The word for a side. -/
def name : Side → String
  | buy => "buy"
  | sell => "sell"

/- The side a word stands for. -/
def ofName? (name : String) : Option Side :=
  if name = "buy" then some buy
  else if name = "sell" then some sell
  else none

theorem ofName?_name (s : Side) :
    ofName? s.name = some s := by
  cases s <;> rfl

------------------------------------------------------------
-- Stop prices
------------------------------------------------------------

/-
  Whether a trade at the price `last` releases a stop order:
  a buy stop at or above its stop price, a sell stop at or
  below it.
-/
def Triggers (s : Side) (stop last : Decimal) : Prop :=
  match s with
  | buy => stop ≤ last
  | sell => last ≤ stop

instance (s : Side) (stop last : Decimal) :
    Decidable (s.Triggers stop last) :=
  match s with
  | buy => inferInstanceAs (Decidable (stop ≤ last))
  | sell => inferInstanceAs (Decidable (last ≤ stop))

end Side

end Matchbook
