import Matchbook.Json.Member
import Matchbook.Order.Basic

/-
  Orders as JSON values.

  Key definitions include:
    * `Order.toJson`
    * `Order.ofJson?`
-/

------------------------------------------------------------
-- Writing
------------------------------------------------------------

namespace Matchbook

namespace Order

/- The names of the members of an order, in their order. -/
def memberNames : List String :=
  ["id", "symbol", "member_id", "side", "price",
    "stop_price", "quantity", "filled_quantity",
    "immediate_or_cancel", "created_at"]

/- The values of the members, in the order of the names. -/
def memberValues (o : Order) : List Json :=
  [.uint64 o.id, .str o.symbol, .uint64 o.memberId,
    .side o.side, .optional .decimal o.price,
    .optional .decimal o.stopPrice, .decimal o.quantity,
    .decimal o.filled, .bool o.immediateOrCancel,
    .timestamp o.createdAt]

/- The JSON value of an order. -/
def toJson (o : Order) : Json :=
  .record (memberNames.zip o.memberValues)

------------------------------------------------------------
-- Reading
------------------------------------------------------------

/- An order from its members; only the prices may be
missing. -/
def ofMembers? : List (Option Json) → Option Order
  | [id, symbol, memberId, side, price, stopPrice, quantity,
      filled, immediateOrCancel, createdAt] => do
      return {
        id := ← (← id).asUInt64?
        symbol := ← (← symbol).asText?
        memberId := ← (← memberId).asUInt64?
        side := ← (← side).asSide?
        price := ← Json.asOption? Json.asDecimal? price
        stopPrice :=
          ← Json.asOption? Json.asDecimal? stopPrice
        quantity := ← (← quantity).asDecimal?
        filled := ← (← filled).asDecimal?
        immediateOrCancel := ← (← immediateOrCancel).asBool?
        createdAt := ← (← createdAt).asTimestamp? }
  | _ => none

/- The order that a JSON value stands for: an object with its
members, or an array of all of them. -/
def ofJson? : Json → Option Order
  | .object members => do
      ofMembers? (← Json.membersNamed? memberNames members)
  | .array items => ofMembers? (items.map some)
  | _ => none

end Order

end Matchbook
