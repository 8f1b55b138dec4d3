import Matchbook.Json.Member
import Matchbook.Trade

/-
  Trades as JSON values.

  Key definitions include:
    * `Trade.toJson`
    * `Trade.ofJson?`
-/

------------------------------------------------------------
-- Writing
------------------------------------------------------------

namespace Matchbook

namespace Trade

/- The names of the members of a trade, in their order. -/
def memberNames : List String :=
  ["id", "symbol", "price", "quantity", "total",
    "taker_side", "maker_order_id", "taker_order_id",
    "maker_member_id", "taker_member_id", "created_at"]

/- The values of the members, in the order of the names. -/
def memberValues (t : Trade) : List Json :=
  [.uint64 t.id, .str t.symbol, .decimal t.price,
    .decimal t.quantity, .decimal t.total,
    .side t.takerSide, .uint64 t.makerOrderId,
    .uint64 t.takerOrderId, .uint64 t.makerMemberId,
    .uint64 t.takerMemberId, .timestamp t.createdAt]

/- The JSON value of a trade. -/
def toJson (t : Trade) : Json :=
  .record (memberNames.zip t.memberValues)

------------------------------------------------------------
-- Reading
------------------------------------------------------------

/- A trade from its members, none of which may be missing. -/
def ofMembers? : List (Option Json) → Option Trade
  | [id, symbol, price, quantity, total, takerSide,
      makerOrderId, takerOrderId, makerMemberId,
      takerMemberId, createdAt] => do
      return {
        id := ← (← id).asUInt64?
        symbol := ← (← symbol).asText?
        price := ← (← price).asDecimal?
        quantity := ← (← quantity).asDecimal?
        total := ← (← total).asDecimal?
        takerSide := ← (← takerSide).asSide?
        makerOrderId := ← (← makerOrderId).asUInt64?
        takerOrderId := ← (← takerOrderId).asUInt64?
        makerMemberId := ← (← makerMemberId).asUInt64?
        takerMemberId := ← (← takerMemberId).asUInt64?
        createdAt := ← (← createdAt).asTimestamp? }
  | _ => none

/- The trade that a JSON value stands for: an object with its
members, or an array of all of them. -/
def ofJson? : Json → Option Trade
  | .object members => do
      ofMembers? (← Json.membersNamed? memberNames members)
  | .array items => ofMembers? (items.map some)
  | _ => none

end Trade

end Matchbook
