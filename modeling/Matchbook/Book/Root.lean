import Matchbook.Book.Basic
import Matchbook.Hash.Sha256

/-
  The state root of a book: a hash of all orders it holds, its
  last price and its next trade id.

  The bytes that are hashed spell amounts without zeros at the
  end of the fraction, so books that differ only in how their
  amounts are spelled have the same root.

  Key definitions include:
    * `Order.rootBytes`
    * `Book.rootBytes`
    * `Book.root`
    * `Book.rootText`
-/

------------------------------------------------------------
-- Bytes of the parts
------------------------------------------------------------

namespace Matchbook

/- The eight bytes of a number, the lowest first. -/
def littleEndian (n : UInt64) : List UInt8 :=
  [n.toUInt8, (n >>> 8).toUInt8, (n >>> 16).toUInt8,
    (n >>> 24).toUInt8, (n >>> 32).toUInt8,
    (n >>> 40).toUInt8, (n >>> 48).toUInt8,
    (n >>> 56).toUInt8]

/- The bytes of a text. -/
def textBytes (s : String) : List UInt8 :=
  s.toUTF8.toList

/- The shortest spelling of an amount. -/
def Decimal.rootBytes (d : Decimal) : List UInt8 :=
  textBytes d.normalize.toText

/- The shortest spelling of a price, a dash for none. -/
def priceBytes : Option Decimal → List UInt8
  | none => textBytes "-"
  | some p => p.rootBytes

/- The number that stands for a side. -/
def Side.rootByte : Side → UInt8
  | .buy => 0
  | .sell => 1

/- The microseconds of a time, modulo `2 ^ 64`. -/
def Timestamp.rootBytes (t : Timestamp) : List UInt8 :=
  littleEndian (t.micros % 2 ^ 64).toNat.toUInt64

------------------------------------------------------------
-- Bytes of a book
------------------------------------------------------------

/- The bytes that stand for an order. -/
def Order.rootBytes (o : Order) : List UInt8 :=
  littleEndian o.id ++ littleEndian o.memberId ++
    [o.side.rootByte] ++
    priceBytes o.price ++ [0] ++
    priceBytes o.stopPrice ++ [0] ++
    o.quantity.rootBytes ++ [0] ++
    o.filled.rootBytes ++ [0] ++
    [if o.immediateOrCancel then 1 else 0] ++
    o.createdAt.rootBytes

namespace Book

/- The bytes that stand for a ladder, its best order first. -/
def ladderBytes
    (b : Book)
    (side : Side)
    (policy : Policy) : List UInt8 :=
  0xff :: (b.orders side policy).flatMap Order.rootBytes

/- The bytes that stand for a book. -/
def rootBytes (b : Book) : List UInt8 :=
  textBytes b.symbol ++
    b.ladderBytes .buy .price ++
    b.ladderBytes .sell .price ++
    b.ladderBytes .buy .stop ++
    b.ladderBytes .sell .stop ++
    [0xfe] ++
    (b.lastPrice.map Decimal.rootBytes).getD [] ++
    littleEndian b.nextTradeId

/- The state root. -/
def root (b : Book) : List UInt8 :=
  Sha256.hash b.rootBytes

/- The state root in hexadecimal digits. -/
def rootText (b : Book) : String :=
  hexText b.root

end Book

end Matchbook
