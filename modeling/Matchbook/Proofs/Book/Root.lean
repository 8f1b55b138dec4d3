import Matchbook.Book.Root
import Matchbook.Proofs.Decimal.Text
import Matchbook.Proofs.Engine.Run

/-
  What the bytes of a state root tell.

  The bytes that are hashed hold no counts and no lengths, and
  the marks between the ladders can also be the first byte of
  an order.  They tell a book all the same: amounts are spelled
  with bytes greater than those of a side or a flag, so that a
  reader who takes a mark for an order, or an order for a
  mark, soon comes to a byte that cannot be there.

  What the bytes do not tell is how an amount is spelled, what
  a time holds beyond microseconds, and whether it lies in a
  leap second or in the second after it.

  Key definitions include:
    * `Timestamp.AgreesToMicros`
    * `Timestamp.IsLeapBefore`
    * `IsWord`
    * `wordsBytes`
    * `laddersBytes`
    * `Order.IsAlike`
    * `Book.IsAlike`

  The main statements are:
    * `textBytes_injective`
    * `Timestamp.micros_eq_iff`
    * `Decimal.rootBytes_inj`
    * `Order.isAlike_of_append_eq`
    * `wordsBytes_ne_shifted`
    * `Order.rootBytes_append_ne_laddersBytes`
    * `Book.rootBytes_eq_iff`
    * `Book.rootBytes_eq_of_leapSecond`
-/

------------------------------------------------------------
-- Bytes of texts
------------------------------------------------------------

namespace Matchbook

private theorem toList_loop_eq
    (bs : ByteArray)
    (i : Nat)
    (r : List UInt8) :
    ByteArray.toList.loop bs i r =
      r.reverse ++ bs.data.toList.drop i := by
  fun_induction ByteArray.toList.loop bs i r with
  | case1 i r hi ih =>
      have hLength : i < bs.data.toList.length := by
        simpa using hi
      rw [ih, List.drop_eq_getElem_cons hLength]
      simp [ByteArray.get!, hi]
  | case2 i r hi =>
      have hLength : bs.data.toList.length ≤ i := by
        simpa using Nat.le_of_not_lt hi
      rw [List.drop_eq_nil_of_le hLength, List.append_nil]

/- A text is encoded character by character. -/
theorem textBytes_eq_flatMap (s : String) :
    textBytes s =
      s.toList.flatMap String.utf8EncodeChar := by
  have hBytes :
      s.toUTF8 =
        (s.toList.flatMap
          String.utf8EncodeChar).toByteArray := by
    rw [String.toUTF8_eq_toByteArray]
    conv => lhs; rw [← String.ofList_toList (s := s)]
    rfl
  unfold textBytes ByteArray.toList
  rw [toList_loop_eq, hBytes]
  simp

theorem textBytes_injective :
    Function.Injective textBytes := by
  intro s t h
  rw [← String.toByteArray_inj,
    ← String.ofList_toList (s := s),
    ← String.ofList_toList (s := t)]
  rw [textBytes_eq_flatMap, textBytes_eq_flatMap] at h
  exact congrArg List.toByteArray h

theorem textBytes_toText (a : Decimal) :
    textBytes a.toText =
      a.toChars.flatMap String.utf8EncodeChar := by
  rw [textBytes_eq_flatMap]
  unfold Decimal.toText
  rw [String.toList_ofList]

/- The mark of a ladder is no byte of any character. -/
theorem ne_mark_of_mem_utf8EncodeChar
    {b : UInt8}
    {c : Char}
    (hb : b ∈ String.utf8EncodeChar c) :
    b ≠ 0xff := by
  rintro rfl
  unfold String.utf8EncodeChar at hb
  dsimp only at hb
  generalize c.val.toNat = v at hb
  split_ifs at hb
  all_goals
    simp only [List.mem_cons, List.not_mem_nil, or_false,
      ← UInt8.toNat_inj, UInt8.toNat_ofNat',
      UInt8.reduceToNat] at hb
    omega

theorem mark_not_mem_textBytes (s : String) :
    (0xff : UInt8) ∉ textBytes s := by
  rw [textBytes_eq_flatMap, List.mem_flatMap]
  rintro ⟨c, _, hByte⟩
  exact ne_mark_of_mem_utf8EncodeChar hByte rfl

------------------------------------------------------------
-- Bytes of numbers and times
------------------------------------------------------------

@[simp] theorem length_littleEndian (n : UInt64) :
    (littleEndian n).length = 8 :=
  rfl

theorem littleEndian_injective :
    Function.Injective littleEndian := by
  intro m n h
  unfold littleEndian at h
  simp only [List.cons.injEq, and_true, ← UInt8.toNat_inj,
    UInt64.toNat_toUInt8, UInt64.toNat_shiftRight,
    Nat.shiftRight_eq_div_pow, UInt64.reduceToNat,
    Nat.reduceMod, Nat.reducePow] at h
  rw [← UInt64.toNat_inj]
  have hm := m.toNat_lt
  have hn := n.toNat_lt
  omega

@[simp] theorem Timestamp.length_rootBytes
    (t : Timestamp) :
    t.rootBytes.length = 8 :=
  rfl

/- All times lie within what eight bytes can tell. -/
theorem Timestamp.rootBytes_inj
    {t t' : Timestamp} :
    t.rootBytes = t'.rootBytes ↔ t.micros = t'.micros := by
  constructor
  · intro h
    have hWord := littleEndian_injective h
    have hBounds :
        ∀ t : Timestamp,
          -2 ^ 63 ≤ t.micros ∧ t.micros < 2 ^ 63 := by
      intro t
      have hFirst := t.first_le
      have hLast := t.le_last
      have hNano := t.nano_lt
      unfold firstSecond at hFirst
      unfold lastSecond at hLast
      unfold Timestamp.micros
      omega
    have hLeft := hBounds t
    have hRight := hBounds t'
    rw [← UInt64.toNat_inj, Nat.toUInt64_eq,
      Nat.toUInt64_eq, UInt64.toNat_ofNat',
      UInt64.toNat_ofNat'] at hWord
    omega
  · intro h
    unfold Timestamp.rootBytes
    rw [h]

namespace Timestamp

variable {t t' : Timestamp}

/- Whether two times agree to the microsecond. -/
def AgreesToMicros (t t' : Timestamp) : Prop :=
  t.second = t'.second ∧ t.nano / 1000 = t'.nano / 1000

instance (t t' : Timestamp) :
    Decidable (t.AgreesToMicros t') :=
  inferInstanceAs (Decidable (_ ∧ _))

/- Whether a time lies in the leap second just before the
second of another one, and at the same microsecond of it. -/
def IsLeapBefore (t t' : Timestamp) : Prop :=
  t.second + 1 = t'.second ∧
    t.nano / 1000 = t'.nano / 1000 + 10 ^ 6

/- The microseconds tell a time to the microsecond, but take a
leap second for the second after it. -/
theorem micros_eq_iff :
    t.micros = t'.micros ↔
      t.AgreesToMicros t' ∨ t.IsLeapBefore t' ∨
        t'.IsLeapBefore t := by
  have hLeft := t.nano_lt
  have hRight := t'.nano_lt
  unfold micros AgreesToMicros IsLeapBefore
  omega

end Timestamp

------------------------------------------------------------
-- Words
------------------------------------------------------------

/- Whether the bytes spell an amount or a dash: none of them
can be taken for a side, a flag or the end of a word. -/
structure IsWord (w : List UInt8) : Prop where
  ne_nil : w ≠ []
  one_lt : ∀ b ∈ w, 1 < b

theorem IsWord.zero_not_mem
    {w : List UInt8}
    (hw : IsWord w) :
    0 ∉ w :=
  fun hMem => absurd (hw.one_lt 0 hMem) (by decide)

/- A list that is ended by a mark it does not hold. -/
theorem append_cons_inj
    {α : Type}
    {z : α}
    {u v r s : List α}
    (hu : z ∉ u)
    (hv : z ∉ v)
    (h : u ++ z :: r = v ++ z :: s) :
    u = v ∧ r = s := by
  induction u generalizing v with
  | nil =>
      cases v with
      | nil => exact ⟨rfl, (List.cons_eq_cons.1 h).2⟩
      | cons b v =>
          have hHead := (List.cons_eq_cons.1 h).1
          exact absurd (hHead ▸ List.mem_cons_self) hv
  | cons a u ih =>
      cases v with
      | nil =>
          have hHead := (List.cons_eq_cons.1 h).1
          exact absurd (hHead ▸ List.mem_cons_self) hu
      | cons b v =>
          rcases List.cons_eq_cons.1 h with ⟨rfl, hTail⟩
          rcases
              ih (List.not_mem_of_not_mem_cons hu)
                (List.not_mem_of_not_mem_cons hv) hTail with
            ⟨rfl, hRest⟩
          exact ⟨rfl, hRest⟩

------------------------------------------------------------
-- Bytes of amounts
------------------------------------------------------------

/- A character that amounts are written with is a single
byte, and no mark. -/
theorem utf8EncodeChar_of_mem_toChars
    {a : Decimal}
    {c : Char}
    (hc : c ∈ a.toChars) :
    ∃ b, String.utf8EncodeChar c = [b] ∧ 1 < b := by
  have hRange : 1 < c.toNat ∧ c.toNat ≤ 127 := by
    rcases Decimal.mem_toChars_cases hc with
      hDigit | rfl | rfl
    · unfold Char.isDigit at hDigit
      rw [Bool.and_eq_true, decide_eq_true_iff,
        decide_eq_true_iff] at hDigit
      have hLeft : 48 ≤ c.toNat := hDigit.1
      have hRight : c.toNat ≤ 57 := hDigit.2
      omega
    · decide
    · decide
  refine ⟨c.toNat.toUInt8, ?_, ?_⟩
  · unfold String.utf8EncodeChar
    exact if_pos hRange.2
  · simp only [UInt8.lt_iff_toNat_lt, Nat.toUInt8_eq,
      UInt8.toNat_ofNat', UInt8.reduceToNat]
    omega

theorem Decimal.isWord_rootBytes (a : Decimal) :
    IsWord a.rootBytes := by
  unfold Decimal.rootBytes
  rw [textBytes_toText]
  constructor
  · rcases exists_toChars_eq a.normalize with
      ⟨c, rest, _, hChars | hChars⟩ <;>
    · rw [hChars, List.flatMap_cons]
      exact
        List.append_ne_nil_of_left_ne_nil
          String.utf8EncodeChar_ne_nil _
  · intro b hb
    rcases List.mem_flatMap.1 hb with ⟨c, hc, hByte⟩
    rcases utf8EncodeChar_of_mem_toChars hc with
      ⟨b', hChar, hLess⟩
    rw [hChar, List.mem_singleton] at hByte
    rwa [hByte]

theorem Decimal.rootBytes_inj
    {a b : Decimal} :
    a.rootBytes = b.rootBytes ↔ Same a b := by
  rw [← normalize_eq_iff]
  constructor
  · intro h
    exact toText_injective (textBytes_injective h)
  · intro h
    unfold Decimal.rootBytes
    rw [h]

/- No amount is spelled as a dash. -/
theorem Decimal.rootBytes_ne_dash (a : Decimal) :
    a.rootBytes ≠ textBytes "-" := by
  intro h
  have hText := congrArg String.toList (textBytes_injective h)
  unfold toText at hText
  rw [String.toList_ofList] at hText
  rcases exists_toChars_eq a.normalize with
    ⟨c, rest, hDigit, hChars | hChars⟩
  · rw [hChars] at hText
    have hDash : c = '-' := (List.cons_eq_cons.1 hText).1
    rw [hDash] at hDigit
    exact absurd hDigit (by decide)
  · rw [hChars] at hText
    exact
      List.cons_ne_nil _ _ (List.cons_eq_cons.1 hText).2

theorem isWord_priceBytes (p : Option Decimal) :
    IsWord (priceBytes p) := by
  cases p with
  | none =>
      have hDash :
          "-".toList.flatMap String.utf8EncodeChar = [0x2d] :=
        rfl
      unfold priceBytes
      rw [textBytes_eq_flatMap, hDash]
      exact
        ⟨List.cons_ne_nil _ _,
          List.forall_mem_singleton.2 (by decide)⟩
  | some p => exact p.isWord_rootBytes

theorem priceBytes_eq_iff
    {p q : Option Decimal} :
    priceBytes p = priceBytes q ↔
      Option.Rel Decimal.Same p q := by
  cases p with
  | none =>
      cases q with
      | none => exact iff_of_true rfl Option.Rel.none
      | some q =>
          exact
            iff_of_false
              (fun h => q.rootBytes_ne_dash h.symm)
              nofun
  | some p =>
      cases q with
      | none => exact iff_of_false p.rootBytes_ne_dash nofun
      | some q =>
          rw [Option.rel_some_some]
          exact Decimal.rootBytes_inj

------------------------------------------------------------
-- Bytes of orders
------------------------------------------------------------

/- The bytes of an order behind its side: four words, each
ended by a zero, then the flag and the rest. -/
def wordsBytes
    (p s q f : List UInt8)
    (flag : UInt8)
    (r : List UInt8) : List UInt8 :=
  p ++ 0 :: (s ++ 0 :: (q ++ 0 :: (f ++ 0 :: flag :: r)))

/- The number that stands for a flag. -/
def flagByte (flag : Bool) : UInt8 :=
  if flag then 1 else 0

theorem flagByte_injective :
    Function.Injective flagByte := by
  intro a b h
  cases a <;> cases b <;> first | rfl | exact nomatch h

theorem Side.rootByte_injective :
    Function.Injective Side.rootByte := by
  intro s t h
  cases s <;> cases t <;> first | rfl | exact nomatch h

theorem flagByte_le (flag : Bool) : flagByte flag ≤ 1 := by
  cases flag <;> decide

theorem Side.rootByte_le (s : Side) : s.rootByte ≤ 1 := by
  cases s <;> decide

namespace Order

/- Orders that agree on all that the bytes of a root are made
of: amounts by value, times by the number of microseconds,
which takes a leap second for the second after it. -/
structure IsAlike (o o' : Order) : Prop where
  id : o.id = o'.id
  memberId : o.memberId = o'.memberId
  side : o.side = o'.side
  price : Option.Rel Decimal.Same o.price o'.price
  stopPrice :
    Option.Rel Decimal.Same o.stopPrice o'.stopPrice
  quantity : Decimal.Same o.quantity o'.quantity
  filled : Decimal.Same o.filled o'.filled
  immediateOrCancel :
    o.immediateOrCancel = o'.immediateOrCancel
  createdAt : o.createdAt.micros = o'.createdAt.micros

/- The bytes of an order and what follows them. -/
theorem rootBytes_append
    (o : Order)
    (r : List UInt8) :
    o.rootBytes ++ r =
      littleEndian o.id ++
        (littleEndian o.memberId ++
          o.side.rootByte ::
            wordsBytes (priceBytes o.price)
              (priceBytes o.stopPrice)
              o.quantity.rootBytes o.filled.rootBytes
              (flagByte o.immediateOrCancel)
              (o.createdAt.rootBytes ++ r)) := by
  unfold rootBytes wordsBytes flagByte
  simp only [List.append_assoc, List.cons_append,
    List.nil_append]

/- The bytes of an order tell where they end. -/
theorem isAlike_of_append_eq
    {o o' : Order}
    {r r' : List UInt8}
    (h : o.rootBytes ++ r = o'.rootBytes ++ r') :
    o.IsAlike o' ∧ r = r' := by
  rw [rootBytes_append, rootBytes_append] at h
  rcases List.append_inj h rfl with ⟨hId, hMember⟩
  rcases List.append_inj hMember rfl with
    ⟨hMember, hSide⟩
  rcases List.cons_eq_cons.1 hSide with ⟨hSide, hPrice⟩
  rcases
      append_cons_inj
        (isWord_priceBytes o.price).zero_not_mem
        (isWord_priceBytes o'.price).zero_not_mem
        hPrice with
    ⟨hPrice, hStop⟩
  rcases
      append_cons_inj
        (isWord_priceBytes o.stopPrice).zero_not_mem
        (isWord_priceBytes o'.stopPrice).zero_not_mem
        hStop with
    ⟨hStop, hQuantity⟩
  rcases
      append_cons_inj
        o.quantity.isWord_rootBytes.zero_not_mem
        o'.quantity.isWord_rootBytes.zero_not_mem
        hQuantity with
    ⟨hQuantity, hFilled⟩
  rcases
      append_cons_inj
        o.filled.isWord_rootBytes.zero_not_mem
        o'.filled.isWord_rootBytes.zero_not_mem
        hFilled with
    ⟨hFilled, hFlag⟩
  rcases List.cons_eq_cons.1 hFlag with ⟨hFlag, hTime⟩
  rcases List.append_inj hTime rfl with ⟨hTime, hRest⟩
  refine ⟨?_, hRest⟩
  constructor
  · exact littleEndian_injective hId
  · exact littleEndian_injective hMember
  · exact Side.rootByte_injective hSide
  · exact priceBytes_eq_iff.1 hPrice
  · exact priceBytes_eq_iff.1 hStop
  · exact Decimal.rootBytes_inj.1 hQuantity
  · exact Decimal.rootBytes_inj.1 hFilled
  · exact flagByte_injective hFlag
  · exact Timestamp.rootBytes_inj.1 hTime

theorem IsAlike.rootBytes_eq
    {o o' : Order}
    (h : o.IsAlike o') :
    o.rootBytes = o'.rootBytes := by
  unfold rootBytes
  rw [h.id, h.memberId, h.side,
    priceBytes_eq_iff.2 h.price,
    priceBytes_eq_iff.2 h.stopPrice,
    Decimal.rootBytes_inj.2 h.quantity,
    Decimal.rootBytes_inj.2 h.filled,
    h.immediateOrCancel,
    Timestamp.rootBytes_inj.2 h.createdAt]

end Order

------------------------------------------------------------
-- Shifted readings
------------------------------------------------------------

section Shifted

variable {p s q f p' s' q' f' : List UInt8}
variable {flag flag' : UInt8} {r r' : List UInt8}

/- Words that begin with a mark. -/
theorem IsWord.append_ne_cons
    (hp : IsWord p)
    {b : UInt8}
    (hb : b ≤ 1)
    {u v : List UInt8} :
    p ++ u ≠ b :: v := by
  intro h
  cases p with
  | nil => exact hp.ne_nil rfl
  | cons a p =>
      have hLess := hp.one_lt a List.mem_cons_self
      rw [(List.cons_eq_cons.1 h).1] at hLess
      exact absurd hLess (UInt8.not_lt.2 hb)

/- Words that are read from the second one on: the last one
would begin with a flag. -/
theorem wordsBytes_ne_of_tail
    (hs : IsWord s)
    (hq : IsWord q)
    (hf : IsWord f)
    (hp' : IsWord p')
    (hs' : IsWord s')
    (hq' : IsWord q')
    (hf' : IsWord f')
    (hFlag : flag ≤ 1) :
    s ++ 0 :: (q ++ 0 :: (f ++ 0 :: flag :: r)) ≠
      wordsBytes p' s' q' f' flag' r' := by
  intro h
  unfold wordsBytes at h
  rcases
      append_cons_inj hs.zero_not_mem hp'.zero_not_mem h with
    ⟨_, h⟩
  rcases
      append_cons_inj hq.zero_not_mem hs'.zero_not_mem h with
    ⟨_, h⟩
  rcases
      append_cons_inj hf.zero_not_mem hq'.zero_not_mem h with
    ⟨_, h⟩
  exact hf'.append_ne_cons hFlag h.symm

/- Words whose first one is read from its middle on. -/
theorem append_wordsBytes_ne
    (hs : IsWord s)
    (hq : IsWord q)
    (hf : IsWord f)
    (hp' : IsWord p')
    (hs' : IsWord s')
    (hq' : IsWord q')
    (hf' : IsWord f')
    (hFlag : flag ≤ 1)
    {side : UInt8}
    (hSide : side ≤ 1)
    {w xs : List UInt8}
    (hw : ∀ b ∈ w, 1 < b)
    (hLength : xs.length ≤ 1) :
    w ++ 0 :: (s ++ 0 :: (q ++ 0 :: (f ++ 0 :: flag :: r))) ≠
      xs ++ side :: wordsBytes p' s' q' f' flag' r' := by
  induction w generalizing xs with
  | nil =>
      intro h
      match xs with
      | [] =>
          exact
            wordsBytes_ne_of_tail hs hq hf hp' hs' hq' hf'
              hFlag (List.cons_eq_cons.1 h).2
      | [x] =>
          exact
            hs.append_ne_cons hSide (List.cons_eq_cons.1 h).2
  | cons b w ih =>
      intro h
      cases xs with
      | nil =>
          have hLess := hw b List.mem_cons_self
          rw [(List.cons_eq_cons.1 h).1] at hLess
          exact absurd hLess (UInt8.not_lt.2 hSide)
      | cons x xs =>
          refine
            ih (List.forall_mem_cons.1 hw).2 ?_
              (List.cons_eq_cons.1 h).2
          rw [List.length_cons] at hLength
          omega

/-
  No two readings of the words of an order are shifted by one
  to three bytes.  The side of the later reading lies in the
  first word or right behind it, and then every word is taken
  for the next one and the flag for the last word.
-/
theorem wordsBytes_ne_shifted
    (hp : IsWord p)
    (hs : IsWord s)
    (hq : IsWord q)
    (hf : IsWord f)
    (hp' : IsWord p')
    (hs' : IsWord s')
    (hq' : IsWord q')
    (hf' : IsWord f')
    (hFlag : flag ≤ 1)
    {side : UInt8}
    (hSide : side ≤ 1)
    {xs : List UInt8}
    (hLength : xs.length ≤ 2) :
    wordsBytes p s q f flag r ≠
      xs ++ side :: wordsBytes p' s' q' f' flag' r' := by
  intro h
  cases xs with
  | nil => exact hp.append_ne_cons hSide h
  | cons x xs =>
      cases p with
      | nil => exact hp.ne_nil rfl
      | cons a p =>
          refine
            append_wordsBytes_ne hs hq hf hp' hs' hq' hf'
              hFlag hSide
              (List.forall_mem_cons.1 hp.one_lt).2 ?_
              (List.cons_eq_cons.1 h).2
          rw [List.length_cons] at hLength
          omega

end Shifted

------------------------------------------------------------
-- Bytes of ladders
------------------------------------------------------------

/- The bytes of ladders, each behind its mark, and what
follows them. -/
def laddersBytes :
    List (List Order) → List UInt8 → List UInt8
  | [], r => r
  | os :: rest, r =>
      0xff ::
        (os.flatMap Order.rootBytes ++ laddersBytes rest r)

/- The bytes behind the ladders of a book. -/
def closingBytes
    (last : Option Decimal)
    (next : UInt64) : List UInt8 :=
  0xfe ::
    ((last.map Decimal.rootBytes).getD [] ++
      littleEndian next)

/- Ladders begin with some marks, and then comes an order
unless all of them are empty. -/
theorem laddersBytes_cases
    (ls : List (List Order))
    (r : List UInt8) :
    laddersBytes ls r =
        List.replicate ls.length 0xff ++ r ∨
      ∃ k o r', 1 ≤ k ∧ k ≤ ls.length ∧
        laddersBytes ls r =
          List.replicate k 0xff ++
            (Order.rootBytes o ++ r') := by
  induction ls with
  | nil => exact Or.inl rfl
  | cons os ls ih =>
      cases os with
      | cons o os =>
          refine
            Or.inr
              ⟨1, o, os.flatMap Order.rootBytes ++
                laddersBytes ls r, ?_, ?_, ?_⟩
          · exact Nat.le_refl 1
          · rw [List.length_cons]
            omega
          · rw [laddersBytes, List.flatMap_cons,
              List.append_assoc]
            rfl
      | nil =>
          rcases ih with hEmpty | ⟨k, o, r', _, hk, hOrder⟩
          · left
            unfold laddersBytes
            rw [hEmpty]
            rfl
          · refine Or.inr ⟨k + 1, o, r', ?_, ?_, ?_⟩
            · omega
            · rw [List.length_cons]
              omega
            · unfold laddersBytes
              rw [hOrder]
              rfl

/- No order begins with the marks of up to three ladders and
the first bytes of another order. -/
theorem Order.rootBytes_append_ne_replicate
    {o o' : Order}
    {r r' : List UInt8}
    {k : Nat}
    (hPos : 1 ≤ k)
    (hk : k ≤ 3) :
    o.rootBytes ++ r ≠
      List.replicate k 0xff ++ (o'.rootBytes ++ r') := by
  intro h
  rw [rootBytes_append, rootBytes_append,
    ← List.append_assoc (List.replicate k 0xff),
    ← List.append_assoc (_ ++ _)] at h
  have hHead :
      17 ≤
        (List.replicate k 0xff ++ littleEndian o'.id ++
          littleEndian o'.memberId).length := by
    simp
    omega
  have hDrop := congrArg (List.drop 17) h
  rw [List.drop_append_of_le_length hHead] at hDrop
  refine
    wordsBytes_ne_shifted
      (isWord_priceBytes o.price)
      (isWord_priceBytes o.stopPrice)
      o.quantity.isWord_rootBytes o.filled.isWord_rootBytes
      (isWord_priceBytes o'.price)
      (isWord_priceBytes o'.stopPrice)
      o'.quantity.isWord_rootBytes
      o'.filled.isWord_rootBytes
      (flagByte_le o.immediateOrCancel) o'.side.rootByte_le
      ?_ hDrop
  simp
  omega

/- The words of an order are longer than a number. -/
theorem lt_length_wordsBytes
    (p s q f : List UInt8)
    (flag : UInt8)
    (t : Timestamp)
    (r : List UInt8) :
    8 < (wordsBytes p s q f flag (t.rootBytes ++ r)).length := by
  unfold wordsBytes
  simp
  omega

/- No order begins with marks and the bytes behind the
ladders: its side would lie in the last price. -/
theorem Order.rootBytes_append_ne_closingBytes
    {o : Order}
    {r : List UInt8}
    {k : Nat}
    {last : Option Decimal}
    {next : UInt64} :
    o.rootBytes ++ r ≠
      List.replicate k 0xff ++ closingBytes last next := by
  intro h
  have hMarks :
      ∀ b ∈ List.replicate k 0xff ++
          0xfe :: (last.map Decimal.rootBytes).getD [],
        1 < b := by
    intro b hb
    rcases List.mem_append.1 hb with hMark | hRest
    · rw [List.eq_of_mem_replicate hMark]
      decide
    · rcases List.mem_cons.1 hRest with hMark | hPrice
      · rw [hMark]
        decide
      · cases last with
        | none => exact absurd hPrice List.not_mem_nil
        | some p => exact p.isWord_rootBytes.one_lt b hPrice
  rw [rootBytes_append, ← List.append_assoc] at h
  unfold closingBytes at h
  rw [← List.cons_append, ← List.append_assoc] at h
  have hWords :=
    lt_length_wordsBytes (priceBytes o.price)
      (priceBytes o.stopPrice) o.quantity.rootBytes
      o.filled.rootBytes (flagByte o.immediateOrCancel)
      o.createdAt r
  rcases List.append_eq_append_iff.1 h with
    ⟨bs, hLeft, hRight⟩ | ⟨bs, _, hRight⟩
  · cases bs with
    | nil =>
        have hLength := congrArg List.length hRight
        simp at hLength
        omega
    | cons b bs =>
        have hLess := hMarks b (by simp [hLeft])
        rw [← (List.cons_eq_cons.1 hRight).1] at hLess
        exact
          absurd hLess (UInt8.not_lt.2 o.side.rootByte_le)
  · have hLength := congrArg List.length hRight
    simp at hLength
    omega

/- No order begins with the marks of up to three ladders and
what follows them. -/
theorem Order.rootBytes_append_ne_laddersBytes
    {o : Order}
    {r : List UInt8}
    {ls : List (List Order)}
    {last : Option Decimal}
    {next : UInt64}
    (hLength : ls.length ≤ 3) :
    o.rootBytes ++ r ≠
      laddersBytes ls (closingBytes last next) := by
  rcases laddersBytes_cases ls (closingBytes last next) with
    hEmpty | ⟨k, o', r', hPos, hk, hOrder⟩
  · rw [hEmpty]
    exact rootBytes_append_ne_closingBytes
  · rw [hOrder]
    exact
      rootBytes_append_ne_replicate hPos
        (Nat.le_trans hk hLength)

/- The bytes behind the ladders tell the last price and the
next trade id. -/
theorem closingBytes_eq
    {last last' : Option Decimal}
    {next next' : UInt64}
    (h : closingBytes last next = closingBytes last' next') :
    Option.Rel Decimal.Same last last' ∧ next = next' := by
  unfold closingBytes at h
  rcases
      List.append_inj' (List.cons_eq_cons.1 h).2 rfl with
    ⟨hLast, hNext⟩
  refine ⟨?_, littleEndian_injective hNext⟩
  cases last with
  | none =>
      cases last' with
      | none => exact Option.Rel.none
      | some p =>
          exact absurd hLast.symm p.isWord_rootBytes.ne_nil
  | some p =>
      cases last' with
      | none => exact absurd hLast p.isWord_rootBytes.ne_nil
      | some q =>
          exact
            Option.rel_some_some.2
              (Decimal.rootBytes_inj.1 hLast)

/- The orders of a ladder end where no order can begin. -/
theorem forall₂_isAlike_of_append_eq
    {os os' : List Order}
    {t t' : List UInt8}
    (ht : ∀ o r, Order.rootBytes o ++ r ≠ t)
    (ht' : ∀ o r, Order.rootBytes o ++ r ≠ t')
    (h :
      os.flatMap Order.rootBytes ++ t =
        os'.flatMap Order.rootBytes ++ t') :
    List.Forall₂ Order.IsAlike os os' ∧ t = t' := by
  induction os generalizing os' with
  | nil =>
      cases os' with
      | nil => exact ⟨List.Forall₂.nil, h⟩
      | cons o' os' =>
          rw [List.flatMap_cons, List.append_assoc] at h
          exact absurd h.symm (ht _ _)
  | cons o os ih =>
      rw [List.flatMap_cons, List.append_assoc] at h
      cases os' with
      | nil => exact absurd h (ht' _ _)
      | cons o' os' =>
          rw [List.flatMap_cons, List.append_assoc] at h
          rcases Order.isAlike_of_append_eq h with
            ⟨hOrder, hRest⟩
          rcases ih hRest with ⟨hOrders, hTail⟩
          exact ⟨List.Forall₂.cons hOrder hOrders, hTail⟩

/- The bytes of ladders tell all of their orders. -/
theorem forall₂_isAlike_of_laddersBytes_eq
    {ls ls' : List (List Order)}
    {last last' : Option Decimal}
    {next next' : UInt64}
    (hLength : ls.length ≤ 4)
    (hSame : ls.length = ls'.length)
    (h :
      laddersBytes ls (closingBytes last next) =
        laddersBytes ls' (closingBytes last' next')) :
    List.Forall₂ (List.Forall₂ Order.IsAlike) ls ls' ∧
      Option.Rel Decimal.Same last last' ∧
      next = next' := by
  induction ls generalizing ls' with
  | nil =>
      cases List.length_eq_zero_iff.1 hSame.symm
      exact ⟨List.Forall₂.nil, closingBytes_eq h⟩
  | cons os ls ih =>
      cases ls' with
      | nil => exact nomatch hSame
      | cons os' ls' =>
          rw [List.length_cons] at hLength
          rw [List.length_cons, List.length_cons] at hSame
          rw [laddersBytes, laddersBytes] at h
          rcases
              forall₂_isAlike_of_append_eq
                (fun _ _ =>
                  Order.rootBytes_append_ne_laddersBytes
                    (by omega))
                (fun _ _ =>
                  Order.rootBytes_append_ne_laddersBytes
                    (by omega))
                (List.cons_eq_cons.1 h).2 with
            ⟨hOrders, hRest⟩
          rcases ih (by omega) (by omega) hRest with
            ⟨hLadders, hClosing⟩
          exact
            ⟨List.Forall₂.cons hOrders hLadders, hClosing⟩

------------------------------------------------------------
-- Bytes of books
------------------------------------------------------------

namespace Book

/- Books that agree on all that the bytes of a root are made
of, in each ladder order by order and best first. -/
structure IsAlike (b b' : Book) : Prop where
  symbol : b.symbol = b'.symbol
  nextTradeId : b.nextTradeId = b'.nextTradeId
  lastPrice :
    Option.Rel Decimal.Same b.lastPrice b'.lastPrice
  orders :
    ∀ side policy,
      List.Forall₂ Order.IsAlike (b.orders side policy)
        (b'.orders side policy)

/- The orders of the ladders as they are hashed. -/
def hashedOrders (b : Book) : List (List Order) :=
  [b.orders .buy .price, b.orders .sell .price,
    b.orders .buy .stop, b.orders .sell .stop]

theorem rootBytes_eq_append (b : Book) :
    b.rootBytes =
      textBytes b.symbol ++
        laddersBytes b.hashedOrders
          (closingBytes b.lastPrice b.nextTradeId) := by
  unfold rootBytes ladderBytes closingBytes hashedOrders
  simp only [laddersBytes, List.append_assoc,
    List.cons_append, List.nil_append]

/- The first mark ends the symbol. -/
theorem symbol_eq_of_rootBytes_eq
    {b b' : Book}
    (h : b.rootBytes = b'.rootBytes) :
    b.symbol = b'.symbol ∧
      laddersBytes b.hashedOrders
          (closingBytes b.lastPrice b.nextTradeId) =
        laddersBytes b'.hashedOrders
          (closingBytes b'.lastPrice b'.nextTradeId) := by
  rw [rootBytes_eq_append, rootBytes_eq_append] at h
  rcases
      append_cons_inj (mark_not_mem_textBytes b.symbol)
        (mark_not_mem_textBytes b'.symbol) h with
    ⟨hSymbol, hRest⟩
  exact
    ⟨textBytes_injective hSymbol,
      congrArg (List.cons 0xff) hRest⟩

theorem IsAlike.rootBytes_eq
    {b b' : Book}
    (h : b.IsAlike b') :
    b.rootBytes = b'.rootBytes := by
  have hLadder :
      ∀ side policy,
        (b.orders side policy).flatMap Order.rootBytes =
          (b'.orders side policy).flatMap
            Order.rootBytes := by
    intro side policy
    have hOrders := h.orders side policy
    generalize b.orders side policy = os at hOrders
    generalize b'.orders side policy = os' at hOrders
    induction hOrders with
    | nil => rfl
    | cons hOrder _ ih =>
        rw [List.flatMap_cons, List.flatMap_cons,
          hOrder.rootBytes_eq, ih]
  have hLast :
      (b.lastPrice.map Decimal.rootBytes).getD [] =
        (b'.lastPrice.map Decimal.rootBytes).getD [] := by
    have hRel := h.lastPrice
    generalize b.lastPrice = last at hRel
    generalize b'.lastPrice = last' at hRel
    cases hRel with
    | none => rfl
    | some hSame => exact Decimal.rootBytes_inj.2 hSame
  unfold rootBytes ladderBytes
  rw [h.symbol, h.nextTradeId, hLast, hLadder, hLadder,
    hLadder, hLadder]

/-
  The bytes that are hashed tell a book, but for how its
  amounts are spelled, for what its times hold beyond
  microseconds, and for whether a time lies in a leap second
  or in the second after it.
-/
theorem rootBytes_eq_iff (b b' : Book) :
    b.rootBytes = b'.rootBytes ↔ b.IsAlike b' := by
  refine ⟨fun h => ?_, IsAlike.rootBytes_eq⟩
  rcases symbol_eq_of_rootBytes_eq h with
    ⟨hSymbol, hLadders⟩
  have hLength : b.hashedOrders.length ≤ 4 :=
    Nat.le_refl 4
  have hSame :
      b.hashedOrders.length = b'.hashedOrders.length :=
    rfl
  rcases
      forall₂_isAlike_of_laddersBytes_eq hLength hSame
        hLadders with
    ⟨hOrders, hLast, hNext⟩
  refine ⟨hSymbol, hNext, hLast, ?_⟩
  unfold hashedOrders at hOrders
  simp only [List.forall₂_cons, List.Forall₂.nil, and_true]
    at hOrders
  rcases hOrders with ⟨hBids, hAsks, hStopBids, hStopAsks⟩
  intro side policy
  cases side <;> cases policy
  · exact hBids
  · exact hStopBids
  · exact hAsks
  · exact hStopAsks

/- In the middle of the leap second at the end of 2016. -/
def inLeapSecond : Timestamp :=
  (Timestamp.of? 1483228799 1500000000).getD (.ofNanos 0)

/- In the middle of the second after it. -/
def afterLeapSecond : Timestamp :=
  (Timestamp.of? 1483228800 500000000).getD (.ofNanos 0)

/- A bid that was created at the given time. -/
def bidCreatedAt (t : Timestamp) : Order :=
  { Order.ordinary 1 .buy (some (.ofParts 1 0))
      (.ofParts 1 0) with
    createdAt := t }

/- The book that holds only this bid. -/
def ofBidCreatedAt (t : Timestamp) : Book :=
  (Engine.played "BTC-USDT" [bidCreatedAt t]).2.book

/- Two books that a new one comes to by a single submission.
Their bids were created a second apart, and their bytes are
the same. -/
theorem rootBytes_eq_of_leapSecond :
    (∀ t, ∃ log e,
      Engine.Run "BTC-USDT" log e ∧
        e.book = ofBidCreatedAt t) ∧
    (ofBidCreatedAt inLeapSecond).rootBytes =
      (ofBidCreatedAt afterLeapSecond).rootBytes ∧
    (ofBidCreatedAt inLeapSecond).orders .buy .price =
      [bidCreatedAt inLeapSecond] ∧
    (ofBidCreatedAt afterLeapSecond).orders .buy .price =
      [bidCreatedAt afterLeapSecond] ∧
    ¬ (bidCreatedAt inLeapSecond).createdAt.AgreesToMicros
      (bidCreatedAt afterLeapSecond).createdAt := by
  refine
    ⟨?_, by decide +kernel, by decide +kernel,
      by decide +kernel, by decide⟩
  intro t
  exact
    ⟨_, _, Engine.run_played "BTC-USDT" [bidCreatedAt t], rfl⟩

end Book

end Matchbook
