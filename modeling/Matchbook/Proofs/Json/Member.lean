import Matchbook.Json.Member
import Matchbook.Proofs.Decimal.Reading
import Matchbook.Proofs.Json.Text
import Matchbook.Proofs.Timestamp.Text

/-
  Values of the domain and members of records read back from
  JSON.

  Every value is written so that its own reader takes it back,
  and a record with distinct names gives each of its members
  back by name.

  The main statements are:
    * `Json.asUInt64?_uint64`
    * `Json.exists_asDecimal?_decimal`
    * `Json.asTimestamp?_timestamp`
    * `Json.exists_asOption?_optional`
    * `Json.membersNamed?_zip`
-/

------------------------------------------------------------
-- Values
------------------------------------------------------------

namespace Matchbook

namespace Json

theorem asUInt64?_uint64 (n : UInt64) :
    (uint64 n).asUInt64? = some n := by
  have hNat : (uint64 n).asNat? = some n.toNat :=
    Digits.read?_toDigits n.toNat
  unfold asUInt64?
  rw [hNat, Option.bind_eq_bind, Option.bind_some,
    if_pos n.toNat_lt]
  simp

theorem asText?_str (s : String) :
    (str s).asText? = some s :=
  rfl

theorem asSide?_side (s : Side) :
    (side s).asSide? = some s :=
  s.ofName?_name

theorem asTimestamp?_timestamp (t : Timestamp) :
    (timestamp t).asTimestamp? = some t := by
  unfold asTimestamp? timestamp
  rw [asText?_str, Option.bind_eq_bind, Option.bind_some,
    Timestamp.ofText?_toText]

theorem exists_asDecimal?_decimal (a : Decimal) :
    ∃ b, (decimal a).asDecimal? = some b ∧
      a.IsReading b := by
  unfold asDecimal? decimal
  rw [asText?_str, Option.bind_eq_bind, Option.bind_some]
  exact a.exists_ofAnyText?_toText

/- An amount that may be missing. -/
theorem exists_asOption?_optional (x : Option Decimal) :
    ∃ y,
      asOption? asDecimal? (some (optional decimal x)) =
          some y ∧
        Option.Rel Decimal.IsReading x y := by
  cases x with
  | none => exact ⟨none, rfl, .none⟩
  | some a =>
      rcases exists_asDecimal?_decimal a with
        ⟨b, hRead, hReading⟩
      refine ⟨some b, ?_, .some hReading⟩
      change (asDecimal? (decimal a)).map some = some (some b)
      rw [hRead]
      rfl

------------------------------------------------------------
-- Members
------------------------------------------------------------

/- Of distinct names each is the name of one member. -/
theorem filter_name_eq
    {members : List (String × Json)}
    {m : String × Json}
    (hNodup : (members.map Prod.fst).Nodup)
    (hm : m ∈ members) :
    members.filter (·.1 = m.1) = [m] := by
  induction members with
  | nil => cases hm
  | cons k members ih =>
      -- The name of the first member is none of the others.
      rw [List.map_cons, List.nodup_cons] at hNodup
      rcases List.mem_cons.1 hm with rfl | hRest
      · rw [List.filter_cons_of_pos (by simp),
          List.filter_eq_nil_iff.2]
        intro k hk hSame
        apply hNodup.1
        rw [← of_decide_eq_true hSame]
        exact List.mem_map_of_mem hk
      · rw [List.filter_cons_of_neg, ih hNodup.2 hRest]
        intro hSame
        apply hNodup.1
        rw [of_decide_eq_true hSame]
        exact List.mem_map_of_mem hRest

theorem memberNamed?_of_mem
    {members : List (String × Json)}
    {m : String × Json}
    (hNodup : (members.map Prod.fst).Nodup)
    (hm : m ∈ members) :
    memberNamed? (members.map fun m => (some m.1, m.2)) m.1 =
      some (some m.2) := by
  unfold memberNamed?
  rw [List.filter_map]
  simp [Function.comp_def, filter_name_eq hNodup hm]

/- A record gives back the values of its members by their
names. -/
theorem membersNamed?_zip
    (names : List String)
    (values : List Json)
    (hNodup : names.Nodup)
    (hLength : names.length = values.length) :
    membersNamed? names
        ((names.zip values).map fun m => (some m.1, m.2)) =
      some (values.map some) := by
  have hNames : (names.zip values).map Prod.fst = names :=
    List.map_fst_zip (Nat.le_of_eq hLength)
  have hValues : (names.zip values).map Prod.snd = values :=
    List.map_snd_zip (Nat.le_of_eq hLength.symm)
  generalize names.zip values = members at hNames hValues
  subst hNames hValues
  have hKeys :
      (members.map fun m => (some m.1, m.2)).any
          (·.1.isNone) = false := by
    simp
  have hEach :
      ∀ ms ⊆ members,
        (ms.map Prod.fst).mapM
            (memberNamed?
              (members.map fun m => (some m.1, m.2))) =
          some ((ms.map Prod.snd).map some) := by
    intro ms hSub
    induction ms with
    | nil => rfl
    | cons m ms ih =>
        rw [List.cons_subset] at hSub
        simp [memberNamed?_of_mem hNodup hSub.1, ih hSub.2]
  unfold membersNamed?
  rw [hKeys, if_neg Bool.false_ne_true]
  exact hEach members (List.Subset.refl members)

/- A record is proper if its values are. -/
theorem isProper_record
    {names : List String}
    {values : List Json}
    (h : ∀ v ∈ values, v.IsProper) :
    (record (names.zip values)).IsProper := by
  apply haveProper_iff.2
  intro m hm
  rcases List.mem_map.1 hm with ⟨n, hn, rfl⟩
  exact h n.2 (List.of_mem_zip hn).2

theorem isProper_uint64 (n : UInt64) : (uint64 n).IsProper :=
  isNumber_of_isWhole (isWhole_toDigits n.toNat)

theorem isProper_optional (x : Option Decimal) :
    (optional decimal x).IsProper := by
  cases x with
  | none => exact trivial
  | some a => exact trivial

end Json

end Matchbook
