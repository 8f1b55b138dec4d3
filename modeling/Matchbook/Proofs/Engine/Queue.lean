import Matchbook.Proofs.Engine.Pass
import Matchbook.Proofs.Engine.Run

/-
  The course of a cascade: its passes one after the other, and
  the book and the taker each of them begins with.

  Key definitions include:
    * `Book.Begins`
    * `Engine.Begins`

  The main statements are:
    * `Book.runQueue?_cons`
    * `Book.map_cascade?`
-/

------------------------------------------------------------
-- Equations
------------------------------------------------------------

namespace Matchbook

namespace Book

/- One step of a queue, by the outcome of the first pass. -/
theorem runQueue?_cons
    (now : Timestamp)
    (o : Order)
    (rest : List Order)
    (b : Book) :
    runQueue? now (o :: rest) b =
      match b.pass? o.activate now with
      | none => none
      | some (p, b') =>
          if p.violation.isSome then
            some ([p], b')
          else
            (runQueue? now
              (rest ++ (b'.releaseAfter p).1)
              (b'.releaseAfter p).2).map
              fun (passes, b'') => (p :: passes, b'') := by
  rw [runQueue?]
  split <;> rename_i hPass <;> rw [hPass]

/- A cascade is the execution of a queue of one order. -/
theorem map_cascade?
    (b : Book)
    (o : Order)
    (now : Timestamp) :
    (b.cascade? o now).map (fun c => (c.passes, c.book)) =
      runQueue? now [o] b := by
  rw [runQueue?_cons, cascade?]
  cases hPass : b.pass? o.activate now with
  | none => rfl
  | some r =>
      rcases r with ⟨p, b'⟩
      simp only [Option.bind_some, List.nil_append]
      split
      · rfl
      · rw [Option.map_map]
        rfl

theorem runQueue?_of_cascade?
    {b : Book}
    {o : Order}
    {now : Timestamp}
    {c : Cascade}
    (h : b.cascade? o now = some c) :
    runQueue? now [o] b = some (c.passes, c.book) := by
  rw [← map_cascade?, h]
  rfl

/- No order in a queue changes the door of the book. -/
theorem door_runQueue?
    {now : Timestamp}
    {queue : List Order}
    {b b' : Book}
    {passes : List Pass}
    (h : runQueue? now queue b = some (passes, b')) :
    b'.door = b.door := by
  induction queue, b using Book.runQueue?.induct now
    generalizing passes b' with
  | case1 b =>
      rw [runQueue?] at h
      cases h
      rfl
  | case2 b o rest hPass =>
      rw [runQueue?_cons, hPass] at h
      cases h
  | case3 b o rest p b₁ hPass hBroken =>
      rw [runQueue?_cons, hPass] at h
      simp only [hBroken, if_true] at h
      cases h
      exact (passes_of_pass? hPass).door_eq
  | case4 b o rest p b₁ hPass hIntact ih =>
      rw [runQueue?_cons, hPass] at h
      simp only [hIntact, Bool.false_eq_true, if_false] at h
      rcases Option.map_eq_some_iff.1 h with
        ⟨⟨others, b₂⟩, hRest, hEq⟩
      cases hEq
      rw [ih hRest, door_releaseAfter]
      exact (passes_of_pass? hPass).door_eq

------------------------------------------------------------
-- Beginnings of passes
------------------------------------------------------------

/-
  Whether the execution of a queue comes to a pass of `taker`
  on the book `before`.
-/
inductive Begins (now : Timestamp) :
    List Order → Book → Book → Order → Prop
  | first
      {o : Order}
      {rest : List Order}
      {b : Book} :
      Begins now (o :: rest) b b o.activate
  | later
      {o taker : Order}
      {rest : List Order}
      {b b' before : Book}
      {p : Pass}
      (hPass : b.pass? o.activate now = some (p, b'))
      (hIntact : p.violation = none)
      (h :
        Begins now (rest ++ (b'.releaseAfter p).1)
          (b'.releaseAfter p).2 before taker) :
      Begins now (o :: rest) b before taker

end Book

namespace Engine

/- Whether the submission of an order comes to a pass of
`taker` on the book `before`: of the order itself, or of a
waiting order it has released. -/
def Begins
    (e : Engine)
    (o : Order)
    (now : Timestamp)
    (before : Book)
    (taker : Order) : Prop :=
  e.TakesIn o ∧ e.mustWait o = false ∧
    Book.Begins now [o] e.book before taker

end Engine

end Matchbook
