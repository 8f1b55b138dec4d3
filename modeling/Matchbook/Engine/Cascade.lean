import Matchbook.Engine.Pass

/-
  Cascades: the passes that one order sets off.

  A pass that trades may release waiting orders.  They queue
  up behind the orders that are already released, and each one
  gets a pass of its own.

  Key definitions include:
    * `Book.releaseAfter`
    * `Book.runQueue?`
    * `Cascade`
    * `Book.cascade?`
-/

------------------------------------------------------------
-- Queues of released orders
------------------------------------------------------------

namespace Matchbook

namespace Pass

/- The broken contract that a pass met. -/
def violation (p : Pass) : Option Violation :=
  match p.ending with
  | .broken cause => some cause
  | _ => none

end Pass

namespace Book

/- What a pass releases: nothing unless it traded. -/
def releaseAfter (b : Book) (p : Pass) :
    List Order × Book :=
  if p.trades.isEmpty then
    ([], b)
  else
    b.release

/- What a pass releases was waiting. -/
theorem length_releaseAfter_add_stopCount
    (b : Book)
    (p : Pass) :
    (b.releaseAfter p).1.length +
        (b.releaseAfter p).2.stopCount =
      b.stopCount := by
  unfold releaseAfter
  split
  · simp
  · exact length_release_add_stopCount b

/-
  Execute a queue of orders and all that they release, first
  in first out.  An order enters its pass without its stop
  price.  A pass that meets a broken contract is the last one.
  `none` if a quantity is out of range.
-/
def runQueue?
    (now : Timestamp)
    (queue : List Order)
    (b : Book) : Option (List Pass × Book) :=
  match queue with
  | [] => some ([], b)
  | o :: rest =>
      match _hPass : b.pass? o.activate now with
      | none => none
      | some (p, b') =>
          if p.violation.isSome then
            some ([p], b')
          else
            (runQueue? now
              (rest ++ (b'.releaseAfter p).1)
              (b'.releaseAfter p).2).map
              fun (passes, b'') => (p :: passes, b'')
termination_by queue.length + b.stopCount
decreasing_by
  have hStops := stopCount_pass? _hPass
  have hReleased := length_releaseAfter_add_stopCount b' p
  simp only [List.length_append, List.length_cons]
  omega

end Book

------------------------------------------------------------
-- Cascades
------------------------------------------------------------

/- The pass of a submitted order, the passes of the orders
that were released by it, and the book they leave. -/
structure Cascade where
  first : Pass
  others : List Pass
  book : Book
deriving DecidableEq

namespace Cascade

/- All passes, in their order. -/
def passes (c : Cascade) : List Pass :=
  c.first :: c.others

/- The deals of all passes, in their order. -/
def deals (c : Cascade) : List Deal :=
  c.passes.flatMap Pass.deals

/- The trades of all passes, in their order. -/
def trades (c : Cascade) : List Trade :=
  c.passes.flatMap Pass.trades

/- The broken contract that ended the cascade. -/
def violation (c : Cascade) : Option Violation :=
  c.passes.findSome? Pass.violation

end Cascade

namespace Book

/- Execute an order and all that it sets off.  `none` if a
quantity is out of range. -/
def cascade?
    (b : Book)
    (o : Order)
    (now : Timestamp) : Option Cascade :=
  (b.pass? o.activate now).bind fun (p, b') =>
    if p.violation.isSome then
      some ⟨p, [], b'⟩
    else
      (runQueue? now (b'.releaseAfter p).1
        (b'.releaseAfter p).2).map
        fun (others, b'') => ⟨p, others, b''⟩

end Book

end Matchbook
