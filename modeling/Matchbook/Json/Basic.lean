import Matchbook.Json.Token

/-
  JSON values.

  A value is written as its tokens, one after the other and
  without blanks, and read by a machine that keeps the open
  arrays and objects on a stack.  Objects keep all of their
  members in order, repeated keys included.

  Key definitions include:
    * `Json`
    * `Json.tokens`
    * `Json.toText`
    * `Json.Machine.step?`
    * `Json.ofText?`
-/

------------------------------------------------------------
-- Values
------------------------------------------------------------

namespace Matchbook

inductive Json where
  | null
  | bool (b : Bool)
  | number (literal : List Char)
  | text (s : Option String)
  | array (items : List Json)
  | object (members : List (Option String × Json))

namespace Json

instance : Inhabited Json := ⟨null⟩

/- A proper text. -/
def str (s : String) : Json :=
  text (some s)

/- A natural number. -/
def nat (n : Nat) : Json :=
  number (Nat.toDigits 10 n)

/- An object with proper keys. -/
def record (members : List (String × Json)) : Json :=
  object (members.map fun m => (some m.1, m.2))

/- A value or null. -/
def optional {α : Type} (f : α → Json) : Option α → Json
  | none => null
  | some a => f a

------------------------------------------------------------
-- Writing
------------------------------------------------------------

mutual

/- The tokens of a value. -/
def tokens : Json → List Token
  | null => [.null]
  | bool b => [.bool b]
  | number literal => [.number literal]
  | text s => [.text s]
  | array items => .openArray :: itemTokens items
  | object members => .openObject :: memberTokens members

/- The tokens of the items of an array and its end. -/
def itemTokens : List Json → List Token
  | [] => [.closeArray]
  | [item] => item.tokens ++ [.closeArray]
  | item :: rest =>
      item.tokens ++ .comma :: itemTokens rest

/- The tokens of the members of an object and its end. -/
def memberTokens :
    List (Option String × Json) → List Token
  | [] => [.closeObject]
  | [(key, value)] =>
      .text key :: .colon :: value.tokens ++ [.closeObject]
  | (key, value) :: rest =>
      .text key :: .colon :: value.tokens ++
        .comma :: memberTokens rest

end

/- The written form of a value. -/
def toText (j : Json) : String :=
  String.ofList (j.tokens.flatMap Token.toChars)

------------------------------------------------------------
-- Reading
------------------------------------------------------------

/- An open array or object with what has been read of it, in
reverse. -/
inductive Frame where
  | items (done : List Json)
  | members
      (done : List (Option String × Json))
      (key : Option String)

/- What a reader expects next, and the open frames. -/
inductive Machine where
  | value (frames : List Frame)
  | firstItem (frames : List Frame)
  | firstKey (frames : List Frame)
  | key
      (done : List (Option String × Json))
      (frames : List Frame)
  | colon
      (done : List (Option String × Json))
      (key : Option String)
      (frames : List Frame)
  | complete (v : Json) (frames : List Frame)

namespace Machine

/- A token at the start of a value. -/
def start?
    (frames : List Frame) : Token → Option Machine
  | .null => some (complete .null frames)
  | .bool b => some (complete (.bool b) frames)
  | .number literal =>
      some (complete (.number literal) frames)
  | .text s => some (complete (.text s) frames)
  | .openArray => some (firstItem frames)
  | .openObject => some (firstKey frames)
  | _ => none

/- A token after a value. -/
def continue?
    (v : Json) :
    List Frame → Token → Option Machine
  | .items done :: frames, .comma =>
      some (value (.items (v :: done) :: frames))
  | .items done :: frames, .closeArray =>
      some (complete (.array (v :: done).reverse) frames)
  | .members done k :: frames, .comma =>
      some (key ((k, v) :: done) frames)
  | .members done k :: frames, .closeObject =>
      some
        (complete (.object ((k, v) :: done).reverse) frames)
  | _, _ => none

/- One token. -/
def step? : Machine → Token → Option Machine
  | value frames, t => start? frames t
  | firstItem frames, .closeArray =>
      some (complete (.array []) frames)
  | firstItem frames, t => start? (.items [] :: frames) t
  | firstKey frames, .closeObject =>
      some (complete (.object []) frames)
  | firstKey frames, .text k => some (colon [] k frames)
  | key done frames, .text k => some (colon done k frames)
  | colon done k frames, .colon =>
      some (value (.members done k :: frames))
  | complete v frames, t => continue? v frames t
  | _, _ => none

/- The value that is complete at the end of the tokens. -/
def result? : Machine → Option Json
  | complete v [] => some v
  | _ => none

end Machine

/- The value that tokens stand for. -/
def ofTokens? (ts : List Token) : Option Json := do
  (← ts.foldlM Machine.step? (Machine.value [])).result?

/- Read a value that is all of a text. -/
def ofText? (s : String) : Option Json := do
  ofTokens? (← tokensOf? s.toList)

end Json

end Matchbook
