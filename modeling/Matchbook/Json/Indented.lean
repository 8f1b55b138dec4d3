import Matchbook.Json.Basic

/-
  JSON values over several lines.

  Every item of an array and every member of an object stands
  on a line of its own, two columns further in.  Arrays and
  objects with nothing in them stay on one line.

  Key definitions include:
    * `Json.indented`
-/

------------------------------------------------------------
-- Lines
------------------------------------------------------------

namespace Matchbook

namespace Json

/- The start of a line so many levels in. -/
def lineStart (level : Nat) : List Char :=
  '\n' :: List.replicate (2 * level) ' '

mutual

/- The characters of a value on a line of a level. -/
def indentedChars (level : Nat) : Json → List Char
  | array (item :: rest) =>
      '[' :: indentedItems (level + 1) (item :: rest) ++
        lineStart level ++ [']']
  | object (m :: rest) =>
      '\x7b' :: indentedMembers (level + 1) (m :: rest) ++
        lineStart level ++ ['\x7d']
  | j => j.toText.toList

/- The characters of the items of an array. -/
def indentedItems (level : Nat) : List Json → List Char
  | [] => []
  | [item] => lineStart level ++ indentedChars level item
  | item :: rest =>
      lineStart level ++ indentedChars level item ++
        ',' :: indentedItems level rest

/- The characters of the members of an object. -/
def indentedMembers
    (level : Nat) :
    List (Option String × Json) → List Char
  | [] => []
  | [(key, value)] =>
      lineStart level ++ (Token.text key).toChars ++
        ':' :: ' ' :: indentedChars level value
  | (key, value) :: rest =>
      lineStart level ++ (Token.text key).toChars ++
        ':' :: ' ' :: indentedChars level value ++
        ',' :: indentedMembers level rest

end

/- The form of a value over several lines. -/
def indented (j : Json) : String :=
  String.ofList (indentedChars 0 j)

end Json

end Matchbook
