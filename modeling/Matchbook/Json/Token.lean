import Matchbook.Text.Digits

/-
  The tokens of JSON texts.

  A token is a mark, a literal, a number or a text.  Numbers
  keep their literal, so nothing is lost about them.  A text
  may escape half of a surrogate pair without the other half;
  it then stands for no text, and its token is `text none`.

  Key definitions include:
    * `Json.Token`
    * `Json.Token.toChars`
    * `Json.isNumber`
    * `Json.joinUnits?`
    * `Json.Lexer.step?`
    * `Json.tokensOf?`
-/

------------------------------------------------------------
-- Tokens
------------------------------------------------------------

namespace Matchbook

namespace Json

inductive Token where
  | openArray
  | closeArray
  | openObject
  | closeObject
  | comma
  | colon
  | null
  | bool (b : Bool)
  | number (literal : List Char)
  | text (s : Option String)
deriving DecidableEq

------------------------------------------------------------
-- Writing
------------------------------------------------------------

/- The hexadecimal digits of a control character. -/
def controlChars (c : Char) : List Char :=
  let low := c.toNat % 16
  let high := c.toNat / 16
  ['\\', 'u', '0', '0', Nat.digitChar high,
    Nat.digitChar low]

/- A character inside of quotes.  Quotes, backslashes and
control characters are escaped. -/
def quotedChar (c : Char) : List Char :=
  match c with
  | '"' => ['\\', '"']
  | '\\' => ['\\', '\\']
  | '\x08' => ['\\', 'b']
  | '\x0c' => ['\\', 'f']
  | '\n' => ['\\', 'n']
  | '\r' => ['\\', 'r']
  | '\t' => ['\\', 't']
  | c => if c.toNat < 0x20 then controlChars c else [c]

/- A text inside of quotes. -/
def quoted (s : String) : List Char :=
  '"' :: s.toList.flatMap quotedChar ++ ['"']

/- The written form of a token. -/
def Token.toChars : Token → List Char
  | openArray => ['[']
  | closeArray => [']']
  | openObject => ['\x7b']
  | closeObject => ['\x7d']
  | comma => [',']
  | colon => [':']
  | null => "null".toList
  | bool true => "true".toList
  | bool false => "false".toList
  | number literal => literal
  | text (some s) => quoted s
  | text none => "\"\\ud800\"".toList

------------------------------------------------------------
-- Numbers
------------------------------------------------------------

/- Whether a run of digits may stand before the point. -/
def isWhole (cs : List Char) : Bool :=
  match cs with
  | [] => false
  | ['0'] => true
  | '0' :: _ => false
  | _ => cs.all Char.isDigit

/- Whether a run is not empty and all digits. -/
def isDigits (cs : List Char) : Bool :=
  !cs.isEmpty && cs.all Char.isDigit

/- Whether characters are an exponent after its mark. -/
def isExponent : List Char → Bool
  | '+' :: ds => isDigits ds
  | '-' :: ds => isDigits ds
  | ds => isDigits ds

/- Whether a character opens an exponent. -/
def opensExponent (c : Char) : Bool :=
  c = 'e' || c = 'E'

/- Whether characters are a number without its exponent. -/
def isDecimal (cs : List Char) : Bool :=
  let whole := cs.takeWhile (· != '.')
  match cs.dropWhile (· != '.') with
  | [] => isWhole whole
  | _ :: fraction => isWhole whole && isDigits fraction

/- Whether characters are an unsigned number. -/
def isUnsigned (cs : List Char) : Bool :=
  let decimal := cs.takeWhile (!opensExponent ·)
  match cs.dropWhile (!opensExponent ·) with
  | [] => isDecimal decimal
  | _ :: exponent => isDecimal decimal && isExponent exponent

/- Whether characters are a number literal. -/
def isNumber : List Char → Bool
  | '-' :: cs => isUnsigned cs
  | cs => isUnsigned cs

/- Whether a character may belong to a number literal. -/
def isNumberChar (c : Char) : Bool :=
  c.isDigit || c = '-' || c = '+' || c = '.' ||
    opensExponent c

------------------------------------------------------------
-- Characters from code units
------------------------------------------------------------

/- Whether a code unit is the first half of a pair. -/
def isLeading (u : Nat) : Bool :=
  decide (0xd800 ≤ u ∧ u < 0xdc00)

/- Whether a code unit is the second half of a pair. -/
def isTrailing (u : Nat) : Bool :=
  decide (0xdc00 ≤ u ∧ u < 0xe000)

/-
  The characters that code units stand for; `none` if a half
  of a pair has no partner.
-/
def joinUnits? : List Nat → Option (List Char)
  | [] => some []
  | [u] =>
      if isLeading u || isTrailing u then none
      else some [Char.ofNat u]
  | u :: v :: rest =>
      if isLeading u then
        if isTrailing v then
          let c :=
            0x10000 + 0x400 * (u - 0xd800) + (v - 0xdc00)
          (joinUnits? rest).map (Char.ofNat c :: ·)
        else
          none
      else if isTrailing u then
        none
      else
        (joinUnits? (v :: rest)).map (Char.ofNat u :: ·)

/- The text that code units stand for. -/
def textOfUnits? (units : List Nat) : Option String :=
  (joinUnits? units).map String.ofList

------------------------------------------------------------
-- Reading
------------------------------------------------------------

/-
  Where a lexer stands: between tokens or inside of one.  What
  has been read of a token is kept in reverse.
-/
inductive Lexer where
  | between
  | word (read : List Char)
  | number (read : List Char)
  | text (read : List Nat)
  | escape (read : List Nat)
  | unit (read : List Nat) (digits value : Nat)
deriving DecidableEq

namespace Lexer

/- The token of a word. -/
def wordToken? (cs : List Char) : Option Token :=
  if cs = "null".toList then some .null
  else if cs = "true".toList then some (.bool true)
  else if cs = "false".toList then some (.bool false)
  else none

/- The token of a number literal. -/
def numberToken? (cs : List Char) : Option Token :=
  if isNumber cs then some (.number cs) else none

/- The blanks between tokens. -/
def isBlank (c : Char) : Bool :=
  c = ' ' || c = '\t' || c = '\n' || c = '\r'

/- The mark that a character is. -/
def mark? : Char → Option Token
  | '[' => some .openArray
  | ']' => some .closeArray
  | '\x7b' => some .openObject
  | '\x7d' => some .closeObject
  | ',' => some .comma
  | ':' => some .colon
  | _ => none

/- One character between tokens. -/
def start? (c : Char) : Option (List Token × Lexer) :=
  if isBlank c then some ([], between)
  else
    match mark? c with
    | some t => some ([t], between)
    | none =>
        if c = '"' then some ([], text [])
        else if c = '-' || c.isDigit then
          some ([], number [c])
        else if c.isLower then some ([], word [c])
        else none

/- The token that ends before a character, and what the
character starts. -/
def startAfter?
    (token : Option Token)
    (c : Char) : Option (List Token × Lexer) := do
  let t ← token
  let (ts, next) ← start? c
  return (t :: ts, next)

/- The character that a short escape stands for. -/
def escaped? : Char → Option Char
  | '"' => some '"'
  | '\\' => some '\\'
  | '/' => some '/'
  | 'b' => some '\x08'
  | 'f' => some '\x0c'
  | 'n' => some '\n'
  | 'r' => some '\r'
  | 't' => some '\t'
  | _ => none

/- One character: the tokens that it completes and where the
lexer then stands. -/
def step? :
    Lexer → Char → Option (List Token × Lexer)
  | between, c => start? c
  | word cs, c =>
      if c.isAlphanum then some ([], word (c :: cs))
      else startAfter? (wordToken? cs.reverse) c
  | number cs, c =>
      if isNumberChar c then some ([], number (c :: cs))
      else startAfter? (numberToken? cs.reverse) c
  | text us, c =>
      if c = '"' then
        some ([.text (textOfUnits? us.reverse)], between)
      else if c = '\\' then some ([], escape us)
      else if c.toNat < 0x20 then none
      else some ([], text (c.toNat :: us))
  | escape us, c =>
      if c = 'u' then some ([], unit us 0 0)
      else
        (escaped? c).map fun e =>
          ([], text (e.toNat :: us))
  | unit us digits value, c =>
      (Digits.hexValue? c).map fun h =>
        if digits = 3 then
          ([], text ((16 * value + h) :: us))
        else
          ([], unit us (digits + 1) (16 * value + h))

/- The tokens that the end of the text completes. -/
def finish? : Lexer → Option (List Token)
  | between => some []
  | word cs => (wordToken? cs.reverse).map ([·])
  | number cs => (numberToken? cs.reverse).map ([·])
  | _ => none

/- The tokens of a text from where a lexer stands. -/
def run? : Lexer → List Char → Option (List Token)
  | s, [] => s.finish?
  | s, c :: cs => do
      let (ts, s') ← s.step? c
      return ts ++ (← run? s' cs)

end Lexer

/- The tokens of a text. -/
def tokensOf? (cs : List Char) : Option (List Token) :=
  Lexer.between.run? cs

end Json

end Matchbook
