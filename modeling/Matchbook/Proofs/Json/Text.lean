import Matchbook.Json.Basic
import Matchbook.Proofs.Json.Token

/-
  JSON values read back as they are written.

  The text of a value lexes to its tokens, and the machine
  that reads the tokens completes the value, whatever frames
  are open and whatever comes after.

  Key definitions include:
    * `Json.IsProper`

  The main statements are:
    * `Json.tokensOf?_toText`
    * `Json.ofTokens?_tokens`
    * `Json.ofText?_toText`
-/

------------------------------------------------------------
-- Values that can be written
------------------------------------------------------------

namespace Matchbook

namespace Json

mutual

/- All numbers of a value are number literals. -/
def IsProper : Json → Prop
  | number literal => isNumber literal
  | array items => AreProper items
  | object members => HaveProper members
  | _ => True

def AreProper : List Json → Prop
  | [] => True
  | item :: rest => item.IsProper ∧ AreProper rest

def HaveProper : List (Option String × Json) → Prop
  | [] => True
  | (_, value) :: rest => value.IsProper ∧ HaveProper rest

end

theorem haveProper_iff
    {members : List (Option String × Json)} :
    HaveProper members ↔ ∀ m ∈ members, m.2.IsProper := by
  induction members with
  | nil => simp [HaveProper]
  | cons m rest ih => simp [HaveProper, ih]

------------------------------------------------------------
-- From characters to tokens
------------------------------------------------------------

/- The characters of tokens. -/
def charsOf (ts : List Token) : List Char :=
  ts.flatMap Token.toChars

theorem charsOf_append (ts us : List Token) :
    charsOf (ts ++ us) = charsOf ts ++ charsOf us :=
  List.flatMap_append

namespace Lexer

/- Tokens whose characters lex back to them in front of a
rest. -/
def Lexes (ts : List Token) (rest : List Char) : Prop :=
  between.run? (charsOf ts ++ rest) =
    (between.run? rest).map (ts ++ ·)

variable {t : Token} {ts us : List Token} {rest : List Char}

theorem lexes_nil : Lexes [] rest :=
  Option.map_id'.symm

/- The characters of the tokens behind are the rest of those
in front. -/
theorem Lexes.append
    {ts us : List Token}
    (h : Lexes ts (charsOf us ++ rest))
    (h' : Lexes us rest) :
    Lexes (ts ++ us) rest := by
  unfold Lexes at h h' ⊢
  rw [charsOf_append, List.append_assoc, h, h',
    Option.map_map]
  congr 1
  funext vs
  exact (List.append_assoc ..).symm

theorem lexes_singleton
    (hProper : t.IsProper)
    (hEnds : t.IsOpen → Ends rest) :
    Lexes [t] rest := by
  unfold Lexes charsOf
  rw [List.flatMap_singleton]
  exact run?_toChars hProper hEnds

/- A token that shows its end goes in front of any others. -/
theorem Lexes.cons
    (h : Lexes ts rest)
    (hProper : t.IsProper)
    (hClosed : ¬ t.IsOpen) :
    Lexes (t :: ts) rest :=
  have hFirst : Lexes [t] (charsOf ts ++ rest) :=
    lexes_singleton hProper fun hOpen => absurd hOpen hClosed
  hFirst.append h

/- The key of a member goes in front of its value. -/
theorem Lexes.keyed
    {key : Option String}
    (h : Lexes ts rest) :
    Lexes (.text key :: .colon :: ts) rest :=
  (h.cons (t := .colon) trivial id).cons trivial id

/- Commas and closing brackets end words and numbers. -/
theorem ends_charsOf
    (ht : t = .comma ∨ t = .closeArray ∨ t = .closeObject) :
    Ends (charsOf (t :: ts) ++ rest) := by
  rcases ht with rfl | rfl | rfl
  all_goals
    rintro _ ⟨⟩
    decide

end Lexer

open Lexer

mutual

theorem lexes_tokens
    {rest : List Char}
    (hEnds : Ends rest) :
    (j : Json) → j.IsProper → Lexes j.tokens rest
  | null, _ =>
      lexes_singleton trivial fun _ => hEnds
  | bool _, _ =>
      lexes_singleton trivial fun _ => hEnds
  | number _, h =>
      lexes_singleton h fun _ => hEnds
  | text _, _ =>
      lexes_singleton trivial fun _ => hEnds
  | array items, h =>
      (lexes_itemTokens items h).cons trivial id
  | object members, h =>
      (lexes_memberTokens members h).cons trivial id

theorem lexes_itemTokens
    {rest : List Char} :
    (items : List Json) → AreProper items →
      Lexes (itemTokens items) rest
  | [], _ =>
      lexes_nil.cons trivial id
  | [item], h =>
      (lexes_tokens (ends_charsOf (by simp)) item
        h.1).append (lexes_nil.cons trivial id)
  | item :: next :: items, h =>
      (lexes_tokens (ends_charsOf (by simp)) item
        h.1).append
        ((lexes_itemTokens (next :: items) h.2).cons
          trivial id)

theorem lexes_memberTokens
    {rest : List Char} :
    (members : List (Option String × Json)) →
      HaveProper members →
      Lexes (memberTokens members) rest
  | [], _ =>
      lexes_nil.cons trivial id
  | [(_, value)], h =>
      Lexes.keyed
        ((lexes_tokens (ends_charsOf (by simp)) value
          h.1).append (lexes_nil.cons trivial id))
  | (_, value) :: next :: members, h =>
      Lexes.keyed
        ((lexes_tokens (ends_charsOf (by simp)) value
          h.1).append
          ((lexes_memberTokens (next :: members) h.2).cons
            trivial id))

end

/- The text of a value lexes to the tokens of the value. -/
theorem tokensOf?_toText
    {j : Json}
    (h : j.IsProper) :
    tokensOf? j.toText.toList = some j.tokens := by
  have hLexes : Lexes j.tokens [] := lexes_tokens ends_nil j h
  have hEnd : between.run? [] = some [] := rfl
  unfold Lexes at hLexes
  rw [hEnd, List.append_nil, Option.map_some,
    List.append_nil] at hLexes
  unfold tokensOf? toText
  rw [String.toList_ofList]
  exact hLexes

------------------------------------------------------------
-- From tokens to values
------------------------------------------------------------

namespace Machine

/- A value that opens an array does so as it would later on,
since no value begins with the end of an array. -/
theorem step?_firstItem
    {t : Token}
    (h : t ≠ .closeArray)
    (frames : List Frame) :
    step? (firstItem frames) t =
      step? (value (.items [] :: frames)) t := by
  cases t with
  | closeArray => exact absurd rfl h
  | _ => rfl

end Machine

open Machine

theorem exists_tokens_eq_cons (j : Json) :
    ∃ t ts, j.tokens = t :: ts ∧ t ≠ .closeArray := by
  cases j with
  | _ =>
      unfold tokens
      exact ⟨_, _, rfl, fun hEq => by cases hEq⟩

theorem foldlM_firstItem
    {items : List Json}
    (h : items ≠ [])
    (rest : List Token)
    (frames : List Frame) :
    (itemTokens items ++ rest).foldlM Machine.step?
        (firstItem frames) =
      (itemTokens items ++ rest).foldlM Machine.step?
        (value (.items [] :: frames)) := by
  cases items with
  | nil => exact absurd rfl h
  | cons item items =>
      rcases exists_tokens_eq_cons item with
        ⟨t, ts, hTokens, hNe⟩
      have hCons :
          ∃ us, itemTokens (item :: items) = t :: us := by
        cases items with
        | nil =>
            rw [itemTokens, hTokens]
            exact ⟨_, rfl⟩
        | cons next items =>
            rw [itemTokens, hTokens]
            · exact ⟨_, rfl⟩
            · exact List.cons_ne_nil _ _
      rcases hCons with ⟨us, hUs⟩
      rw [hUs, List.cons_append, List.foldlM_cons,
        step?_firstItem hNe, List.foldlM_cons]

mutual

/- The tokens of a value complete it on the open frames. -/
theorem foldlM_tokens
    (rest : List Token) :
    (j : Json) → (frames : List Frame) →
      (j.tokens ++ rest).foldlM Machine.step?
          (value frames) =
        rest.foldlM Machine.step? (complete j frames)
  | null, _ => rfl
  | bool _, _ => rfl
  | number _, _ => rfl
  | text _, _ => rfl
  | array [], _ => rfl
  | array (item :: items), frames =>
      -- A first item is read like any later one, with nothing
      -- done before it.
      (foldlM_firstItem (List.cons_ne_nil _ _) rest
        frames).trans
        (foldlM_itemTokens rest (item :: items)
          (List.cons_ne_nil _ _) [] frames)
  | object [], _ => rfl
  | object ((k, v) :: members), frames => by
      refine Eq.trans ?_
        (foldlM_memberTokens rest ((k, v) :: members)
          (List.cons_ne_nil _ _) [] frames)
      cases members with
      | nil => rfl
      | cons m members => rfl

/- The tokens of the items that remain of an array. -/
theorem foldlM_itemTokens
    (rest : List Token) :
    (items : List Json) → items ≠ [] →
      (done : List Json) → (frames : List Frame) →
      (itemTokens items ++ rest).foldlM Machine.step?
          (value (.items done :: frames)) =
        rest.foldlM Machine.step?
          (complete (.array (done.reverse ++ items)) frames)
  | [], h, _, _ => absurd rfl h
  | [item], _, done, frames => by
      rw [itemTokens, List.append_assoc, foldlM_tokens _ item,
        ← List.reverse_cons]
      rfl
  | item :: next :: items, _, done, frames => by
      -- At the comma the item joins those that are done, which
      -- the frame keeps in reverse.
      have hNext :=
        foldlM_itemTokens rest (next :: items)
          (List.cons_ne_nil _ _) (item :: done) frames
      rw [List.reverse_cons, List.append_assoc] at hNext
      rw [itemTokens, List.append_assoc, foldlM_tokens _ item]
      · exact hNext
      · exact List.cons_ne_nil _ _

/- The tokens of the members that remain of an object. -/
theorem foldlM_memberTokens
    (rest : List Token) :
    (members : List (Option String × Json)) →
      members ≠ [] →
      (done : List (Option String × Json)) →
      (frames : List Frame) →
      (memberTokens members ++ rest).foldlM Machine.step?
          (key done frames) =
        rest.foldlM Machine.step?
          (complete (.object (done.reverse ++ members))
            frames)
  | [], h, _, _ => absurd rfl h
  | [(k, v)], _, done, frames => by
      have hValue :=
        foldlM_tokens (.closeObject :: rest) v
          (.members done k :: frames)
      rw [memberTokens, ← List.reverse_cons]
      simp only [List.cons_append, List.append_assoc,
        List.nil_append]
      exact hValue
  | (k, v) :: next :: members, _, done, frames => by
      have hNext :=
        foldlM_memberTokens rest (next :: members)
          (List.cons_ne_nil _ _) ((k, v) :: done) frames
      have hValue :=
        foldlM_tokens
          (.comma :: (memberTokens (next :: members) ++ rest))
          v (.members done k :: frames)
      rw [List.reverse_cons, List.append_assoc] at hNext
      rw [memberTokens]
      · simp only [List.cons_append, List.append_assoc]
        exact hValue.trans hNext
      · exact List.cons_ne_nil _ _

end

/- A value reads back from its tokens. -/
theorem ofTokens?_tokens (j : Json) :
    ofTokens? j.tokens = some j := by
  have hRun := foldlM_tokens [] j []
  rw [List.append_nil] at hRun
  unfold ofTokens?
  rw [hRun]
  rfl

/- A value reads back from its text. -/
theorem ofText?_toText
    {j : Json}
    (h : j.IsProper) :
    ofText? j.toText = some j := by
  unfold ofText?
  rw [tokensOf?_toText h]
  exact ofTokens?_tokens j

end Json

end Matchbook
