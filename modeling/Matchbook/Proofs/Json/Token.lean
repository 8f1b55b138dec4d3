import Matchbook.Json.Token
import Mathlib.Data.List.TakeWhile
import Mathlib.Tactic.ByContra

/-
  Tokens of JSON texts read back as they are written.

  A lexer that stands between tokens completes a written token
  and goes on with what comes after it.  A word or a number
  does not show where it ends, so what comes after it must not
  go on with it.

  Key definitions include:
    * `Json.Token.IsProper`
    * `Json.Token.IsOpen`
    * `Json.Lexer.Ends`

  The main statements are:
    * `Json.textOfUnits?_toNat`
    * `Json.Lexer.run?_quoted`
    * `Json.Lexer.run?_toChars`
-/

------------------------------------------------------------
-- Characters and code units
------------------------------------------------------------

namespace Matchbook

namespace Json

/- No character is a half of a pair. -/
theorem not_isLeading_toNat (c : Char) :
    isLeading c.toNat = false ∧
      isTrailing c.toNat = false := by
  have hValid := c.valid
  have hNat : c.toNat = c.val.toNat := rfl
  simp only [UInt32.isValidChar, Nat.isValidChar] at hValid
  simp only [isLeading, isTrailing, decide_eq_false_iff_not]
  omega

theorem joinUnits?_toNat (cs : List Char) :
    joinUnits? (cs.map Char.toNat) = some cs := by
  induction cs with
  | nil => rfl
  | cons c cs ih =>
      rcases not_isLeading_toNat c with ⟨hLead, hTrail⟩
      cases cs with
      | nil => simp [joinUnits?, hLead, hTrail]
      | cons d ds =>
          rw [List.map_cons] at ih
          simp [joinUnits?, hLead, hTrail, ih]

/- The code points of a text stand for the text. -/
theorem textOfUnits?_toNat (s : String) :
    textOfUnits? (s.toList.map Char.toNat) = some s := by
  unfold textOfUnits?
  rw [joinUnits?_toNat, Option.map_some, String.ofList_toList]

theorem hexValue?_digitChar
    {n : Nat}
    (h : n < 16) :
    Digits.hexValue? (Nat.digitChar n) = some n := by
  revert n
  decide

------------------------------------------------------------
-- Number literals
------------------------------------------------------------

theorem all_isDigit_of_isWhole
    {cs : List Char}
    (h : isWhole cs) :
    ∀ c ∈ cs, c.isDigit := by
  unfold isWhole at h
  split at h
  · cases h
  · intro c hc
    rw [List.mem_singleton.1 hc]
    rfl
  · cases h
  · simpa using h

theorem all_isDigit_of_isDigits
    {cs : List Char}
    (h : isDigits cs) :
    ∀ c ∈ cs, c.isDigit := by
  unfold isDigits at h
  simp only [Bool.and_eq_true, List.all_eq_true] at h
  exact h.2

/- A decimal begins with a digit and has digits and a point
only. -/
theorem all_of_isDecimal
    {cs : List Char}
    (h : isDecimal cs) :
    ∀ c ∈ cs, c.isDigit ∨ c = '.' := by
  have hSplit := List.takeWhile_append_dropWhile
    (p := (· != '.')) (l := cs)
  unfold isDecimal at h
  dsimp only at h
  intro c hc
  rw [← hSplit, List.mem_append] at hc
  cases hRest : cs.dropWhile (· != '.') with
  | nil =>
      rw [hRest] at h hc
      rcases hc with hWhole | hNone
      · exact Or.inl (all_isDigit_of_isWhole h c hWhole)
      · cases hNone
  | cons point fraction =>
      rw [hRest] at h hc
      simp only [Bool.and_eq_true] at h
      rcases hc with hWhole | hTail
      · exact Or.inl (all_isDigit_of_isWhole h.1 c hWhole)
      · rcases List.mem_cons.1 hTail with rfl | hFraction
        · have hHead := List.head?_dropWhile_not (· != '.') cs
          rw [hRest] at hHead
          exact Or.inr (by simpa using hHead)
        · exact Or.inl (all_isDigit_of_isDigits h.2 c hFraction)

theorem exists_cons_of_isDecimal
    {cs : List Char}
    (h : isDecimal cs) :
    ∃ c rest, cs = c :: rest ∧ c.isDigit := by
  have hWhole : isWhole (cs.takeWhile (· != '.')) := by
    unfold isDecimal at h
    dsimp only at h
    split at h
    · exact h
    · exact (Bool.and_eq_true .. ▸ h).1
  cases cs with
  | nil => cases hWhole
  | cons c rest =>
      refine ⟨c, rest, rfl, ?_⟩
      by_cases hPoint : c = '.'
      · subst hPoint
        cases hWhole
      · rw [List.takeWhile_cons_of_pos (by simpa using hPoint)]
          at hWhole
        exact
          all_isDigit_of_isWhole hWhole c
            (List.mem_cons_self ..)

theorem isNumberChar_of_isDigit
    {c : Char}
    (h : c.isDigit) :
    isNumberChar c := by
  simp [isNumberChar, h]

theorem all_of_isExponent
    {cs : List Char}
    (h : isExponent cs) :
    ∀ c ∈ cs, isNumberChar c := by
  unfold isExponent at h
  intro c hc
  split at h
  · rcases List.mem_cons.1 hc with rfl | hDigit
    · rfl
    · exact
        isNumberChar_of_isDigit
          (all_isDigit_of_isDigits h c hDigit)
  · rcases List.mem_cons.1 hc with rfl | hDigit
    · rfl
    · exact
        isNumberChar_of_isDigit
          (all_isDigit_of_isDigits h c hDigit)
  · exact
      isNumberChar_of_isDigit
        (all_isDigit_of_isDigits h c hc)

theorem all_of_isUnsigned
    {cs : List Char}
    (h : isUnsigned cs) :
    ∀ c ∈ cs, isNumberChar c := by
  have hSplit := List.takeWhile_append_dropWhile
    (p := (!opensExponent ·)) (l := cs)
  have hDecimal
      (hd : isDecimal (cs.takeWhile (!opensExponent ·)))
      (c : Char)
      (hc : c ∈ cs.takeWhile (!opensExponent ·)) :
      isNumberChar c := by
    rcases all_of_isDecimal hd c hc with hDigit | rfl
    · exact isNumberChar_of_isDigit hDigit
    · rfl
  unfold isUnsigned at h
  dsimp only at h
  intro c hc
  rw [← hSplit, List.mem_append] at hc
  cases hRest : cs.dropWhile (!opensExponent ·) with
  | nil =>
      rw [hRest] at h hc
      rcases hc with hLeft | hNone
      · exact hDecimal h c hLeft
      · cases hNone
  | cons mark exponent =>
      rw [hRest] at h hc
      simp only [Bool.and_eq_true] at h
      rcases hc with hLeft | hTail
      · exact hDecimal h.1 c hLeft
      · rcases List.mem_cons.1 hTail with rfl | hExponent
        · have hHead :=
            List.head?_dropWhile_not (!opensExponent ·) cs
          rw [hRest] at hHead
          have hOpens : opensExponent c := by
            simpa using hHead
          simp [isNumberChar, hOpens]
        · exact all_of_isExponent h.2 c hExponent

theorem exists_cons_of_isUnsigned
    {cs : List Char}
    (h : isUnsigned cs) :
    ∃ c rest, cs = c :: rest ∧ c.isDigit := by
  have hDecimal :
      isDecimal (cs.takeWhile (!opensExponent ·)) := by
    unfold isUnsigned at h
    dsimp only at h
    split at h
    · exact h
    · exact (Bool.and_eq_true .. ▸ h).1
  rcases exists_cons_of_isDecimal hDecimal with
    ⟨c, taken, hTake, hDigit⟩
  cases cs with
  | nil => cases hTake
  | cons d rest =>
      refine ⟨d, rest, rfl, ?_⟩
      -- A mark in front would leave no digits before it.
      by_cases hOpens : opensExponent d
      · rw [List.takeWhile_cons_of_neg (by simp [hOpens])]
          at hTake
        cases hTake
      · rw [List.takeWhile_cons_of_pos (by simp [hOpens])]
          at hTake
        rw [(List.cons_eq_cons.1 hTake).1]
        exact hDigit

/- A number literal begins with a digit or a minus, and none
of its characters ends it. -/
theorem exists_cons_of_isNumber
    {cs : List Char}
    (h : isNumber cs) :
    ∃ c rest, cs = c :: rest ∧ (c = '-' ∨ c.isDigit) ∧
      ∀ d ∈ rest, isNumberChar d := by
  unfold isNumber at h
  split at h
  · exact
      ⟨_, _, rfl, Or.inl rfl, all_of_isUnsigned h⟩
  · rcases exists_cons_of_isUnsigned h with
      ⟨c, rest, rfl, hDigit⟩
    refine ⟨c, rest, rfl, Or.inr hDigit, ?_⟩
    intro d hd
    exact all_of_isUnsigned h d (List.mem_cons_of_mem _ hd)

/- Digits that may stand before a point are a number. -/
theorem isNumber_of_isWhole
    {cs : List Char}
    (h : isWhole cs) :
    isNumber cs := by
  have hDigits := all_isDigit_of_isWhole h
  have hMark : ∀ c ∈ cs, !opensExponent c := by
    intro c hc
    cases hOpens : opensExponent c with
    | false => rfl
    | true =>
        simp only [opensExponent, Bool.or_eq_true,
          decide_eq_true_eq] at hOpens
        rcases hOpens with rfl | rfl
        all_goals exact absurd (hDigits _ hc) (by decide)
  have hPoint : ∀ c ∈ cs, c != '.' := by
    intro c hc
    rw [bne_iff_ne]
    rintro rfl
    exact absurd (hDigits _ hc) (by decide)
  have hDecimal : isDecimal cs := by
    unfold isDecimal
    rw [List.takeWhile_eq_self_iff.2 hPoint,
      List.dropWhile_eq_nil_iff.2 hPoint]
    exact h
  have hUnsigned : isUnsigned cs := by
    unfold isUnsigned
    rw [List.takeWhile_eq_self_iff.2 hMark,
      List.dropWhile_eq_nil_iff.2 hMark]
    exact hDecimal
  unfold isNumber
  split
  · exact
      absurd (hDigits '-' (List.mem_cons_self ..)) (by decide)
  · exact hUnsigned

/- Only zero begins with a zero. -/
theorem eq_zero_of_toDigits_eq_cons
    {n : Nat}
    {cs : List Char}
    (h : Nat.toDigits 10 n = '0' :: cs) :
    n = 0 := by
  induction n using Nat.strongRecOn generalizing cs with
  | _ n ih =>
      rw [Nat.toDigits_eq_if (by decide)] at h
      split at h
      · exact
          Nat.digitChar_eq_zero.1 (List.cons_eq_cons.1 h).1
      · cases hTens : Nat.toDigits 10 (n / 10) with
        | nil => exact absurd hTens Nat.toDigits_ne_nil
        | cons d ds =>
            rw [hTens] at h
            rw [(List.cons_eq_cons.1 h).1] at hTens
            have hZero := ih (n / 10) (by omega) hTens
            omega

theorem isWhole_toDigits (n : Nat) :
    isWhole (Nat.toDigits 10 n) := by
  cases hDigits : Nat.toDigits 10 n with
  | nil => exact absurd hDigits Nat.toDigits_ne_nil
  | cons d ds =>
      by_cases hd : d = '0'
      · subst hd
        have hZero := eq_zero_of_toDigits_eq_cons hDigits
        rw [hZero, Nat.toDigits_zero] at hDigits
        rw [← hDigits]
        rfl
      · unfold isWhole
        split
        · rename_i hNil
          exact absurd hNil (List.cons_ne_nil _ _)
        · rfl
        · rename_i hCons
          exact absurd (List.cons_eq_cons.1 hCons).1 hd
        · rw [← hDigits, List.all_eq_true]
          exact fun c hc =>
            Nat.isDigit_of_mem_toDigits (by decide)
              (by decide) hc

------------------------------------------------------------
-- One character after the other
------------------------------------------------------------

namespace Lexer

theorem run?_cons_eq_bind
    (s : Lexer)
    (c : Char)
    (cs : List Char) :
    s.run? (c :: cs) =
      (s.step? c).bind fun x =>
        (x.2.run? cs).map (x.1 ++ ·) := by
  rw [run?, Option.bind_eq_bind]
  congr 1
  funext x
  exact (Option.map_eq_bind ..).symm

theorem run?_cons
    {s s' : Lexer}
    {c : Char}
    {cs : List Char}
    (ts : List Token)
    (h : s.step? c = some (ts, s')) :
    s.run? (c :: cs) = (s'.run? cs).map (ts ++ ·) := by
  rw [run?_cons_eq_bind, h, Option.bind_some]

/- A character that completes no token. -/
theorem run?_cons_of_silent
    {s : Lexer}
    {c : Char}
    {cs : List Char}
    (s' : Lexer)
    (h : s.step? c = some ([], s')) :
    s.run? (c :: cs) = s'.run? cs := by
  rw [run?_cons [] h]
  exact Option.map_id'

------------------------------------------------------------
-- Texts
------------------------------------------------------------

section Texts

variable {us : List Nat} {c : Char} {rest : List Char}

/- The four digits of an escaped control character. -/
theorem run?_controlChars
    (h : c.toNat < 0x20) :
    (text us).run? (controlChars c ++ rest) =
      (text (c.toNat :: us)).run? rest := by
  have hHigh :
      Digits.hexValue? (Nat.digitChar (c.toNat / 16)) =
        some (c.toNat / 16) :=
    hexValue?_digitChar (by omega)
  have hLow :
      Digits.hexValue? (Nat.digitChar (c.toNat % 16)) =
        some (c.toNat % 16) :=
    hexValue?_digitChar (by omega)
  have hValue :
      16 * (c.toNat / 16) + c.toNat % 16 = c.toNat := by
    omega
  have hThird :
      (unit us 2 0).step? (Nat.digitChar (c.toNat / 16)) =
        some ([], unit us 3 (c.toNat / 16)) := by
    simp [step?, hHigh]
  have hFourth :
      (unit us 3 (c.toNat / 16)).step?
          (Nat.digitChar (c.toNat % 16)) =
        some ([], text (c.toNat :: us)) := by
    simp [step?, hLow, hValue]
  unfold controlChars
  simp only [List.cons_append, List.nil_append]
  rw [run?_cons_of_silent (escape us) rfl,
    run?_cons_of_silent (unit us 0 0) rfl,
    run?_cons_of_silent (unit us 1 0) rfl,
    run?_cons_of_silent (unit us 2 0) rfl,
    run?_cons_of_silent _ hThird, run?_cons_of_silent _ hFourth]

/- A character that has a short escape. -/
theorem run?_escape
    {mark : Char}
    (hMark : mark ≠ 'u')
    (h : escaped? mark = some c) :
    (text us).run? ('\\' :: mark :: rest) =
      (text (c.toNat :: us)).run? rest := by
  have hStep :
      (escape us).step? mark =
        some ([], text (c.toNat :: us)) := by
    simp [step?, hMark, h]
  rw [run?_cons_of_silent (escape us) rfl,
    run?_cons_of_silent _ hStep]

/- A character inside of quotes becomes its code point. -/
theorem run?_quotedChar (c : Char) :
    (text us).run? (quotedChar c ++ rest) =
      (text (c.toNat :: us)).run? rest := by
  unfold quotedChar
  split
  · exact run?_escape (by decide) rfl
  · exact run?_escape (by decide) rfl
  · exact run?_escape (by decide) rfl
  · exact run?_escape (by decide) rfl
  · exact run?_escape (by decide) rfl
  · exact run?_escape (by decide) rfl
  · exact run?_escape (by decide) rfl
  · rename_i c hQuote hSlash _ _ _ _ _
    split
    · rename_i hControl
      exact run?_controlChars hControl
    · rename_i hControl
      apply run?_cons_of_silent
      unfold step?
      dsimp only
      rw [if_neg hQuote, if_neg hSlash, if_neg hControl]

theorem run?_quotedChars (cs : List Char) :
    (text us).run? (cs.flatMap quotedChar ++ rest) =
      (text ((cs.map Char.toNat).reverse ++ us)).run?
        rest := by
  induction cs generalizing us with
  | nil => rfl
  | cons c cs ih =>
      rw [List.flatMap_cons, List.append_assoc,
        run?_quotedChar, ih, List.map_cons,
        List.reverse_cons, List.append_assoc]
      rfl

/- A text inside of quotes is one token. -/
theorem run?_quoted (s : String) :
    between.run? (quoted s ++ rest) =
      (between.run? rest).map (Token.text (some s) :: ·) := by
  have hClose :
      (text (s.toList.map Char.toNat).reverse).step? '"' =
        some ([Token.text (some s)], between) := by
    have hText := textOfUnits?_toNat s
    simp [step?, hText]
  unfold quoted
  rw [List.cons_append, List.cons_append,
    List.append_assoc, run?_cons_of_silent (text []) rfl,
    run?_quotedChars, List.append_nil, List.singleton_append,
    run?_cons _ hClose]
  rfl

/- Half of a pair is a token that stands for no text. -/
theorem run?_halfPair :
    between.run? ((Token.text none).toChars ++ rest) =
      (between.run? rest).map (Token.text none :: ·) := by
  have hChars :
      (Token.text none).toChars =
        ['"', '\\', 'u', 'd', '8', '0', '0', '"'] := by
    decide
  have hClose :
      (text [0xd800]).step? '"' =
        some ([.text none], between) := by
    decide
  rw [hChars]
  simp only [List.cons_append, List.nil_append]
  rw [run?_cons_of_silent (text []) rfl,
    run?_cons_of_silent (escape []) rfl,
    run?_cons_of_silent (unit [] 0 0) rfl,
    run?_cons_of_silent (unit [] 1 0xd) rfl,
    run?_cons_of_silent (unit [] 2 0xd8) rfl,
    run?_cons_of_silent (unit [] 3 0xd80) rfl,
    run?_cons_of_silent (text [0xd800]) rfl,
    run?_cons _ hClose]
  rfl

end Texts

------------------------------------------------------------
-- Words and numbers
------------------------------------------------------------

section Words

variable {cs rest : List Char} {t : Token}

/- What comes after a word or a number and is no part of
it. -/
def Ends (rest : List Char) : Prop :=
  ∀ c ∈ rest.head?,
    c.isAlphanum = false ∧ isNumberChar c = false

theorem ends_nil : Ends [] := by
  rintro _ ⟨⟩

/- Digits and the minus open numbers. -/
theorem step?_between_eq_number
    {c : Char}
    (h : c = '-' ∨ c.isDigit) :
    between.step? c = some ([], number [c]) := by
  have hOpens : (c = '-' || c.isDigit) = true := by
    simpa using h
  have hBlank : isBlank c = false := by
    rcases h with rfl | hDigit
    · rfl
    · simp only [isBlank, Bool.or_eq_false_iff,
        decide_eq_false_iff_not]
      refine ⟨⟨⟨?_, ?_⟩, ?_⟩, ?_⟩ <;>
        (rintro rfl; exact absurd hDigit (by decide))
  have hMark : mark? c = none := by
    unfold mark?
    split
    all_goals first
      | rfl
      | exact absurd h (by decide)
  have hQuote : c ≠ '"' := by
    rintro rfl
    exact absurd h (by decide)
  change start? c = _
  unfold start?
  rw [hBlank, hMark]
  simp [hQuote, hOpens]

/- A token that ends before a character is completed there,
and the character is read as between tokens. -/
theorem bind_startAfter?
    (t : Token)
    (c : Char)
    (rest : List Char) :
    ((startAfter? (some t) c).bind fun x =>
        (x.2.run? rest).map (x.1 ++ ·)) =
      (between.run? (c :: rest)).map (t :: ·) := by
  have hStart : between.step? c = start? c := rfl
  rw [run?_cons_eq_bind, hStart]
  unfold startAfter?
  cases start? c with
  | none => rfl
  | some x => simp [Function.comp_def]

/- A token that the end of a text would complete is completed
as well by a character that does not go on with it. -/
theorem run?_of_finish?
    {s : Lexer}
    (hFinish : s.finish? = some [t])
    (hStep :
      ∀ c ∈ rest.head?, s.step? c = startAfter? (some t) c) :
    s.run? rest = (between.run? rest).map (t :: ·) := by
  cases rest with
  | nil =>
      rw [run?, hFinish]
      rfl
  | cons c rest =>
      rw [run?_cons_eq_bind, hStep c rfl, bind_startAfter?]

/- Characters that a lexer only collects. -/
theorem run?_of_collects
    {f : List Char → Lexer}
    (hCollects :
      ∀ d ∈ cs, ∀ read,
        (f read).step? d = some ([], f (d :: read)))
    (read : List Char) :
    (f read).run? (cs ++ rest) =
      (f (cs.reverse ++ read)).run? rest := by
  induction cs generalizing read with
  | nil => rfl
  | cons d ds ih =>
      rw [List.cons_append,
        run?_cons_of_silent
          _ (hCollects d (List.mem_cons_self ..) read),
        ih fun e he =>
          hCollects e (List.mem_cons_of_mem _ he),
        List.reverse_cons, List.append_assoc]
      rfl

/- A word is one token. -/
theorem run?_word
    (c : Char)
    (cs : List Char)
    (hStart : between.step? c = some ([], word [c]))
    (hAll : cs.all Char.isAlphanum)
    (hToken : wordToken? (c :: cs) = some t)
    (hEnds : Ends rest) :
    between.run? (c :: cs ++ rest) =
      (between.run? rest).map (t :: ·) := by
  have hRead :
      wordToken? (cs.reverse ++ [c]).reverse = some t := by
    simpa using hToken
  rw [List.cons_append, run?_cons_of_silent _ hStart,
    run?_of_collects (f := word) ?_ [c],
    run?_of_finish?]
  · simp [finish?, hToken]
  · intro d hd
    simp only [step?, (hEnds d hd).1, hRead]
    rfl
  · intro d hd read
    simp [step?, List.all_eq_true.1 hAll d hd]

/- A number literal is one token. -/
theorem run?_number
    (hNumber : isNumber cs)
    (hEnds : Ends rest) :
    between.run? (cs ++ rest) =
      (between.run? rest).map (Token.number cs :: ·) := by
  rcases exists_cons_of_isNumber hNumber with
    ⟨c, ds, rfl, hFirst, hAll⟩
  have hToken :
      numberToken? (ds.reverse ++ [c]).reverse =
        some (.number (c :: ds)) := by
    simp [numberToken?, hNumber]
  rw [List.cons_append,
    run?_cons_of_silent _ (step?_between_eq_number hFirst),
    run?_of_collects (f := number) ?_ [c],
    run?_of_finish?]
  · simp only [finish?, hToken]
    rfl
  · intro d hd
    simp only [step?, (hEnds d hd).2, hToken]
    rfl
  · intro d hd read
    simp [step?, hAll d hd]

end Words

end Lexer

------------------------------------------------------------
-- Tokens
------------------------------------------------------------

/- Tokens that a text can hold: numbers are literals. -/
def Token.IsProper : Token → Prop
  | .number literal => isNumber literal
  | _ => True

/- Tokens that do not show where they end. -/
def Token.IsOpen : Token → Prop
  | .null | .bool _ | .number _ => True
  | _ => False

/- A token reads back from its written form. -/
theorem Lexer.run?_toChars
    {t : Token}
    {rest : List Char}
    (hProper : t.IsProper)
    (hEnds : t.IsOpen → Ends rest) :
    between.run? (t.toChars ++ rest) =
      (between.run? rest).map (t :: ·) := by
  cases t with
  | openArray => exact run?_cons [.openArray] rfl
  | closeArray => exact run?_cons [.closeArray] rfl
  | openObject => exact run?_cons [.openObject] rfl
  | closeObject => exact run?_cons [.closeObject] rfl
  | comma => exact run?_cons [.comma] rfl
  | colon => exact run?_cons [.colon] rfl
  | null =>
      exact
        run?_word 'n' ['u', 'l', 'l'] rfl rfl
          (by decide) (hEnds trivial)
  | bool b =>
      cases b with
      | true =>
          exact
            run?_word 't' ['r', 'u', 'e'] rfl rfl
              (by decide) (hEnds trivial)
      | false =>
          exact
            run?_word 'f' ['a', 'l', 's', 'e'] rfl rfl
              (by decide) (hEnds trivial)
  | number literal =>
      exact run?_number hProper (hEnds trivial)
  | text s =>
      cases s with
      | some s => exact run?_quoted s
      | none => exact run?_halfPair

end Json

end Matchbook
