import Matchbook.Log
import Matchbook.Text.Blank

/-
  Configurations: the symbols that an exchange serves and its
  capacities.

  Key definitions include:
    * `Config`
    * `ConfigDefect`
    * `ConfigDefect.message`
    * `Config.defect?`

  The main statements are:
    * `Config.nodup_of_symbolDefect?_eq_none`
-/

------------------------------------------------------------
-- Configurations
------------------------------------------------------------

namespace Matchbook

structure Config where
  symbols : List String := ["BTC-USDT"]
  channelCapacity : Nat := 1024
  bookCapacity : Nat := 10000
  log : LogSettings := {}
deriving DecidableEq

/- The names of the parts of a configuration, in order. -/
def Config.partNames : List String :=
  ["symbols", "channel_capacity", "book_capacity", "log"]

------------------------------------------------------------
-- Defects
------------------------------------------------------------

/- What is wrong with a configuration. -/
inductive ConfigDefect where
  | noSymbols
  | blankSymbol
  | duplicateSymbol (symbol : String)
  | zeroChannelCapacity
deriving DecidableEq

namespace ConfigDefect

/- The sentence that reports a defect. -/
def message : ConfigDefect → String
  | noSymbols => "at least one symbol is required"
  | blankSymbol => "symbol names must not be blank"
  | duplicateSymbol symbol => s!"duplicate symbol {symbol}"
  | zeroChannelCapacity =>
      "channel_capacity must be positive"

end ConfigDefect

namespace Config

/-
  The first defect of symbols, read from the front, where
  others have been read before: a blank symbol, or one that
  repeats an earlier one.
-/
def symbolDefect?
    (before : List String) :
    List String → Option ConfigDefect
  | [] => none
  | s :: rest =>
      if isBlankText s then
        some .blankSymbol
      else if s ∈ before then
        some (.duplicateSymbol s)
      else
        symbolDefect? (s :: before) rest

/- The first defect of a configuration, if it has one. -/
def defect? (c : Config) : Option ConfigDefect :=
  if c.symbols.isEmpty then
    some .noSymbols
  else
    match symbolDefect? [] c.symbols with
    | some d => some d
    | none =>
        if c.channelCapacity = 0 then
          some .zeroChannelCapacity
        else
          none

/- Symbols without a defect are distinct, and none of them
has been read before. -/
theorem nodup_of_symbolDefect?_eq_none
    {before symbols : List String}
    (h : symbolDefect? before symbols = none) :
    symbols.Nodup ∧ ∀ s ∈ symbols, s ∉ before := by
  induction symbols generalizing before with
  | nil => simp
  | cons s rest ih =>
      unfold symbolDefect? at h
      split at h
      · cases h
      · split at h
        · cases h
        · rename_i hNew
          obtain ⟨hNodup, hDisjoint⟩ := ih h
          refine ⟨List.nodup_cons.mpr ⟨?_, hNodup⟩, ?_⟩
          · intro hMem
            exact hDisjoint s hMem (List.mem_cons_self ..)
          · intro t ht
            rcases List.mem_cons.mp ht with rfl | hRest
            · exact hNew
            · intro hBefore
              exact hDisjoint t hRest
                (List.mem_cons_of_mem _ hBefore)

end Config

end Matchbook
