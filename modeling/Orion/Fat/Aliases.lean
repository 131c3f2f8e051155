import Orion.Fat.Volume

/-!
# Short aliases for long names

`fat16_generate_short_name` gives a long name the short name that it is cut to, or, where that is taken, one with a
number behind a tilde. The numbers are meant to be written in decimal; what the driver really writes is in
`aliasBase`.
-/

namespace Orion.Fat

open Lib

/-- Base and extension from which the aliases are made. -/
def aliasParts (long_name : List UInt8) : List UInt8 × List UInt8 :=
  let (base, ext) := extract_base_ext 32 8 long_name
  (if base = [] then [0x46, 0x49, 0x4C, 0x45] else base, ext)

def numeral (n : ℕ) : List UInt8 := (Nat.toDigits 10 n).map fun c => UInt8.ofNat c.toNat

/-- The aliases that a name could have: cut to eight and three characters, without or with a number up to 9999. -/
def intendedAliases (long_name : List UInt8) : List (List UInt8) :=
  let (base, ext) := aliasParts long_name
  make_short_name_from_base_ext base ext :: (List.range' 1 9999).map fun n =>
    make_short_name_from_base_ext (base.take (8 - (count_digits n + 1)) ++ [0x7E] ++ numeral n) ext

/-- The aliases that are tried: `snprintf` lacks the conversion for the number, so that only its number of digits
matters. -/
def triedAliases (long_name : List UInt8) : List (List UInt8) :=
  let (base, ext) := aliasParts long_name
  make_short_name_from_base_ext base ext :: [1, 10, 100, 1000].map fun n =>
    make_short_name_from_base_ext (aliasBase base n) ext

/-- Nothing of a long name is lost: no blank or dot at its ends, not more parts than the reader has room for, no byte
with the eighth bit. -/
def Storable (name : List UInt8) : Prop :=
  lfn_prepare_name name = some name ∧ name.length ≤ 247 ∧ ∀ c ∈ name, c ≤ 0x7F
deriving Decidable

section Directory

variable (rd : Slot → Bytes) (l : List Slot)

def entries : List Item := iterate_dir rd lfn_reset l

/-- How many entries have one of the intended aliases. -/
def collisions (long_name : List UInt8) : ℕ :=
  (entries rd l).countP fun item => (intendedAliases long_name).contains (shortName item.entry)

/-- A short name of eight and three characters, with blanks, that no entry has and `fat16_is_valid_short_name` accepts.
-/
structure GoodAlias (short_name : List UInt8) : Prop where
  length : short_name.length = 11
  unused : ∀ item ∈ entries rd l, shortName item.entry ≠ short_name
  valid : ∀ c ∈ short_name, c = blank ∨ short_valid_char c = true

/-- The search finds a good alias. -/
def AliasGiven (long_name : List UInt8) : Prop :=
  ∃ short_name, generate_short_name (fun s => short_name_exists rd s l) long_name = some short_name ∧
    GoodAlias rd l short_name

/-- One of the names that are tried is free, and the first such name has no dot. -/
def FreeTried (long_name : List UInt8) : Prop :=
  ∃ short_name, (triedAliases long_name).find? (fun s => !short_name_exists rd s l) = some short_name ∧
    dot ∉ short_name

end Directory

end Orion.Fat
