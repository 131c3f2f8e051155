import Mathlib.Tactic

/-!
# Size arguments (`parse_size_bytes` of `kernel/cmd.c`, `strtoul` of `libc/string.c`)

A string is the list of its bytes without the final zero, and a pointer into it is the rest of the list. The type
`unsigned long` has 32 bits.
-/

namespace Orion.Shell

def ascii (s : List Char) : List UInt8 := s.map Char.toUInt8

def digitValue (c : UInt8) : Option UInt32 :=
  if 0x30 ≤ c ∧ c ≤ 0x39 then some (c - 0x30).toUInt32
  else if 0x61 ≤ c ∧ c ≤ 0x7A then some ((c - 0x61).toUInt32 + 10)
  else if 0x41 ≤ c ∧ c ≤ 0x5A then some ((c - 0x41).toUInt32 + 10)
  else none

/-- The loop of `strtoul`. -/
def readDigits (base : UInt32) : UInt32 → List UInt8 → UInt32 × List UInt8
  | result, [] => (result, [])
  | result, c :: s =>
    match digitValue c with
    | none => (result, c :: s)
    | some digit => if base ≤ digit then (result, c :: s) else readDigits base (result * base + digit) s

def readSign : List UInt8 → Bool × List UInt8
  | [] => (false, [])
  | c :: s => if c = 0x2B then (false, s) else if c = 0x2D then (true, s) else (false, c :: s)

def hexPrefix (s : List UInt8) : Bool := s[0]? = some 0x30 && (s[1]? = some 0x78 || s[1]? = some 0x58)

/-- The base that the prefix of the digits tells. -/
def chooseBase (base : UInt32) (s : List UInt8) : UInt32 × List UInt8 :=
  if base = 0 then
    if hexPrefix s then (16, s.drop 2) else if s.head? = some 0x30 then (8, s.drop 1) else (10, s)
  else (base, if base = 16 ∧ hexPrefix s then s.drop 2 else s)

/-- The number and the rest of the string, which `endptr` gets. -/
def strtoul (s : List UInt8) (base : UInt32) : UInt32 × List UInt8 :=
  let (neg, s) := readSign (s.dropWhile fun c => c = 0x20 || (0x09 ≤ c && c ≤ 0x0D))
  let (base, s) := chooseBase base s
  let (result, s) := readDigits base 0 s
  (if neg then -result else result, s)

def isBlank (c : UInt8) : Bool := c = 0x20 || c = 0x09

def isLower (c : UInt8) : Bool := 0x61 ≤ c && c ≤ 0x7A

def skipBlanks (s : List UInt8) : List UInt8 := s.dropWhile isBlank

def skipBracket (bracket : UInt8) (s : List UInt8) : List UInt8 :=
  if s.head? = some bracket then skipBlanks s.tail else s

/-- The bytes of a unit; megabytes without one. -/
def unitFactor (unit : List UInt8) : Option UInt32 :=
  if unit = [] then some (1024 * 1024)
  else if unit = ascii ['b'] ∨ unit = ascii ['b', 'y', 't', 'e'] ∨ unit = ascii ['b', 'y', 't', 'e', 's'] then some 1
  else if unit = ascii ['k'] ∨ unit = ascii ['k', 'b'] then some 1024
  else if unit = ascii ['m'] ∨ unit = ascii ['m', 'b'] then some (1024 * 1024)
  else if unit = ascii ['g'] ∨ unit = ascii ['g', 'b'] then some (1024 * 1024 * 1024)
  else none

/-- What `parse_size_bytes` makes of the text behind the number; an empty one gives the default too. -/
def readUnit (s : List UInt8) : Option UInt32 :=
  let s := skipBracket 0x28 s
  let unit := (s.takeWhile isLower).take 7
  match unitFactor unit with
  | none => none
  | some mult => if skipBracket 0x29 (skipBlanks (s.drop unit.length)) = [] then some mult else none

/-- `*out_bytes`, or `none` for the result false. -/
def parse_size_bytes (s : List UInt8) : Option UInt32 :=
  let s := skipBlanks s
  if s = [] then none
  else
    let (value, rest) := strtoul s 10
    if rest.length = s.length ∨ value = 0 then none
    else
      match readUnit (skipBlanks rest) with
      | none => none
      | some mult =>
        if 0xFFFFFFFF / mult < value then none else if 0 < value * mult then some (value * mult) else none

def number (digits : List UInt8) : ℕ := digits.foldl (fun n c => 10 * n + (c.toNat - 0x30)) 0

def Digits (s : List UInt8) : Prop := s ≠ [] ∧ ∀ c ∈ s, 0x30 ≤ c ∧ c ≤ 0x39

/-- The units with their factors; the empty text is no unit. -/
def units : List (List UInt8 × ℕ) :=
  [([], 2 ^ 20), (ascii ['b'], 1), (ascii ['b', 'y', 't', 'e'], 1), (ascii ['b', 'y', 't', 'e', 's'], 1),
   (ascii ['k'], 2 ^ 10), (ascii ['k', 'b'], 2 ^ 10), (ascii ['m'], 2 ^ 20), (ascii ['m', 'b'], 2 ^ 20),
   (ascii ['g'], 2 ^ 30), (ascii ['g', 'b'], 2 ^ 30)]

/-- A size that is returned is the size that was meant, and a size of more than 32 bits is rejected. -/
def Exact (size : ℕ) (result : Option UInt32) : Prop :=
  (∀ b, result = some b → b.toNat = size) ∧ (2 ^ 32 ≤ size → result = none)

end Orion.Shell
