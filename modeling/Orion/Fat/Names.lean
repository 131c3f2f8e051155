import Orion.Lib.CString

/-!
# File names of the FAT drivers

The two FAT drivers have the same code for names (`src/fs/fat16.c` and `src/fs/fat32.c`, functions
`fat16_lfn_…` and `fat32_lfn_…` and those around them): what makes a short name valid, when a name needs
a long entry, the short name made for a long one, and the comparison. A name is the list of its bytes,
without the closing zero.
-/

namespace Orion.Fat

open Lib

/-- `'.'` -/
abbrev dot : UInt8 := 0x2E

/-- `' '` -/
abbrev blank : UInt8 := 0x20

/-- `'/'` -/
abbrev slash : UInt8 := 0x2F

def toupper (c : UInt8) : UInt8 := if 0x61 ≤ c ∧ c ≤ 0x7A then c - 32 else c

/-- `strrchr`: what is in front of the last `sep` and what is behind it. -/
def splitLast (sep : UInt8) : List UInt8 → Option (List UInt8 × List UInt8)
  | [] => none
  | c :: s =>
    match splitLast sep s with
    | some (b, e) => some (c :: b, e)
    | none => if c = sep then some ([], s) else none

/-- `fat16_strcasecmp(a, b) == 0` -/
def strcasecmpEq : List UInt8 → List UInt8 → Bool
  | [], [] => true
  | a :: as, b :: bs => if toupper a ≠ toupper b then false else strcasecmpEq as bs
  | _, _ => false

/-- The checksum of a short name that its long name entries carry. -/
def lfn_checksum (short_name : List UInt8) : UInt8 :=
  short_name.foldl (fun (sum c : UInt8) => (if sum &&& 1 ≠ 0 then (0x80 : UInt8) else 0) + (sum >>> 1) + c) 0

def lfn_is_valid_char (c : UInt8) : Bool :=
  !(c < 0x20 || c == 0x7F) &&
    !([0x22, 0x2A, 0x2F, 0x3A, 0x3C, 0x3E, 0x3F, 0x5C, 0x7C] : List UInt8).contains c

/-- `fat16_lfn_prepare_name`: blanks and dots at the end and blanks at the start are dropped. -/
def lfn_prepare_name (name : List UInt8) : Option (List UInt8) :=
  let out := (name.reverse.dropWhile fun c => c = blank ∨ c = dot).reverse.dropWhile (· = blank)
  if out = [] then none
  else if out.length > 255 then none
  else if out.any (fun c => !lfn_is_valid_char c) then none
  else if out = [dot] ∨ out = [dot, dot] then none
  else some out

/-- What no short name may hold, besides the dot (the bytes above `0x7E` are negative as `char`). -/
def shortForbidden (c : UInt8) : Bool :=
  c < 0x20 || c > 0x7E ||
    ([0x20, 0x2B, 0x2C, 0x3B, 0x3D, 0x5B, 0x5D, 0x3A] : List UInt8).contains c

def short_valid_char (c : UInt8) : Bool := !shortForbidden (toupper c) && !(toupper c == dot)

/-- The name is a base of 8 and an extension of 3 bytes. -/
def is_valid_short_name (name : List UInt8) : Bool :=
  if name = [] then false
  else if name = [dot] ∨ name = [dot, dot] then true
  else
    match splitLast dot name with
    | some (base, ext) =>
      if base = [] ∨ ext = [] ∨ dot ∈ base then false
      else if base.length > 8 ∨ ext.length > 3 then false
      else base.all short_valid_char && ext.all short_valid_char
    | none => if name.length > 8 then false else name.all short_valid_char

/-- The name cannot be kept as a short name without loss. -/
def name_needs_lfn (name : List UInt8) : Bool :=
  !is_valid_short_name name || name.any fun c => 0x61 ≤ c && c ≤ 0x7A

/-- `fat16_sanitize_component` with a buffer of `out_size` bytes. -/
def sanitize_component (out_size : Nat) (s : List UInt8) : List UInt8 :=
  ((s.map toupper).filter fun c => !shortForbidden c).take (out_size - 1)

/-- `fat16_extract_base_ext` with buffers of `base_size` and `ext_size` bytes. -/
def extract_base_ext (base_size ext_size : Nat) (name : List UInt8) : List UInt8 × List UInt8 :=
  let (base, ext) := (splitLast dot name).getD (name, [])
  (sanitize_component base_size (base.take 255), sanitize_component ext_size (ext.take 255))

/-- The first `n` bytes, filled up with blanks. -/
def padTo (n : Nat) (s : List UInt8) : List UInt8 := s.take n ++ List.replicate (n - s.length) blank

def make_short_name_from_base_ext (base ext : List UInt8) : List UInt8 := padTo 8 base ++ padTo 3 ext

def count_digits (n : Nat) : Nat := (Nat.toDigits 10 n).length

/-- The alias of `base` with the number `n`. The kernel's `snprintf` copies `%u` as it is, and cuts the result to eight
bytes. -/
def aliasBase (base : List UInt8) (n : Nat) : List UInt8 :=
  (base.take (8 - (count_digits n + 1)) ++ [0x7E, 0x25, 0x75]).take 8

/-- `fat16_generate_short_name` in a directory whose short names are told by `taken`. -/
def generate_short_name (taken : List UInt8 → Bool) (long_name : List UInt8) : Option (List UInt8) :=
  let (base, ext) := extract_base_ext 32 8 long_name
  let base := if base = [] then [0x46, 0x49, 0x4C, 0x45] else base
  let candidate := make_short_name_from_base_ext base ext
  if !taken candidate then some candidate
  else
    (List.range' 1 9999).findSome? fun n =>
      let candidate := make_short_name_from_base_ext (aliasBase base n) ext
      if !taken candidate then some candidate else none

/-- The two parts of a short name that `_format_83` has made so far, and what it makes of the rest; `in_ext`: a dot was
met. -/
def format83From : List UInt8 → Bool → List UInt8 → List UInt8 → List UInt8 × List UInt8
  | [], _, n, e => (n, e)
  | c :: s, in_ext, n, e =>
    if n.length < 8 ∨ e.length < 3 then
      if c = dot then format83From s true n e
      else if !in_ext ∧ n.length < 8 then format83From s in_ext (n ++ [toupper c]) e
      else if in_ext ∧ e.length < 3 then format83From s in_ext n (e ++ [toupper c])
      else format83From s in_ext n e
    else (n, e)

/-- The name in 11 bytes, as `format_83` makes it. -/
def format_83 (name : List UInt8) : List UInt8 :=
  let (n, e) := format83From name false [] []
  padTo 8 n ++ padTo 3 e

/-- `fat16_build_short_name_str` of the eight and the three bytes of a short name. -/
def build_short_name_str (short_name : List UInt8) : List UInt8 :=
  let trim (s : List UInt8) := cstr (s.reverse.dropWhile (· = blank)).reverse
  let name := trim (short_name.take 8)
  let ext := trim ((short_name.drop 8).take 3)
  if ext = [] then name else name ++ [dot] ++ ext

/-- `strlen(long_name)` in units of the 13 characters of a long entry, rounded up. -/
def lfnCount (long_name : List UInt8) : Nat := (long_name.length + 12) / 13

/-- The `j`-th character of a part of `long_name`: behind the name comes one zero, then `0xFFFF`. -/
def lfnChar (long_name : List UInt8) (start j : Nat) : Nat :=
  if start + j < long_name.length then (long_name.getD (start + j) 0).toNat
  else if j = 0 ∨ start + j = long_name.length then 0
  else 0xFFFF

/-- The long entry number `i` of `count` that `fat16_write_lfn_entries` writes. -/
def lfnEntry (long_name : List UInt8) (checksum : UInt8) (count i : Nat) : List UInt8 :=
  let start := (count - i - 1) * 13
  let ord : UInt8 := UInt8.ofNat (count - i) ||| (if i = 0 then 0x40 else 0)
  let chars (l : List Nat) : List UInt8 :=
    l.flatMap fun j =>
      let ch := lfnChar long_name start j
      [UInt8.ofNat ch, UInt8.ofNat (ch / 256)]
  [ord] ++ chars [0, 1, 2, 3, 4] ++ [0x0F, 0, checksum] ++ chars [5, 6, 7, 8, 9, 10] ++ [0, 0] ++
    chars [11, 12]

end Orion.Fat
