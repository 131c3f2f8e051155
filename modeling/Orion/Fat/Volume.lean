import Orion.Fat.Names
import Orion.Lib.Bytes
import Orion.Lib.ChainTree
import Orion.Lib.Device

/-!
# A mounted FAT volume

What both FAT drivers see of a volume: the first file allocation table as a table of numbers, the bytes of every
cluster, and for FAT16 the bytes of the root directory (the area `none`). A sector is read and written faithfully,
every cluster that the table has an entry for lies on the disk, and the copies of the table, which are never read, are
left out. The directory code is that of `src/fs/fat16.c`, which the FAT32 driver has too.
-/

namespace Orion.Fat

open Lib

/-- A mounted volume: its table, its clusters and the variables of the driver. -/
structure Vol where
  /-- `SecPerClus` -/
  spc : ℕ
  /-- The number of entries in the table: `FATSz16 * 256` or `FATSz32 * 128`. -/
  fatLen : ℕ
  /-- The number of entries in the root directory of FAT16. -/
  rootLen : ℕ
  fat : ℕ → ℕ
  area : Option ℕ → Bytes
  /-- `fat16_alloc_hint` -/
  hint : ℕ
  /-- `current_dir_cluster16` -/
  cwd : ℕ

namespace Vol

variable (v : Vol)

def clusterSize : ℕ := v.spc * 512

/-- `fat16_set_fat_entry` -/
def setFat (c x : ℕ) : Vol := { v with fat := Function.update v.fat c x }

/-- `n` bytes are written at the offset `o` of an area. -/
def store (b : Option ℕ) (o n : ℕ) (src : Bytes) : Vol :=
  { v with area := Function.update v.area b ((v.area b).splice o n src) }

/-- The cluster is filled with zeros. -/
def zero (c : ℕ) : Vol := v.store (some c) 0 v.clusterSize fun _ => 0

/-- The 32 bytes of a directory entry. -/
def raw (σ : Slot) : Bytes := fun k => if k < 32 then v.area σ.1 (32 * σ.2 + k) else 0

def dir_write_raw (σ : Slot) (entry : List UInt8) : Vol :=
  v.store σ.1 (32 * σ.2) 32 (Bytes.ofList entry)

def dir_mark_deleted (σ : Slot) : Vol := v.store σ.1 (32 * σ.2) 1 fun _ => 0xE5

/-- The number of entries in a block of a directory. -/
def width : Option ℕ → ℕ
  | none => v.rootLen
  | some _ => v.spc * 16

/-- The places for entries in the blocks, in order. -/
def places (bs : List (Option ℕ)) : List Slot :=
  bs.flatMap fun b => (List.range (v.width b)).map fun i => (b, i)

end Vol

/-! ## Entries of a directory -/

/-- `Name` (and `Ext`) of an entry. -/
def shortName (r : Bytes) : List UInt8 := r.slice 0 11

/-- `FirstCluster`, or `FstClusLO` -/
def firstLow (r : Bytes) : ℕ := (r.get16 26).toNat

/-- `FstClusHI` -/
def firstHigh (r : Bytes) : ℕ := (r.get16 20).toNat

/-- `FileSize` -/
def fileSize (r : Bytes) : ℕ := (r.get32 28).toNat

/-- `Attr & 0x10` -/
def isDirectory (r : Bytes) : Bool := r 11 &&& 0x10 ≠ 0

/-- The place is unused or was deleted. -/
def isFree (r : Bytes) : Bool := r 0 = 0 ∨ r 0 = 0xE5

/-- The bytes of an entry: short name, attributes, first cluster and size, and zeros elsewhere. -/
def entryBytes (short_name : List UInt8) (attr : UInt8) (first size : ℕ) : List UInt8 :=
  let le (n k : ℕ) : UInt8 := UInt8.ofNat (n / 256 ^ k)
  short_name.take 11 ++ [attr] ++ List.replicate 8 0 ++ [le first 2, le first 3] ++
    List.replicate 4 0 ++ [le first 0, le first 1] ++ [le size 0, le size 1, le size 2, le size 3]

/-! ## Entries as a tree sees them -/

def isDotName (name : List UInt8) : Prop := name = padTo 11 [dot] ∨ name = padTo 11 [dot, dot]
deriving Decidable

/-- What a place of a directory holds. Deleted and long entries own no clusters; entries of a directory for itself or
its parent are links, except in the root, which has none. -/
def decode (first : Bytes → ℕ) (inRoot : Bool) (r : Bytes) : Content :=
  if isFree r ∨ r 11 = 0x0F then .empty
  else if !inRoot ∧ isDotName (shortName r) ∧ isDirectory r then .link (first r)
  else .entry ⟨first r, isDirectory r, fileSize r⟩

/-- The entry is the directory's link with that name. -/
def isDotEntry (name : List UInt8) (r : Bytes) : Prop := shortName r = name ∧ r 11 = 0x10
deriving Decidable

/-! ## Long names -/

/-- `FAT16_LFNState` -/
structure LfnState where
  active : Bool
  checksum : UInt8
  expected : ℕ
  name : Bytes
  slots : List Slot

/-- No long name is being read. -/
def lfn_reset : LfnState := ⟨false, 0, 0, fun _ => 0, []⟩

/-- `fat16_lfn_copy_chars`; `end_seen` tells that the zero was met. -/
def lfn_copy_chars : List UInt16 → Bool → List UInt8
  | [], _ => []
  | ch :: l, end_seen =>
    if ch = 0 then 0 :: lfn_copy_chars l true
    else if ch = 0xFFFF ∨ end_seen then 0 :: lfn_copy_chars l end_seen
    else (if ch ≤ 0x7F then ch.toUInt8 else 0x3F) :: lfn_copy_chars l end_seen

/-- The 13 characters of a long name entry. -/
def lfnChars (r : Bytes) : List UInt16 := [1, 3, 5, 7, 9, 14, 16, 18, 20, 22, 24, 28, 30].map r.get16

/-- The start of `fat16_lfn_push`: the entry marked as the last part is the first one read. -/
def lfnStart (st : LfnState) (r : Bytes) : LfnState :=
  if r 0 &&& 0x40 ≠ 0 then ⟨true, r 13, (r 0 &&& 0x1F).toNat, fun _ => 0, []⟩ else st

/-- The rest of `fat16_lfn_push`: the part of the name is put in its place. -/
def lfnPart (st : LfnState) (r : Bytes) (σ : Slot) : LfnState :=
  let seq := (r 0 &&& 0x1F).toNat
  if !st.active then st
  else if seq = 0 ∨ seq > 20 then lfn_reset
  else if seq ≠ st.expected then lfn_reset
  else if (seq - 1) * 13 + 13 > 256 then lfn_reset
  else
    { st with
      slots := if st.slots.length < 20 then st.slots ++ [σ] else st.slots
      name := st.name.splice ((seq - 1) * 13) 13 (Bytes.ofList (lfn_copy_chars (lfnChars r) false))
      expected := st.expected - 1 }

/-- A long name entry is added to what was read before. -/
def lfn_push (st : LfnState) (r : Bytes) (σ : Slot) : LfnState := lfnPart (lfnStart st r) r σ

/-- `FAT16_DirItem` -/
structure Item where
  entry : Bytes
  slot : Slot
  long_name : Option (List UInt8)
  lfn_slots : List Slot

/-- The item for an entry behind the long entries `st`. -/
def LfnState.item (st : LfnState) (r : Bytes) (σ : Slot) : Item :=
  if st.active ∧ st.expected = 0 ∧ lfn_checksum (shortName r) = st.checksum then
    ⟨r, σ, some (cstr (st.name.slice 0 255)), st.slots⟩
  else ⟨r, σ, none, []⟩

/-! ## Reading a directory -/

variable (rd : Slot → Bytes)

/-- `fat16_iterate_dir`: the items that the callback is given, if it never stops the iteration. -/
def iterate_dir : LfnState → List Slot → List Item
  | _, [] => []
  | st, σ :: l =>
    if rd σ 0 = 0 then []
    else if rd σ 0 = 0xE5 then iterate_dir lfn_reset l
    else if rd σ 11 = 0x0F then iterate_dir (lfn_push st (rd σ) σ) l
    else st.item (rd σ) σ :: iterate_dir lfn_reset l

/-- The entry has the name, as its long or as its short name. -/
def dir_item_matches (item : Item) (name : List UInt8) : Bool :=
  name ≠ [] &&
    (item.long_name.any (strcasecmpEq · name) ||
      strcasecmpEq (build_short_name_str (shortName item.entry)) name)

/-- `fat16_find_entry_slot`: the callback stops the iteration at the first match. -/
def find_entry_slot (l : List Slot) (name : List UInt8) : Option Item :=
  (iterate_dir rd lfn_reset l).find? fun item => dir_item_matches item name

/-- The scan for an entry with that short name. -/
def short_name_exists (short_name : List UInt8) : List Slot → Bool
  | [] => false
  | σ :: l =>
    if rd σ 0 = 0 then false
    else if rd σ 0 = 0xE5 then short_name_exists short_name l
    else if rd σ 11 = 0x0F then short_name_exists short_name l
    else if shortName (rd σ) = short_name then true
    else short_name_exists short_name l

/-- The scan of `fat16_find_free_slots` for `needed` free places in a row; `run` are those met last. -/
def freeRun (needed : ℕ) : List Slot → List Slot → Option (List Slot)
  | _, [] => none
  | run, σ :: l =>
    if isFree (rd σ) then
      if (run ++ [σ]).length = needed then some (run ++ [σ]) else freeRun needed (run ++ [σ]) l
    else freeRun needed [] l

/-! ## New and removed entries -/

/-- The names of a new entry and the number of its long name entries. -/
structure NewName where
  short_name : List UInt8
  long_name : List UInt8
  lfn_count : ℕ

/-- The names of a new entry in the directory with the places `l`; `make83` makes the short name where no long
one is needed. -/
def newName (l : List Slot) (make83 : List UInt8 → List UInt8) (name : List UInt8) : Option NewName :=
  let taken := fun short_name => short_name_exists rd short_name l
  if (find_entry_slot rd l name).isSome then none
  else if name_needs_lfn name then
    match lfn_prepare_name name with
    | none => none
    | some long_name =>
      match generate_short_name taken long_name with
      | none => none
      | some short_name =>
        if lfnCount long_name > 20 then none else some ⟨short_name, long_name, lfnCount long_name⟩
  else if taken (make83 name) then none
  else some ⟨make83 name, name.take 255, 0⟩

/-- The long name entries and the entry itself are written to `slots`. -/
def writeEntries (v : Vol) (n : NewName) (slots : List Slot) (entry : List UInt8) : Vol :=
  let v := (List.range n.lfn_count).foldl (fun v i =>
    v.dir_write_raw (slots.getD i (none, 0))
      (lfnEntry n.long_name (lfn_checksum n.short_name) n.lfn_count i)) v
  v.dir_write_raw (slots.getD n.lfn_count (none, 0)) entry

/-- The first two entries of a new directory. -/
def dotSector (new_cl parent : ℕ) : List UInt8 :=
  entryBytes (padTo 11 [dot]) 0x10 new_cl 0 ++ entryBytes (padTo 11 [dot, dot]) 0x10 parent 0

/-- The entry and its long name entries are marked as deleted. -/
def deleteItem (v : Vol) (item : Item) : Vol :=
  (item.lfn_slots.foldl Vol.dir_mark_deleted v).dir_mark_deleted item.slot

/-! ## Formatting: what both drivers do -/

def bootcode_stub : List UInt8 := [0xFA, 0x31, 0xC0, 0x8E, 0xD0, 0xBC, 0x00, 0x7C, 0xFB, 0xE9, 0x00, 0x00]

def zeroSector : Bytes := fun _ => 0

/-- The two copies of the table; the buffer holds `head` at first and is cleared after every write. -/
def writeFats (dev : Device) (fat_start fatsz : UInt32) (head : Bytes) : Device :=
  let dev := dev.writeRun fat_start (fun i => if i = 0 then head else zeroSector) fatsz.toNat
  dev.writeRun (fat_start + fatsz) (fun _ => zeroSector) fatsz.toNat

def SameSector (a b : Bytes) : Prop := Bytes.Agree a b 0 512

/-- The two copies of the table have the same sectors. -/
def SameCopies (dev : Device) (fat_start : UInt32) (fatsz : ℕ) : Prop :=
  ∀ i < fatsz, SameSector (dev.data (fat_start + UInt32.ofNat i)) (dev.data (fat_start + UInt32.ofNat (fatsz + i)))

end Orion.Fat
