import Orion.Lib.CString
import Orion.Lib.Device

/-!
# The XVFS driver: blocks, bitmap and directories

Model of `fs/xvfs.c`. A volume lies on a device from `xvfs_base_lba` on; block numbers are 32-bit words.
A directory is one block of twenty packed entries, and the bitmap has one bit for each block.

Buffers on the stack are not initialised: `stack` is what such a buffer holds, and what a failed read
leaves in it.
-/

namespace Orion.Xvfs

open Lib

def XVFS_MAGIC : UInt32 := 0x58564653
def XVFS_MAX_NAME : Nat := 16

/-- `512 / sizeof(XVFS_FileEntry)`, with entries of 25 bytes. -/
def XVFS_MAX_FILES : Nat := 20

/-- `XVFS_Superblock` -/
structure Superblock where
  magic : UInt32
  block_size : UInt32
  total_blocks : UInt32
  bitmap_start : UInt32
  data_start : UInt32
  free_blocks : UInt32
  root_dir_block : UInt32
  deriving DecidableEq, Repr

/-- `XVFS_FileEntry`; the name field has sixteen bytes. -/
structure FileEntry where
  name : List UInt8
  start : UInt32
  size : UInt32
  attr : UInt8
  deriving DecidableEq, Repr

/-- The static variables of `xvfs.c` and the device. -/
structure Vol where
  dev : Device
  xvfs_base_lba : UInt32
  sb : Superblock
  current_dir_block : UInt32
  stack : Bytes

namespace Vol

def setDev (v : Vol) (dev : Device) : Vol := { v with dev := dev }

def setFreeBlocks (v : Vol) (n : UInt32) : Vol := { v with sb := { v.sb with free_blocks := n } }

/-- Whether `read_block` returns true. -/
def readable (v : Vol) (block : UInt32) : Bool := v.dev.inRange (v.xvfs_base_lba + block)

/-- `read_block` into a fresh buffer -/
def read_block (v : Vol) (block : UInt32) : Bytes := v.dev.read (v.xvfs_base_lba + block) v.stack

def write_block (v : Vol) (block : UInt32) (buf : Bytes) : Vol :=
  v.setDev (v.dev.write (v.xvfs_base_lba + block) buf)

end Vol

open Vol

/-! ## Directory entries -/

/-- The entry `i` of a directory block. -/
def entryAt (buf : Bytes) (i : Nat) : FileEntry :=
  ⟨buf.slice (25 * i) 16, buf.get32 (25 * i + 16), buf.get32 (25 * i + 20), buf (25 * i + 24)⟩

/-- The block with the entry `i` overwritten. -/
def putEntry (buf : Bytes) (i : Nat) (e : FileEntry) : Bytes :=
  (((buf.splice (25 * i) 16 (Bytes.ofList e.name)).put32 (25 * i + 16) e.start).put32 (25 * i + 20)
    e.size).splice (25 * i + 24) 1 fun _ => e.attr

def FileEntry.first (e : FileEntry) : UInt8 := e.name.headD 0

/-- The slot is in use. -/
def FileEntry.live (e : FileEntry) : Bool := e.first ≠ 0 && e.first ≠ 0xE5

def FileEntry.isDir (e : FileEntry) : Bool := e.attr &&& 1 ≠ 0

/-- `strncmp(e.name, name, XVFS_MAX_NAME) == 0` -/
def FileEntry.named (e : FileEntry) (name : List UInt8) : Bool := strncmpEq XVFS_MAX_NAME e.name name

/-- The first entry of a directory block that satisfies `p`. -/
def findSlot (buf : Bytes) (p : FileEntry → Bool) : Option Nat :=
  (List.range XVFS_MAX_FILES).find? fun i => p (entryAt buf i)

/-- What `rm` and `rmdir` leave in a slot: zeros behind the byte `0xE5`. -/
def deletedEntry : FileEntry := ⟨0xE5 :: List.replicate 15 0, 0, 0, 0⟩

/-- An entry; the name is cut at 15 bytes. -/
def newEntry (name : List UInt8) (start size : UInt32) (attr : UInt8) : FileEntry :=
  ⟨strncpy 15 name ++ [0], start, size, attr⟩

/-! ## The bitmap -/

def bits_per_block : UInt32 := 4096

/-- `1 << (bit_index % 8)` -/
def bitMask (block : UInt32) : UInt8 := 1 <<< (block % bits_per_block % 8).toUInt8

/-- The byte of a bitmap block that holds the bit of `block`. -/
def byteIndex (block : UInt32) : Nat := (block % bits_per_block / 8).toNat

/-- The block of the bitmap that holds the bit of `block`. -/
def bitmapBlock (v : Vol) (block : UInt32) : UInt32 := v.sb.bitmap_start + block / bits_per_block

def countFree (v : Vol) (used : Bool) : UInt32 :=
  if used then if v.sb.free_blocks > 0 then v.sb.free_blocks - 1 else v.sb.free_blocks
  else v.sb.free_blocks + 1

/-- The bit and, if it changes, the count of free blocks. -/
def xvfs_mark_block (v : Vol) (block : UInt32) (used : Bool) : Vol :=
  let bitbuf := v.read_block (bitmapBlock v block)
  let byte := bitbuf (byteIndex block)
  let bit := bitMask block
  if used = decide (byte &&& bit ≠ 0) then v.write_block (bitmapBlock v block) bitbuf
  else
    (v.setFreeBlocks (countFree v used)).write_block (bitmapBlock v block)
      (Function.update bitbuf (byteIndex block) (if used then byte ||| bit else byte &&& ~~~bit))

def xvfs_is_reserved (v : Vol) (block : UInt32) : Bool := block < v.sb.data_start

/-- The first free block that the bitmap block `blk` shows. -/
def freeIn (v : Vol) (blk : UInt32) (buf : Bytes) : Option UInt32 :=
  (List.range 512).findSome? fun byte =>
    if buf byte = 0xFF then none
    else
      (List.range 8).findSome? fun bit =>
        let free_block := blk * bits_per_block + UInt32.ofNat (byte * 8 + bit)
        if buf byte &&& 1 <<< UInt8.ofNat bit = 0 && !xvfs_is_reserved v free_block then
          some free_block
        else none

/-- The outer loop of `xvfs_find_free_block`, with `n` bitmap blocks to go. -/
def scanBitmap (v : Vol) : Nat → UInt32 → Option UInt32
  | 0, _ => none
  | n + 1, blk =>
    if v.readable (v.sb.bitmap_start + blk) then
      (freeIn v blk (v.read_block (v.sb.bitmap_start + blk))).or (scanBitmap v n (blk + 1))
    else none

/-- `xvfs_find_free_block`; the block found is marked, and 0 stands for none. -/
def xvfs_find_free_block (v : Vol) : UInt32 × Vol :=
  let bitmap_blocks := (v.sb.total_blocks + bits_per_block - 1) / bits_per_block
  match scanBitmap v bitmap_blocks.toNat 0 with
  | some block => (block, xvfs_mark_block v block true)
  | none => (0, v)

/-! ## Formatting and mounting -/

def encodeSuper (sb : Superblock) : Bytes :=
  let s : Bytes := fun _ => 0
  ((((((s.put32 0 sb.magic).put32 4 sb.block_size).put32 8 sb.total_blocks).put32 12
    sb.bitmap_start).put32 16 sb.data_start).put32 20 sb.free_blocks).put32 24 sb.root_dir_block

def decodeSuper (s : Bytes) : Superblock :=
  ⟨s.get32 0, s.get32 4, s.get32 8, s.get32 12, s.get32 16, s.get32 20, s.get32 24⟩

/-- The superblock that `xvfs_format_at` writes. -/
def formatSuper (total_sectors : UInt32) : Superblock where
  magic := XVFS_MAGIC
  block_size := 512
  total_blocks := total_sectors
  bitmap_start := 2
  data_start := 10
  free_blocks := total_sectors - 10 - 1
  root_dir_block := 10

def signature : List UInt8 := [0x58, 0x56, 0x46, 0x53, 0x32]

def signatureSector : Bytes :=
  Function.update (Function.update (Bytes.ofList signature) 510 0x55) 511 0xAA

/-- One turn of the loop of `xvfs_format_at` that marks the reserved blocks; all turns share `sector`. -/
def formatMark (base_lba : UInt32) (s : Device × Bytes) (b : UInt32) : Device × Bytes :=
  let lba := base_lba + 2 + b / bits_per_block
  let sector := s.1.read lba s.2
  let sector := Function.update sector (byteIndex b) (sector (byteIndex b) ||| bitMask b)
  (s.1.write lba sector, sector)

def formatHead (dev : Device) (base_lba total_sectors : UInt32) : Device :=
  let dev := dev.write base_lba signatureSector
  let dev := dev.write (base_lba + 1) (encodeSuper (formatSuper total_sectors))
  ((List.range 8).map UInt32.ofNat).foldl (fun dev i => dev.write (base_lba + 2 + i) fun _ => 0) dev

/-- `xvfs_format_at`; `stack` is what stands behind the 500 bytes of `rootdir`. -/
def xvfs_format_at (dev : Device) (base_lba total_sectors : UInt32) (stack : Bytes) : Bool × Device :=
  if total_sectors = 0 then (false, dev)
  else
    let dev := formatHead dev base_lba total_sectors
    let marked := ((List.range 11).map UInt32.ofNat).foldl (formatMark base_lba) (dev, fun _ => 0)
    (true, marked.1.write (base_lba + 10) (stack.splice 0 500 fun _ => 0))

/-- `xvfs_init` with `probe_xvfs` -/
def xvfs_init (dev : Device) (base_lba : UInt32) (stack : Bytes) : Option Vol :=
  if !dev.inRange base_lba || !dev.inRange (base_lba + 1) then none
  else if (dev.read base_lba stack).slice 0 5 ≠ signature then none
  else
    let sb := decodeSuper (dev.read (base_lba + 1) stack)
    if sb.magic ≠ XVFS_MAGIC || sb.block_size ≠ 512 then none
    else some ⟨dev, base_lba, sb, sb.data_start, stack⟩

end Orion.Xvfs
