import Orion.Xvfs.Volume

/-!
# The XVFS driver: paths and files

Paths are C strings. A function of the source that overruns a buffer on the stack gives `none`; the
others give their result and the volume after them. What they print is left out.
-/

namespace Orion.Xvfs

open Lib Vol

abbrev Path := List UInt8

def slash : UInt8 := 0x2F

/-! ## Paths -/

/-- The loop of `xvfs_resolve_path`: the directory reached, 0 for a failure, and the name left in `out_name`.
`last_token` has sixteen bytes, so a longer token overruns it. -/
def resolveTokens (v : Vol) (want_dir : Bool) : UInt32 → Path → List Path → Option (UInt32 × Path)
  | dir_block, last_token, [] => some (dir_block, last_token)
  | dir_block, _, token :: rest =>
    if token.length ≥ 16 then none
    else
      let buf := v.read_block dir_block
      match findSlot buf fun e => e.live && e.named token with
      | some i =>
        let e := entryAt buf i
        if rest ≠ [] || want_dir then
          if e.isDir then resolveTokens v want_dir e.start token rest else some (0, [])
        else some (dir_block, token)
      | none => if rest = [] && !want_dir then some (dir_block, token) else some (0, [])

/-- `xvfs_resolve_path`; the path is copied into a buffer of 128 bytes first. -/
def xvfs_resolve_path (v : Vol) (path : Path) (want_dir : Bool) : Option (UInt32 × Path) :=
  let dir_block := if path.headD 0 = slash then v.sb.data_start else v.current_dir_block
  resolveTokens v want_dir dir_block [] (tokens slash (path.take 127))

/-! ## Reading -/

/-- `xvfs_find_file`: the regular file that a path names. -/
def xvfs_find_file (v : Vol) (path : Path) : Option (Option FileEntry) := do
  let (dir_block, name) ← xvfs_resolve_path v path false
  if dir_block = 0 || !v.readable dir_block then some none
  else
    let buf := v.read_block dir_block
    some ((findSlot buf fun e => e.live && !e.isDir && e.named name).map (entryAt buf))

/-- The loop of `xvfs_read_file`: the bytes read, and whether every block could be read. -/
def readBlocks (v : Vol) : Nat → UInt32 → Nat → Nat → List UInt8 × Bool
  | 0, _, _, _ => ([], true)
  | n + 1, current_block, intra_offset, bytes_to_read =>
    if bytes_to_read = 0 then ([], true)
    else if v.readable current_block then
      let copy := min bytes_to_read (v.sb.block_size.toNat - intra_offset)
      let (rest, ok) := readBlocks v n (current_block + 1) 0 (bytes_to_read - copy)
      ((v.read_block current_block).slice intra_offset copy ++ rest, ok)
    else ([], false)

/-- `xvfs_read_file`: the bytes copied to `out_buf`, or `none` for the result -1. -/
def xvfs_read_file (v : Vol) (entry : FileEntry) (offset size : UInt32) : Option (List UInt8) :=
  if offset ≥ entry.size then some []
  else
    let size := if offset + size > entry.size then entry.size - offset else size
    let (bytes, ok) := readBlocks v size.toNat (entry.start + offset / v.sb.block_size)
      (offset % v.sb.block_size).toNat size.toNat
    if ok || bytes ≠ [] then some bytes else none

/-! ## Writing -/

/-- The loop over the full sectors of a file; a transfer of several sectors writes them one by one. -/
def writeFull (v : Vol) (data : Bytes) : Nat → UInt32 → Nat → Vol
  | 0, _, _ => v
  | n + 1, current_block, written =>
    writeFull (v.write_block current_block fun i => data (written + i)) data n (current_block + 1)
      (written + 512)

def tailSector (data : Bytes) (written tail : Nat) : Bytes :=
  fun i => if i < tail then data (written + i) else 0

/-- The part of `xvfs_create_file` and `xvfs_write_file` that writes the data from `start` on. -/
def writeData (v : Vol) (start : UInt32) (data : Bytes) (size : UInt32) : Vol :=
  let full_sectors := size / 512
  let v := writeFull v data full_sectors.toNat start 0
  let written := (full_sectors * 512).toNat
  if written < size.toNat then
    v.write_block (start + full_sectors) (tailSector data written (size.toNat - written))
  else v

/-- `xvfs_create_file`. It does not look for an entry of the same name, and takes slots whose name starts with 0 or
0xFF. -/
def xvfs_create_file (v : Vol) (fullpath : Path) (data : Bytes) (size : UInt32) :
    Option (Bool × Vol) := do
  let (dir_block, name) ← xvfs_resolve_path v fullpath false
  if dir_block = 0 then some (false, v)
  else
    let buf := v.read_block dir_block
    match findSlot buf fun e => e.first = 0 || e.first = 0xFF with
    | none => some (false, v)
    | some slot =>
      let (start_block, v) := xvfs_find_free_block v
      if start_block = 0 then some (false, v)
      else
        some (true, (writeData v start_block data size).write_block dir_block
          (putEntry buf slot (newEntry name start_block size 0)))

/-- `xvfs_write_file`. The entry found may be a directory. -/
def xvfs_write_file (v : Vol) (fullpath : Path) (data : Bytes) (size : UInt32) :
    Option (Bool × Vol) := do
  let (dir_block, name) ← xvfs_resolve_path v fullpath false
  if dir_block = 0 then some (false, v)
  else
    let buf := v.read_block dir_block
    match findSlot buf fun e => e.live && e.named name with
    | none => xvfs_create_file v fullpath data size
    | some i =>
      let target := entryAt buf i
      some (true, (writeData v target.start data size).write_block dir_block
        (putEntry buf i { target with size := size }))

/-! ## Removing -/

/-- The loop of `xvfs_rm` that clears and frees `n` blocks. -/
def freeBlocks (v : Vol) : Nat → UInt32 → Vol
  | 0, _ => v
  | n + 1, blk =>
    if xvfs_is_reserved v blk then freeBlocks v n (blk + 1)
    else freeBlocks (xvfs_mark_block (v.write_block blk fun _ => 0) blk false) n (blk + 1)

/-- The file's blocks are marked as free and its entry is cleared. -/
def xvfs_rm (v : Vol) (path : Path) : Option (Bool × Vol) := do
  let (dir_block, name) ← xvfs_resolve_path v path false
  if dir_block = 0 then some (false, v)
  else
    let buf := v.read_block dir_block
    match findSlot buf fun e => e.live && (e.named name && !e.isDir) with
    | none => some (false, v)
    | some found =>
      let e := entryAt buf found
      let file_blocks := (e.size + 511) / 512
      some (true, (freeBlocks v file_blocks.toNat e.start).write_block dir_block
        (putEntry buf found deletedEntry))

/-! ## Directories -/

def dotName : Path := [0x2E]
def dotdotName : Path := [0x2E, 0x2E]

def dirEntry (name : Path) (start : UInt32) : FileEntry := ⟨strncpy 16 name, start, 0, 1⟩

/-- The block of a new directory. The array `newdir` has 500 bytes; the twelve bytes behind it are whatever the stack
holds. -/
def newDir (v : Vol) (dir_block parent_block : UInt32) : Bytes :=
  putEntry (putEntry (v.stack.splice 0 500 fun _ => 0) 0 (dirEntry dotName dir_block)) 1
    (dirEntry dotdotName parent_block)

/-- A block with the dot entries, and an entry in the parent. -/
def xvfs_create_dir_at (v : Vol) (parent_block : UInt32) (name : Path) : Bool × Vol :=
  if cstr name = [] || !v.readable parent_block then (false, v)
  else
    let buf := v.read_block parent_block
    if (findSlot buf fun e => e.live && e.named name).isSome then (false, v)
    else
      match findSlot buf fun e => e.first = 0 || e.first = 0xE5 with
      | none => (false, v)
      | some slot =>
        let (dir_block, v) := xvfs_find_free_block v
        if dir_block = 0 then (false, v)
        else
          let newdir := newDir v dir_block parent_block
          if !v.readable dir_block then (false, v)
          else
            let v := v.write_block dir_block newdir
            if !v.readable parent_block then (false, v)
            else
              (true, v.write_block parent_block (putEntry buf slot (newEntry name dir_block 0 1)))

def xvfs_mkdir (v : Vol) (name : Path) : Bool × Vol := xvfs_create_dir_at v v.current_dir_block name

def trimSlashes (path : Path) : Path := (path.reverse.dropWhile (· = slash)).reverse

/-- The directory is made where the path leads to. -/
def xvfs_mkdir_path (v : Vol) (path : Path) : Option (Bool × Vol) :=
  let trimmed := trimSlashes ((cstr path).take 255)
  if trimmed = [] then some (false, v)
  else do
    let (parent_block, name) ← xvfs_resolve_path v trimmed false
    if parent_block = 0 || name = [] then some (false, v)
    else some (xvfs_create_dir_at v parent_block name)

/-- The test of `xvfs_rmdir` that a directory has no entries but those named "." and "..". -/
def dirEmpty (buf : Bytes) : Bool :=
  (findSlot buf fun e => e.live && !(e.named dotName || e.named dotdotName)).isNone

/-- An empty directory is removed. -/
def xvfs_rmdir (v : Vol) (path : Path) : Option (Bool × Vol) := do
  let (parent_block, name) ← xvfs_resolve_path v path false
  if parent_block = 0 then some (false, v)
  else
    let buf := v.read_block parent_block
    match findSlot buf fun e => e.live && (e.named name && e.isDir) with
    | none => some (false, v)
    | some found =>
      let dir_block := (entryAt buf found).start
      if !dirEmpty (v.read_block dir_block) then some (false, v)
      else
        some (true, (xvfs_mark_block v dir_block false).write_block parent_block
          (putEntry buf found deletedEntry))

end Orion.Xvfs
