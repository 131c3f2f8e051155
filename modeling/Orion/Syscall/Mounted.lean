import Orion.Fat16.Files
import Orion.Fat32.Reading
import Orion.Xvfs.Files
import Orion.Syscall.Files

/-!
# The mounted file system behind the descriptors (`fs/fscmd.c`)

`fscmd.c` hands a call to the driver of the mounted file system. The current directory is a variable of the driver
that all processes share. `Mounted.lost` stands for a kernel in which a buffer was overrun.

`contents` says what a path denotes: the bytes of the file to which the driver's lookup leads.
-/

namespace Orion.Syscall

open Lib Fat

/-! ## Changing the directory -/

/-- The loop of `normalize_path` over the parts of the path, with the stack that it works on. -/
def normalizeParts (stack : List Path) (parts : List Path) : List Path :=
  parts.foldl (fun stack part =>
    if part = [dot] then stack
    else if part = [dot, dot] then stack.dropLast
    else if stack.length < 64 then stack ++ [part] else stack) stack

/-- The text that `normalize_path` puts together; only the parts are kept within 255 bytes, the slashes are not. -/
def joinParts (parts : List Path) : Path :=
  parts.foldl (fun out part => out ++ slash :: part.take (255 - (out.length + 1))) []

/-- `normalize_path` of `kernel/cmd.c`; `none` when it writes behind its stack of 64 parts or behind the 256 bytes
of its caller. -/
def normalize_path (cwd path : Path) : Option Path :=
  let start := if path.head? = some slash then [] else Fat32.partsFrom cwd []
  if start.length > 64 then none
  else
    let parts := normalizeParts start (Fat32.partsFrom path [])
    if parts = [] then some [slash]
    else if (joinParts parts).length > 255 then none
    else some (joinParts parts)

/-- `fat16_cd`, with the text in `current_path`. -/
def fat16_cd (v : Fat.Vol) (current_path path : Path) : Option (Bool × Fat.Vol × Path) :=
  if path = [] then some (false, v, current_path)
  else
    match normalize_path current_path path with
    | none => none
    | some normalized =>
      let cluster := Fat16.resolve_dir v normalized
      if cluster = 0xFFFF then some (false, v, current_path)
      else some (true, { v with cwd := cluster }, normalized.take 255)

/-- `xvfs_cd`, with the text in `current_path`. -/
def xvfs_cd (v : Xvfs.Vol) (current_path path : Path) : Option (Bool × Xvfs.Vol × Path) :=
  if path = [] then some (false, v, current_path)
  else
    match normalize_path current_path path with
    | none => none
    | some normalized =>
      match Xvfs.xvfs_resolve_path v normalized true with
      | none => none
      | some (dir_block, _) =>
        if dir_block = 0 then some (false, v, current_path)
        else some (true, { v with current_dir_block := dir_block }, normalized.take 255)

/-! ## The calls -/

/-- The file system in `current_fs`, with the driver's variables and `current_path`. -/
inductive Mounted where
  | none
  | fat16 (v : Fat.Vol) (current_path : Path)
  | fat32 (v : Fat32.Vol)
  | xvfs (v : Xvfs.Vol) (current_path : Path)
  | lost

/-- The change of directory in the mounted file system. -/
def fscmd_cd (m : Mounted) (path : Path) : Bool × Mounted :=
  match m with
  | .none => (false, .none)
  | .lost => (false, .lost)
  | .fat16 v current_path =>
    match fat16_cd v current_path path with
    | Option.none => (false, .lost)
    | some (ok, v, current_path) => (ok, .fat16 v current_path)
  | .fat32 v => ((Fat32.cd v path).1, .fat32 (Fat32.cd v path).2)
  | .xvfs v current_path =>
    match xvfs_cd v current_path path with
    | Option.none => (false, .lost)
    | some (ok, v, current_path) => (ok, .xvfs v current_path)

/-- The directory entry of a file. -/
inductive FileRef where
  | fat (entry : Bytes)
  | xvfs (entry : Xvfs.FileEntry)

/-- The drivers' `find_file`; a lookup that overruns a buffer finds nothing. -/
def find_file : Mounted → Path → Option FileRef
  | .fat16 v _, path => (Fat16.find_file_path v path).map fun item => .fat item.entry
  | .fat32 v, path => (Fat32.find_file v path).map fun item => .fat item.entry
  | .xvfs v _, path => ((Xvfs.xvfs_find_file v path).getD Option.none).map .xvfs
  | _, _ => Option.none

def FileRef.size : FileRef → UInt32
  | .fat entry => entry.get32 28
  | .xvfs entry => entry.size

/-- `xvfs_exists`, which is `xvfs_find_entry` -/
def xvfs_exists (v : Xvfs.Vol) (path : Path) : Bool :=
  match Xvfs.xvfs_resolve_path v path false with
  | Option.none => false
  | some (dir_block, name) =>
    path ≠ [] && dir_block ≠ 0 && name ≠ [] && v.readable dir_block &&
      (Xvfs.findSlot (v.read_block dir_block) fun e => e.live && e.named name).isSome

def fscmd_exists (m : Mounted) (path : Path) : Bool :=
  match m with
  | .xvfs v _ => xvfs_exists v path
  | m => (find_file m path).isSome

def fscmd_get_file_size (m : Mounted) (path : Path) : UInt32 :=
  match find_file m path with
  | Option.none => 0
  | some f => f.size

/-- A driver's count as its `int` result, with the bytes it has copied. -/
def counted (bytes : Option (List UInt8)) : ℤ × List UInt8 :=
  match bytes with
  | Option.none => (-1, [])
  | some bytes => (Fat16.asInt bytes.length, bytes)

/-- `fat16_read_file` reads whole clusters into `cluster_buf_static`, a buffer of 32768 bytes, as soon as there is
something to read. -/
def staticRoom (v : Fat.Vol) (entry : Bytes) (offset size : ℕ) : Bool :=
  v.clusterSize ≤ 32768 || fileSize entry ≤ offset || size = 0

/-- The driver's `read_file`, and the file system as the read leaves it. -/
def fscmd_read_file (mem : Bool) (m : Mounted) (path : Path) (offset size : UInt32) : ℤ × List UInt8 × Mounted :=
  match m, find_file m path with
  | .fat16 v _, some (.fat entry) =>
    let r := counted (Fat16.read_file v entry offset.toNat size.toNat)
    (r.1, r.2, if staticRoom v entry offset.toNat size.toNat then m else .lost)
  | .fat32 v, _ =>
    let r := Fat32.read_file mem v path offset.toNat size.toNat
    (Fat16.asInt r.1, r.2, m)
  | .xvfs v _, some (.xvfs entry) =>
    let r := counted (Xvfs.xvfs_read_file v entry offset size)
    (r.1, r.2, m)
  | _, _ => (-1, [], m)

/-- `fscmd_write_file`; `mem` and `depth` are those of the FAT16 driver. -/
def fscmd_write_file (mem : ℕ → Bool) (depth : ℕ) (m : Mounted) (path : Path) (data : Bytes) (len : UInt32) :
    Bool × Mounted :=
  match m with
  | .none => (false, .none)
  | .lost => (false, .lost)
  | .fat16 v current_path =>
    let r := Fat16.write_file mem depth v path (data.slice 0 len.toNat)
    (0 ≤ r.1, .fat16 r.2 current_path)
  | .fat32 v =>
    let r := Fat32.write_file depth v path (data.slice 0 len.toNat)
    (r.1, .fat32 r.2)
  | .xvfs v current_path =>
    match Xvfs.xvfs_write_file v path data len with
    | Option.none => (false, .lost)
    | some (ok, v) => (ok, .xvfs v current_path)

/-- The calls of `fscmd.c`. -/
def fscmd (mem : ℕ → Bool) (depth : ℕ) : FsOps Mounted where
  fscmd_exists := fscmd_exists
  fscmd_write_file := fscmd_write_file mem depth
  fscmd_get_file_size := fscmd_get_file_size
  fscmd_read_file := fscmd_read_file
  fscmd_cd := fscmd_cd

/-! ## What a path denotes -/

/-- The first `size` of the bytes, if there are so many. -/
def firstBytes (size : ℕ) (bytes : List UInt8) : Option (List UInt8) :=
  if size ≤ bytes.length then some (bytes.take size) else Option.none

/-- The block `k` of a file of XVFS. -/
def xvfsBlock (entry : Xvfs.FileEntry) (k : ℕ) : UInt32 := entry.start + UInt32.ofNat k

/-- The bytes of a directory entry; `none` when its clusters hold fewer than its size states, or a block is not on the
device. -/
def contentsOf : Mounted → FileRef → Option (List UInt8)
  | .fat16 v _, .fat r =>
    firstBytes (fileSize r) (cellBytes Fat16.eoc v.fat (fun c => v.area (some c)) v.clusterSize (firstLow r))
  | .fat32 v, .fat r => firstBytes (fileSize r) (cellBytes Fat32.eoc v.next v.cluster v.clusterSize (Fat32.firstCluster r))
  | .xvfs v _, .xvfs e =>
    if v.sb.block_size = 512 ∧ ∀ k < (e.size.toNat + 511) / 512, v.readable (xvfsBlock e k) = true then
      some ((List.range e.size.toNat).map fun k => v.read_block (xvfsBlock e (k / 512)) (k % 512))
    else Option.none
  | _, _ => Option.none

/-- The bytes of the file that a path leads to. -/
def contents (m : Mounted) (path : Path) : Option (List UInt8) := (find_file m path).bind (contentsOf m)

/-! ## A descriptor in use -/

/-- What happens between the open and the close of a descriptor: reads by its owner, and directory changes by
anybody. -/
inductive Turn where
  | read (mem : Bool) (buf : Buffer) (len : UInt32)
  | chdir (path : Option Path)

/-- The descriptors, the file system and what was read. -/
structure Session (σ : Type) where
  fds : FdTable
  fs : σ
  got : List UInt8

section

variable {σ : Type} (ops : FsOps σ) (pid fd : UInt32)

/-- One turn on the descriptor `fd` of the process `pid`. -/
def turnStep (s : Session σ) : Turn → Session σ
  | .read mem buf len =>
    let r := sys_read ops s.fs s.fds pid mem fd buf len
    ⟨r.fds, r.fs, s.got ++ r.data⟩
  | .chdir path =>
    let r := sys_chdir ops s.fs s.fds path
    ⟨r.fds, r.fs, s.got⟩

/-- When all of `data` has been read, a read into a good buffer answers zero. -/
def EndsAt (data : List UInt8) (s : Session σ) : Turn → Prop
  | .read mem buf len => s.got.length = data.length → buf ≠ .invalid →
    (sys_read ops s.fs s.fds pid mem fd buf len).eax = 0
  | .chdir _ => True

end

/-- A cluster of the mounted FAT16 volume fits `cluster_buf_static`. -/
def Mounted.clusterFits : Mounted → Bool
  | .fat16 v _ => v.clusterSize ≤ 32768
  | _ => true

/-- A read stays within the buffer for a cluster. The path leads to the same entry after a directory change that
overruns no buffer, as every absolute path does. -/
def KeepsFile (path : Path) (s : Session Mounted) : Turn → Prop
  | .read .. => s.fs.clusterFits = true
  | .chdir Option.none => True
  | .chdir (some dir) => (fscmd_cd s.fs dir).2 ≠ .lost ∧
    (path.head? = some slash ∨ find_file (fscmd_cd s.fs dir).2 path = find_file s.fs path)

end Orion.Syscall
