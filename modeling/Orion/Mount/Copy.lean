import Orion.Mount.Disks

/-!
# Copying between disks

Model of `fsbg_copy`, `fsbg_move` and `fsbg_copy_disk` of `fs/fsbg.c`. The operations on files are those of
the drivers; here they are any functions of the drivers and the world. What is printed is left out.
-/

namespace Orion.Mount

open Lib Sys

abbrev Path := List UInt8

def slash : UInt8 := 0x2F

/-- The functions of an `FSDriver` with their effects, and whether `kmalloc` succeeds; `read_file` also returns the
buffer. `list_dir` is `fat16_list_dir_lfn`, `fat32_list_dir_lfn` or `xvfs_read_dir_entries` with a limit on the number
of entries. -/
structure FileOps (W : Type) where
  file_exists : Drivers → W → Fs → Path → Bool
  get_size : Drivers → W → Fs → Path → UInt32
  read_file : Drivers → W → Fs → Path → UInt32 → Int × List UInt8
  create : Drivers → W → Fs → Path → List UInt8 → UInt32 → Bool × W
  remove : Drivers → W → Fs → Path → Bool × W
  is_dir : Drivers → W → Fs → Path → Bool
  mkdir : Drivers → W → Fs → Path → Bool × W
  rmdir : Drivers → W → Fs → Path → Bool × W
  list_dir : Drivers → W → Fs → Path → ℕ → Option (List (Path × Bool))
  kmalloc : W → UInt32 → Bool

variable {W : Type} (ops : FileOps W)

/-! ## Calls of the drivers -/

def callCreate (s : Sys W) (f : Fs) (path : Path) (buf : List UInt8) (size : UInt32) : Bool × Sys W :=
  let (ok, w) := ops.create s.drivers s.world f path buf size
  (ok, s.setWorld w)

def callRemove (s : Sys W) (f : Fs) (path : Path) : Bool × Sys W :=
  let (ok, w) := ops.remove s.drivers s.world f path
  (ok, s.setWorld w)

def replaceFile (s : Sys W) (f : Fs) (path : Path) (buf : List UInt8) (size : UInt32) : Bool × Sys W :=
  let s := if ops.file_exists s.drivers s.world f path then (callRemove ops s f path).2 else s
  callCreate ops s f path buf size

/-- The path is a directory of the disk, which is mounted first. -/
def fsbg_is_dir_by_fs (s : Sys W) (f : Fs) (disk : Int) (path : Path) : Bool × Sys W :=
  let (ok, s) := if disk ≥ 0 then fsbg_mount_disk s f disk else (true, s)
  if !ok then (false, s)
  else if path = [] ∨ path = [slash] then (true, s)
  else (ops.is_dir s.drivers s.world f path, s)

def fsbg_mkdir_by_fs (s : Sys W) (f : Fs) (disk : Int) (path : Path) : Bool × Sys W :=
  let (ok, s) := if disk ≥ 0 then fsbg_mount_disk s f disk else (true, s)
  if !ok then (false, s)
  else
    let (made, w) := ops.mkdir s.drivers s.world f path
    (made, s.setWorld w)

def fsbg_rmdir_by_fs (s : Sys W) (f : Fs) (disk : Int) (path : Path) : Bool × Sys W :=
  if path = [] then (false, s)
  else
    let (ok, s) := if disk ≥ 0 then fsbg_mount_disk s f disk else (true, s)
    if !ok then (false, s)
    else
      let (removed, w) := ops.rmdir s.drivers s.world f path
      (removed, s.setWorld w)

def FSBG_MAX_DIR_ENTRIES : ℕ := 512

/-- `fsbg_list_dir_entries` for the FAT drivers: a directory with more entries is cut, and so are long names. -/
def listFat (s : Sys W) (f : Fs) (path : Path) : Option (List (Path × Bool)) :=
  if !ops.kmalloc s.world (512 * 64) || !ops.kmalloc s.world 512 then none
  else (ops.list_dir s.drivers s.world f path FSBG_MAX_DIR_ENTRIES).map fun entries =>
    entries.map fun (name, is_dir) => (name.take 63, is_dir)

/-- `fsbg_list_dir_entries` for XVFS: a directory that fills the buffer is refused, and names that lead nowhere are
skipped. -/
def listXvfs (s : Sys W) (path : Path) : Option (List (Path × Bool)) :=
  if !ops.kmalloc s.world (512 * 25) then none
  else
    match ops.list_dir s.drivers s.world .XVFS path FSBG_MAX_DIR_ENTRIES with
    | none => none
    | some entries =>
      if entries.length ≥ FSBG_MAX_DIR_ENTRIES then none
      else
        let named := entries.map fun (name, is_dir) => (name.take Xvfs.XVFS_MAX_NAME, is_dir)
        some (named.filter fun (name, _) => name ≠ [] ∧ name ≠ [0x2E] ∧ name ≠ [0x2E, 0x2E])

/-- The entries of a directory of the disk, which is mounted first. -/
def fsbg_list_dir_entries (s : Sys W) (f : Fs) (disk : Int) (path : Path) :
    Option (List (Path × Bool)) × Sys W :=
  let (ok, s) := if disk ≥ 0 then fsbg_mount_disk s f disk else (true, s)
  if !ok then (none, s) else (if f = .XVFS then listXvfs ops s path else listFat ops s f path, s)

/-! ## Paths -/

/-- Slashes at the end are cut off; the root keeps one. -/
def fsbg_strip_trailing_slash (path : Path) : Path :=
  let stripped := (path.reverse.dropWhile (· = slash)).reverse
  if stripped = [] then path.take 1 else stripped

def fsbg_basename (path : Path) : Path := (path.reverse.takeWhile (· ≠ slash)).reverse

/-- An item of a format, a byte or the string for `%s`: its bytes are copied as long as there is room. -/
def putItem (room : Int) (out item : List UInt8) : List UInt8 :=
  if out.length < room then out ++ item.take (room - out.length).toNat else out

/-- `snprintf`: the bytes that it writes, whose number is the result. Conversions other than `%s` do not occur in paths.
-/
def snprintf (size : Int) (items : List (List UInt8)) : List UInt8 := items.foldl (putItem (size - 1)) []

/-- The format and the arguments of the calls of `snprintf` in `fsbg_join_path`. -/
def joinItems (base name : Path) : List (List UInt8) :=
  if base = [] then [name] else if base.getLast? = some slash then [base, name] else [base, [slash], name]

/-- `fsbg_join_path` into `out_size` bytes; the size has a sign where it is passed on and compared. -/
def fsbg_join_path_into (out_size : UInt32) (base name : Path) : Bool × Option Path :=
  if out_size = 0 || name = [] then (false, none)
  else
    let text := snprintf out_size.toBitVec.toInt (joinItems base name)
    (text.length < out_size.toBitVec.toInt, some text)

/-- `fsbg_join_path` into the 256 bytes of the copy engine. -/
def fsbg_join_path (base name : Path) : Option Path :=
  let (ok, text) := fsbg_join_path_into 256 base name
  if ok then text else none

/-- The path of the entry `name` in the directory `base`. -/
def childPath (base name : Path) : Path :=
  if base = [] then name else if base.getLast? = some slash then base ++ name else base ++ slash :: name

/-- A join that returns true has the whole path, and a path that does not fit is refused. -/
def JoinsInFull (out_size : UInt32) (base name : Path) : Prop :=
  ((fsbg_join_path_into out_size base name).1 = true →
    (fsbg_join_path_into out_size base name).2 = some (childPath base name)) ∧
  (out_size.toNat ≤ (childPath base name).length → (fsbg_join_path_into out_size base name).1 = false)

/-- The call is refused at once, the size is negative as an `int`, or the path fits. -/
def Joinable (out_size : UInt32) (base name : Path) : Prop :=
  out_size = 0 ∨ name = [] ∨ 2 ^ 31 ≤ out_size.toNat ∨ (childPath base name).length < out_size.toNat

/-! ## Files -/

/-- The end of `fsbg_copy_file_disk`: the destination disk is mounted and the file written to it. -/
def copyTo (s : Sys W) (dst : Fs) (dst_disk : Int) (dst_name : Path) (buf : List UInt8) (size : UInt32) :
    Bool × Sys W :=
  let (ok, s) := fsbg_mount_disk s dst dst_disk
  if !ok then (false, s) else replaceFile ops s dst dst_name buf size

/-- The number of bytes to be written: what was read, if less than the size. -/
def readSize (read : Int) (size : UInt32) : UInt32 :=
  if UInt32.ofInt read < size then UInt32.ofInt read else size

/-- The source is mounted and read, then the destination is mounted and written. -/
def fsbg_copy_file_disk (s : Sys W) (src dst : Fs) (src_disk dst_disk : Int) (src_name dst_name : Path) :
    Bool × Sys W :=
  let (ok, s) := fsbg_mount_disk s src src_disk
  if !ok then (false, s)
  else if !ops.file_exists s.drivers s.world src src_name then (false, s)
  else
    let size := ops.get_size s.drivers s.world src src_name
    if size = 0 then copyTo ops s dst dst_disk dst_name [0] 0
    else if !ops.kmalloc s.world size then (false, s)
    else
      let (read, buf) := ops.read_file s.drivers s.world src src_name size
      if read ≤ 0 then (false, s) else copyTo ops s dst dst_disk dst_name buf (readSize read size)

/-- `fsbg_copy`; the disks are those that the drivers are on. -/
def fsbg_copy (s : Sys W) (src dst : Fs) (src_name dst_name : Path) : Bool × Sys W :=
  let s := fsbg_auto_mount_if_needed (fsbg_auto_mount_if_needed s src) dst
  if !ops.file_exists s.drivers s.world src src_name then (false, s)
  else
    let size := ops.get_size s.drivers s.world src src_name
    if size = 0 then replaceFile ops s dst dst_name [0] 0
    else if !ops.kmalloc s.world size then (false, s)
    else
      let (read, buf) := ops.read_file s.drivers s.world src src_name size
      if read ≤ 0 then (false, s) else replaceFile ops s dst dst_name buf (readSize read size)

/-! ## Directories -/

/-- From where to where is copied, and whether the source is removed. -/
structure Route where
  src : Fs
  dst : Fs
  src_disk : Int
  dst_disk : Int
  remove_src : Bool

/-- The first part of `fsbg_copy_dir_recursive`: the destination directory is made, unless it exists. -/
def enterDir (s : Sys W) (r : Route) (dst_dir : Path) : Bool × Sys W :=
  if dst_dir = [] then (true, s)
  else
    let (ok, s) := fsbg_mount_disk s r.dst r.dst_disk
    if !ok then (false, s)
    else if ops.file_exists s.drivers s.world r.dst dst_dir then fsbg_is_dir_by_fs ops s r.dst r.dst_disk dst_dir
    else fsbg_mkdir_by_fs ops s r.dst r.dst_disk dst_dir

/-- One file of a directory is copied, and removed from the source if asked for. -/
def copyChild (s : Sys W) (r : Route) (src_child dst_child : Path) : Bool × Sys W :=
  let (ok, s) := fsbg_copy_file_disk ops s r.src r.dst r.src_disk r.dst_disk src_child dst_child
  if !ok then (false, s)
  else if r.remove_src then
    let (ok, s) := fsbg_mount_disk s r.src r.src_disk
    if !ok then (false, s) else callRemove ops s r.src src_child
  else (true, s)

/-- The loop over the entries of a directory; `copyDir` copies a directory among them. -/
def copyEntries (copyDir : Sys W → Path → Path → Option (Bool × Sys W)) (r : Route) (src_dir dst_dir : Path) :
    Sys W → List (Path × Bool) → Option (Bool × Sys W)
  | s, [] => some (true, s)
  | s, (name, is_dir) :: rest =>
    match fsbg_join_path src_dir name, fsbg_join_path dst_dir name with
    | some src_child, some dst_child =>
      match if is_dir then copyDir s src_child dst_child else some (copyChild ops s r src_child dst_child) with
      | none => none
      | some (ok, s) => if !ok then some (false, s) else copyEntries copyDir r src_dir dst_dir s rest
    | _, _ => some (false, s)

/-- `sizeof(FsbgDirEntry) * FSBG_MAX_DIR_ENTRIES` -/
def listBytes : UInt32 := 65 * 512

/-- `fsbg_copy_dir_recursive`; `none` when the calls nest deeper than `depth`. -/
def fsbg_copy_dir_recursive (r : Route) : Nat → Sys W → Path → Path → Option (Bool × Sys W)
  | 0, _, _, _ => none
  | depth + 1, s, src_dir, dst_dir =>
    let (ok, s) := enterDir ops s r dst_dir
    if !ok || !ops.kmalloc s.world listBytes then some (false, s)
    else
      match fsbg_list_dir_entries ops s r.src r.src_disk src_dir with
      | (none, s) => some (false, s)
      | (some entries, s) =>
        match copyEntries ops (fsbg_copy_dir_recursive r depth) r src_dir dst_dir s entries with
        | none => none
        | some (ok, s) =>
          if ok && r.remove_src && src_dir ≠ [] then some (fsbg_rmdir_by_fs ops s r.src r.src_disk src_dir)
          else some (ok, s)

def fsbg_move (depth : Nat) (s : Sys W) (src dst : Fs) (src_name dst_name : Path) : Option (Bool × Sys W) :=
  let s := fsbg_auto_mount_if_needed (fsbg_auto_mount_if_needed s src) dst
  let (is_dir, s) := fsbg_is_dir_by_fs ops s src (-1) src_name
  if is_dir then fsbg_copy_dir_recursive ops ⟨src, dst, -1, -1, true⟩ depth s src_name dst_name
  else
    let (ok, s) := fsbg_copy ops s src dst src_name dst_name
    if !ok then some (false, s) else some (callRemove ops s src src_name)

/-! ## `fsbg_copy_disk` -/

/-- The disk and the path of an argument such as `0#/a`. -/
def splitArg (arg : Path) : Option (Disk × Path) :=
  let c := arg.headD 0
  if h : 0x30 ≤ c ∧ (c - 0x30).toNat < MAX_DISKS then
    match arg.dropWhile (· ≠ 0x23) with
    | [] => none
    | _ :: path => some (⟨(c - 0x30).toNat, h.2⟩, path)
  else none

/-- `fsbg_copy_disk` behind the checks of its arguments. -/
def copyDiskTo (depth : Nat) (s : Sys W) (src dst : Fs) (src_disk dst_disk : Disk)
    (src_fixed dst_fixed : Path) : Option (Bool × Sys W) :=
  let s := fsbg_auto_mount_if_needed (fsbg_auto_mount_if_needed s src) dst
  let (src_is_dir, s) := fsbg_is_dir_by_fs ops s src src_disk.val src_fixed
  if src_is_dir then
    let dst_dir := if fsbg_basename src_fixed = [] then some dst_fixed
      else fsbg_join_path dst_fixed (fsbg_basename src_fixed)
    match dst_dir with
    | none => some (false, s)
    | some dst_dir =>
      fsbg_copy_dir_recursive ops ⟨src, dst, src_disk.val, dst_disk.val, false⟩ depth s src_fixed dst_dir
  else if !ops.file_exists s.drivers s.world src src_fixed then some (false, s)
  else if (fsbg_basename src_fixed).length ≥ 64 then none
  else
    match fsbg_join_path dst_fixed (fsbg_basename src_fixed) with
    | none => some (false, s)
    | some dst_full =>
      some (fsbg_copy_file_disk ops s src dst src_disk.val dst_disk.val src_fixed dst_full)

/-- `fsbg_copy_disk`; `none` also when the name overruns `filename`. -/
def fsbg_copy_disk (depth : Nat) (s : Sys W) (src_arg dst_arg : Path) : Option (Bool × Sys W) :=
  match splitArg src_arg, splitArg dst_arg with
  | some (src_disk, src_path), some (dst_disk, dst_path) =>
    match (s.disks src_disk).fs_type, (s.disks dst_disk).fs_type with
    | .fs src, .fs dst =>
      copyDiskTo ops depth s src dst src_disk dst_disk (fsbg_strip_trailing_slash (src_path.take 127))
        (fsbg_strip_trailing_slash (dst_path.take 255))
    | _, _ => some (false, s)
  | _, _ => some (false, s)

end Orion.Mount
