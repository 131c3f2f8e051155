import Orion.Lib.Bytes
import Orion.Proc.Cleanups

/-!
# File descriptors (`kernel/syscall.c`)

Sixteen descriptors are shared by all processes. A descriptor keeps the text of the path that was opened, and
every call on it hands that text to the mounted file system again. `FsOps` are the calls of `fs/fscmd.c`; the
state `σ` of the file system contains its current directory, which all processes share as well.

The calls are issued by the process that has the CPU. When the kernel cleans up the slot of a process, it closes
the descriptors with the pid in that slot.
-/

namespace Orion.Syscall

open Lib Proc Function

abbrev Path := List UInt8

/-- The file system calls behind the descriptors. The first argument of `fscmd_read_file` says whether `kmalloc` finds
room for the driver's buffer; its results are the count, the bytes and the state that a read leaves. -/
structure FsOps (σ : Type) where
  fscmd_exists : σ → Path → Bool
  fscmd_write_file : σ → Path → Bytes → UInt32 → Bool × σ
  fscmd_get_file_size : σ → Path → UInt32
  fscmd_read_file : Bool → σ → Path → UInt32 → UInt32 → ℤ × List UInt8 × σ
  fscmd_cd : σ → Path → Bool × σ

/-- `syscall_fd_t` -/
structure FileDesc where
  used : Bool
  owner_pid : UInt32
  offset : UInt32
  size : UInt32
  path : Path
  deriving DecidableEq

/-- A descriptor after `memset`. -/
def FileDesc.zero : FileDesc := ⟨false, 0, 0, 0, []⟩

abbrev MAX_OPEN_FILES : ℕ := 16

/-- A position in `fd_table`. -/
abbrev Fd := Fin MAX_OPEN_FILES

/-- `fd_table` -/
abbrev FdTable := Fd → FileDesc

abbrev MAX_PATH_LEN : ℕ := 256

/-- `((uint32_t)-1)` -/
abbrev failure : UInt32 := 0xFFFFFFFF

/-- The first free descriptor, cleared. -/
def alloc_fd (t : FdTable) (owner_pid : UInt32) : Option Fd × FdTable :=
  match (List.finRange MAX_OPEN_FILES).find? fun i => !(t i).used with
  | none => (none, t)
  | some i => (some i, update t i ⟨true, owner_pid, 0, 0, []⟩)

/-- The descriptor, if it is open and the caller's. -/
def get_fd (t : FdTable) (fd owner_pid : UInt32) : Option Fd :=
  if h : fd.toNat < MAX_OPEN_FILES then
    if !(t ⟨fd.toNat, h⟩).used then none
    else if owner_pid ≠ 0 && (t ⟨fd.toNat, h⟩).owner_pid ≠ owner_pid then none
    else some ⟨fd.toNat, h⟩
  else none

def tolower (c : UInt8) : UInt8 := if 0x41 ≤ c ∧ c ≤ 0x5A then c + 32 else c

def is_console_path (path : Path) : Bool :=
  path.map tolower = cstr "console" || path.map tolower = cstr "/dev/console"

/-- What `validate_user_buffer` and the check for a null pointer say about a caller's buffer. -/
inductive Buffer where
  | null
  | invalid
  | valid
  deriving DecidableEq

/-- What a call leaves: the caller's `eax`, the bytes of a successful read, the descriptors and the file system. -/
structure Reply (σ : Type) where
  eax : UInt32
  data : List UInt8
  fds : FdTable
  fs : σ

section Calls

variable {σ : Type} (ops : FsOps σ) (v : σ) (t : FdTable) (pid : UInt32)

/-- The call fails with the answer `eax`. -/
def refuse (eax : UInt32) : Reply σ := ⟨eax, [], t, v⟩

/-- A descriptor for `path`, whose size is `size v`. -/
def openFd (v : σ) (path : Path) (size : Path → UInt32) : Reply σ :=
  match alloc_fd t pid with
  | (none, t) => refuse v t failure
  | (some fd, t) =>
    let path := path.take (MAX_PATH_LEN - 1)
    ⟨UInt32.ofNat fd.val, [], update t fd { t fd with path := path, size := size path }, v⟩

/-- `copy_user_string` into a buffer of `MAX_PATH_LEN` bytes; the terminator has to be among the first 255. -/
def copy_user_string (src : Option Path) : Option Path := src.filter fun path => path.length < MAX_PATH_LEN - 1

/-- System call `SYS_OPEN`. A file that is not there is created. -/
def sys_open (path : Option Path) : Reply σ :=
  match copy_user_string path with
  | none => refuse v t failure
  | some path =>
    if is_console_path path then openFd t pid v path fun _ => 0
    else if ops.fscmd_exists v path then openFd t pid v path (ops.fscmd_get_file_size v)
    else
      match ops.fscmd_write_file v path (fun _ => 0) 0 with
      | (false, v) => refuse v t failure
      | (true, v) => openFd t pid v path (ops.fscmd_get_file_size v)

/-- `to_read` bytes of the file behind descriptor `i`, from its offset on. -/
def readAt (mem : Bool) (i : Fd) (to_read : UInt32) : Reply σ :=
  let r := ops.fscmd_read_file mem v (t i).path (t i).offset to_read
  if r.1 < 0 then refuse r.2.2 t failure
  else
    ⟨UInt32.ofNat r.1.toNat, r.2.1, update t i { t i with offset := (t i).offset + UInt32.ofNat r.1.toNat }, r.2.2⟩

/-- System call `SYS_READ`. -/
def sys_read (mem : Bool) (fd : UInt32) (buf : Buffer) (len : UInt32) : Reply σ :=
  match get_fd t fd pid with
  | none => refuse v t 0
  | some i =>
    if len = 0 || buf = .null then refuse v t 0
    else if buf = .invalid then refuse v t failure
    else if (t i).offset ≥ (t i).size then refuse v t 0
    else readAt ops v t mem i (min len ((t i).size - (t i).offset))

/-- System call `SYS_CHDIR`. -/
def sys_chdir (path : Option Path) : Reply σ :=
  match copy_user_string path with
  | none => refuse v t 0
  | some path =>
    match ops.fscmd_cd v path with
    | (false, v) => refuse v t 0
    | (true, v) => refuse v t 1

end Calls

/-! ## Runs -/

/-- Processes, descriptors and the file system. -/
structure FileSys (σ : Type) where
  sys : ProcSys
  fds : FdTable
  fs : σ

def FileSys.init {σ : Type} (v : σ) : FileSys σ := ⟨proc_init, fun _ => .zero, v⟩

variable {σ : Type} (ops : FsOps σ)

end Orion.Syscall
