import Orion.Syscall.Mounted

/-!
# The readers of a part of a file

Five functions of the drivers read `size` bytes from `offset` on. Here is what each of them leaves in `out_buf`, with
the limits of the 32-bit sums and of the buffers in which they read.
-/

namespace Orion.Fat16

open Lib Fat

/-- `fat16_read_file_range`, with a sum of 32 bits; `mem` says whether `kmalloc` finds room for one cluster. -/
def read_file_range (mem : Bool) (v : Vol) (r : Bytes) (offset size : ℕ) : Option (List UInt8) :=
  if fileSize r ≤ offset then none
  else
    let size := if (offset + size) % 2 ^ 32 > fileSize r then fileSize r - offset else size
    if !mem then none
    else
      match skipCells eoc v.fat (offset / v.clusterSize) (firstLow r) with
      | none => none
      | some cluster =>
        some (readCells eoc v.fat (fun c => v.area (some c)) v.clusterSize size cluster (offset % v.clusterSize) size)

end Orion.Fat16

namespace Orion.Xvfs

/-- `xvfs_read_file_range`: the result and the bytes copied to `out_buf`, which stay there after a read error. -/
def xvfs_read_file_range (v : Vol) (entry : FileEntry) (offset size : UInt32) : Bool × List UInt8 :=
  if offset ≥ entry.size then (false, [])
  else
    let size := if offset + size > entry.size then entry.size - offset else size
    let (bytes, ok) := readBlocks v size.toNat (entry.start + offset / v.sb.block_size)
      (offset % v.sb.block_size).toNat size.toNat
    (ok, bytes)

end Orion.Xvfs

namespace Orion.Syscall

open Lib Fat

/-- A function that reads a range of a file. -/
inductive Reader where
  | fat16_read_file (v : Fat.Vol) (entry : Bytes)
  | fat16_read_file_range (v : Fat.Vol) (entry : Bytes)
  | fat32_read_file_range (v : Fat32.Vol) (entry : Bytes)
  | xvfs_read_file (v : Xvfs.Vol) (entry : Xvfs.FileEntry)
  | xvfs_read_file_range (v : Xvfs.Vol) (entry : Xvfs.FileEntry)

/-- What a reader leaves. -/
structure Delivered where
  /-- The bytes in `out_buf`, from its start on. -/
  bytes : List UInt8
  /-- The result, where it is a count and not a truth value. -/
  count : Option ℤ
  /-- The clusters were read within the buffer for them. -/
  inBounds : Bool

/-- One call; a count is the 32-bit number of the bytes as an `int`. -/
def Reader.run (mem : Bool) (reader : Reader) (offset size : UInt32) : Delivered :=
  match reader with
  | fat16_read_file v entry =>
    let r := counted (Fat16.read_file v entry offset.toNat size.toNat)
    ⟨r.2, some r.1, staticRoom v entry offset.toNat size.toNat⟩
  | fat16_read_file_range v entry =>
    ⟨(Fat16.read_file_range mem v entry offset.toNat size.toNat).getD [], none, true⟩
  | fat32_read_file_range v entry =>
    ⟨(Fat32.read_file_range mem v entry offset.toNat size.toNat).getD [], none, true⟩
  | xvfs_read_file v entry =>
    let r := counted (Xvfs.xvfs_read_file v entry offset size)
    ⟨r.2, some r.1, true⟩
  | xvfs_read_file_range v entry => ⟨(Xvfs.xvfs_read_file_range v entry offset size).2, none, true⟩

/-- The clusters from `first` on are linked to a chain that ends, and its first `size` bytes are `data`. -/
structure ChainFile (eoc : ℕ) (next : ℕ → ℕ) (area : ℕ → Bytes) (clusterSize first size : ℕ) (data : List UInt8) :
    Prop where
  sound : Chain eoc next (chain eoc next first)
  contents : firstBytes size (cellBytes eoc next area clusterSize first) = some data

/-- The file is well-formed, and `data` is its content. -/
def Reader.Holds (reader : Reader) (data : List UInt8) : Prop :=
  match reader with
  | fat16_read_file v entry | fat16_read_file_range v entry =>
    ChainFile Fat16.eoc v.fat (fun c => v.area (some c)) v.clusterSize (firstLow entry) (fileSize entry) data
  | fat32_read_file_range v entry =>
    ChainFile Fat32.eoc v.next v.cluster v.clusterSize (Fat32.firstCluster entry) (fileSize entry) data
  | xvfs_read_file v entry | xvfs_read_file_range v entry =>
    contentsOf (.xvfs v []) (.xvfs entry) = some data

/-- The bytes are those of the file from `offset` on, as many as were asked for and are there; a count is their
number. -/
structure IsSlice (data : List UInt8) (offset size : ℕ) (d : Delivered) : Prop where
  bytes : d.bytes = (data.drop offset).take size
  count : ∀ n, d.count = some n → n = d.bytes.length
  inBounds : d.inBounds = true

/-- A range of a file in clusters: nothing is wanted, or there is a buffer, and the sum does not wrap or the file ends
with its last cluster. -/
def ClustersReadable (mem : Bool) (eoc : ℕ) (next : ℕ → ℕ) (clusterSize first fileSize offset size : ℕ) : Prop :=
  fileSize ≤ offset ∨ size = 0 ∨
    mem = true ∧ (offset + size < 2 ^ 32 ∨ (chain eoc next first).length * clusterSize = fileSize)

/-- A range of a file in blocks: the sum does not wrap, or the file ends with its last block and the next cannot be
read. -/
def BlocksReadable (v : Xvfs.Vol) (entry : Xvfs.FileEntry) (offset size : ℕ) : Prop :=
  entry.size.toNat ≤ offset ∨ offset + size < 2 ^ 32 ∨
    entry.size.toNat % 512 = 0 ∧ v.readable (xvfsBlock entry (entry.size.toNat / 512)) = false

/-- The reader gets at the range: buffers suffice and the chain is long enough. -/
def Reader.Readable (mem : Bool) (reader : Reader) (offset size : UInt32) : Prop :=
  match reader with
  | fat16_read_file v entry => firstLow entry ≠ 0 ∧ staticRoom v entry offset.toNat size.toNat = true
  | fat16_read_file_range v entry =>
    ClustersReadable mem Fat16.eoc v.fat v.clusterSize (firstLow entry) (fileSize entry) offset.toNat size.toNat
  | fat32_read_file_range v entry =>
    ClustersReadable mem Fat32.eoc v.next v.clusterSize (Fat32.firstCluster entry) (fileSize entry) offset.toNat
      size.toNat
  | xvfs_read_file v entry =>
    BlocksReadable v entry offset.toNat size.toNat ∧ min size.toNat (entry.size.toNat - offset.toNat) < 2 ^ 31
  | xvfs_read_file_range v entry => BlocksReadable v entry offset.toNat size.toNat

end Orion.Syscall
