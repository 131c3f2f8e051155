import Orion.Fat.Volume

/-!
# Files and directories of a FAT32 volume (`src/fs/fat32.c`)

The operations of the FAT32 driver over a mounted volume with two copies of the table. The entries of the table
are 32-bit numbers of which the driver looks at the lower 28 bits. Only `fat32_alloc_cluster` writes to the
second copy; the code that links and frees clusters writes to the first one.
-/

namespace Orion.Fat32

open Lib Fat

/-! ## The search of `fat32_alloc_cluster`

The clusters in the order in which the two passes over the table look at them. The first pass starts at the hint; the
second one looks at the sectors in front of the one of the hint, and never at the clusters 0 to 2. -/

/-- `start_cluster`, for a table of `fat_sectors` sectors -/
def startCluster (hint fat_sectors : ℕ) : ℕ := if hint < 3 ∨ hint ≥ 128 * fat_sectors then 3 else hint

/-- The clusters in the order in which `fat32_alloc_cluster` looks at them. -/
def candidates (hint fat_sectors : ℕ) : List ℕ :=
  let start_cluster := startCluster hint fat_sectors
  List.range' start_cluster (128 * fat_sectors - start_cluster) ++ List.range' 3 (start_cluster / 128 * 128 - 3)

/-- The first free candidate. -/
def findCluster (free : ℕ → Bool) (hint fat_sectors : ℕ) : Option ℕ := (candidates hint fat_sectors).find? free

theorem three_le_of_mem_candidates {hint fat_sectors c : ℕ} (h : c ∈ candidates hint fat_sectors) :
    3 ≤ c ∧ c < 128 * fat_sectors ∨ 3 ≤ c ∧ c < startCluster hint fat_sectors := by
  unfold candidates at h
  have hstart : 3 ≤ startCluster hint fat_sectors := by
    unfold startCluster
    split
    · exact le_refl 3
    · rename_i hhint
      omega
  rw [List.mem_append, List.mem_range'_1, List.mem_range'_1] at h
  omega

/-! ## Volumes -/

abbrev eoc : ℕ := 0x0FFFFFF8

/-- A volume; `cwd` is `current_dir_cluster32`, `hint` is `fat32_alloc_hint`. -/
structure Vol extends Fat.Vol where
  /-- The second copy of the table. -/
  mirror : ℕ → ℕ
  /-- `root_dir_cluster32` -/
  root : ℕ

namespace Vol

variable (v : Vol)

/-- A change of what FAT16 and FAT32 have in common. -/
def onBase (f : Fat.Vol → Fat.Vol) : Vol := { v with toVol := f v.toVol }

/-- `fat32_next_cluster` -/
def next (c : ℕ) : ℕ := v.fat c % 2 ^ 28

/-- The entry is written to the first copy of the table only. -/
def setFirst (c x : ℕ) : Vol := v.onBase fun b => b.setFat c x

/-- The sector with the entry `c` is copied to the second copy of the table. -/
def mirrorSector (c : ℕ) : Vol := { v with mirror := fun i => if i / 128 = c / 128 then v.fat i else v.mirror i }

end Vol

/-! ## Looking up -/

/-- `FstClusHI` and `FstClusLO` of an entry. -/
def firstCluster (r : Bytes) : ℕ := firstHigh r * 2 ^ 16 + firstLow r

/-- The places of a directory. -/
def dirSlots (v : Vol) (dir : ℕ) : List Slot := v.places ((chain eoc v.next dir).map some)

/-- The entry with that name in the directory. -/
def find_entry_slot (v : Vol) (dir : ℕ) (name : List UInt8) : Option Item :=
  Fat.find_entry_slot v.raw (dirSlots v dir) name

/-- `fat32_split_path` into buffers of 256 and 64 bytes -/
def split_path (path : List UInt8) : List UInt8 × List UInt8 :=
  match splitLast slash path with
  | some (d, f) => (if d = [] then [slash] else d.take 255, f.take 63)
  | none => ([], path.take 63)

/-- `fat32_find_dir_cluster`; zero stands for none. -/
def find_dir_cluster (v : Vol) (start_cluster : ℕ) (dirname : List UInt8) : ℕ :=
  if dirname = [] then 0
  else if dirname = [dot] then start_cluster
  else if dirname = [dot, dot] then
    let parent := firstCluster (v.raw (some start_cluster, 1))
    if parent < 2 then v.root else parent
  else
    match (iterate_dir v.raw lfn_reset (dirSlots v start_cluster)).find? fun item =>
      isDirectory item.entry && dir_item_matches item dirname && isCell eoc (firstCluster item.entry) with
    | some item => firstCluster item.entry
    | none => 0

/-- The walk of `fat32_resolve_dir` from the directory `cluster` on. -/
def resolveFrom (v : Vol) : ℕ → List (List UInt8) → ℕ
  | cluster, [] => cluster
  | cluster, token :: tokens =>
    let next := find_dir_cluster v cluster token
    if isCell eoc next then resolveFrom v next tokens else 0

/-- The directory that a path leads to, or 0. -/
def resolve_dir (v : Vol) (dirpath : List UInt8) : ℕ :=
  let current := if v.cwd < 2 then v.root else v.cwd
  if dirpath = [] then current
  else if dirpath = [slash] then v.root
  else resolveFrom v (if dirpath.head? = some slash then v.root else current) (tokens slash dirpath)

/-! ## Clusters -/

/-- `fat32_alloc_cluster`; the sector of the table with the entry is written to both copies. -/
def alloc_cluster (v : Vol) : Option (ℕ × Vol) :=
  match findCluster (fun c => v.next c = 0) v.hint (v.fatLen / 128) with
  | none => none
  | some clus =>
    let v := (v.setFirst clus 0x0FFFFFFF).mirrorSector clus
    let v := v.onBase fun b => { b.zero clus with hint := clus + 1 }
    some (clus, v)

/-- The loop that frees a chain; `wipe` tells whether it overwrites the clusters, as in `fat32_rm`, or not, as in
`fat32_rmdir`. -/
def freeChain (wipe : Bool) : ℕ → ℕ → Vol → Vol
  | 0, _, v => v
  | n + 1, cl, v =>
    if isCell eoc cl then
      let next := v.next cl
      let v := v.setFirst cl 0
      freeChain wipe n next (if wipe then v.onBase fun b => b.zero cl else v)
    else v

/-! ## Creating files and directories -/

/-- The characters that `fat32_make83` leaves out. -/
def leftOut (c : UInt8) : Bool :=
  c < 0x20 || c > 0x7E || c = blank || c = 0x2B || c = 0x2C || c = 0x3B || c = 0x3D || c = 0x5B || c = 0x5D || c = 0x3A

/-- The name in 11 bytes, as `make83` makes it. -/
def make83 (filename : List UInt8) : List UInt8 :=
  let filename := filename.take 255
  let kept (s : List UInt8) := ((s.filter (· ≠ dot)).map toupper).filter (!leftOut ·)
  -- everything behind the first dot belongs to the extension
  padTo 8 (kept (filename.takeWhile (· ≠ dot))) ++ padTo 3 (kept (filename.dropWhile (· ≠ dot)))

/-- What `fat32_create_file` and `fat32_mkdir` do first: the directory, the names and the places of the new entry. -/
def reserve (v : Vol) (path : List UInt8) : Option (ℕ × NewName × List Slot) :=
  let (dir, name) := split_path path
  if name = [] ∨ name = [dot] ∨ name = [dot, dot] then none
  else
    let d := resolve_dir v dir
    if !isCell eoc d then none
    else
      match newName v.raw (dirSlots v d) make83 name with
      | none => none
      | some n =>
        match freeRun v.raw (n.lfn_count + 1) [] (dirSlots v d) with
        | none => none
        | some slots => some (d, n, slots)

/-- `fat32_create_file`: an entry with one cluster. -/
def create_file (v : Vol) (path : List UInt8) : Bool × Vol :=
  match reserve v path with
  | none => (false, v)
  | some (_, n, slots) =>
    match alloc_cluster v with
    | none => (false, v)
    | some (newclus, v) => (true, v.onBase fun b => writeEntries b n slots (entryBytes n.short_name 0x20 newclus 0))

/-- `fat32_mkdir`. The entries "." and ".." are written to every sector of the new cluster. -/
def mkdir (v : Vol) (path : List UInt8) : Bool × Vol :=
  match reserve v path with
  | none => (false, v)
  | some (cluster, n, slots) =>
    match alloc_cluster v with
    | none => (false, v)
    | some (newclus, v) =>
      let v := v.onBase fun b => writeEntries b n slots (entryBytes n.short_name 0x10 newclus 0)
      (true, v.onBase fun b => (List.range b.spc).foldl (fun b ss =>
        b.store (some newclus) (512 * ss) 512 (Bytes.ofList (dotSector newclus cluster))) b)

/-! ## Writing and removing -/

/-- The entry `i` of the copy `k` of the table after `n` bytes were written from the start of cluster 0 or 1 on. The data
region follows the two copies, so that `cluster_to_lba` leads back into them. -/
def overwritten (v : Vol) (c n : ℕ) (src : Bytes) (k i old : ℕ) : ℕ :=
  let word := k * v.fatLen + i + (2 - c) * v.spc * 128
  if 2 * v.fatLen ≤ word ∧ 4 * (word - 2 * v.fatLen) < n then (src.get32 (4 * (word - 2 * v.fatLen))).toNat else old

/-- `ata_write` of whole sectors from `cluster_to_lba(c)` on, as long as they are in one cluster. -/
def writeCluster (v : Vol) (c n : ℕ) (src : Bytes) : Vol :=
  if 2 ≤ c then v.onBase fun b => b.store (some c) 0 n src
  else { v.onBase fun b => { b with fat := fun i => overwritten v c n src 0 i (b.fat i) } with
    mirror := fun i => overwritten v c n src 1 i (v.mirror i) }

/-- The loop of `fat32_write_file` on the clusters from `file_cluster` on; false when no cluster is left. -/
def writeLoop : ℕ → ℕ → List UInt8 → Vol → Bool × Vol
  | 0, _, _, v => (true, v)
  | n + 1, file_cluster, data, v =>
    if data = [] ∨ eoc ≤ file_cluster then (true, v)
    else
      let chunk := data.take v.clusterSize
      -- whole sectors, and the last one filled up with zeros
      let v := writeCluster v file_cluster ((chunk.length + 511) / 512 * 512) (Bytes.ofList chunk)
      let rest := data.drop v.clusterSize
      if rest = [] then (true, v)
      else
        match alloc_cluster v with
        | none => (false, v)
        | some (nextclus, v) => writeLoop n nextclus rest (v.setFirst file_cluster nextclus)

/-- `fat32_write_file` on the entry that it has found; a directory is written to like a file. -/
def overwrite (v : Vol) (item : Item) (data : List UInt8) : Bool × Vol :=
  let (ok, v) := writeLoop data.length (firstCluster item.entry) data v
  if !ok then (false, v)
  else
    (true, v.onBase fun b => b.dir_write_raw item.slot ((item.entry.put32 28 (UInt32.ofNat data.length)).slice 0 32))

/-- `fat32_write_file`. It creates a file that is not found and calls itself; `depth` is the number of calls for which
the stack has room. -/
def write_file : ℕ → Vol → List UInt8 → List UInt8 → Bool × Vol
  | depth, v, path, data =>
    let (dir, name) := split_path path
    if name = [] then (false, v)
    else
      let d := resolve_dir v dir
      if !isCell eoc d then (false, v)
      else
        match find_entry_slot v d name with
        | some item => overwrite v item data
        | none =>
          match depth with
          | 0 => (false, v)
          | depth + 1 =>
            let (ok, v) := create_file v path
            if !ok then (false, v) else write_file depth v path data

/-- The entry to which a path leads, as `fat32_write_file`, `fat32_rm` and `fat32_rmdir` look it up. -/
def findTarget (v : Vol) (path : List UInt8) : Option Item :=
  let (dir, name) := split_path path
  if name = [] then none
  else
    let d := resolve_dir v dir
    if !isCell eoc d then none else find_entry_slot v d name

/-- `fat32_rm`, which frees in the first copy of the table only. -/
def rm (v : Vol) (path : List UInt8) : Bool × Vol :=
  match findTarget v path with
  | none => (false, v)
  | some item => (true, (freeChain true eoc (firstCluster item.entry) v).onBase fun b => deleteItem b item)

/-- The test of `fat32_rmdir` on the entries behind the first two in the first sector of a directory. -/
def is_dir_empty (rd : Slot → Bytes) : List Slot → Bool
  | [] => true
  | σ :: l =>
    let r := rd σ
    if r 0 = 0 then true
    else if r 0 = 0xE5 then is_dir_empty rd l
    else if r 11 = 0x0F then is_dir_empty rd l
    else if r 0 = dot ∧ (r 1 = blank ∨ r 1 = dot) then is_dir_empty rd l
    else false

/-- `fat32_rmdir`, which frees in the first copy of the table only. -/
def rmdir (v : Vol) (path : List UInt8) : Bool × Vol :=
  match findTarget v path with
  | none => (false, v)
  | some item =>
    if !isDirectory item.entry then (false, v)
    else
      let dirclus := firstCluster item.entry
      if !is_dir_empty v.raw ((List.range' 2 14).map fun j => (some dirclus, j)) then (false, v)
      else (true, (freeChain false eoc dirclus v).onBase fun b => deleteItem b item)

end Orion.Fat32
