import Orion.Fat.Volume
import Orion.Lib.ChainData

/-!
# Files and directories of a FAT16 volume (`src/fs/fat16.c`)

The operations of the FAT16 driver over a mounted volume. A path is the list of its bytes; the buffers
that hold it have room for 255 of them. The number of a directory is its first cluster, and zero for the
root.
-/

namespace Orion.Fat16

open Lib Fat

abbrev eoc : ℕ := 0xFFF8

/-! ## Looking up -/

/-- The places of a directory; 0 is the root. -/
def dirSlots (v : Vol) (dir : ℕ) : List Slot :=
  v.places (if dir = 0 then [none] else (chain eoc v.fat dir).map some)

/-- The entry with that name in the directory. -/
def find_entry_slot (v : Vol) (dir : ℕ) (name : List UInt8) : Option Item :=
  Fat.find_entry_slot v.raw (dirSlots v dir) name

/-- The path of the directory and the last name. -/
def split_path (path : List UInt8) : List UInt8 × List UInt8 :=
  match splitLast slash path with
  | some (d, f) => if d = [] then ([slash], f) else (d, f)
  | none => ([], path)

/-- The walk of `fat16_resolve_dir` from the directory `cluster` on. -/
def resolveFrom (v : Vol) : ℕ → List (List UInt8) → ℕ
  | cluster, [] => cluster
  | cluster, token :: tokens =>
    match find_entry_slot v cluster token with
    | none => 0xFFFF
    | some item =>
      if !isDirectory item.entry then
        -- a file may only be the last component, and then its own directory is the result
        if tokens = [] then cluster else 0xFFFF
      else resolveFrom v (firstLow item.entry) tokens

/-- Where the resolution of a path starts. -/
def startDir (v : Vol) (path : List UInt8) : ℕ := if path.head? = some slash then 0 else v.cwd

/-- The directory that a path leads to, or 0xFFFF. -/
def resolve_dir (v : Vol) (path : List UInt8) : ℕ :=
  if path = [slash] then 0 else resolveFrom v (startDir v path) (tokens slash path)

/-- The walk of `fat16_find_file_path` from the directory `cluster` on. -/
def findFrom (v : Vol) : ℕ → List (List UInt8) → Option Item
  | _, [] => none
  | cluster, [token] => find_entry_slot v cluster token
  | cluster, token :: tokens =>
    match find_entry_slot v cluster token with
    | none => none
    | some item => if !isDirectory item.entry then none else findFrom v (firstLow item.entry) tokens

/-- The entry that a path leads to. -/
def find_file_path (v : Vol) (path : List UInt8) : Option Item :=
  findFrom v (startDir v path) (tokens slash path)

/-! ## Clusters -/

/-- `_alloc_cluster`: a cluster and the volume, or zero if none is free. -/
def alloc_cluster (v : Vol) : ℕ × Vol :=
  let start := if v.hint < 2 ∨ v.fatLen ≤ v.hint then 2 else v.hint
  match (List.range' start (v.fatLen - start) ++ List.range' 2 (start - 2)).find? (v.fat · = 0) with
  | some i => (i, { v.setFat i 0xFFFF with hint := (i + 1) % 2 ^ 16 })
  | none => (0, v)

/-- The test that follows every call of `_alloc_cluster`. -/
def noCluster (c : ℕ) : Prop := c < 2 ∨ eoc ≤ c
deriving Decidable

/-- The loop that frees a chain; `wipe` tells whether it overwrites the clusters, which `free_cluster_chain` does not.
-/
def freeChain (wipe : Bool) : ℕ → ℕ → Vol → Vol
  | 0, _, v => v
  | n + 1, c, v =>
    if isCell eoc c then
      let next := v.fat c
      freeChain wipe n next (if wipe then (v.setFat c 0).zero c else v.setFat c 0)
    else v

/-- The loop of `fat16_find_free_slots` that continues a directory behind `prev` with `n` empty clusters. -/
def growDir : ℕ → ℕ → Vol → List ℕ × Bool × Vol
  | 0, _, v => ([], true, v)
  | n + 1, prev, v =>
    let (c, v) := alloc_cluster v
    if noCluster c then ([], false, v)
    else
      let v := v.setFat c 0xFFFF
      let v := if 2 ≤ prev then v.setFat prev c else v
      let (l, ok, v) := growDir n c (v.zero c)
      (c :: l, ok, v)

/-- `fat16_find_free_slots`. The root directory cannot grow. -/
def find_free_slots (v : Vol) (dir needed : ℕ) : Option (List Slot) × Vol :=
  match freeRun v.raw needed [] (dirSlots v dir) with
  | some slots => (some slots, v)
  | none =>
    if dir = 0 ∨ v.spc = 0 then (none, v)
    else
      let clusters_needed := (needed + v.spc * 16 - 1) / (v.spc * 16)
      let last := ((chain eoc v.fat dir).getLast?).getD 0
      let (l, ok, v) := growDir clusters_needed last v
      if !ok then (none, v)
      else
        let slots := (v.places ((chain eoc v.fat (l.headD 0)).map some)).take needed
        if slots.length = needed then (some slots, v) else (none, v)

/-! ## Creating files and directories -/

/-- The part of `fat16_create_file` and `fat16_mkdir` that finds the names of a new entry. -/
def newName (v : Vol) (dir : ℕ) (name : List UInt8) : Option NewName :=
  Fat.newName v.raw (dirSlots v dir) format_83 name

/-- What `fat16_create_file` and `fat16_mkdir` do first: the directory, the names and the places of the new entry. -/
def reserve (v : Vol) (path : List UInt8) : Option (ℕ × NewName × List Slot) × Vol :=
  let (dir, name) := split_path path
  if name = [] ∨ name = [dot] ∨ name = [dot, dot] then (none, v)
  else
    let d := resolve_dir v dir
    if d = 0xFFFF then (none, v)
    else
      match newName v d name with
      | none => (none, v)
      | some n =>
        match find_free_slots v d (n.lfn_count + 1) with
        | (none, v) => (none, v)
        | (some slots, v) => (some (d, n, slots), v)

/-- The loop of `fat16_create_file` that takes `n` clusters behind `prev`, cleared if there is memory for a buffer
(`mem`). -/
def growFile (mem : ℕ → Bool) : ℕ → ℕ → Vol → Vol
  | 0, _, v => v
  | n + 1, prev, v =>
    let (c, v) := alloc_cluster v
    if noCluster c then v
    else
      let v := (v.setFat prev c).setFat c 0xFFFF
      growFile mem n c (if mem n then v.zero c else v)

/-- `fat16_create_file`; `initial_size` as the 32 bits of an `int`. -/
def create_file (mem : ℕ → Bool) (v : Vol) (path : List UInt8) (initial_size : ℕ) : Bool × Vol :=
  match reserve v path with
  | (none, v) => (false, v)
  | (some (_, n, slots), v) =>
    let (first, v) := alloc_cluster v
    if noCluster first then (false, v)
    else
      let v := v.setFat first 0xFFFF
      let needed_clusters := (initial_size + v.clusterSize - 1) % 2 ^ 32 / v.clusterSize
      let v := growFile mem (needed_clusters - 1) first v
      (true, writeEntries v n slots (entryBytes n.short_name 0x20 first initial_size))

/-- `fat16_mkdir`: an entry, a cluster and its dot entries. -/
def mkdir (v : Vol) (path : List UInt8) : Bool × Vol :=
  match reserve v path with
  | (none, v) => (false, v)
  | (some (parent, n, slots), v) =>
    let (new_cl, v) := alloc_cluster v
    if noCluster new_cl then (false, v)
    else
      let v := v.setFat new_cl 0xFFFF
      let v := writeEntries v n slots (entryBytes n.short_name 0x10 new_cl 0)
      let v := v.store (some new_cl) 0 512 (Bytes.ofList (dotSector new_cl parent))
      (true, v.store (some new_cl) 512 ((v.spc - 1) * 512) fun _ => 0)

/-! ## Writing and removing -/

/-- The loop of `fat16_write_file`: the clusters it fills behind `prev`, and whether there were enough. -/
def writeLoop : ℕ → ℕ → List UInt8 → Vol → List ℕ × Bool × Vol
  | 0, _, data, v => ([], data = [], v)
  | n + 1, prev, data, v =>
    if data = [] then ([], true, v)
    else
      let (c, v) := alloc_cluster v
      if noCluster c then ([], false, v)
      else
        let v := if prev = 0 then v else v.setFat prev c
        let v := v.setFat c 0xFFFF
        let chunk := data.take v.clusterSize
        -- whole sectors, and the last one filled up with zeros
        let v := v.store (some c) 0 ((chunk.length + 511) / 512 * 512) (Bytes.ofList chunk)
        let (l, ok, v) := writeLoop n c (data.drop v.clusterSize) v
        (c :: l, ok, v)

/-- A result of type `int`. -/
def asInt (n : ℕ) : ℤ := if n < 2 ^ 31 then n else n - 2 ^ 32

/-- `fat16_write_file` on the entry that it has found. -/
def overwrite (v : Vol) (item : Item) (data : List UInt8) : ℤ × Vol :=
  let v := freeChain true eoc (firstLow item.entry) v
  let (l, ok, v) := writeLoop data.length 0 data v
  if !ok then (-1, v)
  else
    (asInt data.length,
      v.dir_write_raw item.slot (entryBytes (shortName item.entry) 0x20 (l.headD 0) data.length))

/-- `fat16_write_file`. It creates a file that is not found and calls itself; `depth` is the number of calls for which
the stack has room. -/
def write_file (mem : ℕ → Bool) : ℕ → Vol → List UInt8 → List UInt8 → ℤ × Vol
  | depth, v, path, data =>
    let (dir, fname) := split_path path
    let d := resolve_dir v dir
    if d = 0xFFFF then (-1, v)
    else
      match find_entry_slot v d fname with
      | some item => if isDirectory item.entry then (-1, v) else overwrite v item data
      | none =>
        match depth with
        | 0 => (-1, v)
        | depth + 1 =>
          let (ok, v) := create_file mem v path 0
          if !ok then (-1, v) else write_file mem depth v path data

/-- `fat16_rm`: the chain is freed and the entry is deleted. -/
def rm (v : Vol) (path : List UInt8) : Bool × Vol :=
  let (dir, fname) := split_path path
  if fname = [] then (false, v)
  else
    let d := resolve_dir v dir
    if d = 0xFFFF then (false, v)
    else
      match find_entry_slot v d fname with
      | none => (false, v)
      | some item => (true, deleteItem (freeChain true eoc (firstLow item.entry) v) item)

/-- `is_dir_empty` on the places of the cluster that it reads. -/
def is_dir_empty (rd : Slot → Bytes) : List Slot → Bool
  | [] => true
  | σ :: l =>
    let r := rd σ
    if r 0 = 0 then true
    else if r 0 = 0xE5 then is_dir_empty rd l
    else if r 11 &&& 0x0F = 0x0F then is_dir_empty rd l
    else if r 0 = dot ∧ (r 1 = blank ∨ r 1 = dot) then is_dir_empty rd l
    else false

/-- `lba_of_cluster`: numbers of no cluster stand for the first one. -/
def clusterOrFirst (c : ℕ) : ℕ := if noCluster c then 2 else c

/-- `fat16_rmdir`, which looks into the first cluster only. -/
def rmdir (v : Vol) (path : List UInt8) : Bool × Vol :=
  let (dir, name) := split_path path
  if name = [] then (false, v)
  else
    let parent := resolve_dir v dir
    if parent = 0xFFFF then (false, v)
    else
      match find_entry_slot v parent name with
      | none => (false, v)
      | some item =>
        if !isDirectory item.entry then (false, v)
        else if !is_dir_empty v.raw (v.places [some (clusterOrFirst (firstLow item.entry))]) then (false, v)
        else (true, deleteItem (freeChain false eoc (firstLow item.entry) v) item)

/-! ## Reading -/

/-- The loop of `fat16_read_file` that copies the bytes out of the clusters from `cluster` on. -/
def readLoop (v : Vol) (n cluster intra_offset bytes_to_read : ℕ) : List UInt8 :=
  readCells eoc v.fat (fun c => v.area (some c)) v.clusterSize n cluster intra_offset bytes_to_read

/-- The loop of `fat16_read_file` that skips whole clusters. -/
def skipClusters (v : Vol) (n cluster : ℕ) : Option ℕ := skipCells eoc v.fat n cluster

/-- `fat16_read_file`: the bytes that were read; `none` is the result `-1`. -/
def read_file (v : Vol) (r : Bytes) (offset size : ℕ) : Option (List UInt8) :=
  if firstLow r = 0 then none
  else if fileSize r ≤ offset then some []
  else
    let size := min size (fileSize r - offset)
    match skipClusters v (offset / v.clusterSize) (firstLow r) with
    | none => some []
    | some cluster => some (readLoop v size cluster (offset % v.clusterSize) size)

/-- `fat16_read_file_by_name` from the start of the file on. -/
def read_file_by_name (v : Vol) (path : List UInt8) (max_size : ℕ) : Option (List UInt8) :=
  match find_file_path v path with
  | none => none
  | some item => if noCluster (firstLow item.entry) then none else read_file v item.entry 0 max_size

/-! ## Copying and moving -/

def basename (path : List UInt8) : List UInt8 :=
  match splitLast slash path with
  | some (_, f) => f
  | none => path

/-- The file name that `fat16_cp` writes to. -/
def cpTarget (v : Vol) (src dst : List UInt8) : List UInt8 :=
  if dst = [slash] then ([slash] ++ basename src).take 255
  else
    match find_file_path v dst with
    | some item => if isDirectory item.entry then (dst ++ [slash] ++ basename src).take 255 else dst
    | none => dst

/-- The buffer `buf` of `fat16_cp` after the read of `src`, which may fail and leave it as it is. -/
def cpBuffer (v : Vol) (src : List UInt8) (size : ℕ) (buf : Bytes) : List UInt8 :=
  let bytes := (read_file_by_name v src size).getD []
  (buf.splice 0 bytes.length (Bytes.ofList bytes)).slice 0 size

/-- `fat16_cp`. `buf` is what `kmalloc` returns; only a read of no bytes ends the call, a failed one does not. -/
def cp (mem : ℕ → Bool) (buf : Option Bytes) (depth : ℕ) (v : Vol) (src dst : List UInt8) : Bool × Vol :=
  match find_file_path v src with
  | none => (false, v)
  | some item =>
    let dst := cpTarget v src dst
    let size := fileSize item.entry
    if size = 0 then (false, v)
    else
      match buf with
      | none => (false, v)
      | some buf =>
        if read_file_by_name v src size = some [] then (false, v)
        else
          let (written, v) := write_file mem depth v dst (cpBuffer v src size buf)
          (written > 0, v)

/-- The destination that `fat16_mv` passes on. -/
def mvTarget (v : Vol) (src dst : List UInt8) : List UInt8 :=
  if dst = [slash] then ([slash] ++ basename src).take 255
  else
    match find_file_path v dst with
    | some item =>
      if isDirectory item.entry then
        (if dst.getLast? = some slash then dst else dst ++ [slash]) ++ basename src
      else dst
    | none => dst

/-- `fat16_mv`: the file is copied and then removed. -/
def mv (mem : ℕ → Bool) (buf : Option Bytes) (depth : ℕ) (v : Vol) (src dst : List UInt8) : Bool × Vol :=
  match find_file_path v src with
  | none => (false, v)
  | some _ =>
    let (ok, v) := cp mem buf depth v src (mvTarget v src dst)
    if !ok then (false, v) else rm v src

end Orion.Fat16
