import Orion.Fat32.Files
import Orion.Lib.ChainData

/-!
# Reading files of a FAT32 volume and changing its directory (`src/fs/fat32.c`)

`mem` says whether `kmalloc` finds room for the buffer of one cluster.
-/

namespace Orion.Fat32

open Lib Fat

/-- `fat32_find_file`; its lookup is the one of `fat32_rm`. -/
def find_file (v : Vol) (path : List UInt8) : Option Item := findTarget v path

def Vol.cluster (v : Vol) (c : ℕ) : Bytes := v.area (some c)

/-- `fat32_read_file_range`; the sum of the offset and the size is one of 32 bits. -/
def read_file_range (mem : Bool) (v : Vol) (r : Bytes) (offset size : ℕ) : Option (List UInt8) :=
  if fileSize r ≤ offset then none
  else if !mem then none
  else
    let size := if (offset + size) % 2 ^ 32 > fileSize r then fileSize r - offset else size
    match skipCells eoc v.next (offset / v.clusterSize) (firstCluster r) with
    | none => none
    | some cluster => some (readCells eoc v.next v.cluster v.clusterSize size cluster (offset % v.clusterSize) size)

/-- `fat32_read_file`: the result and the bytes that were copied. -/
def read_file (mem : Bool) (v : Vol) (path : List UInt8) (offset size : ℕ) : ℕ × List UInt8 :=
  match find_file v path with
  | none => (0, [])
  | some item =>
    if fileSize item.entry ≤ offset then (0, [])
    else
      let to_read := if (offset + size) % 2 ^ 32 > fileSize item.entry then fileSize item.entry - offset else size
      if to_read = 0 then (0, [])
      else
        match read_file_range mem v item.entry offset to_read with
        | none => (0, [])
        | some bytes => (to_read, bytes)

/-! ## The current directory -/

/-- The parts of a path; one of more than 63 bytes is cut into several. -/
def partsFrom : List UInt8 → List UInt8 → List (List UInt8)
  | [], cur => if cur = [] then [] else [cur]
  | c :: s, cur =>
    if c = slash then (if cur = [] then [] else [cur]) ++ partsFrom s []
    else if cur.length = 62 then (cur ++ [c]) :: partsFrom s []
    else partsFrom s (cur ++ [c])

/-- The path in `clean`: cut after 127 bytes, without slashes and blanks at its end. -/
def cleanPath (path : List UInt8) : List UInt8 :=
  ((path.take 127).reverse.dropWhile fun c => c = slash || c = blank).reverse

/-- The last component is cut off for `..`. -/
def cutText (new_path : List UInt8) : List UInt8 :=
  if new_path = [slash] then new_path
  else
    match splitLast slash new_path with
    | some (rest, _) => if rest = [] then [slash] else rest
    | none => [slash]

/-- A component is appended with `strncat`, within 255 bytes. -/
def appendText (new_path segment : List UInt8) : List UInt8 :=
  ((if new_path = [slash] then new_path else (new_path ++ [slash]).take 255) ++ segment).take 255

def trimText : List UInt8 → List UInt8
  | [] => []
  | c :: s => c :: (s.reverse.dropWhile (· = slash)).reverse

/-- The directory to which `..` leads in `fat32_cd`. -/
def parentOf (v : Vol) (cluster : ℕ) : ℕ :=
  let parent := firstCluster (v.raw (some cluster, 1))
  if parent < 2 ∨ parent = cluster then v.root else parent

/-- The loop of `fat32_cd`, with `cluster` and `new_path`. -/
def cdTextFrom (v : Vol) : ℕ → List UInt8 → List (List UInt8) → Option (ℕ × List UInt8)
  | cluster, new_path, [] => some (cluster, new_path)
  | cluster, new_path, segment :: rest =>
    if segment = [dot] then cdTextFrom v cluster new_path rest
    else if segment = [dot, dot] then
      if cluster = v.root ∨ cluster < 2 then cdTextFrom v v.root [slash] rest
      else cdTextFrom v (parentOf v cluster) (cutText new_path) rest
    else
      let next := find_dir_cluster v cluster segment
      if isCell eoc next then cdTextFrom v next (appendText new_path segment) rest else none

/-- `fat32_cd`, with the text in `current_path`. -/
def fat32_cd (v : Vol) (current_path path : List UInt8) : Bool × Vol × List UInt8 :=
  if path = [] then (false, v, current_path)
  else if path = [slash] then (true, v.onBase fun b => { b with cwd := v.root }, [slash])
  else
    let clean := cleanPath path
    let start := if clean.head? = some slash then (v.root, [slash]) else (v.cwd, current_path)
    match cdTextFrom v start.1 start.2 (partsFrom clean []) with
    | none => (false, v, current_path)
    | some (cluster, new_path) => (true, v.onBase fun b => { b with cwd := cluster }, (trimText new_path).take 255)

/-- `fat32_cd` without the text, which this driver only prints and which does not decide where a path leads. -/
def cd (v : Vol) (path : List UInt8) : Bool × Vol :=
  let (ok, w, _) := fat32_cd v [] path
  (ok, w)

end Orion.Fat32
