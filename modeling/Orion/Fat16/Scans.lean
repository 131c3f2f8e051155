import Orion.Fat16.Files
import Orion.Lib.Follow

/-!
# The scans of a directory as loops

`fat16_iterate_dir`, `fat16_find_free_slots` and `fat16_read_dir` follow the links of the table from one cluster of
the directory to the next. `Fat16.Files` reads the clusters of a directory as a list; here the links may lead
anywhere, so the loops are given a number of turns and answer `none` when these do not suffice. Numbers that stand for
no cluster of the volume are read in the same way.
-/

namespace Orion.Fat16

open Lib Fat

/-- One turn over a cluster: its places one by one. -/
def visitPlaces {σ β : Type} (v : Vol) (place : σ → Slot → Except β σ) (s : σ) (cluster : ℕ) : Except β σ :=
  (v.places [some cluster]).foldlM place s

/-! ## `fat16_iterate_dir` -/

/-- The long name being read and the entries found so far. -/
abbrev IterState := LfnState × List Item

/-- One entry of `fat16_iterate_dir`; it ends at the first entry that was never used. -/
def iteratePlace (rd : Slot → Bytes) (s : IterState) (σ : Slot) : Except (List Item) IterState :=
  if rd σ 0 = 0 then .error s.2
  else if rd σ 0 = 0xE5 then .ok (lfn_reset, s.2)
  else if rd σ 11 = 0x0F then .ok (lfn_push s.1 (rd σ) σ, s.2)
  else .ok (lfn_reset, s.2 ++ [s.1.item (rd σ) σ])

/-- The entries found, whether the scan met an end mark or not. -/
def itemsOf : Except (List Item) IterState → List Item
  | .error items => items
  | .ok s => s.2

/-- `fat16_iterate_dir` with a callback that never stops it: the items that the callback is given. -/
def fat16_iterate_dir (v : Vol) (turns dir_cluster : ℕ) : Option (List Item) :=
  if dir_cluster = 0 then some (itemsOf ((v.places [none]).foldlM (iteratePlace v.raw) (lfn_reset, [])))
  else (follow (isCell eoc) v.fat (visitPlaces v (iteratePlace v.raw)) turns (lfn_reset, []) dir_cluster).map itemsOf

/-! ## `fat16_find_free_slots` -/

/-- One entry of the scan for free places; the state is the counter `run` and the places in `slots` below it. -/
def freePlace (rd : Slot → Bytes) (needed : UInt32) (s : UInt32 × List Slot) (σ : Slot) :
    Except (List Slot) (UInt32 × List Slot) :=
  if isFree (rd σ) then
    let slots := if s.1 < needed then s.2 ++ [σ] else s.2
    if s.1 + 1 = needed then .error slots else .ok (s.1 + 1, slots)
  else .ok (0, [])

/-- One cluster of the loop that puts new places into `slots`; the state is `remaining` and the places so far. -/
def takePlaces (v : Vol) (s : ℕ × List Slot) (cluster : ℕ) : Except (List Slot) (ℕ × List Slot) :=
  let taken := (v.places [some cluster]).take s.1
  if s.1 - taken.length = 0 then .error (s.2 ++ taken) else .ok (s.1 - taken.length, s.2 ++ taken)

/-- The end of `fat16_find_free_slots`, behind the loop that takes the new clusters. -/
def slotsInNew (v : Vol) (turns : ℕ) (needed : UInt32) : List ℕ × Bool × Vol → Option (Option (List Slot) × Vol)
  | (_, false, v') => some (none, v')
  | (l, true, v') =>
    match follow (isCell eoc) v'.fat (takePlaces v) turns (needed.toNat, []) (l.headD 0) with
    | none => none
    | some (.error slots) => some (some slots, v')
    | some (.ok _) => some (none, v')

/-- The part of `fat16_find_free_slots` that makes the directory longer behind the cluster `last`. -/
def extendDir (v : Vol) (turns last : ℕ) (needed : UInt32) : Option (Option (List Slot) × Vol) :=
  if needed = 0 then some (some [], v)
  else if v.spc = 0 then some (none, v)
  else
    let entries_per_cluster := UInt32.ofNat (v.spc * 16)
    let clusters_needed := (needed + entries_per_cluster - 1) / entries_per_cluster
    slotsInNew v turns needed (growDir (if clusters_needed = 0 then 1 else clusters_needed.toNat) last v)

/-- The search for `needed` free places in a row. -/
def fat16_find_free_slots (v : Vol) (turns dir_cluster : ℕ) (needed : UInt32) : Option (Option (List Slot) × Vol) :=
  if dir_cluster = 0 then
    match (v.places [none]).foldlM (freePlace v.raw needed) (0, []) with
    | .error slots => some (some slots, v)
    | .ok _ => some (none, v)
  else
    match follow (isCell eoc) v.fat (visitPlaces v (freePlace v.raw needed)) turns (0, []) dir_cluster with
    | none => none
    | some (.error slots) => some (some slots, v)
    | some (.ok _) => extendDir v turns ((walk eoc v.fat turns dir_cluster).getLast?.getD 0) needed

/-! ## `fat16_read_dir` -/

/-- An entry that `fat16_read_dir` copies to its caller. -/
def isListed (r : Bytes) : Bool := r 11 &&& 0x0F ≠ 0x0F && r 0 ≠ 0xE5

/-- One entry of `fat16_read_dir`; once there are `max_entries` in `out`, the entries behind are passed over. -/
def listPlace (rd : Slot → Bytes) (max_entries : ℤ) (out : List Bytes) (σ : Slot) : Except (List Bytes) (List Bytes) :=
  if max_entries ≤ out.length then .ok out
  else if rd σ 0 = 0 then .error out
  else if isListed (rd σ) then .ok (out ++ [rd σ])
  else .ok out

/-- One cluster of `fat16_read_dir`. -/
def listCluster (v : Vol) (max_entries : ℤ) (out : List Bytes) (cluster : ℕ) : Except (List Bytes) (List Bytes) :=
  if max_entries ≤ out.length then .error out else visitPlaces v (listPlace v.raw max_entries) out cluster

def copied : Except (List Bytes) (List Bytes) → List Bytes
  | .error out => out
  | .ok out => out

/-- `fat16_read_dir`: the entries that it copies. The numbers 0 and 1 are followed like those of clusters. -/
def fat16_read_dir (v : Vol) (turns cluster : ℕ) (max_entries : ℤ) : Option (List Bytes) :=
  if cluster = 0 then some (copied ((v.places [none]).foldlM (listPlace v.raw max_entries) []))
  else (follow (· < eoc) v.fat (listCluster v max_entries) turns [] cluster).map copied

/-! ## What the scans meet -/

/-- The places of the first `n` clusters that the links lead to. -/
def placesAlong (v : Vol) (dir n : ℕ) : List Slot := v.places ((List.iterate v.fat dir n).map some)

/-- The number of free places in a row at which the 32-bit counter of `fat16_find_free_slots` is `needed`. -/
def stretch (needed : UInt32) : ℕ := if needed = 0 then 2 ^ 32 else needed.toNat

/-- `l` has a stretch of free places that stops the scan. -/
def HasStretch (rd : Slot → Bytes) (needed : UInt32) (l : List Slot) : Prop :=
  ∃ r, r <:+: l ∧ r.length = stretch needed ∧ ∀ σ ∈ r, isFree (rd σ)

/-- The entries of a list of places that `fat16_read_dir` copies. -/
def listedIn (rd : Slot → Bytes) (l : List Slot) : List Slot := l.filter fun σ => isListed (rd σ)

end Orion.Fat16
