import Orion.Mount.Copy

/-!
# Proofs: joined paths

`snprintf` writes the longest beginning of the text that fits and returns the length of that beginning, so that the
test of `fsbg_join_path` never sees that a path is too long.
-/

namespace Orion.Mount

open List

variable {p n : Path}

theorem putItem_eq {room : Int} {out : List UInt8} (item : List UInt8) (h : out.length ≤ room.toNat) :
    putItem room out item = (out ++ item).take room.toNat := by
  rw [take_append, take_of_length_le h]
  unfold putItem
  split
  · have hroom : (room - out.length).toNat = room.toNat - out.length := by omega
    rw [hroom]
  · have hroom : room.toNat - out.length = 0 := by omega
    rw [hroom, take_zero, append_nil]

/-- The formatter cuts the text where the room ends; by induction on the items. -/
theorem snprintf_eq (size : Int) (items : List (List UInt8)) :
    snprintf size items = items.flatten.take (size - 1).toNat := by
  suffices hloop : ∀ out : List UInt8, out.length ≤ (size - 1).toNat →
      items.foldl (putItem (size - 1)) out = (out ++ items.flatten).take (size - 1).toNat from hloop [] (Nat.zero_le _)
  induction items with
  | nil =>
    intro out hout
    rw [foldl_nil, flatten_nil, append_nil, take_of_length_le hout]
  | cons item items ih =>
    intro out hout
    rw [foldl_cons, putItem_eq item hout, ih _ (length_take_le _ _), flatten_cons, ← append_assoc,
      take_append, take_take, Nat.min_self,
      (take_append : ((out ++ item) ++ _).take _ = _), length_take]
    congr 2
    omega

theorem flatten_joinItems (p n : Path) : (joinItems p n).flatten = childPath p n := by
  unfold joinItems childPath
  split
  · simp
  · split
    · simp
    · simp

theorem join_path_into_eq {out_size : UInt32} (hsize : out_size ≠ 0) (hn : n ≠ []) : fsbg_join_path_into out_size p n =
      let text := (childPath p n).take (out_size.toBitVec.toInt - 1).toNat
      (decide (text.length < out_size.toBitVec.toInt), some text) := by
  simp [fsbg_join_path_into, hsize, hn, snprintf_eq, flatten_joinItems]

/-- What the copy engine gets: a path is cut at 255 bytes, and only an empty name is refused. -/
theorem join_path_cut (p n : Path) : fsbg_join_path p n = if n = [] then none else some ((childPath p n).take 255) := by
  unfold fsbg_join_path
  by_cases hn : n = []
  · simp [fsbg_join_path_into, hn]
  have hint : (256 : UInt32).toBitVec.toInt = 256 := by decide
  have hroom : ((256 : Int) - 1).toNat = 255 := rfl
  have hlen : (((childPath p n).take 255).length : Int) < 256 := by
    have := length_take_le 255 (childPath p n)
    omega
  rw [if_neg hn, join_path_into_eq (by decide) hn, hint, hroom]
  simp only [hlen, decide_true, if_true]

/-- A size that is negative as an `int` refuses every path, a smaller one none. -/
theorem joinsInFull_iff (out_size : UInt32) (p n : Path) : JoinsInFull out_size p n ↔ Joinable out_size p n := by
  unfold JoinsInFull Joinable
  by_cases hsize : out_size = 0
  · simp [fsbg_join_path_into, hsize]
  by_cases hn : n = []
  · simp [fsbg_join_path_into, hn]
  have hpos : out_size.toNat ≠ 0 := fun h => hsize (UInt32.toNat_inj.mp h)
  have hint : out_size.toBitVec.toInt = if 2 * out_size.toNat < 2 ^ 32 then (out_size.toNat : Int)
      else (out_size.toNat : Int) - (2 ^ 32 : ℕ) := BitVec.toInt_eq_toNat_cond _
  rw [join_path_into_eq hsize hn, hint]
  simp only [length_take, decide_eq_true_eq, decide_eq_false_iff_not, Option.some.injEq, take_eq_self_iff,
    hsize, hn, false_or]
  split
  · omega
  · have := out_size.toNat_lt
    omega

/-- A joined path is complete or refused exactly if it fits its buffer or the call is refused anyway. -/
theorem joined_paths_complete_iff (out_size : UInt32) (base name : Path) :
    (JoinsInFull out_size base name ↔ Joinable out_size base name) ∧
      ((∀ path, fsbg_join_path base name = some path → path = childPath base name) ↔ Joinable 256 base name) := by
  refine ⟨joinsInFull_iff out_size base name, ?_⟩
  have hlow : (256 : UInt32).toNat = 256 := rfl
  have hzero : (256 : UInt32) ≠ 0 := by decide
  unfold Joinable
  rw [join_path_cut, hlow]
  by_cases hn : name = []
  · simp [hn]
  · simp only [hn, if_false, Option.some.injEq, forall_eq', take_eq_self_iff, hzero, false_or]
    omega

/-- "/a" and "bc" in four bytes: the call returns true with "/a/". -/
theorem join_path_cut_off : fsbg_join_path_into 4 [slash, 0x61] [0x62, 0x63] = (true, some [slash, 0x61, slash]) ∧
      ¬ JoinsInFull 4 [slash, 0x61] [0x62, 0x63] := by
  have hcut : fsbg_join_path_into 4 [slash, 0x61] [0x62, 0x63] = (true, some [slash, 0x61, slash]) := by decide
  refine ⟨hcut, fun h => ?_⟩
  have hfull := h.1 (by rw [hcut])
  rw [hcut] at hfull
  exact absurd hfull (by decide)

end Orion.Mount
