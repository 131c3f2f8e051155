import Orion.Lib.CString

/-!
# Loading and saving in the editor (`src/fs/note.c`)

A file is cut into rows when it is loaded, and the rows are joined with line ends when it is saved.
-/

namespace Orion.Shell

open Lib List

def MAX_LINES : ℕ := 256

/-- `SCREEN_MAX_COLS` -/
def NOTE_MAX_COLS : ℕ := 240

def newline : UInt8 := 0x0A

/-- The row at the start of the rest of the file. -/
def nextRow (s : List UInt8) : List UInt8 :=
  (s.takeWhile fun c => c ≠ newline ∧ c ≠ 0x0D ∧ c ≠ 0).take (NOTE_MAX_COLS - 1)

/-- What stands behind a row is skipped, whatever it is. -/
def skipBreak : List UInt8 → List UInt8
  | 0x0D :: 0x0A :: s => s
  | s => s.tail

/-- The loop that loads a file, with room for `n` more rows. -/
def loadRows : ℕ → List UInt8 → List (List UInt8)
  | 0, _ => []
  | _, [] => []
  | n + 1, s => nextRow s :: loadRows n (skipBreak (s.drop (nextRow s).length))

/-- The rows of a file, of which `in` has room for 8191 bytes. -/
def loadNote (file : List UInt8) : List (List UInt8) :=
  if file = [] then [[]] else loadRows MAX_LINES (file.take 8191)

/-- What is saved of a row: its first `note_line_len` bytes. -/
def savedRow (row : List UInt8) : List UInt8 := (cstr row).take (NOTE_MAX_COLS - 1)

/-- The rows as one file. -/
def saveNote (rows : List (List UInt8)) : List UInt8 := [newline].intercalate (rows.map savedRow)

/-- Every line fits into a row, and the file does not end with a line end. -/
def Keepable (file : List UInt8) : Prop :=
  (∀ line ∈ file.splitOn newline, line.length < NOTE_MAX_COLS) ∧ file.getLast? ≠ some newline

/-- The file has no carriage return and no zero. -/
def Plain (file : List UInt8) : Prop := ∀ c ∈ file, c ≠ 0x0D ∧ c ≠ 0

variable {w t : List UInt8} {rows : List (List UInt8)}

theorem savedRow_eq (hw : Plain w) (hlen : w.length < NOTE_MAX_COLS) : savedRow w = w := by
  have hzero : (0 : UInt8) ∉ w := fun hmem => (hw 0 hmem).2 rfl
  unfold savedRow
  rw [cstr_of_notMem hzero]
  exact take_of_length_le (by omega)

theorem saveNote_cons_cons (row row' : List UInt8) (rows : List (List UInt8)) :
    saveNote (row :: row' :: rows) = savedRow row ++ newline :: saveNote (row' :: rows) := by
  simp [saveNote, intercalate_cons_cons]

/-- The rest of the file in front of which a row ends. -/
theorem nextRow_eq (hw : Plain w) (hline : newline ∉ w) (ht : t = [] ∨ t.head? = some newline) :
    nextRow (w ++ t) = w.take (NOTE_MAX_COLS - 1) := by
  have hrow : ∀ c ∈ w, decide (c ≠ newline ∧ c ≠ 0x0D ∧ c ≠ 0) = true := by
    intro c hc
    exact decide_eq_true ⟨fun h => hline (h ▸ hc), hw c hc⟩
  have hend : t.takeWhile (fun c => c ≠ newline ∧ c ≠ 0x0D ∧ c ≠ 0) = [] := by
    rcases ht with rfl | ht
    · rfl
    · obtain ⟨t', rfl⟩ := head?_eq_some_iff.mp ht
      simp
  rw [nextRow, takeWhile_append_of_pos hrow, hend, append_nil]

/-- A long line is not saved as it was: at the place of the split there is a line end or nothing. -/
theorem saveNote_long (hw : Plain w) (hline : newline ∉ w) (hlong : NOTE_MAX_COLS ≤ w.length) (t : List UInt8) :
    saveNote (w.take (NOTE_MAX_COLS - 1) :: rows) ≠ w ++ t := by
  have hsize : NOTE_MAX_COLS = 240 := rfl
  have hrow : savedRow (w.take (NOTE_MAX_COLS - 1)) = w.take (NOTE_MAX_COLS - 1) :=
    savedRow_eq (fun c hc => hw c (mem_of_mem_take hc)) (by rw [length_take]; omega)
  intro heq
  obtain ⟨c, hmem, hsplit⟩ : ∃ c ∈ w, (w ++ t)[239]? = some c := by
    have hlt : 239 < w.length := by omega
    exact ⟨w[239], getElem_mem hlt, by rw [getElem?_append_left hlt]; exact getElem?_eq_getElem hlt⟩
  cases rows with
  | nil =>
    rw [← heq, saveNote, map_singleton, hrow, intercalate_singleton, getElem?_eq_none] at hsplit
    · cases hsplit
    · rw [length_take]
      omega
  | cons row rows =>
    rw [← heq, saveNote_cons_cons, hrow, getElem?_append_right (by rw [length_take]; omega), length_take,
      Nat.min_eq_left (by omega)] at hsplit
    exact hline (Option.some.inj hsplit ▸ hmem)

theorem beq_newline (hline : newline ∉ w) : ∀ c ∈ w, (c == newline) = false := by
  intro c hc
  exact beq_false_of_ne fun h => hline (h ▸ hc)

theorem splitOn_line (hline : newline ∉ w) : w.splitOn newline = [w] := splitOnP_eq_singleton (beq_newline hline)

theorem splitOn_lines (hline : newline ∉ w) (t : List UInt8) :
    (w ++ newline :: t).splitOn newline = w :: t.splitOn newline :=
  splitOnP_append_cons_of_forall_mem (beq_newline hline) newline (by simp) t

/-- The induction is over the rows; `n` is enough for those that are left. -/
theorem saved_iff {n : ℕ} {s : List UInt8} (hs : s ≠ []) (hplain : Plain s) (hn : s.dropLast.count newline < n) :
    saveNote (loadRows n s) = s ↔ Keepable s := by
  induction n generalizing s with
  | zero => omega
  | succ n ih =>
    -- the first line and what stands behind it
    obtain ⟨w, t, rfl, hline, ht⟩ : ∃ w t, s = w ++ t ∧ newline ∉ w ∧ (t = [] ∨ t.head? = some newline) := by
      by_cases hmem : newline ∈ s
      · obtain ⟨w, t, rfl, hline⟩ := eq_append_cons_of_mem hmem
        exact ⟨w, newline :: t, rfl, hline, .inr rfl⟩
      · exact ⟨s, [], (append_nil s).symm, hmem, .inl rfl⟩
    have hw : Plain w := fun c hc => hplain c (mem_append_left t hc)
    have hload : loadRows (n + 1) (w ++ t) = w.take (NOTE_MAX_COLS - 1) ::
        loadRows n (skipBreak ((w ++ t).drop (w.take (NOTE_MAX_COLS - 1)).length)) := by
      rw [loadRows, nextRow_eq hw hline ht]
      exact hs
    rw [hload]
    by_cases hlong : NOTE_MAX_COLS ≤ w.length
    · refine iff_of_false (saveNote_long hw hline hlong t) fun hkeep => ?_
      have hfirst : w ∈ (w ++ t).splitOn newline := by
        rcases ht with rfl | ht
        · simp [splitOn_line hline]
        · obtain ⟨t', rfl⟩ := head?_eq_some_iff.mp ht
          simp [splitOn_lines hline]
      have := hkeep.1 w hfirst
      omega
    have hrow := savedRow_eq hw (by omega)
    rw [take_of_length_le (by omega), drop_left]
    rcases ht with rfl | ht
    · have hrest : loadRows n (skipBreak []) = [] := by cases n <;> rfl
      rw [hrest, append_nil, saveNote, map_singleton, hrow, intercalate_singleton, Keepable, splitOn_line hline]
      refine iff_of_true rfl ⟨by simpa using hlong, fun hlast => hline (mem_of_getLast? hlast)⟩
    obtain ⟨t, rfl⟩ := head?_eq_some_iff.mp ht
    have hskip : skipBreak (newline :: t) = t := rfl
    rw [hskip, Keepable, splitOn_lines hline]
    rcases t with _ | ⟨c, t⟩
    · have hrest : loadRows n [] = [] := by cases n <;> rfl
      rw [hrest, saveNote, map_singleton, hrow, intercalate_singleton]
      exact iff_of_false (by simp) (by simp)
    have hcount : (c :: t).dropLast.count newline < n := by
      rw [dropLast_append_cons, dropLast_cons_cons, count_append, count_cons_self] at hn
      omega
    have hih := ih (by simp) (fun b hb => hplain b (by simp [mem_cons.mp hb])) hcount
    obtain ⟨row, rows, hrows⟩ : ∃ row rows, loadRows n (c :: t) = row :: rows := by
      cases n with
      | zero => omega
      | succ n => exact ⟨_, _, rfl⟩
    rw [hrows] at hih ⊢
    rw [saveNote_cons_cons, hrow, append_cancel_left_eq, cons.injEq, hih, Keepable]
    simp [Nat.lt_of_not_le hlong]

/-- Loading and saving a file of at most 256 lines gives the file back exactly if it is keepable. -/
theorem note_round_trip_iff {file : List UInt8} (hsize : file.length ≤ 8191) (hplain : Plain file)
    (hlines : file.dropLast.count newline < MAX_LINES) : saveNote (loadNote file) = file ↔ Keepable file := by
  unfold loadNote
  split
  · rename_i hnil
    subst hnil
    exact iff_of_true rfl ⟨by simp [NOTE_MAX_COLS], by simp⟩
  · rename_i hne
    rw [take_of_length_le hsize]
    exact saved_iff hne hplain hlines

theorem note_round_trip_two_lines : saveNote (loadNote [0x61, newline, 0x62]) = [0x61, newline, 0x62] :=
  (note_round_trip_iff (by decide) (by simp [Plain, newline]) (by decide)).mpr (by unfold Keepable; decide)

theorem note_drops_last_newline : saveNote (loadNote [0x61, newline]) = [0x61] ∧
    saveNote (loadNote [0x61, newline]) ≠ [0x61, newline] := by decide

end Orion.Shell
