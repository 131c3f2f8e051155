import Orion.Syscall.Proofs.FilesProofs
import Orion.Syscall.Proofs.ReadProofs

/-!
# Reading through a descriptor

A read hands the path in the descriptor to the file system again. As long as the path denotes the file that was
opened, the reads give its contents from the beginning on.
-/

namespace Orion.Syscall

open Lib Fat List

variable {m : Mounted} {path : Path} {data : List UInt8} {s : Session Mounted} {mem : ℕ → Bool} {depth : ℕ}
  {m' : Mounted} {t : FdTable}

/-- A read changes nothing, and fails or gives a segment of `data` that is not longer than what was asked for. -/
def ReadsSegment {σ : Type} (ops : FsOps σ) (v : σ) (path : Path) (data : List UInt8) : Prop :=
  ∀ mem (o n : UInt32), 0 < n.toNat → o.toNat + n.toNat ≤ data.length →
    ∃ r : ℤ × List UInt8, ops.fscmd_read_file mem v path o n = (r.1, r.2, v) ∧
      (r.1 < 0 ∨ ∃ k : ℕ, k ≤ n.toNat ∧ r = ((k : ℤ), (data.drop o.toNat).take k))

theorem asInt_cases {n : ℕ} (hn : n < 2 ^ 32) : Fat16.asInt n < 0 ∨ Fat16.asInt n = n := by
  unfold Fat16.asInt
  split_ifs
  · exact .inr rfl
  · left
    omega

theorem segment_cases (data : List UInt8) (o n : UInt32) :
    (Fat16.asInt n.toNat, (data.drop o.toNat).take n.toNat).1 < 0 ∨
      ∃ k : ℕ, k ≤ n.toNat ∧
        (Fat16.asInt n.toNat, (data.drop o.toNat).take n.toNat) = ((k : ℤ), (data.drop o.toNat).take k) :=
  (asInt_cases (UInt32.toNat_lt n)).imp id fun h => ⟨n.toNat, le_rfl, by rw [h]⟩

theorem counted_segment {o n : UInt32} (hon : o.toNat + n.toNat ≤ data.length) :
    counted (some ((data.drop o.toNat).take n.toNat)) = (Fat16.asInt n.toNat, (data.drop o.toNat).take n.toNat) := by
  have hlen : ((data.drop o.toNat).take n.toNat).length = n.toNat := by
    rw [length_take, length_drop]
    omega
  rw [counted, hlen]

theorem readsSegment_of_contents (mem : ℕ → Bool) (depth : ℕ) (h : contents m path = some data)
    (hfits : m.clusterFits = true) : ReadsSegment (fscmd mem depth) m path data := by
  intro mem' o n hn hon
  obtain ⟨f, hfind, hdata⟩ := Option.bind_eq_some_iff.mp h
  show ∃ r : ℤ × List UInt8, fscmd_read_file mem' m path o n = _ ∧ _
  unfold fscmd_read_file
  rw [hfind]
  cases m with
  | none => cases hfind
  | lost => cases hfind
  | fat16 v current_path =>
    cases f with
    | xvfs e => cases hdata
    | fat r =>
      have hroom : staticRoom v r o.toNat n.toNat = true := by
        rw [staticRoom, show decide (v.clusterSize ≤ 32768) = true from hfits, Bool.true_or, Bool.true_or]
      dsimp only
      rw [fat16_read_eq hdata hn hon, counted_segment hon, if_pos hroom]
      exact ⟨_, rfl, segment_cases _ o n⟩
  | fat32 v =>
    obtain ⟨item, hitem, rfl⟩ := Option.map_eq_some_iff.mp hfind
    dsimp only
    rw [fat32_read_eq hitem hdata hn hon]
    cases mem' with
    | true => exact ⟨_, rfl, segment_cases _ o n⟩
    | false => exact ⟨_, rfl, .inr ⟨0, Nat.zero_le _, rfl⟩⟩
  | xvfs v current_path =>
    cases f with
    | fat r => cases hdata
    | xvfs e =>
      simp only [contentsOf] at hdata
      split_ifs at hdata with hgood
      obtain rfl := Option.some.inj hdata
      dsimp only
      rw [xvfs_read_eq hgood.1 hgood.2 hn (by simpa using hon)]
      have hcount := counted_segment hon
      unfold xvfsByte
      rw [hcount]
      exact ⟨_, rfl, segment_cases _ o n⟩

theorem size_of_contents (h : contents m path = some data) : (fscmd_get_file_size m path).toNat = data.length := by
  obtain ⟨f, hfind, hdata⟩ := Option.bind_eq_some_iff.mp h
  unfold fscmd_get_file_size
  rw [hfind]
  cases m with
  | none => cases hfind
  | lost => cases hfind
  | fat16 v current_path =>
    cases f with
    | xvfs e => cases hdata
    | fat r => exact (firstBytes_some hdata).1.symm
  | fat32 v =>
    cases f with
    | xvfs e => cases hdata
    | fat r => exact (firstBytes_some hdata).1.symm
  | xvfs v current_path =>
    cases f with
    | fat r => cases hdata
    | xvfs e =>
      simp only [contentsOf] at hdata
      split_ifs at hdata
      obtain rfl := Option.some.inj hdata
      simp [FileRef.size]

theorem not_named_nil {e : Xvfs.FileEntry} (hlive : e.live = true) : e.named [] = false := by
  have hfirst : e.name.headD 0 ≠ ([] : List UInt8).headD 0 := by
    intro heq
    have hzero : e.first = 0 := heq
    simp [Xvfs.FileEntry.live, hzero] at hlive
  exact if_pos hfirst

theorem exists_of_contents (h : contents m path = some data) : fscmd_exists m path = true := by
  obtain ⟨f, hfind, -⟩ := Option.bind_eq_some_iff.mp h
  cases m with
  | none => cases hfind
  | lost => cases hfind
  | fat16 v current_path => simp [fscmd_exists, hfind]
  | fat32 v => simp [fscmd_exists, hfind]
  | xvfs v current_path =>
    obtain ⟨e, he, rfl⟩ := Option.map_eq_some_iff.mp hfind
    show xvfs_exists v path = true
    unfold Xvfs.xvfs_find_file at he
    unfold xvfs_exists
    rcases hres : Xvfs.xvfs_resolve_path v path false with _ | r
    · rw [hres] at he
      cases he
    obtain ⟨dir_block, name⟩ := r
    rw [hres] at he
    simp only [Option.bind_eq_bind, Option.bind_some] at he
    split_ifs at he with hbad
    · cases he
    simp only [Bool.or_eq_true, decide_eq_true_eq, Bool.not_eq_true', not_or, Bool.not_eq_false] at hbad
    obtain ⟨i, hi, -⟩ := Option.map_eq_some_iff.mp he
    have hslot := find?_some hi
    simp only [Bool.and_eq_true, Bool.not_eq_true'] at hslot
    obtain ⟨⟨hlive, -⟩, hnamed⟩ := hslot
    have hname : name ≠ [] := by
      rintro rfl
      rw [not_named_nil hlive] at hnamed
      cases hnamed
    have hpath : path ≠ [] := by
      rintro rfl
      simp only [Xvfs.xvfs_resolve_path, take_nil] at hres
      exact hname (Prod.mk.inj (Option.some.inj hres)).2.symm
    have hany : (Xvfs.findSlot (v.read_block dir_block) fun e => e.live && e.named name).isSome = true := by
      rw [Xvfs.findSlot, find?_isSome]
      exact ⟨i, mem_of_find?_eq_some hi, by simp [hlive, hnamed]⟩
    simp [hpath, hbad, hname, hany]

/-- `fscmd_cd` changes nothing but the directory, or overruns a buffer. -/
inductive CdMove : Mounted → Mounted → Prop where
  | same (m : Mounted) : CdMove m m
  | lost (m : Mounted) : CdMove m .lost
  | fat16 (v : Fat.Vol) (p p' : Path) (c : ℕ) : CdMove (.fat16 v p) (.fat16 { v with cwd := c } p')
  | fat32 (v : Fat32.Vol) (c : ℕ) : CdMove (.fat32 v) (.fat32 (v.onBase fun b => { b with cwd := c }))
  | xvfs (v : Xvfs.Vol) (p p' : Path) (d : UInt32) : CdMove (.xvfs v p) (.xvfs { v with current_dir_block := d } p')

theorem cd_move (m : Mounted) (dir : Path) : CdMove m (fscmd_cd m dir).2 := by
  cases m with
  | none => exact .same _
  | lost => exact .same _
  | fat16 v p =>
    simp only [fscmd_cd, fat16_cd]
    by_cases hnil : dir = []
    · rw [if_pos hnil]
      exact .same _
    rw [if_neg hnil]
    rcases normalize_path p dir with _ | normalized
    · exact .lost _
    dsimp only
    split_ifs
    · exact .same _
    · exact .fat16 v p _ _
  | fat32 v =>
    simp only [fscmd_cd, Fat32.cd, Fat32.fat32_cd]
    split_ifs
    · exact .same _
    · exact .fat32 v _
    all_goals
      split
      · exact .same _
      · exact .fat32 v _
  | xvfs v p =>
    simp only [fscmd_cd, xvfs_cd]
    by_cases hnil : dir = []
    · rw [if_pos hnil]
      exact .same _
    rw [if_neg hnil]
    rcases normalize_path p dir with _ | normalized
    · exact .lost _
    dsimp only
    rcases Xvfs.xvfs_resolve_path v normalized true with _ | r
    · exact .lost _
    dsimp only
    split_ifs
    · exact .same _
    · exact .xvfs v p _ _

theorem CdMove.contentsOf (h : CdMove m m') (hlost : m' ≠ .lost) (f : FileRef) : contentsOf m' f = contentsOf m f := by
  cases h with
  | same => rfl
  | lost => exact absurd rfl hlost
  | fat16 => cases f <;> rfl
  | fat32 => cases f <;> rfl
  | xvfs => cases f <;> rfl

theorem fat16_findFrom_cwd (v : Fat.Vol) (c d : ℕ) (tokens : List Path) :
    Fat16.findFrom { v with cwd := c } d tokens = Fat16.findFrom v d tokens := by
  induction tokens generalizing d with
  | nil => rfl
  | cons token tokens ih =>
    rcases tokens with _ | ⟨token', tokens⟩
    · rfl
    have hslot : Fat16.find_entry_slot { v with cwd := c } d token = Fat16.find_entry_slot v d token := rfl
    rw [Fat16.findFrom, Fat16.findFrom, hslot]
    · cases Fat16.find_entry_slot v d token with
      | none => rfl
      | some item => simp only [ih]
    · simp
    · simp

theorem fat32_resolveFrom_cwd (v : Fat32.Vol) (c d : ℕ) (tokens : List Path) :
    Fat32.resolveFrom (v.onBase fun b => { b with cwd := c }) d tokens = Fat32.resolveFrom v d tokens := by
  induction tokens generalizing d with
  | nil => rfl
  | cons token tokens ih =>
    have hdir : Fat32.find_dir_cluster (v.onBase fun b => { b with cwd := c }) d token =
      Fat32.find_dir_cluster v d token := rfl
    rw [Fat32.resolveFrom, Fat32.resolveFrom, hdir]
    simp only [ih]

theorem xvfs_resolveTokens_cwd (v : Xvfs.Vol) (block : UInt32) (want_dir : Bool) (d : UInt32) (last : Path)
    (tokens : List Path) : Xvfs.resolveTokens { v with current_dir_block := block } want_dir d last tokens =
      Xvfs.resolveTokens v want_dir d last tokens := by
  induction tokens generalizing d last with
  | nil => rfl
  | cons token tokens ih =>
    have hread : ({ v with current_dir_block := block } : Xvfs.Vol).read_block d = v.read_block d := rfl
    rw [Xvfs.resolveTokens, Xvfs.resolveTokens, hread]
    simp only [ih]

theorem CdMove.find_file (h : CdMove m m') (hlost : m' ≠ .lost) (habs : path.head? = some slash) :
    find_file m' path = find_file m path := by
  cases h with
  | same => rfl
  | lost => exact absurd rfl hlost
  | fat16 v p p' c =>
    simp only [Syscall.find_file, Fat16.find_file_path, Fat16.startDir, if_pos habs, fat16_findFrom_cwd]
  | fat32 v c =>
    have hdir : Fat32.resolve_dir (v.onBase fun b => { b with cwd := c }) (Fat32.split_path path).1 =
        Fat32.resolve_dir v (Fat32.split_path path).1 := by
      obtain ⟨s, rfl⟩ : ∃ s, path = slash :: s := by
        cases path with
        | nil => cases habs
        | cons b s => exact ⟨s, by rw [Option.some.inj habs]⟩
      have hhead : (Fat32.split_path (slash :: s)).1.head? = some slash := by
        unfold Fat32.split_path
        rw [splitLast]
        cases splitLast slash s with
        | none => rfl
        | some be => rfl
      unfold Fat32.resolve_dir
      have hne : (Fat32.split_path (slash :: s)).1 ≠ [] := by
        intro hnil
        rw [hnil] at hhead
        cases hhead
      simp only [if_neg hne, hhead, if_true, fat32_resolveFrom_cwd]
      rfl
    have hslot : ∀ d name, Fat32.find_entry_slot (v.onBase fun b => { b with cwd := c }) d name =
      Fat32.find_entry_slot v d name := fun _ _ => rfl
    simp only [Syscall.find_file, Fat32.find_file, Fat32.findTarget, hdir, hslot]
  | xvfs v p p' d =>
    have hres : Xvfs.xvfs_resolve_path { v with current_dir_block := d } path false =
        Xvfs.xvfs_resolve_path v path false := by
      have hhead : path.headD 0 = Xvfs.slash := by rw [headD_eq_head?_getD, habs]; rfl
      unfold Xvfs.xvfs_resolve_path
      rw [if_pos hhead, if_pos hhead, xvfs_resolveTokens_cwd]
    simp only [Syscall.find_file, Xvfs.xvfs_find_file, hres]
    rfl

theorem contents_chdir {dir : Path} (hlost : (fscmd_cd m dir).2 ≠ .lost)
    (hkeep : path.head? = some slash ∨ find_file (fscmd_cd m dir).2 path = find_file m path) :
    contents (fscmd_cd m dir).2 path = contents m path := by
  have hmove := cd_move m dir
  have hfind : find_file (fscmd_cd m dir).2 path = find_file m path := by
    rcases hkeep with habs | hsame
    · exact hmove.find_file hlost habs
    · exact hsame
  rw [contents, contents, hfind]
  cases find_file m path with
  | none => rfl
  | some f => exact hmove.contentsOf hlost f

variable {pid fd : UInt32} {i : Fd}

/-- The descriptor stands behind the bytes read so far, the first ones of the file, and the path still denotes it. -/
structure Tracks (path : Path) (data : List UInt8) (pid : UInt32) (i : Fd) (s : Session Mounted) : Prop where
  used : (s.fds i).used = true
  owner : (s.fds i).owner_pid = pid
  path_eq : (s.fds i).path = path
  offset : (s.fds i).offset.toNat = s.got.length
  size : (s.fds i).size.toNat = data.length ∨ (s.fds i).size = 0
  got : s.got <+: data
  contents : contents s.fs path = some data

theorem get_fd_own (hfd : fd.toNat = i.val) (hused : (t i).used = true) (howner : (t i).owner_pid = pid) :
    get_fd t fd pid = some i := by
  have hlt : fd.toNat < MAX_OPEN_FILES := hfd ▸ i.isLt
  obtain rfl : i = ⟨fd.toNat, hlt⟩ := Fin.ext hfd.symm
  unfold get_fd
  rw [dif_pos hlt]
  simp [hused, howner]

theorem read_cases {ops : FsOps Mounted} (h : Tracks path data pid i s) (hfd : fd.toNat = i.val)
    (hops : ReadsSegment ops s.fs path data) (mem : Bool) (buf : Buffer) (len : UInt32) :
    (∃ eax, sys_read ops s.fs s.fds pid mem fd buf len = refuse s.fs s.fds eax ∧
        (s.got.length = data.length → buf ≠ .invalid → eax = 0)) ∨
      ∃ k : ℕ, s.got.length < data.length ∧ s.got.length + k ≤ data.length ∧
        sys_read ops s.fs s.fds pid mem fd buf len = ⟨UInt32.ofNat k, (data.drop s.got.length).take k,
          Function.update s.fds i { s.fds i with offset := (s.fds i).offset + UInt32.ofNat k }, s.fs⟩ := by
  unfold sys_read
  rw [get_fd_own hfd h.used h.owner]
  dsimp only
  split_ifs with hempty hinvalid hend
  · exact .inl ⟨0, rfl, fun _ _ => rfl⟩
  · exact .inl ⟨failure, rfl, fun _ hbuf => absurd hinvalid hbuf⟩
  · exact .inl ⟨0, rfl, fun _ _ => rfl⟩
  -- something is left to be read, so that this is a file
  rw [ge_iff_le, UInt32.le_iff_toNat_le, not_le] at hend
  have hsize : (s.fds i).size.toNat = data.length := by
    rcases h.size with hsize | hzero
    · exact hsize
    · rw [hzero] at hend
      exact absurd hend (Nat.not_lt_zero _)
  have hoffset := h.offset
  have hlen : 0 < len.toNat := by
    simp only [Bool.or_eq_true, decide_eq_true_eq, not_or] at hempty
    exact Nat.pos_of_ne_zero fun hzero => hempty.1 (UInt32.toNat_inj.mp hzero)
  have hmin : (min len ((s.fds i).size - (s.fds i).offset)).toNat =
      min len.toNat (data.length - s.got.length) := by
    have hsub : ((s.fds i).size - (s.fds i).offset).toNat = data.length - s.got.length := by
      rw [UInt32.toNat_sub_of_le _ _ (UInt32.le_iff_toNat_le.mpr (le_of_lt hend)), hsize, hoffset]
    rw [← hsub]
    show (if len ≤ (s.fds i).size - (s.fds i).offset then len else _).toNat = _
    split_ifs with hle
    · rw [min_eq_left (UInt32.le_iff_toNat_le.mp hle)]
    · rw [UInt32.le_iff_toNat_le, not_le] at hle
      rw [min_eq_right (le_of_lt hle)]
  obtain ⟨r, hread, hcases⟩ :=
    hops mem (s.fds i).offset (min len ((s.fds i).size - (s.fds i).offset)) (by omega) (by omega)
  rw [← h.path_eq] at hread
  unfold readAt
  rw [hread]
  rcases hcases with hneg | ⟨k, hk, rfl⟩
  · rw [if_pos hneg]
    exact .inl ⟨failure, rfl, fun hfull => by omega⟩
  right
  refine ⟨k, by omega, by omega, ?_⟩
  rw [if_neg (by simp), hoffset]
  simp only [Int.toNat_natCast]

theorem tracks_step (h : Tracks path data pid i s)
    (hfd : fd.toNat = i.val) {turn : Turn} (hkeep : KeepsFile path s turn) :
    Tracks path data pid i (turnStep (fscmd mem depth) pid fd s turn) := by
  cases turn with
  | chdir dir =>
    simp only [turnStep, sys_chdir]
    rcases hcopy : copy_user_string dir with _ | dir'
    · exact h
    obtain rfl : dir = some dir' := (Option.filter_eq_some_iff.mp hcopy).1
    have hcontents := (contents_chdir hkeep.1 hkeep.2).trans h.contents
    change Syscall.contents ((fscmd mem depth).fscmd_cd s.fs dir').2 path = some data at hcontents
    dsimp only
    generalize (fscmd mem depth).fscmd_cd s.fs dir' = r at hcontents ⊢
    obtain ⟨_ | _, m'⟩ := r <;>
      exact ⟨h.used, h.owner, h.path_eq, h.offset, h.size, h.got, hcontents⟩
  | read mem' buf len =>
    rw [turnStep]
    rcases read_cases h hfd (readsSegment_of_contents mem depth h.contents hkeep) mem' buf len with
      ⟨eax, heq, -⟩ | ⟨k, hlt, hk, heq⟩
    · rw [heq]
      simpa [refuse] using h
    rw [heq]
    have hbound : data.length < 2 ^ 32 := size_of_contents h.contents ▸ UInt32.toNat_lt _
    obtain ⟨rest, hrest⟩ := h.got
    have hdrop : data.drop s.got.length = rest := by rw [← hrest, drop_left]
    refine ⟨?_, ?_, ?_, ?_, ?_, ?_, h.contents⟩ <;> simp only [Function.update_self]
    · exact h.used
    · exact h.owner
    · exact h.path_eq
    · rw [UInt32.toNat_add, h.offset, UInt32.toNat_ofNat', length_append, length_take, length_drop]
      omega
    · exact h.size
    · rw [hdrop]
      refine ⟨rest.drop k, ?_⟩
      rw [append_assoc, take_append_drop, hrest]

theorem tracks_endsAt (h : Tracks path data pid i s) (hfd : fd.toNat = i.val) {turn : Turn}
    (hkeep : KeepsFile path s turn) : EndsAt (fscmd mem depth) pid fd data s turn := by
  cases turn with
  | chdir dir => trivial
  | read mem' buf len =>
    intro hfull hbuf
    rcases read_cases h hfd (readsSegment_of_contents mem depth h.contents hkeep) mem' buf len with
      ⟨eax, heq, hzero⟩ | ⟨k, hlt, -⟩
    · rw [heq]
      exact hzero hfull hbuf
    · omega

theorem tracks_open (hfile : contents m path = some data)
    (hopen : (sys_open (fscmd mem depth) m t pid (some path)).eax ≠ failure) :
    ∃ i : Fd, (sys_open (fscmd mem depth) m t pid (some path)).eax.toNat = i.val ∧
      Tracks path data pid i ⟨(sys_open (fscmd mem depth) m t pid (some path)).fds,
        (sys_open (fscmd mem depth) m t pid (some path)).fs, []⟩ := by
  have hlen : path.length < MAX_PATH_LEN - 1 := by
    by_contra hlong
    refine hopen ?_
    have hnone : copy_user_string (some path) = none := by
      simp only [copy_user_string, Option.filter_some, decide_eq_false hlong, Bool.false_eq_true, if_false]
    rw [sys_open, hnone]
    rfl
  have hfd : ∀ size, (openFd t pid m path size).eax ≠ failure → ((size path).toNat = data.length ∨ size path = 0) →
      ∃ i : Fd, (openFd t pid m path size).eax.toNat = i.val ∧
        Tracks path data pid i ⟨(openFd t pid m path size).fds, (openFd t pid m path size).fs, []⟩ := by
    intro size hok hsize
    unfold openFd alloc_fd at hok ⊢
    cases hfree : (List.finRange MAX_OPEN_FILES).find? fun i => !(t i).used with
    | none =>
      rw [hfree] at hok
      exact absurd rfl hok
    | some i =>
      have htake : path.take (MAX_PATH_LEN - 1) = path := take_of_length_le (by omega)
      refine ⟨i, ?_, ?_⟩
      · have hi : i.val < 16 := i.isLt
        simp only [UInt32.toNat_ofNat']
        omega
      · constructor <;> simp only [Function.update_self, htake]
        · rfl
        · exact hsize
        · exact nil_prefix
        · exact hfile
  have hcopy : copy_user_string (some path) = some path := by
    simp only [copy_user_string, Option.filter_some, decide_eq_true hlen, if_true]
  have hexists : (fscmd mem depth).fscmd_exists m path = true := exists_of_contents hfile
  simp only [sys_open, hcopy, hexists, if_true] at hopen ⊢
  split_ifs at hopen ⊢
  · exact hfd _ hopen (.inr rfl)
  · exact hfd _ hopen (.inl (size_of_contents hfile))

/-- While the path of a descriptor leads to the file that was opened, its reads give the contents from the beginning on,
and then zero. -/
theorem descriptor_reads_file (mem : ℕ → Bool) (depth : ℕ) (t : FdTable) (hfile : contents m path = some data)
    {r : Reply Mounted} (hr : sys_open (fscmd mem depth) m t pid (some path) = r) (hopen : r.eax ≠ failure)
    {turns : List Turn} (hkeep : EachStep (turnStep (fscmd mem depth) pid r.eax) (KeepsFile path) ⟨r.fds, r.fs, []⟩ turns) :
    Throughout (turnStep (fscmd mem depth) pid r.eax) (fun s => s.got <+: data) ⟨r.fds, r.fs, []⟩ turns ∧
      EachStep (turnStep (fscmd mem depth) pid r.eax) (EndsAt (fscmd mem depth) pid r.eax data) ⟨r.fds, r.fs, []⟩ turns := by
  subst hr
  obtain ⟨i, hi, hstart⟩ := tracks_open hfile hopen
  have hstep : ∀ s turn (rest : List Turn), Tracks path data pid i s → KeepsFile path s turn →
      Tracks path data pid i (turnStep (fscmd mem depth) pid _ s turn) := fun s turn _ h hk => tracks_step h hi hk
  exact ⟨throughout_of_inv (J := fun s _ => Tracks path data pid i s) hstep (fun _ _ h => h.got) hstart hkeep,
    eachStep_of_inv (J := fun s _ => Tracks path data pid i s) hstep (fun s turn _ h hk => tracks_endsAt h hi hk)
      hstart hkeep⟩

/-- The root directory and a subdirectory `D` both hold a file `A`, with the bytes 1, 2 and 3, 4. -/
def twoFiles : Mounted :=
  .fat16 {
    spc := 1
    fatLen := 256
    rootLen := 16
    fat := fun c => if c < 5 then 0xFFFF else 0
    area := fun b => match b with
      | none => Bytes.ofList (entryBytes (padTo 11 [0x41]) 0x20 2 2 ++ entryBytes (padTo 11 [0x44]) 0x10 3 0)
      | some 2 => Bytes.ofList [1, 2]
      | some 3 => Bytes.ofList (entryBytes (padTo 11 [dot]) 0x10 3 0 ++ entryBytes (padTo 11 [dot, dot]) 0x10 0 0 ++
          entryBytes (padTo 11 [0x41]) 0x20 4 2)
      | some _ => Bytes.ofList [3, 4]
    hint := 2
    cwd := 0 } [slash]

def openedIn (path : Path) : Reply Mounted := sys_open (fscmd (fun _ => true) 1) twoFiles (fun _ => .zero) 1 (some path)

def readAroundChdir : List Turn :=
  [.read true .valid 1, .chdir (some [slash, 0x44]), .read true .valid 1, .read true .valid 1]

theorem descriptor_reads_absolute :
    Throughout (turnStep (fscmd (fun _ => true) 1) 1 (openedIn [slash, 0x41]).eax) (fun s => s.got <+: [1, 2])
        ⟨(openedIn [slash, 0x41]).fds, (openedIn [slash, 0x41]).fs, []⟩ readAroundChdir ∧
      EachStep (turnStep (fscmd (fun _ => true) 1) 1 (openedIn [slash, 0x41]).eax)
        (EndsAt (fscmd (fun _ => true) 1) 1 (openedIn [slash, 0x41]).eax [1, 2])
        ⟨(openedIn [slash, 0x41]).fds, (openedIn [slash, 0x41]).fs, []⟩ readAroundChdir := by
  have hfile : contents twoFiles [slash, 0x41] = some [1, 2] := by decide +kernel
  have hopen : (openedIn [slash, 0x41]).eax ≠ failure := by decide +kernel
  have hcd : (match (fscmd_cd (turnStep (fscmd (fun _ => true) 1) 1 (openedIn [slash, 0x41]).eax
      ⟨(openedIn [slash, 0x41]).fds, (openedIn [slash, 0x41]).fs, []⟩ (.read true .valid 1)).fs [slash, 0x44]).2 with
      | .lost => false
      | _ => true) = true := by
    decide +kernel
  refine descriptor_reads_file (r := openedIn [slash, 0x41]) (fun _ => true) 1 (fun _ => .zero) hfile rfl hopen
    ⟨?_, ⟨fun hlost => ?_, .inl rfl⟩, ?_, ?_, trivial⟩
  · show Mounted.clusterFits _ = true
    decide +kernel
  · rw [hlost] at hcd
    cases hcd
  · show Mounted.clusterFits _ = true
    decide +kernel
  · show Mounted.clusterFits _ = true
    decide +kernel

/-- After a directory change the descriptor reads another file. -/
theorem chdir_switches_file :
    contents twoFiles [0x41] = some [1, 2] ∧ (openedIn [0x41]).eax ≠ failure ∧
      ¬Throughout (turnStep (fscmd (fun _ => true) 1) 1 (openedIn [0x41]).eax) (fun s => s.got <+: [1, 2])
        ⟨(openedIn [0x41]).fds, (openedIn [0x41]).fs, []⟩ readAroundChdir := by
  refine ⟨by decide +kernel, by decide +kernel, fun h => ?_⟩
  have hlast := throughout_iff_prefix.mp h readAroundChdir prefix_rfl
  have hgot : (exec (turnStep (fscmd (fun _ => true) 1) 1 (openedIn [0x41]).eax)
      ⟨(openedIn [0x41]).fds, (openedIn [0x41]).fs, []⟩ readAroundChdir).got = [1, 4] := by decide +kernel
  rw [hgot] at hlast
  exact absurd hlast (by decide)

end Orion.Syscall
