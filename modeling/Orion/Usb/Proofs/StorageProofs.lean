import Orion.Usb.Storage

/-!
# Proofs: drive ids follow the positions in the table

The drive id of a device is that of its position. A removal puts the last device of the table in the gap: a device keeps
its id exactly as long as nothing is removed in front of it.
-/

namespace Orion.Usb

open Lib List

variable {s : State} {p : Dev → Bool} {devs : List Dev} {n i : ℕ} {d x : Dev} {P : ℕ × ℕ × ℕ → Bool} {e : Dev} {op : Op}

/-- Every entry has the drive id of its position. -/
def IdsByPosition (devs : List Dev) : Prop := ∀ i d, devs[i]? = some d → d.drive_id = driveId i

/-- The invariant of a run: ids follow the positions, and no device is listed twice. -/
structure Inv (s : State) : Prop where
  ids : IdsByPosition s.devs
  short : s.devs.length ≤ maxDevs
  known : ∀ d ∈ s.devs, d.device < s.attached
  distinct : (s.devs.map Dev.device).Nodup

/-- What the removals do not change in an entry. -/
def Dev.key (d : Dev) : ℕ × ℕ × ℕ := (d.hc, d.dev, d.device)

theorem driveId_inj {j : ℕ} (hi : i < maxDevs) (hj : j < maxDevs) (h : driveId i = driveId j) : i = j := by
  have hi' : i < 4 := hi
  have hj' : j < 4 := hj
  have hnat := congrArg UInt8.toNat h
  simp only [driveId, UInt8.toNat_ofNat'] at hnat
  omega

theorem exists_getLast (hi : devs[i]? = some d) : ∃ x, devs.getLast? = some x := by
  cases hx : devs.getLast? with
  | none =>
    rw [getLast?_eq_none_iff.mp hx] at hi
    simp at hi
  | some x => exact ⟨x, rfl⟩

section RemoveAt

variable (hi : devs[i]? = some d) (hx : devs.getLast? = some x)

include hi hx

theorem exists_front : ∃ front, devs = front ++ [x] ∧ i ≤ front.length := by
  obtain ⟨front, rfl⟩ := getLast?_eq_some_iff.mp hx
  have hlt : i < (front ++ [x]).length := (List.getElem?_eq_some_iff.mp hi).1
  simp only [length_append, length_singleton] at hlt
  exact ⟨front, rfl, by omega⟩

theorem removeAt_eq : ∃ front, devs = front ++ [x] ∧ (i < front.length ∧
    removeAt devs i x = front.set i { x with drive_id := driveId i } ∨ i = front.length ∧ removeAt devs i x = front) := by
  obtain ⟨front, rfl, hle⟩ := exists_front hi hx
  refine ⟨front, rfl, ?_⟩
  unfold removeAt
  by_cases hlt : i < front.length
  · left
    rw [if_pos (by simp; omega), set_append_left _ _ hlt, dropLast_concat]
    exact ⟨hlt, rfl⟩
  · right
    rw [if_neg (by simp; omega), dropLast_concat]
    exact ⟨by omega, rfl⟩

theorem removeAt_perm : ((removeAt devs i x).map Dev.key).Perm ((devs.eraseIdx i).map Dev.key) := by
  obtain ⟨front, rfl, ⟨hlt, heq⟩ | ⟨rfl, heq⟩⟩ := removeAt_eq hi hx
  · rw [heq, eraseIdx_append_of_lt_length hlt, map_append, map_set, ← eraseIdx_map]
    have hlt' : i < (front.map Dev.key).length := by simpa using hlt
    exact (set_perm_cons_eraseIdx hlt' _).trans (perm_append_singleton _ _).symm
  · rw [heq, eraseIdx_append_of_length_le (le_refl _)]
    simp

theorem length_removeAt : (removeAt devs i x).length + 1 = devs.length := by
  obtain ⟨front, rfl, ⟨-, heq⟩ | ⟨-, heq⟩⟩ := removeAt_eq hi hx <;> simp [heq]

theorem removeAt_ids (hids : IdsByPosition devs) : IdsByPosition (removeAt devs i x) := by
  obtain ⟨front, rfl, hcase⟩ := removeAt_eq hi hx
  have hfront : IdsByPosition front := by
    intro j e hj
    have hlt : j < front.length := (List.getElem?_eq_some_iff.mp hj).1
    exact hids j e (by rw [getElem?_append_left hlt, hj])
  rcases hcase with ⟨hlt, heq⟩ | ⟨-, heq⟩
  · intro j e hj
    rw [heq, getElem?_set, if_pos hlt] at hj
    split at hj
    · rename_i hij
      subst hij
      rw [← Option.some.inj hj]
    · exact hfront j e hj
  · rw [heq]
    exact hfront

theorem take_removeAt : (removeAt devs i x).take i = devs.take i := by
  obtain ⟨front, rfl, ⟨hlt, heq⟩ | ⟨rfl, heq⟩⟩ := removeAt_eq hi hx
  · rw [heq, take_set_of_le (le_refl _), take_append_of_le_length (le_of_lt hlt)]
  · rw [heq]
    simp

theorem removeAt_tail (hp : ∀ e e' : Dev, e.key = e'.key → p e = p e')
    (htail : ∀ j e, i ≤ j → devs[j]? = some e → p e = true) :
    ∀ j e, i ≤ j → (removeAt devs i x)[j]? = some e → p e = true := by
  obtain ⟨front, rfl, ⟨hlt, heq⟩ | ⟨rfl, heq⟩⟩ := removeAt_eq hi hx
  · intro j e hij hj
    rw [heq, getElem?_set, if_pos hlt] at hj
    split at hj
    · rw [← Option.some.inj hj, hp { x with drive_id := driveId i } x rfl]
      exact htail front.length x (by omega) (by simp)
    · have hjlt : j < front.length := (List.getElem?_eq_some_iff.mp hj).1
      exact htail j e hij (by rw [getElem?_append_left hjlt, hj])
  · intro j e hij hj
    rw [heq] at hj
    have hjlt : j < front.length := (List.getElem?_eq_some_iff.mp hj).1
    omega

end RemoveAt

theorem filter_eraseIdx {α : Type*} {q : α → Bool} {l : List α} {a : α} (hi : l[i]? = some a) (ha : q a = false) :
    (l.eraseIdx i).filter q = l.filter q := by
  obtain ⟨hlt, hget⟩ := List.getElem?_eq_some_iff.mp hi
  rw [eraseIdx_eq_take_drop_succ, filter_append]
  conv_rhs => rw [← take_append_drop i l, drop_eq_getElem_cons hlt, hget, filter_append]
  rw [filter_cons_of_neg (by simp [ha])]

theorem filter_keys_of_front (hle : devs.length ≤ i) (hfront : ∀ j e, j < i → devs[j]? = some e → P e.key = false) :
    ((devs.map Dev.key).filter fun k => !P k) = devs.map Dev.key := by
  rw [filter_eq_self]
  intro k hk
  obtain ⟨e, he, rfl⟩ := mem_map.mp hk
  obtain ⟨j, hj⟩ := getElem?_of_mem he
  have hlt : j < devs.length := (List.getElem?_eq_some_iff.mp hj).1
  simp [hfront j e (by omega) hj]

/-- The loop removes the entries that satisfy `p`, and the others get the drive ids of their positions. -/
theorem dropLoop_spec (hids : IdsByPosition devs) (hn : devs.length ≤ i + n)
    (hfront : ∀ j e, j < i → devs[j]? = some e → P e.key = false) :
    IdsByPosition (dropLoop (fun e => P e.key) n i devs) ∧
      ((dropLoop (fun e => P e.key) n i devs).map Dev.key).Perm ((devs.map Dev.key).filter fun k => !P k) := by
  induction n generalizing i devs with
  | zero =>
    rw [filter_keys_of_front hn hfront]
    exact ⟨hids, List.Perm.refl _⟩
  | succ n ih =>
    unfold dropLoop
    rcases hi : devs[i]? with _ | d
    · rw [filter_keys_of_front (getElem?_eq_none_iff.mp hi) hfront]
      exact ⟨hids, List.Perm.refl _⟩
    obtain ⟨x, hx⟩ := exists_getLast hi
    simp only [hx]
    split
    · rename_i hp
      have hlen := length_removeAt hi hx
      have hfront' : ∀ j e, j < i → (removeAt devs i x)[j]? = some e → P e.key = false := by
        intro j e hj he
        apply hfront j e hj
        rw [← getElem?_take_of_lt hj] at he ⊢
        rwa [take_removeAt hi hx] at he
      obtain ⟨hids', hperm⟩ := ih (removeAt_ids hi hx hids) (by omega) hfront'
      refine ⟨hids', hperm.trans ?_⟩
      have hkey : (devs.map Dev.key)[i]? = some d.key := by simp [hi]
      have hrem := (removeAt_perm hi hx).filter fun k => !P k
      rwa [← eraseIdx_map, filter_eraseIdx hkey (by simp [hp])] at hrem
    · rename_i hp
      refine ih hids (by omega) fun j e hj he => ?_
      by_cases hji : j = i
      · subst hji
        obtain rfl := Option.some.inj (hi.symm.trans he)
        simpa using hp
      · exact hfront j e (by omega) he

theorem dropLoop_eq_take (hp : ∀ e e' : Dev, e.key = e'.key → p e = p e') (hn : devs.length ≤ i + n)
    (htail : ∀ j e, i ≤ j → devs[j]? = some e → p e = true) : dropLoop p n i devs = devs.take i := by
  induction n generalizing devs with
  | zero => exact (take_of_length_le hn).symm
  | succ n ih =>
    unfold dropLoop
    rcases hi : devs[i]? with _ | d
    · exact (take_of_length_le (getElem?_eq_none_iff.mp hi)).symm
    obtain ⟨x, hx⟩ := exists_getLast hi
    have hlen := length_removeAt hi hx
    simp only [hx, htail i d (le_refl _) hi, if_true]
    rw [ih (by omega) (removeAt_tail hi hx hp htail), take_removeAt hi hx]

theorem dropLoop_skip {k : ℕ} (hlen : i + k ≤ devs.length)
    (hstay : ∀ j e, i ≤ j → j < i + k → devs[j]? = some e → p e = false) :
    dropLoop p (k + n) i devs = dropLoop p n (i + k) devs := by
  induction k generalizing i with
  | zero => simp
  | succ k ih =>
    have hlt : i < devs.length := by omega
    have hi : devs[i]? = some devs[i] := getElem?_eq_getElem hlt
    obtain ⟨x, hx⟩ := exists_getLast hi
    rw [show k + 1 + n = k + n + 1 by omega, dropLoop, hi, hx]
    simp only [hstay i devs[i] (le_refl _) (by omega) hi, Bool.false_eq_true, if_false]
    rw [ih (by omega) fun j e hij hj => hstay j e (by omega) (by omega)]
    congr 1
    omega

section Drop

variable (hc dev : ℕ)

def isKey (k : ℕ × ℕ × ℕ) : Bool := k.1 = hc ∧ k.2.1 = dev

theorem is_eq_isKey : Dev.is hc dev = fun e => isKey hc dev e.key := rfl

def survivors (devs : List Dev) : List Dev := devs.filter fun d => !Dev.is hc dev d

variable {hc dev}

theorem map_key_survivors : (survivors hc dev devs).map Dev.key = (devs.map Dev.key).filter fun k => !isKey hc dev k := by
  rw [survivors, is_eq_isKey, filter_map]
  rfl

theorem drop_spec (hids : IdsByPosition devs) : IdsByPosition (dropLoop (Dev.is hc dev) devs.length 0 devs) ∧
    ((dropLoop (Dev.is hc dev) devs.length 0 devs).map Dev.key).Perm ((survivors hc dev devs).map Dev.key) := by
  rw [map_key_survivors, is_eq_isKey]
  exact dropLoop_spec hids (by omega) fun j e hj => absurd hj (by omega)

theorem dropLoop_of_first (hpre : survivors hc dev devs <+: devs) :
    dropLoop (Dev.is hc dev) devs.length 0 devs = survivors hc dev devs := by
  obtain ⟨tail, htail⟩ := hpre
  have hgone : survivors hc dev tail = [] := by
    have hsplit : survivors hc dev devs = survivors hc dev (survivors hc dev devs) ++ survivors hc dev tail := by
      conv_lhs => rw [← htail]
      exact filter_append _ _
    have hself : survivors hc dev (survivors hc dev devs) = survivors hc dev devs := by
      simp [survivors, filter_filter]
    rw [hself] at hsplit
    simpa using hsplit
  generalize hF : survivors hc dev devs = front at htail
  have hstay : ∀ d ∈ front, Dev.is hc dev d = false := by
    intro d hd
    rw [← hF, survivors, mem_filter] at hd
    simpa using hd.2
  have hlen : devs.length = front.length + tail.length := by rw [← htail, length_append]
  rw [hlen, dropLoop_skip (by omega), Nat.zero_add, dropLoop_eq_take (fun e e' h => by simp only [is_eq_isKey, h]) (by omega),
    ← htail, take_left]
  · intro j e hj he
    rw [← htail, getElem?_append_right hj] at he
    have hmem := mem_of_getElem? he
    have hnone : e ∉ survivors hc dev tail := by simp [hgone]
    simpa [survivors, hmem] using hnone
  · intro j e _ hj he
    rw [← htail, getElem?_append_left (by omega)] at he
    exact hstay e (mem_of_getElem? he)

end Drop

section

variable (hI : Inv s) (hd : d ∈ s.devs)

include hI hd

theorem Inv.eq_of_device (he : e ∈ s.devs) (h : d.device = e.device) : d = e := inj_on_of_nodup_map hI.distinct hd he h

theorem Inv.eq_of_drive_id (he : e ∈ s.devs) (h : d.drive_id = e.drive_id) : d = e := by
  obtain ⟨j, hj⟩ := getElem?_of_mem hd
  obtain ⟨k, hk⟩ := getElem?_of_mem he
  have hjlt := (List.getElem?_eq_some_iff.mp hj).1
  have hklt := (List.getElem?_eq_some_iff.mp hk).1
  rw [hI.ids j d hj, hI.ids k e hk] at h
  obtain rfl := driveId_inj (hjlt.trans_le hI.short) (hklt.trans_le hI.short) h
  exact Option.some.inj (hj.symm.trans hk)

theorem Inv.find_dev_by_drive : find_dev_by_drive s d.drive_id = some d := by
  cases hfind : Usb.find_dev_by_drive s d.drive_id with
  | none =>
    have hnone := find?_eq_none.mp hfind d hd
    simp at hnone
  | some e =>
    have he : e.drive_id = d.drive_id := by simpa using find?_some hfind
    rw [hI.eq_of_drive_id (mem_of_find?_eq_some hfind) hd he]

end

theorem Inv.distinctIds (hI : Inv s) : DistinctIds s :=
  hI.distinct.of_map.map_on fun _ hd _ he h => hI.eq_of_drive_id hd he h

theorem inv_init : Inv init := ⟨by simp [IdsByPosition, init], by simp [init], by simp [init], by simp [init]⟩

theorem step_cases (s : State) (op : Op) : step s op = s ∨ (s.devs.length < maxDevs ∧ ∃ hc dev,
      step s op = ⟨s.devs ++ [⟨hc, dev, driveId s.devs.length, s.attached⟩], s.attached + 1⟩) ∨
    (∃ hc dev, op = .drop hc dev ∧ step s op = { s with devs := dropLoop (Dev.is hc dev) s.devs.length 0 s.devs }) ∨
    op = .reset ∧ step s op = { s with devs := [] } := by
  cases op with
  | attach hc dev capacity =>
    simp only [step, attach]
    split
    · exact .inl rfl
    · split
      · exact .inl rfl
      · exact .inr (.inl ⟨by omega, hc, dev, rfl⟩)
  | drop hc dev => exact .inr (.inr (.inl ⟨hc, dev, rfl, rfl⟩))
  | reset => exact .inr (.inr (.inr ⟨rfl, rfl⟩))

theorem mem_of_drop {hc dev : ℕ} (hids : IdsByPosition devs)
    (hd : d ∈ dropLoop (Dev.is hc dev) devs.length 0 devs) : ∃ e ∈ survivors hc dev devs, e.key = d.key := by
  have hkey : d.key ∈ (survivors hc dev devs).map Dev.key := (drop_spec hids).2.subset (mem_map_of_mem hd)
  exact mem_map.mp hkey

theorem device_eq_of_key (h : e.key = d.key) : e.device = d.device := congrArg (·.2.2) h

theorem Inv.drop (hI : Inv s) (hc dev : ℕ) : Inv (usb_storage_drop_device s hc dev) := by
  obtain ⟨hids, hperm⟩ : _ ∧ (_ : List _).Perm ((survivors hc dev s.devs).map Dev.key) := drop_spec hI.ids
  have hsub : (survivors hc dev s.devs).Sublist s.devs := filter_sublist
  constructor
  · exact hids
  · have hlen := hperm.length_eq
    rw [length_map, length_map] at hlen
    exact hlen.trans_le (hsub.length_le.trans hI.short)
  · intro d hd
    obtain ⟨e, he, hkey⟩ := mem_of_drop hI.ids hd
    rw [← device_eq_of_key hkey]
    exact hI.known e (hsub.subset he)
  · have hdev := hperm.map fun k => k.2.2
    rw [map_map, map_map] at hdev
    exact hdev.nodup_iff.mpr (hI.distinct.sublist (hsub.map Dev.device))

theorem Inv.push (hI : Inv s) (hc dev : ℕ) (hlen : s.devs.length < maxDevs) :
    Inv ⟨s.devs ++ [⟨hc, dev, driveId s.devs.length, s.attached⟩], s.attached + 1⟩ := by
  constructor
  · intro j d hj
    rcases lt_or_ge j s.devs.length with hlt | hge
    · rw [getElem?_append_left hlt] at hj
      exact hI.ids j d hj
    rw [getElem?_append_right hge, getElem?_singleton] at hj
    split at hj
    · obtain rfl : j = s.devs.length := by omega
      rw [← Option.some.inj hj]
    · cases hj
  · simpa using hlen
  · intro d hd
    rcases mem_append.mp hd with hd | hd
    · exact (hI.known d hd).trans (Nat.lt_succ_self _)
    · rw [mem_singleton.mp hd]
      exact Nat.lt_succ_self _
  · simp only [map_append, map_singleton, nodup_append_comm, singleton_append, nodup_cons]
    refine ⟨fun hmem => ?_, hI.distinct⟩
    obtain ⟨d, hd, heq⟩ := mem_map.mp hmem
    exact absurd (hI.known d hd) (by omega)

theorem Inv.step (hI : Inv s) (op : Op) : Inv (step s op) := by
  rcases step_cases s op with h | ⟨hlen, hc, dev, h⟩ | ⟨hc, dev, -, h⟩ | ⟨-, h⟩ <;> rw [h]
  · exact hI
  · exact hI.push hc dev hlen
  · exact hI.drop hc dev
  · exact ⟨by simp [IdsByPosition], by simp, by simp, by simp⟩

theorem Inv.exec (hI : Inv s) (ops : List Op) : Inv (exec Usb.step s ops) := by
  induction ops generalizing s with
  | nil => exact hI
  | cons op ops ih => exact ih (hI.step op)

theorem mem_of_step (hI : Inv s) (op : Op) (hd : d ∈ (step s op).devs) (hold : d.device < s.attached) :
    ∃ e ∈ s.devs, e.device = d.device := by
  rcases step_cases s op with h | ⟨-, hc, dev, h⟩ | ⟨hc, dev, -, h⟩ | ⟨-, h⟩ <;> rw [h] at hd
  · exact ⟨d, hd, rfl⟩
  · rcases mem_append.mp hd with hd | hd
    · exact ⟨d, hd, rfl⟩
    · rw [mem_singleton.mp hd] at hold
      exact absurd hold (lt_irrefl _)
  · obtain ⟨e, he, hkey⟩ := mem_of_drop hI.ids hd
    exact ⟨e, filter_sublist.subset he, device_eq_of_key hkey⟩
  · cases hd

theorem attached_le_step (s : State) (op : Op) : s.attached ≤ (step s op).attached := by
  rcases step_cases s op with h | ⟨-, hc, dev, h⟩ | ⟨hc, dev, -, h⟩ | ⟨-, h⟩ <;> rw [h]
  exact Nat.le_succ _

theorem mem_of_exec (hI : Inv s) (ops : List Op) (hd : d ∈ (exec step s ops).devs)
    (hold : d.device < s.attached) : ∃ e ∈ s.devs, e.device = d.device := by
  induction ops generalizing s with
  | nil => exact ⟨d, hd, rfl⟩
  | cons op ops ih =>
    obtain ⟨e, he, heq⟩ := ih (hI.step op) hd (hold.trans_le (attached_le_step s op))
    rw [← heq] at hold ⊢
    exact mem_of_step hI op he hold

theorem Inv.keepsIds_of_subset (hI : Inv s) {s' : State} (hI' : Inv s')
    (hsub : ∀ d ∈ s'.devs, d.device < s.attached → d ∈ s.devs) : KeepsIds s s' := by
  intro d hd d' hd' hdev
  have hmem : d' ∈ s.devs := hsub d' hd' (hdev ▸ hI.known d hd)
  obtain rfl := hI.eq_of_device hd hmem hdev
  exact ⟨rfl, hI'.find_dev_by_drive hd'⟩

theorem Inv.keepsIds_step (hI : Inv s) (hmoves : ¬ Moves s op) : KeepsIds s (Usb.step s op) := by
  refine hI.keepsIds_of_subset (hI.step op) fun d hd hold => ?_
  rcases step_cases s op with h | ⟨-, hc, dev, h⟩ | ⟨hc, dev, rfl, h⟩ | ⟨-, h⟩ <;> rw [h] at hd
  · exact hd
  · rcases mem_append.mp hd with hd | hd
    · exact hd
    · rw [mem_singleton.mp hd] at hold
      exact absurd hold (lt_irrefl _)
  · have hpre : survivors hc dev s.devs <+: s.devs := not_not.mp hmoves
    rw [dropLoop_of_first hpre] at hd
    exact hpre.subset hd
  · cases hd

/-- If the devices that stay keep their ids, they were the first ones of the table. -/
theorem Inv.not_moves (hI : Inv s) (hkeeps : KeepsIds s (Usb.step s op)) : ¬ Moves s op := by
  cases op with
  | attach hc dev capacity => exact not_false
  | reset => exact not_false
  | drop hc dev =>
    refine not_not.mpr ?_
    change survivors hc dev s.devs <+: s.devs
    have hI' := hI.drop hc dev
    obtain ⟨-, hperm⟩ : _ ∧ (_ : List _).Perm ((survivors hc dev s.devs).map Dev.key) := drop_spec hI.ids
    have hlen := hperm.length_eq
    rw [length_map, length_map] at hlen
    generalize hk : (survivors hc dev s.devs).length = k at hlen
    have hdrop : survivors hc dev (s.devs.drop k) = [] := by
      rw [survivors, filter_eq_nil_iff]
      intro d hd hstay
      obtain ⟨j, hj⟩ := getElem?_of_mem hd
      rw [getElem?_drop] at hj
      have hmem : d ∈ s.devs := mem_of_getElem? hj
      have hsurv : d.key ∈ (survivors hc dev s.devs).map Dev.key := mem_map_of_mem (mem_filter.mpr ⟨hmem, hstay⟩)
      obtain ⟨d', hd', hkey⟩ := mem_map.mp (hperm.symm.subset hsurv)
      obtain ⟨hid, -⟩ := hkeeps d hmem d' hd' (device_eq_of_key hkey).symm
      obtain ⟨j', hj'⟩ := getElem?_of_mem hd'
      have hlt := (List.getElem?_eq_some_iff.mp hj).1
      have hlt' := (List.getElem?_eq_some_iff.mp hj').1
      rw [hI.ids _ d hj, hI'.ids j' d' hj'] at hid
      have hpos := driveId_inj (hlt'.trans_le hI'.short) (hlt.trans_le hI.short) hid
      omega
    have htake : survivors hc dev s.devs = survivors hc dev (s.devs.take k) := by
      conv_lhs => rw [← take_append_drop k s.devs]
      rw [survivors, filter_append]
      change _ ++ survivors hc dev (s.devs.drop k) = _
      rw [hdrop, append_nil]
      rfl
    have hsub : (survivors hc dev (s.devs.take k)).Sublist (s.devs.take k) := filter_sublist
    have heq := hsub.eq_of_length_le (by rw [← htake, hk]; exact length_take_le k s.devs)
    rw [htake, heq]
    exact take_prefix k s.devs

theorem Inv.keepsIds_exec {ops : List Op} (hI : Inv s) (hstill : EachStep Usb.step (fun s op => ¬ Moves s op) s ops) :
    KeepsIds s (Lib.exec Usb.step s ops) := by
  induction ops generalizing s with
  | nil => exact hI.keepsIds_of_subset hI fun d hd _ => hd
  | cons op ops ih =>
    intro d hd d' hd' hdev
    have hold : d'.device < s.attached := hdev ▸ hI.known d hd
    obtain ⟨e, he, hed⟩ := mem_of_exec (hI.step op) ops hd' (hold.trans_le (attached_le_step s op))
    obtain ⟨hid, -⟩ := hI.keepsIds_step hstill.1 d hd e he (hdev.trans hed.symm)
    rw [← hid]
    exact ih (hI.step op) hstill.2 e he d' hd' hed

/-- The ids of the attached devices are distinct and stable exactly if no removal takes out a device in front of one
that stays. -/
theorem stableIds_iff (ops : List Op) : StableIds ops ↔ EachStep step (fun s op => ¬ Moves s op) init ops := by
  constructor
  · intro hstable
    refine eachStep_iff_prefix.mpr fun pre op hpre => ?_
    have hkeeps := (hstable pre [op] hpre).2
    rw [exec_append] at hkeeps
    exact (inv_init.exec pre).not_moves hkeeps
  · intro hstill pre mid hpre
    refine ⟨(inv_init.exec pre).distinctIds, ?_⟩
    rw [exec_append]
    apply (inv_init.exec pre).keepsIds_exec
    refine eachStep_iff_prefix.mpr fun pre' op hpre' => ?_
    rw [← exec_append]
    refine eachStep_iff_prefix.mp hstill (pre ++ pre') op (List.IsPrefix.trans ?_ hpre)
    rw [append_assoc]
    exact (prefix_append_right_inj pre).mpr hpre'

/-- The first of two sticks is pulled: the second, drive 5, is now drive 4, and drive 5 is gone. -/
theorem pulling_the_first_stick_renumbers_the_second : let s := exec step init [.attach 0 1 true, .attach 0 2 true]
    let s' := step s (.drop 0 1)
    s.devs.map (fun d => (d.device, d.drive_id)) = [(0, 4), (1, 5)] ∧
      s'.devs.map (fun d => (d.device, d.drive_id)) = [(1, 4)] ∧ find_dev_by_drive s' 5 = none ∧
      ¬ StableIds [.attach 0 1 true, .attach 0 2 true, .drop 0 1] := by
  refine ⟨by decide, by decide, by decide, fun hstable => ?_⟩
  have hkeeps := (hstable [.attach 0 1 true, .attach 0 2 true] [.drop 0 1] (prefix_refl _)).2
  have hid := (hkeeps ⟨0, 2, 5, 1⟩ (by decide) ⟨0, 2, 4, 1⟩ (by decide) rfl).1
  exact absurd hid (by decide)

end Orion.Usb
