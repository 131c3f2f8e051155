import Mathlib.Data.Nat.Bitwise
import Orion.Usb.Keyboard

/-!
# Makes and breaks of USB keyboards

What is injected for one key between two reports is at most a row of breaks followed by a row of makes, each as long
as the key's entries in the old and in the new report.
-/

namespace Orion.Usb

open Lib List

variable {s : Kbds} {u : UInt8} {low : UInt8} {present : UInt8 → Bool} {keys : List UInt8} {slot : Fin 4} {k : Kbd}
  {tick : UInt32} {r : Report}
  {r' rep : Report} {present' : UInt8 → Bool} {released pressed : List (UInt8 × UInt8 × UInt8)} {prev new : UInt8} {buf : Bytes} {actual : ℕ}

theorem flags_cons (e : Injected) (tr : List Injected) (slot : Fin 4) (key : Key) : flags (e :: tr) slot key =
      if e.slot = slot ∧ e.key = key then e.make :: flags tr slot key else flags tr slot key := by
  unfold flags
  rw [filter_cons]
  by_cases h : e.slot = slot ∧ e.key = key
  · simp [h]
  · simp [h]

theorem flags_append (tr tr' : List Injected) (slot : Fin 4) (key : Key) :
    flags (tr ++ tr') slot key = flags tr slot key ++ flags tr' slot key := by
  simp [flags]

theorem flags_eq_nil {tr : List Injected} {key : Key} (h : ∀ e ∈ tr, ¬ (e.slot = slot ∧ e.key = key)) :
    flags tr slot key = [] := by
  simp only [flags, map_eq_nil_iff, filter_eq_nil_iff, decide_eq_true_eq]
  exact h

theorem usage_low (h : u ≤ 3) : hid_usage_to_set1 u = none := by
  have hle : u.toNat ≤ 3 := UInt8.le_iff_toNat_le.mp h
  have hu : u = UInt8.ofNat u.toNat := UInt8.ofNat_toNat.symm
  generalize u.toNat = n at hle hu
  subst hu
  interval_cases n <;> decide

theorem usage_above (hlow : low ≤ 3) (h : Mapped (.usage u)) : ¬ u ≤ low := by
  intro hle
  have hnone := usage_low (UInt8.le_trans hle hlow)
  simp [Mapped, hnone] at h

theorem mem_changedKeys {e : UInt8 × UInt8 × UInt8}
    (h : e ∈ changedKeys low present keys) : hid_usage_to_set1 e.1 = some e.2 := by
  obtain ⟨key, -, hkey⟩ := mem_filterMap.mp h
  split at hkey
  · cases hkey
  · obtain ⟨c, hc, rfl⟩ := Option.map_eq_some_iff.mp hkey
    exact hc

theorem count_changedKeys (hlow : low ≤ 3) (keys : List UInt8) (hu : Mapped (.usage u)) :
    (changedKeys low present keys).countP (fun e => e.1 = u) = if present u then 0 else keys.count u := by
  have habove := usage_above hlow hu
  obtain ⟨c, hc⟩ := Option.isSome_iff_exists.mp hu
  induction keys with
  | nil => simp [changedKeys]
  | cons key keys ih =>
    unfold changedKeys at ih ⊢
    rw [filterMap_cons, count_cons]
    by_cases heq : key = u
    · subst heq
      by_cases hp : present key = true
      · simp only [hp, or_true, if_true] at ih ⊢
        exact ih
      · simp only [habove, hp, or_self, if_false, hc, Option.map_some, countP_cons, decide_true, if_true,
          beq_self_eq_true, Bool.false_eq_true] at ih ⊢
        rw [ih]
    · have hbeq : (key == u) = false := by simpa using heq
      rw [hbeq]
      cases hstep : (if key ≤ low ∨ present key = true then none
          else (hid_usage_to_set1 key).map fun e => (key, e.1, e.2)) with
      | none => simpa using ih
      | some e =>
        have hkey : e.1 = key := by
          split at hstep
          · cases hstep
          · obtain ⟨c', -, rfl⟩ := Option.map_eq_some_iff.mp hstep
            rfl
        simp only [countP_cons, hkey, heq, decide_false]
        simpa using ih

theorem flags_keyEvents (slot : Fin 4) (make : Bool) (keys : List (UInt8 × UInt8 × UInt8)) (u : UInt8) :
    flags (keyEvents slot make keys) slot (.usage u) = List.replicate (keys.countP fun e => e.1 = u) make := by
  induction keys with
  | nil => rfl
  | cons e keys ih =>
    have hcons : keyEvents slot make (e :: keys) =
        ⟨slot, .usage e.1, e.2.1, e.2.2, make⟩ :: keyEvents slot make keys := rfl
    rw [hcons, flags_cons, countP_cons, ih]
    by_cases he : e.1 = u
    · simp [he, replicate_succ]
    · simp [he]

theorem flags_keyEvents_modifier (slot slot' : Fin 4) (make : Bool) (keys : List (UInt8 × UInt8 × UInt8))
    (b : Fin 8) : flags (keyEvents slot make keys) slot' (.modifier b) = [] := by
  apply flags_eq_nil
  intro e he
  obtain ⟨c, -, rfl⟩ := mem_map.mp he
  simp

theorem flags_modEvents_usage (slot slot' : Fin 4) (prev new : UInt8) (u : UInt8) :
    flags (modEvents slot prev new) slot' (.usage u) = [] := by
  apply flags_eq_nil
  intro e he
  obtain ⟨c, -, hc⟩ := mem_filterMap.mp he
  dsimp only at hc
  split at hc
  · cases hc
  · cases hc
    simp

theorem modifier_bit (x : UInt8) (b : Fin 8) :
    (x &&& (1 <<< UInt8.ofNat b.val)) ≠ 0 ↔ x.toNat.testBit b.val = true := by
  have hmask : ((1 : UInt8) <<< UInt8.ofNat b.val).toNat = 2 ^ b.val := by
    fin_cases b <;> rfl
  rw [Ne, ← UInt8.toNat_inj, UInt8.toNat_and, hmask, Nat.and_two_pow]
  cases x.toNat.testBit b.val <;> simp

theorem flags_modLoop (slot : Fin 4) (prev new : UInt8) (b : Fin 8) (ms : List (Fin 8 × UInt8 × UInt8)) :
    flags (ms.filterMap fun (bit, pre, sc) =>
        if (new ^^^ prev) &&& (1 <<< UInt8.ofNat bit.val) = 0 then none
        else some ⟨slot, .modifier bit, pre, sc, (new &&& (1 <<< UInt8.ofNat bit.val)) ≠ 0⟩) slot (.modifier b) =
      (ms.filter fun m => m.1 = b).flatMap fun _ =>
        if new.toNat.testBit b.val = prev.toNat.testBit b.val then [] else [new.toNat.testBit b.val] := by
  induction ms with
  | nil => rfl
  | cons m ms ih =>
    obtain ⟨bit, pre, sc⟩ := m
    have hxor : (new ^^^ prev) &&& (1 <<< UInt8.ofNat bit.val) = 0 ↔
        new.toNat.testBit bit.val = prev.toNat.testBit bit.val := by
      rw [← not_iff_not, ← Ne, modifier_bit, UInt8.toNat_xor, Nat.testBit_xor]
      simp
    have hmake : decide ((new &&& (1 <<< UInt8.ofNat bit.val)) ≠ 0) = new.toNat.testBit bit.val := by
      rw [Bool.eq_iff_iff, decide_eq_true_iff]
      exact modifier_bit new bit
    rw [filterMap_cons, filter_cons]
    by_cases hb : bit = b
    · subst hb
      by_cases hsame : new.toNat.testBit bit.val = prev.toNat.testBit bit.val
      · simp only [hxor.mpr hsame, if_true, ih, hsame, decide_true, flatMap_cons, nil_append]
      · simp only [hxor.not.mpr hsame, if_false, flags_cons, and_self, if_true, ih, hsame, decide_true,
          flatMap_cons, hmake, singleton_append]
    · by_cases hsame : new.toNat.testBit bit.val = prev.toNat.testBit bit.val
      · simp only [hxor.mpr hsame, if_true, ih, hb, decide_false, Bool.false_eq_true, if_false]
      · simp only [hxor.not.mpr hsame, if_false, flags_cons, Key.modifier.injEq, hb, and_false, ih, decide_false,
          Bool.false_eq_true]

theorem flags_modEvents (slot : Fin 4) (prev new : UInt8) (b : Fin 8) :
    flags (modEvents slot prev new) slot (.modifier b) =
      if new.toNat.testBit b.val = prev.toNat.testBit b.val then [] else [new.toNat.testBit b.val] := by
  have honce : ∃ m, mods.filter (fun m => m.1 = b) = [m] := by
    fin_cases b <;> exact ⟨_, rfl⟩
  obtain ⟨m, hm⟩ := honce
  rw [modEvents, flags_modLoop, hm]
  simp

theorem down_modifier (r : Report) (b : Fin 8) : r.down (.modifier b) = r.mod.toNat.testBit b.val := by
  rw [Report.down, Bool.eq_iff_iff, decide_eq_true_iff]
  exact modifier_bit r.mod b

/-- What is injected between the reports `r` and `r'` toggles a key if and only if the key, where it changes, is named
once. The driver compares with its own copies. -/
theorem toggles_changes (hnew : ∀ u, Mapped (.usage u) → present u = r'.keys.contains u)
    (hold : ∀ u, Mapped (.usage u) → present' u = r.keys.contains u)
    (hkeys : ∀ u, Mapped (.usage u) → keys.count u = r.keys.count u) {ev : List Injected}
    (hev : ev = modEvents slot r.mod r'.mod ++ keyEvents slot false (changedKeys 0 present keys) ++
      keyEvents slot true (changedKeys 3 present' r'.keys)) :
    (∀ key, Mapped key → Toggles (r.down key) (flags ev slot key) (r'.down key)) ↔ SingleChanges r r' := by
  have husage (u : UInt8) (hu : Mapped (.usage u)) : Toggles (r.down (.usage u)) (flags ev slot (.usage u))
      (r'.down (.usage u)) ↔ (u ∈ r.keys → u ∉ r'.keys → r.keys.count u = 1) ∧
        (u ∈ r'.keys → u ∉ r.keys → r'.keys.count u = 1) := by
    rw [hev, flags_append, flags_append, flags_modEvents_usage, flags_keyEvents, flags_keyEvents,
      count_changedKeys (by decide) keys hu, count_changedKeys (by decide) r'.keys hu, hnew u hu, hold u hu,
      hkeys u hu, nil_append, Report.down, Report.down]
    by_cases h : u ∈ r.keys
    · by_cases h' : u ∈ r'.keys
      · simp [h, h']
      · have hpos := count_pos_iff.mpr h
        simp only [contains_iff_mem.mpr h, contains_eq_mem, h', decide_false, Bool.false_eq_true, if_false,
          if_true, replicate_zero, append_nil, toggles_replicate]
        simp [h, Nat.ne_of_gt hpos]
    · by_cases h' : u ∈ r'.keys
      · have hpos := count_pos_iff.mpr h'
        simp only [contains_iff_mem.mpr h', contains_eq_mem, h, decide_false, Bool.false_eq_true, if_false,
          if_true, replicate_zero, nil_append, toggles_replicate]
        simp [h', Nat.ne_of_gt hpos]
      · simp [h, h', count_eq_zero.mpr h, count_eq_zero.mpr h']
  constructor
  · intro hall u hu
    exact (husage u hu).mp (hall _ hu)
  intro hsingle key hkey
  cases key with
  | usage u => exact (husage u hkey).mpr (hsingle u hkey)
  | modifier b =>
    rw [hev, flags_append, flags_append, flags_modEvents, flags_keyEvents_modifier, flags_keyEvents_modifier,
      down_modifier, down_modifier, append_nil, append_nil]
    split
    · rename_i hsame
      simp [hsame]
    · rename_i hdiff
      simp [hdiff]

/-- The driver's own copy of the report processed last. -/
def remembered (k : Kbd) : Report :=
  if k.report_proto then ⟨k.prev_mod, k.prev_keys⟩ else ⟨k.prev_report 0, bootKeys k.prev_report⟩

/-- The copy has the modifiers and keys of the report `r`, a key to repeat has a scancode, and an unused slot has all
keys up. -/
structure Tracks (k : Kbd) (r : Report) : Prop where
  gone : k.active = false → r = .released
  mod : (remembered k).mod = r.mod
  keys : ∀ u, u ≠ 0 → (remembered k).keys.count u = r.keys.count u
  again : k.repeat_active = true → Mapped (.usage k.repeat_hid)

theorem mapped_ne_zero (h : Mapped (.usage u)) : u ≠ 0 := by
  rintro rfl
  have hzero : (0 : UInt8) ≤ 3 := by decide
  exact usage_above hzero h (UInt8.le_refl 0)

theorem Tracks.contains (h : Tracks k r) (hu : u ≠ 0) : (remembered k).keys.contains u = r.keys.contains u := by
  rw [Bool.eq_iff_iff, contains_iff_mem, contains_iff_mem, ← count_pos_iff, ← count_pos_iff, h.keys u hu]

theorem tracks_released (hrep : k.prev_report = fun _ => 0) (hmod : k.prev_mod = 0) (hkeys : k.prev_keys = [])
    (hagain : k.repeat_active = false) : Tracks k .released where
  gone := fun _ => rfl
  mod := by
    unfold remembered
    split <;> simp [hrep, hmod, Report.released]
  keys := by
    intro u hu
    unfold remembered
    split
    · simp [hkeys, Report.released]
    · simp [hrep, Report.released, bootKeys, hu.symm]
  again := by simp [hagain]

theorem setRepeat_mapped (hk : k.repeat_active = true → Mapped (.usage k.repeat_hid)) :
    (setRepeat k tick released (changedKeys low present' keys) present).repeat_active = true →
      Mapped (.usage (setRepeat k tick released (changedKeys low present' keys) present).repeat_hid) := by
  unfold setRepeat
  split
  · rename_i key pre sc rest hpressed
    intro _
    have hmem : (key, pre, sc) ∈ changedKeys low present' keys := by simp [hpressed]
    simp [Mapped, mem_changedKeys hmem]
  · intro hactive
    simp only [Bool.and_eq_true] at hactive
    exact hk hactive.1.1

theorem setRepeat_active :
    (setRepeat k tick released pressed present).active = k.active ∧
      (setRepeat k tick released pressed present).report_proto = k.report_proto := by
  unfold setRepeat
  split <;> exact ⟨rfl, rfl⟩

theorem bootKeys_splice (b buf : Bytes) : bootKeys (b.splice 0 8 buf) = bootKeys buf := by
  simp [bootKeys, Bytes.splice]

theorem keyEvents_slot {make : Bool} {keys : List (UInt8 × UInt8 × UInt8)} :
    ∀ e ∈ keyEvents slot make keys, e.slot = slot := by
  intro e he
  obtain ⟨c, -, rfl⟩ := mem_map.mp he
  rfl

theorem modEvents_slot : ∀ e ∈ modEvents slot prev new, e.slot = slot := by
  intro e he
  obtain ⟨c, -, hc⟩ := mem_filterMap.mp he
  dsimp only at hc
  split at hc
  · cases hc
  · cases hc
    rfl

theorem changes_slot :
    ∀ e ∈ modEvents slot prev new ++ keyEvents slot false released ++ keyEvents slot true pressed, e.slot = slot := by
  intro e he
  simp only [mem_append] at he
  rcases he with (he | he) | he
  · exact modEvents_slot e he
  · exact keyEvents_slot e he
  · exact keyEvents_slot e he

/-- What a processed report `r'` leaves and injects: the scancodes toggle the keys exactly if changes are named once. -/
structure Handled (slot : Fin 4) (r r' : Report) (out : Kbd × List Injected) : Prop where
  tracks : Tracks out.1 r'
  own : ∀ e ∈ out.2, e.slot = slot
  toggles : (∀ key, Mapped key → Toggles (r.down key) (flags out.2 slot key) (r'.down key)) ↔ SingleChanges r r'

section Process

variable (slot : Fin 4) (hk : Tracks k r) (tick : UInt32)

include hk

theorem Tracks.handled {old : Report} (hold : remembered k = old) {k' : Kbd} (hactive : k'.active = true)
    (hk' : remembered k' = r') (hagain : k'.repeat_active = true → Mapped (.usage k'.repeat_hid))
    (hnew : ∀ u, Mapped (.usage u) → present u = r'.keys.contains u)
    (hpresent : ∀ u, Mapped (.usage u) → present' u = old.keys.contains u) :
    Handled slot r r' (k', modEvents slot old.mod r'.mod ++ keyEvents slot false (changedKeys 0 present old.keys) ++
      keyEvents slot true (changedKeys 3 present' r'.keys)) where
  tracks := ⟨by simp [hactive], by rw [hk'], by simp [hk'], hagain⟩
  own := changes_slot
  toggles := by
    subst hold
    rw [hk.mod]
    exact toggles_changes hnew (fun u hu => (hpresent u hu).trans (hk.contains (mapped_ne_zero hu)))
      (fun u hu => hk.keys u (mapped_ne_zero hu)) rfl

variable (hactive : k.active = true)

include hactive

theorem process_report_report_spec (hproto : k.report_proto = true)
    (h : kbd_report_extract k.report buf actual = some r') :
    Handled slot r r' (process_report_report slot k buf actual tick) := by
  simp only [process_report_report, h]
  refine hk.handled slot (if_pos hproto) ?_ ?_ (setRepeat_mapped hk.again) (fun u _ => rfl) (fun u _ => rfl)
  · exact setRepeat_active.1.trans hactive
  · simp [remembered, setRepeat_active.2, hproto]

theorem process_report_boot_spec (hproto : ¬ k.report_proto = true) (h : bootReport buf actual = some r') :
    Handled slot r r' (process_report_boot slot k buf actual tick) := by
  have hrep : r' = ⟨buf 0, bootKeys buf⟩ := by
    unfold bootReport at h
    split at h
    · cases h
    · split at h
      · cases h
      · exact (Option.some.inj h).symm
  have hpresent (rep : Bytes) (u : UInt8) (hu : Mapped (.usage u)) :
      hid_usage_present rep u = (bootKeys rep).contains u := by
    simp [hid_usage_present, mapped_ne_zero hu]
  simp only [process_report_boot, h]
  subst hrep
  refine hk.handled slot (if_neg hproto) ?_ ?_ (setRepeat_mapped hk.again) (hpresent buf) (hpresent k.prev_report)
  · exact setRepeat_active.1.trans hactive
  · simp [remembered, setRepeat_active.2, hproto, bootKeys_splice, Bytes.splice]

theorem handle_some (h : Kbds.processed k buf actual = some r') :
    Handled slot r r' (Kbds.handle slot k buf actual tick) := by
  unfold Kbds.processed at h
  unfold Kbds.handle
  split at h
  · cases h
  rename_i hpos
  rw [if_neg hpos]
  split at h
  · rename_i hproto
    rw [if_pos hproto]
    exact process_report_report_spec slot hk tick hactive hproto h
  · rename_i hproto
    rw [if_neg hproto]
    exact process_report_boot_spec slot hk tick hactive hproto h

end Process

theorem Tracks.at_tick (h : Tracks k r) (tick : UInt32) : Tracks { k with last_report_tick := tick } r :=
  ⟨h.gone, h.mod, h.keys, h.again⟩

theorem repeat_tick_spec (slot : Fin 4) (tick : UInt32) (h : Tracks k r) : Tracks (repeat_tick slot k tick).1 r ∧
      ((∀ key, Mapped key → Toggles (r.down key) (flags (repeat_tick slot k tick).2 slot key) (r.down key)) ↔
        ¬ repeatDue k tick) := by
  have hnone : (∀ key, Mapped key → Toggles (r.down key) (flags [] slot key) (r.down key)) := by
    intro key _
    simp [flags]
  unfold repeat_tick repeatDue
  split
  · rename_i hactive
    exact ⟨h, iff_of_true hnone fun hdue => by simp [hdue.1] at hactive⟩
  rename_i hactive
  have hagain : k.repeat_active = true := by simpa using hactive
  split
  · rename_i hearly
    exact ⟨h, iff_of_true hnone fun hdue => hdue.2.1 hearly⟩
  rename_i hlate
  split
  · rename_i hup
    exact ⟨⟨h.gone, h.mod, h.keys, by simp⟩, iff_of_true hnone fun hdue => by simp [hdue.2.2] at hup⟩
  rename_i hdown
  have hstill : stillDown k = true := by simpa using hdown
  have hmapped := h.again hagain
  have hin : r.down (.usage k.repeat_hid) = true := by
    rw [Report.down, ← h.contains (mapped_ne_zero hmapped), remembered]
    unfold stillDown kbd_key_present at hstill
    split at hstill
    · rename_i hproto
      rwa [if_pos hproto]
    · rename_i hproto
      rwa [if_neg hproto]
  refine ⟨⟨h.gone, h.mod, h.keys, h.again⟩, ⟨fun hall => ?_, fun hdue => absurd ⟨hagain, hlate, hstill⟩ hdue⟩⟩
  have htoggle := hall _ hmapped
  simp [flags, hin] at htoggle

def AllTrack (s : Kbds) : Prop := ∀ i, Tracks (s.devs i) (s.last i)

theorem AllTrack.put (h : AllTrack s) {out : Kbd × List Injected}
    (hout : Tracks out.1 rep) : AllTrack (s.put slot out rep) := by
  intro i
  simp only [Kbds.put]
  by_cases hi : i = slot
  · subst hi
    simpa using hout
  · simpa [hi] using h i

theorem paired_put (h : Paired s) (out : Kbd × List Injected) (rep : Report) (hslot : ∀ e ∈ out.2, e.slot = slot) :
    Paired (s.put slot out rep) ↔
      ∀ key, Mapped key → Toggles ((s.last slot).down key) (flags out.2 slot key) (rep.down key) := by
  constructor
  · intro hput key hkey
    have hone := hput slot key hkey
    simp only [Kbds.put, Function.update_self, flags_append] at hone
    exact (h slot key hkey).append_iff.mp hone
  · intro hall i key hkey
    simp only [Kbds.put, flags_append]
    by_cases hi : i = slot
    · subst hi
      rw [Function.update_self]
      exact (h i key hkey).append_iff.mpr (hall key hkey)
    · have hnil : flags out.2 i key = [] := flags_eq_nil fun e he heq => hi (heq.1.symm.trans (hslot e he))
      rw [Function.update_of_ne hi, hnil, append_nil]
      exact h i key hkey

theorem paired_put_nil (h : Paired s) :
    Paired (s.put slot (k, []) rep) ↔ ∀ key, Mapped key → (s.last slot).down key = rep.down key := by
  rw [paired_put h _ _ (by simp)]
  simp [flags]

theorem down_released (key : Key) : Report.released.down key = false := by
  cases key <;> simp [Report.down, Report.released]

theorem repeat_tick_slot : ∀ e ∈ (repeat_tick slot k tick).2, e.slot = slot := by
  unfold repeat_tick
  intro e he
  split at he
  · cases he
  split at he
  · cases he
  · split at he
    · cases he
    · rw [mem_singleton.mp he]

theorem handle_none (h : Kbds.processed k buf actual = none) : Kbds.handle slot k buf actual tick = (k, []) := by
  unfold Kbds.processed at h
  unfold Kbds.handle
  split
  · rfl
  rename_i hpos
  rw [if_neg hpos] at h
  split
  · rename_i hproto
    rw [if_pos hproto] at h
    simp [process_report_report, h]
  · rename_i hproto
    rw [if_neg hproto] at h
    simp [process_report_boot, h]

section

variable (h : AllTrack s)

include h

theorem report_spec (slot : Fin 4) (buf : Bytes) (actual : ℕ) (tick : UInt32) :
    AllTrack (s.report slot buf actual tick) ∧
      (Paired s → (Paired (s.report slot buf actual tick) ↔ KeepsPairs s (.report slot buf actual tick))) := by
  unfold Kbds.report KeepsPairs
  dsimp only
  rcases hactive : (s.devs slot).active with _ | _
  · simpa using h
  rcases hproc : Kbds.processed (s.devs slot) buf actual with _ | r'
  · rw [handle_none hproc]
    refine ⟨h.put ((h slot).at_tick tick), fun hp => ?_⟩
    simp [paired_put_nil hp]
  · have hout := handle_some slot (h slot) tick hactive hproc
    refine ⟨h.put (hout.tracks.at_tick tick), fun hp => ?_⟩
    have hput := paired_put hp ({ (Kbds.handle slot (s.devs slot) buf actual tick).1 with
      last_report_tick := tick }, (Kbds.handle slot (s.devs slot) buf actual tick).2) r' hout.own
    simpa using hput.trans hout.toggles

theorem idle_spec (slot : Fin 4) (tick : UInt32) :
    AllTrack (s.idle slot tick) ∧ (Paired s → (Paired (s.idle slot tick) ↔ KeepsPairs s (.idle slot tick))) := by
  unfold Kbds.idle KeepsPairs
  dsimp only
  rcases hactive : (s.devs slot).active with _ | _
  · simpa using h
  simp only [Bool.not_true, Bool.false_eq_true, if_false, forall_const]
  split
  · have hforgot : Tracks { (s.devs slot).forget with last_report_tick := tick } .released :=
      tracks_released rfl rfl rfl rfl
    have hquiet : repeat_tick slot { (s.devs slot).forget with last_report_tick := tick } tick =
        ({ (s.devs slot).forget with last_report_tick := tick }, []) := rfl
    rw [hquiet]
    refine ⟨h.put hforgot, fun hp => ?_⟩
    rw [paired_put_nil hp]
    simp only [down_released, AllUp]
  · obtain ⟨htrack, hiff⟩ := repeat_tick_spec slot tick (h slot)
    exact ⟨h.put htrack, fun hp => (paired_put hp _ _ repeat_tick_slot).trans hiff⟩

theorem drop_keyboards_spec (gone : Fin 4 → Kbd → Bool) : AllTrack (s.drop gone) ∧
      (Paired s → (Paired (s.drop gone) ↔
        ∀ i, (s.devs i).active = true → gone i (s.devs i) = true → AllUp (s.last i))) := by
  refine ⟨fun i => ?_, fun hp => ⟨fun hdrop i hactive hgone key hkey => ?_, fun hup i key hkey => ?_⟩⟩
  · unfold Kbds.drop
    dsimp only
    split
    · exact tracks_released rfl rfl rfl rfl
    · exact h i
  · have hafter := hdrop i key hkey
    simp only [Kbds.drop, hactive, hgone, and_self, if_true, down_released] at hafter
    exact (hp i key hkey).unique hafter
  · have hbefore := hp i key hkey
    unfold Kbds.drop
    dsimp only
    split
    · rename_i hsel
      rw [hup i hsel.1 hsel.2 key hkey] at hbefore
      rwa [down_released]
    · exact hbefore

theorem add_spec (hc : ℕ) (dev : UInt32) (format : Option ReportInfo) (started : Bool) (tick : UInt32) :
    AllTrack (s.hid_boot_kbd_add_device hc dev format started tick) ∧
      (Paired s → Paired (s.hid_boot_kbd_add_device hc dev format started tick)) := by
  unfold Kbds.hid_boot_kbd_add_device
  split
  · exact ⟨h, id⟩
  rename_i slot hslot
  have hfree : (s.devs slot).active = false := by
    simpa using find?_some hslot
  have hup : s.last slot = .released := (h slot).gone hfree
  have hput {k : Kbd} (hk : Tracks k .released) : AllTrack (s.put slot (k, []) (s.last slot)) ∧
      (Paired s → Paired (s.put slot (k, []) (s.last slot))) := by
    refine ⟨h.put (hup ▸ hk), fun hp => ?_⟩
    simp [paired_put_nil hp]
  split
  · exact hput (tracks_released rfl rfl rfl rfl)
  · exact hput (tracks_released rfl rfl rfl rfl)

/-- One step: the keyboards go on remembering their reports, and pairing is kept exactly under `KeepsPairs`. -/
theorem kbdStep_spec (op : KbdOp) :
    AllTrack (kbdStep s op) ∧ (Paired s → (Paired (kbdStep s op) ↔ KeepsPairs s op)) := by
  cases op with
  | add hc dev format started tick =>
    obtain ⟨htrack, hpair⟩ := add_spec h hc dev format started tick
    exact ⟨htrack, fun hp => iff_of_true (hpair hp) trivial⟩
  | idle slot tick => exact idle_spec h slot tick
  | report slot buf actual tick => exact report_spec h slot buf actual tick
  | error slot =>
    obtain ⟨htrack, hiff⟩ := drop_keyboards_spec h fun i _ => i = slot
    refine ⟨htrack, fun hp => (hiff hp).trans ⟨fun hall hactive => hall slot hactive (by simp), ?_⟩⟩
    intro hup i hactive hi
    have heq : i = slot := by simpa using hi
    subst heq
    exact hup hactive
  | drop_device hc dev =>
    obtain ⟨htrack, hiff⟩ := drop_keyboards_spec h fun _ k => k.hc = hc ∧ k.dev = dev
    refine ⟨htrack, fun hp => (hiff hp).trans ?_⟩
    simp [KeepsPairs]
  | drop_controller hc =>
    obtain ⟨htrack, hiff⟩ := drop_keyboards_spec h fun _ k => k.hc = hc
    refine ⟨htrack, fun hp => (hiff hp).trans ?_⟩
    simp [KeepsPairs]

end

theorem allTrack_init : AllTrack .init := fun _ => tracks_released rfl rfl rfl rfl

theorem paired_init : Paired .init := by
  intro slot key _
  simp [Kbds.init, flags, down_released]

/-- Makes and breaks are paired in every state if and only if every key that changes is named once in its report, no key
is repeated, and keyboards are only reset or removed with all keys up, as no breaks are injected then. -/
theorem pairs_throughout_iff (ops : List KbdOp) : (∀ pre, pre <+: ops → Paired (exec kbdStep .init pre)) ↔
      ∀ pre op, pre ++ [op] <+: ops → KeepsPairs (exec kbdStep .init pre) op := by
  rw [← throughout_iff_prefix, ← eachStep_iff_prefix]
  refine throughout_iff_eachStep (J := fun s => AllTrack s ∧ Paired s) (fun s h => h.2) (fun s op h hkeeps => ?_)
    (fun s op h hpaired => ?_) ⟨allTrack_init, paired_init⟩
  · obtain ⟨htrack, hiff⟩ := kbdStep_spec h.1 op
    exact ⟨htrack, (hiff h.2).mpr hkeeps⟩
  · exact ((kbdStep_spec h.1 op).2 h.2).mp hpaired

/-- A keyboard comes and reports that A is down. -/
def aDown : List KbdOp := [.add 0 1 none true 0, .report ⟨0, Nat.zero_lt_succ 3⟩ (Bytes.ofList [0, 0, 4]) 8 0]

/-- When the keyboard is removed or reset while A is down, the break is never injected. -/
theorem make_without_break : ¬ Paired (exec kbdStep .init (aDown ++ [.drop_device 0 1])) ∧
      ¬ Paired (exec kbdStep .init (aDown ++ [.idle 0 101])) := by
  have hstuck : ∀ s : Kbds, flags s.injected 0 (.usage 4) = [true] → s.last 0 = .released → ¬ Paired s := by
    intro s hmade hlast hpaired
    have htoggle := hpaired 0 (.usage 4) (by simp [Mapped, hid_usage_to_set1, set1Map])
    rw [hmade, hlast, down_released] at htoggle
    simp at htoggle
  exact ⟨hstuck _ (by decide +kernel) rfl, hstuck _ (by decide +kernel) rfl⟩

end Orion.Usb
