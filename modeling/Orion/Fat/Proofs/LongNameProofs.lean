import Mathlib.Data.Bool.AllAny
import Orion.Fat.Proofs.VolumeProofs
import Orion.Fat16.Files

/-!
# Proofs: long names on the disk

Reading the parts of a long name back puts every character in its place, but a byte above `0x7F` comes back as a
question mark, and a name of twenty parts does not fit in the buffer of the reader.
-/

namespace Orion.Fat

open Lib Fat16 List

variable {long : List UInt8} {checksum : UInt8} {count i : ℕ} {r : Bytes} {c : UInt8} {n m : ℕ} {short : List UInt8}

/-- A byte of a name as it is read back. -/
def narrow (c : UInt8) : UInt8 := if c ≤ 0x7F then c else 0x3F

/-- The byte that comes back at the offset `p` of the name. -/
def lfnByte (long : List UInt8) (p : ℕ) : UInt8 := if p < long.length then narrow (long.getD p 0) else 0

/-- A character of an entry as `lfn_push` reads it. -/
def narrowChar (ch : UInt16) : UInt8 :=
  if ch = 0 ∨ ch = 0xFFFF then 0 else if ch ≤ 0x7F then ch.toUInt8 else 0x3F

theorem narrowChar_toNat (hc : c ≠ 0) : narrowChar (UInt16.ofNat c.toNat) = narrow c := by
  have hall : ∀ n < 256, n ≠ 0 → narrowChar (UInt16.ofNat n) = narrow (UInt8.ofNat n) := by
    decide +kernel
  have hne : c.toNat ≠ 0 := fun h => hc (UInt8.toNat_inj.mp h)
  rw [hall c.toNat c.toNat_lt hne, UInt8.ofNat_toNat]

/-- The character ends or fills a long name. -/
abbrev isPad (ch : UInt16) : Prop := ch = 0 ∨ ch = 0xFFFF

theorem lfn_copy_chars_eq_map {l : List UInt16} {end_seen : Bool} (hzero : l.Pairwise fun a b => a = 0 → isPad b)
    (hseen : end_seen = true → ∀ ch ∈ l, isPad ch) : lfn_copy_chars l end_seen = l.map narrowChar := by
  induction l generalizing end_seen with
  | nil => rfl
  | cons ch l ih =>
    rw [pairwise_cons] at hzero
    rw [lfn_copy_chars, map_cons]
    split
    · rename_i hch
      rw [ih hzero.2 fun _ b hb => hzero.1 b hb hch]
      simp [narrowChar, hch]
    · rename_i hch
      have htail : lfn_copy_chars l end_seen = l.map narrowChar := by
        apply ih hzero.2
        intro hs b hb
        exact hseen hs b (mem_cons_of_mem ch hb)
      split
      · rename_i hpad
        have hmax : isPad ch := by
          rcases hpad with hmax | hs
          · exact .inr hmax
          · exact hseen hs ch mem_cons_self
        rw [htail, narrowChar, if_pos hmax]
      · rename_i hpad
        rw [not_or] at hpad
        rw [htail, narrowChar, if_neg (not_or.mpr ⟨hch, hpad.1⟩)]

theorem get16_of_bytes {o ch : ℕ} (hlow : r o = UInt8.ofNat ch) (hhigh : r (o + 1) = UInt8.ofNat (ch / 256)) :
    r.get16 o = UInt16.ofNat ch := by
  rw [Bytes.get16, hlow, hhigh, ← UInt16.toNat_inj]
  simp only [UInt16.toNat_ofNat', UInt8.toNat_ofNat']
  omega

theorem lfnChars_lfnEntry (long : List UInt8) (checksum : UInt8) (count i : ℕ) :
    lfnChars (Bytes.ofList (lfnEntry long checksum count i)) =
      (List.range 13).map fun j => UInt16.ofNat (lfnChar long ((count - i - 1) * 13) j) := by
  have hchar : ∀ o j, (o, j) ∈ [(1, 0), (3, 1), (5, 2), (7, 3), (9, 4), (14, 5), (16, 6), (18, 7), (20, 8), (22, 9),
      (24, 10), (28, 11), (30, 12)] → (Bytes.ofList (lfnEntry long checksum count i)).get16 o =
        UInt16.ofNat (lfnChar long ((count - i - 1) * 13) j) := by
    intro o j hoj
    simp only [mem_cons, Prod.mk.injEq, not_mem_nil, or_false] at hoj
    rcases hoj with ⟨rfl, rfl⟩ | ⟨rfl, rfl⟩ | ⟨rfl, rfl⟩ | ⟨rfl, rfl⟩ | ⟨rfl, rfl⟩ | ⟨rfl, rfl⟩ | ⟨rfl, rfl⟩ |
      ⟨rfl, rfl⟩ | ⟨rfl, rfl⟩ | ⟨rfl, rfl⟩ | ⟨rfl, rfl⟩ | ⟨rfl, rfl⟩ | ⟨rfl, rfl⟩ <;>
    exact get16_of_bytes rfl rfl
  simp only [lfnChars, map_cons, map_nil]
  rw [hchar 1 0 (by simp), hchar 3 1 (by simp), hchar 5 2 (by simp), hchar 7 3 (by simp), hchar 9 4 (by simp),
    hchar 14 5 (by simp), hchar 16 6 (by simp), hchar 18 7 (by simp), hchar 20 8 (by simp), hchar 22 9 (by simp),
    hchar 24 10 (by simp), hchar 28 11 (by simp), hchar 30 12 (by simp)]
  rfl

theorem lfn_copy_chars_lfnEntry (hzero : (0 : UInt8) ∉ long) :
    lfn_copy_chars (lfnChars (Bytes.ofList (lfnEntry long checksum count i))) false =
      (List.range 13).map fun j => lfnByte long ((count - i - 1) * 13 + j) := by
  rw [lfnChars_lfnEntry]
  generalize (count - i - 1) * 13 = start
  have hinside : ∀ j, start + j < long.length → ∃ c, c ≠ 0 ∧ long.getD (start + j) 0 = c ∧
      lfnChar long start j = c.toNat := by
    intro j hj
    have hmem : long.getD (start + j) 0 ∈ long := by
      rw [getD_eq_getElem?_getD, getElem?_eq_getElem hj]
      exact getElem_mem hj
    exact ⟨_, fun h0 => hzero (h0 ▸ hmem), rfl, by rw [lfnChar, if_pos hj]⟩
  have houtside : ∀ j, ¬ start + j < long.length → lfnChar long start j = 0 ∨ lfnChar long start j = 0xFFFF := by
    intro j hj
    rw [lfnChar, if_neg hj]
    split
    · exact .inl rfl
    · exact .inr rfl
  rw [lfn_copy_chars_eq_map, map_map]
  · apply map_congr_left
    intro j _
    simp only [Function.comp_apply, lfnByte]
    by_cases hj : start + j < long.length
    · obtain ⟨c, hc, hget, hchar⟩ := hinside j hj
      rw [if_pos hj, hget, hchar, narrowChar_toNat hc]
    · rw [if_neg hj]
      rcases houtside j hj with h | h <;> rw [h] <;> rfl
  · rw [pairwise_map]
    refine pairwise_lt_range.imp ?_
    intro a b hab ha
    have hout : ¬ start + a < long.length := by
      intro hlt
      obtain ⟨c, hc, -, hchar⟩ := hinside a hlt
      rw [hchar] at ha
      have hnat := congrArg UInt16.toNat ha
      simp only [UInt16.toNat_ofNat', UInt16.toNat_zero] at hnat
      have hlt := c.toNat_lt
      exact hc (UInt8.toNat_inj.mp (by rw [UInt8.toNat_zero]; omega))
    rcases houtside b (by omega) with h | h
    · exact .inl (by rw [h]; rfl)
    · exact .inr (by rw [h]; rfl)
  · intro h
    cases h

theorem ord_spec (h0 : n ≠ 0) (hn : n ≤ 20) (first : Bool) :
    let ord : UInt8 := UInt8.ofNat n ||| (if first then 0x40 else 0)
    (ord &&& 0x1F).toNat = n ∧ (ord &&& 0x40 ≠ 0 ↔ first) ∧ ord ≠ 0 ∧ ord ≠ 0xE5 := by
  have hall : ∀ n < 21, n ≠ 0 → ∀ first : Bool, let ord : UInt8 := UInt8.ofNat n ||| (if first then 0x40 else 0)
      (ord &&& 0x1F).toNat = n ∧ (ord &&& 0x40 ≠ 0 ↔ first) ∧ ord ≠ 0 ∧ ord ≠ 0xE5 := by decide
  exact hall n (by omega) h0 first

/-- The bytes of a part that the reader looks at first. -/
structure IsPart (r : Bytes) (seq : ℕ) (first : Bool) (checksum : UInt8) : Prop where
  seq : (r 0 &&& 0x1F).toNat = seq
  first : r 0 &&& 0x40 ≠ 0 ↔ first
  ne_zero : r 0 ≠ 0
  not_deleted : r 0 ≠ 0xE5
  attr : r 11 = 0x0F
  checksum : r 13 = checksum

theorem isPart_lfnEntry (long : List UInt8) (checksum : UInt8) (hcount : count ≤ 20) (hi : i < count) :
    IsPart (Bytes.ofList (lfnEntry long checksum count i)) (count - i) (i = 0) checksum := by
  obtain ⟨hseq, hfirst, hzero, hdel⟩ := ord_spec (n := count - i) (by omega) (by omega) (decide (i = 0))
  simp only [decide_eq_true_eq] at hseq hfirst hzero hdel
  refine ⟨hseq, ?_, hzero, hdel, rfl, rfl⟩
  rw [decide_eq_true_eq]
  exact hfirst

/-- The state of the reader behind the first `k` of `count` parts. -/
def readState (long : List UInt8) (checksum : UInt8) (count : ℕ) (slots : List Slot) (k : ℕ) : LfnState where
  active := true
  checksum := checksum
  expected := count - k
  name := fun p => if (count - k) * 13 ≤ p ∧ p < count * 13 then lfnByte long p else 0
  slots := slots.take k

variable {slots : List Slot} {σ : Slot} {st : LfnState} {k : ℕ}

theorem lfnStart_first (hr : IsPart r count true checksum) : lfnStart st r = readState long checksum count slots 0 := by
  have hname : (fun _ => 0 : Bytes) = fun p => if (count - 0) * 13 ≤ p ∧ p < count * 13 then lfnByte long p else 0 := by
    funext p
    rw [if_neg (by omega)]
  rw [lfnStart, if_pos (hr.first.mpr rfl), hr.checksum, hr.seq, readState, ← hname]
  rfl

theorem lfnStart_next {seq : ℕ} (hr : IsPart r seq false checksum) : lfnStart st r = st := by
  have hno : ¬ (r 0 &&& 0x40 ≠ 0) := fun h => Bool.noConfusion (hr.first.mp h)
  rw [lfnStart, if_neg hno]

theorem splice_part (hk : k < count) :
    (readState long checksum count slots k).name.splice ((count - k - 1) * 13) 13
        (Bytes.ofList ((List.range 13).map fun j => lfnByte long ((count - k - 1) * 13 + j))) =
      (readState long checksum count slots (k + 1)).name := by
  funext p
  have hnext : count - (k + 1) = count - k - 1 := by omega
  obtain ⟨m, hm⟩ : ∃ m, count - k = m + 1 := ⟨count - k - 1, by omega⟩
  simp only [readState, Bytes.splice, hnext, hm, Nat.add_sub_cancel]
  by_cases hin : m * 13 ≤ p ∧ p < m * 13 + 13
  · have hlt : p - m * 13 < 13 := by omega
    have hmax : m * 13 ≤ p ∧ p < count * 13 := by omega
    rw [if_pos hin, if_pos hmax]
    simp only [Bytes.ofList, getD_eq_getElem?_getD, getElem?_map, getElem?_range hlt, Option.map_some,
      Option.getD_some]
    congr 1
    omega
  · rw [if_neg hin]
    congr 1
    rw [eq_iff_iff]
    omega

theorem lfnPart_readState (hzero : (0 : UInt8) ∉ long) (hcount : count ≤ 19) (hk : slots[k]? = some σ)
    (hlen : slots.length = count) :
    lfnPart (readState long checksum count slots k) (Bytes.ofList (lfnEntry long checksum count k)) σ =
      readState long checksum count slots (k + 1) := by
  have hlt : k < slots.length := (List.getElem?_eq_some_iff.mp hk).1
  have hr := isPart_lfnEntry long checksum (show count ≤ 20 by omega) (show k < count by omega)
  have hexp : (readState long checksum count slots k).expected = count - k := rfl
  have hslots : (readState long checksum count slots k).slots = slots.take k := rfl
  have htake : (slots.take k).length < 20 := by
    rw [length_take]
    omega
  have hsnoc : slots.take k ++ [σ] = slots.take (k + 1) := by rw [take_add_one, hk, Option.toList_some]
  unfold lfnPart
  simp only [hr.seq, hexp, hslots]
  rw [if_neg (by simp [readState]), if_neg (by omega), if_neg (by omega), if_neg (by omega), if_pos htake, hsnoc,
    lfn_copy_chars_lfnEntry hzero, splice_part (by omega)]
  rfl

/-- Long entries in front of an entry: the reader goes through them and gives one item. `S` follows its
state. -/
theorem iterate_parts {rd : Slot → Bytes} {τ : Slot} {S : ℕ → LfnState → Prop} {l : List Slot}
    (hpart : ∀ σ ∈ l, rd σ 0 ≠ 0 ∧ rd σ 0 ≠ 0xE5 ∧ rd σ 11 = 0x0F)
    (hentry : rd τ 0 ≠ 0 ∧ rd τ 0 ≠ 0xE5 ∧ rd τ 11 ≠ 0x0F)
    (hstep : ∀ k σ st, l[k]? = some σ → S (m + k) st → S (m + k + 1) (lfn_push st (rd σ) σ)) (h0 : S m st) :
    ∃ st', S (m + l.length) st' ∧ iterate_dir rd st (l ++ [τ]) = [st'.item (rd τ) τ] := by
  induction l generalizing m st with
  | nil =>
    obtain ⟨hzero, hdel, hattr⟩ := hentry
    exact ⟨st, h0, by simp [iterate_dir, hzero, hdel, hattr]⟩
  | cons σ l ih =>
    obtain ⟨hzero, hdel, hattr⟩ := hpart σ mem_cons_self
    obtain ⟨st', hS, heq⟩ := ih (m := m + 1)
      (fun τ hτ => hpart τ (mem_cons_of_mem σ hτ))
      (fun k τ st hk hst => by
        have h := hstep (k + 1) τ st hk
        rw [show m + (k + 1) = m + 1 + k by omega] at h
        exact h hst)
      (hstep 0 σ st rfl h0)
    refine ⟨st', ?_, ?_⟩
    · rw [length_cons, show m + (l.length + 1) = m + 1 + l.length by omega]
      exact hS
    · rw [cons_append, iterate_dir, if_neg hzero, if_neg hdel, if_pos hattr, heq]

variable {v : Vol} {l : List Slot} {τ : Slot}

theorem raw_foldl_parts (f : ℕ → List UInt8) (hf : ∀ i, (f i).length = 32) (hnodup : l.Nodup) (hm : m ≤ l.length) :
    (∀ k σ, k < m → l[k]? = some σ →
      ((List.range m).foldl (fun v i => v.dir_write_raw (l.getD i (none, 0)) (f i)) v).raw σ = Bytes.ofList (f k)) := by
  induction m with
  | zero =>
    intro k σ hk
    omega
  | succ m ih =>
    intro k σ hk hσ
    have hlt : m < l.length := by omega
    rw [range_succ, foldl_append, foldl_cons, foldl_nil]
    have hget : l.getD m (none, 0) = l[m] := by
      rw [getD_eq_getElem?_getD, getElem?_eq_getElem hlt, Option.getD_some]
    obtain ⟨hklt, rfl⟩ := List.getElem?_eq_some_iff.mp hσ
    rw [hget]
    by_cases hkm : k = m
    · subst hkm
      exact Vol.raw_dir_write_raw_self (hf k)
    · rw [Vol.raw_dir_write_raw_of_ne fun h => hkm (hnodup.getElem_inj_iff.mp h)]
      exact ih (by omega) k _ (by omega) hσ

theorem raw_writeEntries {n : NewName} {entry : List UInt8} (hnodup : (l ++ [τ]).Nodup) (hlen : l.length = n.lfn_count)
    (hentry : entry.length = 32) :
    (∀ k σ, l[k]? = some σ → (writeEntries v n (l ++ [τ]) entry).raw σ =
      Bytes.ofList (lfnEntry n.long_name (lfn_checksum n.short_name) n.lfn_count k)) ∧
    (writeEntries v n (l ++ [τ]) entry).raw τ = Bytes.ofList entry := by
  have hlast : (l ++ [τ]).getD n.lfn_count (none, 0) = τ := by simp [← hlen]
  unfold writeEntries
  rw [hlast]
  refine ⟨fun k σ hk => ?_, Vol.raw_dir_write_raw_self hentry⟩
  have hlt : k < l.length := (List.getElem?_eq_some_iff.mp hk).1
  have hne : σ ≠ τ := by
    rintro rfl
    exact (nodup_append.mp hnodup).2.2 σ (mem_of_getElem? hk) σ (by simp) rfl
  rw [Vol.raw_dir_write_raw_of_ne hne]
  refine raw_foldl_parts (fun i => lfnEntry n.long_name (lfn_checksum n.short_name) n.lfn_count i)
    (fun i => length_lfnEntry _ _ _ _) hnodup ?_ k σ ?_ ?_
  · rw [length_append]
    omega
  · omega
  · rw [getElem?_append_left hlt, hk]

theorem cstr_readState (hzero : (0 : UInt8) ∉ long) (hcount : lfnCount long ≤ 19) :
    cstr ((readState long checksum (lfnCount long) slots (lfnCount long)).name.slice 0 255) = long.map narrow := by
  have hlen : long.length ≤ 13 * lfnCount long := by
    unfold lfnCount
    omega
  have hslice : (readState long checksum (lfnCount long) slots (lfnCount long)).name.slice 0 255 =
      long.map narrow ++ List.replicate (255 - long.length) 0 := by
    apply ext_getElem
    · simp [Bytes.slice]
      omega
    intro p hp _
    simp only [Bytes.slice, getElem_map, getElem_range, readState, Nat.sub_self, Nat.zero_mul,
      Nat.zero_le, true_and, Nat.zero_add]
    rw [getElem_append]
    by_cases hin : p < long.length
    · simp only [length_map, hin, dif_pos, getElem_map]
      rw [if_pos (by omega), lfnByte, if_pos hin, getD_eq_getElem?_getD, getElem?_eq_getElem hin]
      rfl
    · simp only [length_map, hin, dif_neg, not_false_eq_true, getElem_replicate]
      split
      · rw [lfnByte, if_neg hin]
      · rfl
  have hnarrow : (0 : UInt8) ∉ long.map narrow := by
    intro hmem
    obtain ⟨c, hc, hcz⟩ := mem_map.mp hmem
    unfold narrow at hcz
    split at hcz
    · exact hzero (hcz ▸ hc)
    · exact absurd hcz (by decide)
  rw [hslice, cstr_append_zeros hnarrow]

/-- A short name that a reader does not take for a free place. -/
def Visible (short : List UInt8) : Prop := short.length = 11 ∧ ∃ c, short.head? = some c ∧ c ≠ 0 ∧ c ≠ 0xE5

theorem mem_sanitize {s : List UInt8} (h : c ∈ sanitize_component n s) : c ≠ 0 ∧ c ≠ 0xE5 := by
  have hmem := mem_of_mem_take h
  rw [mem_filter] at hmem
  have hok : shortForbidden c = false := by simpa using hmem.2
  constructor
  · rintro rfl
    exact absurd hok (by decide)
  · rintro rfl
    exact absurd hok (by decide)

theorem visible_make_short_name {base ext : List UInt8} (hne : base ≠ []) (hbase : ∀ c ∈ base, c ≠ 0 ∧ c ≠ 0xE5) :
    Visible (make_short_name_from_base_ext base ext) := by
  refine ⟨by simp [make_short_name_from_base_ext, length_padTo], ?_⟩
  obtain ⟨c, base, rfl⟩ := exists_cons_of_ne_nil hne
  exact ⟨c, rfl, hbase c mem_cons_self⟩

theorem visible_of_generate {taken : List UInt8 → Bool}
    (h : generate_short_name taken long = some short) : Visible short := by
  unfold generate_short_name at h
  generalize hpair : extract_base_ext 32 8 long = pair at h
  obtain ⟨base, ext⟩ := pair
  have hmem : ∀ c ∈ base, c ≠ 0 ∧ c ≠ 0xE5 := by
    intro c hc
    have hbase : base = sanitize_component 32 (((splitLast dot long).getD (long, [])).1.take 255) := by
      rw [extract_base_ext] at hpair
      exact (Prod.mk.inj hpair).1.symm
    rw [hbase] at hc
    exact mem_sanitize hc
  -- an empty base is replaced by `FILE`
  dsimp only at h
  generalize hfull : (if base = [] then [0x46, 0x49, 0x4C, 0x45] else base) = full at h
  have hok : full ≠ [] ∧ ∀ c ∈ full, c ≠ 0 ∧ c ≠ 0xE5 := by
    rw [← hfull]
    split
    · exact ⟨by simp, by simp⟩
    · rename_i hne
      exact ⟨hne, hmem⟩
  split at h
  · rw [← Option.some.inj h]
    exact visible_make_short_name hok.1 hok.2
  obtain ⟨n, -, hn⟩ := exists_of_findSome?_eq_some h
  split at hn
  · rw [← Option.some.inj hn]
    refine visible_make_short_name ?_ ?_
    · simp [aliasBase]
    intro c hc
    have hc' := mem_of_mem_take hc
    rw [mem_append] at hc'
    rcases hc' with hc' | hc'
    · exact hok.2 c (mem_of_mem_take hc')
    · have htail : ∀ c ∈ ([0x7E, 0x25, 0x75] : List UInt8), c ≠ 0 ∧ c ≠ 0xE5 := by simp
      exact htail c hc'
  · cases hn

theorem Visible.entryBytes_head (h : Visible short) (attr : UInt8) (first size : ℕ) :
    Bytes.ofList (entryBytes short attr first size) 0 ≠ 0 ∧ Bytes.ofList (entryBytes short attr first size) 0 ≠ 0xE5 := by
  obtain ⟨hlen, c, hc, hne⟩ := h
  obtain ⟨short, rfl⟩ : ∃ t, short = c :: t := by
    cases short with
    | nil => cases hc
    | cons a t => exact ⟨t, by rw [Option.some.inj hc]⟩
  exact hne

theorem prepared_spec {name : List UInt8} (h : lfn_prepare_name name = some long) :
    (0 : UInt8) ∉ long ∧ long ≠ [] ∧ long.length ≤ 255 := by
  unfold lfn_prepare_name at h
  dsimp only at h
  generalize (name.reverse.dropWhile fun c => c = blank ∨ c = dot).reverse.dropWhile (· = blank) = out at h
  split at h
  · cases h
  rename_i hne
  split at h
  · cases h
  split at h
  · cases h
  rename_i hvalid
  split at h
  · cases h
  · rw [← Option.some.inj h]
    refine ⟨fun hmem => hvalid ?_, hne, by omega⟩
    exact any_eq_true.mpr ⟨0, hmem, by decide⟩

theorem map_narrow_eq_iff : long.map narrow = long ↔ ∀ c ∈ long, c ≤ 0x7F := by
  have hchar : ∀ c, narrow c = c ↔ c ≤ 0x7F := by
    intro c
    unfold narrow
    split
    · rename_i hle
      exact ⟨fun _ => hle, fun _ => rfl⟩
    rename_i hgt
    refine ⟨fun h => ?_, fun h => absurd h hgt⟩
    rw [← h]
    decide
  conv_lhs => rhs; rw [← map_id long]
  rw [map_inj_left]
  simp only [id, hchar]

section RoundTrip

variable {short : List UInt8} {attr : UInt8} (first size : ℕ) (v : Vol)
variable (hshort : Visible short) (hattr : attr ≠ 0x0F) (hnodup : (l ++ [τ]).Nodup) (hlen : l.length = lfnCount long)

/-- A volume on which the entries of a long name have been written. -/
def withName (v : Vol) (short long : List UInt8) (slots : List Slot) (attr : UInt8) (first size : ℕ) : Vol :=
  writeEntries v ⟨short, long, lfnCount long⟩ slots (entryBytes short attr first size)

include hshort hattr hnodup hlen

/-- The entries of a name are read as one item; the reader starts anew at the first part and `S` follows its state. -/
theorem iterate_written (S : ℕ → LfnState → Prop) (hne : long ≠ []) (hcount : lfnCount long ≤ 20)
    (hfirst : ∀ σ, l[0]? = some σ → S 1 (lfnPart (readState long (lfn_checksum short) (lfnCount long) l 0)
      (Bytes.ofList (lfnEntry long (lfn_checksum short) (lfnCount long) 0)) σ))
    (hnext : ∀ k σ st, l[k]? = some σ → S k st →
      S (k + 1) (lfnPart st (Bytes.ofList (lfnEntry long (lfn_checksum short) (lfnCount long) k)) σ)) (st : LfnState) :
    ∃ st', S (lfnCount long) st' ∧ iterate_dir (withName v short long (l ++ [τ]) attr first size).raw st (l ++ [τ]) =
      [st'.item (Bytes.ofList (entryBytes short attr first size)) τ] := by
  obtain ⟨hraw, hlast⟩ := raw_writeEntries (v := v) (n := ⟨short, long, lfnCount long⟩) hnodup hlen
    (show (entryBytes short attr first size).length = 32 from length_entryBytes hshort.1)
  have hpos : l.length ≠ 0 := by
    have hlong := length_pos_iff.mpr hne
    rw [hlen, lfnCount]
    omega
  have hparts : ∀ k σ, l[k]? = some σ → _ := fun k σ hk =>
    isPart_lfnEntry long (lfn_checksum short) hcount (hlen ▸ (List.getElem?_eq_some_iff.mp hk).1)
  unfold withName
  generalize writeEntries v ⟨short, long, lfnCount long⟩ (l ++ [τ]) (entryBytes short attr first size) = w at hraw hlast ⊢
  suffices hread : ∃ st', (0 + l.length ≠ 0 → S (0 + l.length) st') ∧ _ by
    obtain ⟨st', hst', heq⟩ := hread
    rw [Nat.zero_add, hlen] at hst'
    exact ⟨st', hst' (hlen ▸ hpos), heq⟩
  rw [← hlast]
  refine iterate_parts (S := fun k st => k ≠ 0 → S k st) ?_ ?_ ?_ (fun h => absurd rfl h)
  · intro σ hσ
    obtain ⟨k, hk⟩ := getElem?_of_mem hσ
    have hpart := hparts k σ hk
    rw [hraw k σ hk]
    exact ⟨hpart.ne_zero, hpart.not_deleted, hpart.attr⟩
  · rw [hlast, attr_entryBytes hshort.1]
    exact ⟨(hshort.entryBytes_head attr first size).1, (hshort.entryBytes_head attr first size).2, hattr⟩
  · intro k σ st hk hst _
    have hpart := hparts k σ hk
    rw [Nat.zero_add] at hst
    rw [hraw k σ hk, Nat.zero_add]
    unfold lfn_push
    by_cases h0 : k = 0
    · subst h0
      rw [lfnStart_first hpart]
      exact hfirst σ hk
    · rw [decide_eq_false h0] at hpart
      rw [lfnStart_next hpart]
      exact hnext k σ st hk (hst h0)

theorem iterate_of_fits (hzero : (0 : UInt8) ∉ long) (hne : long ≠ []) (hcount : lfnCount long ≤ 19) (st : LfnState) :
    iterate_dir (withName v short long (l ++ [τ]) attr first size).raw st (l ++ [τ]) =
      [⟨Bytes.ofList (entryBytes short attr first size), τ, some (long.map narrow), l⟩] := by
  obtain ⟨st', rfl, heq⟩ := iterate_written first size v hshort hattr hnodup hlen
    (fun k st => st = readState long (lfn_checksum short) (lfnCount long) l k) hne (by omega)
    (fun σ hk => lfnPart_readState hzero hcount hk hlen)
    (fun k σ st hk hst => hst ▸ lfnPart_readState hzero hcount hk hlen) st
  have hchecksum : lfn_checksum (shortName (Bytes.ofList (entryBytes short attr first size))) = lfn_checksum short := by
    rw [shortName_entryBytes hshort.1]
  rw [heq, LfnState.item, cstr_readState hzero hcount, hchecksum]
  rw [if_pos ⟨rfl, by simp [readState], rfl⟩]
  simp [readState, ← hlen]

/-- A name of twenty parts is lost: the first part that is read does not fit, and the reader skips the others. -/
theorem iterate_of_too_long (hne : long ≠ []) (hcount : lfnCount long = 20) (st : LfnState) :
    iterate_dir (withName v short long (l ++ [τ]) attr first size).raw st (l ++ [τ]) =
      [⟨Bytes.ofList (entryBytes short attr first size), τ, none, []⟩] := by
  obtain ⟨st', hidle, heq⟩ := iterate_written first size v hshort hattr hnodup hlen (fun _ st => st.active = false) hne
    hcount.le (fun σ _ => by
      have hfirst := isPart_lfnEntry long (lfn_checksum short) hcount.le (show 0 < lfnCount long by omega)
      simp only [lfnPart, hfirst.seq]
      simp [hcount, readState, lfn_reset])
    (fun k σ st _ hst => by simp [lfnPart, hst]) st
  rw [heq, LfnState.item, if_neg (by simp [hidle])]

end RoundTrip

/-- A long name is read back as it was written exactly if it has seven-bit characters only, at most 247 of them. -/
theorem long_name_round_trip_iff {name short : List UInt8} {taken : List UInt8 → Bool} {attr : UInt8}
    (hname : lfn_prepare_name name = some long) (hshort : generate_short_name taken long = some short)
    (hattr : attr ≠ 0x0F) (hlen : l.length = lfnCount long) (hnodup : (l ++ [τ]).Nodup) (first size : ℕ) (v : Vol)
    (st : LfnState) :
    iterate_dir (withName v short long (l ++ [τ]) attr first size).raw st (l ++ [τ]) =
        [⟨Bytes.ofList (entryBytes short attr first size), τ, some long, l⟩] ↔
      (∀ c ∈ long, c ≤ 0x7F) ∧ long.length ≤ 247 := by
  obtain ⟨hzero, hne, hmax⟩ := prepared_spec hname
  have hvisible := visible_of_generate hshort
  by_cases hfits : long.length ≤ 247
  · have hcount : lfnCount long ≤ 19 := by
      unfold lfnCount
      omega
    rw [iterate_of_fits first size v hvisible hattr hnodup hlen hzero hne hcount]
    simp [hfits, map_narrow_eq_iff]
  · have hcount : lfnCount long = 20 := by
      unfold lfnCount
      omega
    rw [iterate_of_too_long first size v hvisible hattr hnodup hlen hne hcount]
    simp [hfits]

def emptyVol : Vol := ⟨1, 256, 512, fun _ => 0, fun _ _ => 0, 2, 0⟩

/-- `a report in three parts.text` -/
def threeParts : List UInt8 :=
  [97, 32, 114, 101, 112, 111, 114, 116, 32, 105, 110, 32, 116, 104, 114, 101, 101, 32, 112, 97, 114, 116, 115, 46, 116,
    101, 120, 116]

theorem long_name_round_trip_three_parts :
    let short : List UInt8 := [65, 82, 69, 80, 79, 82, 84, 73, 84, 69, 88]
    let slots : List Slot := [(none, 0), (none, 1), (none, 2)]
    lfnCount threeParts = 3 ∧ iterate_dir (withName emptyVol short threeParts (slots ++ [(none, 3)]) 0x20 2 0).raw
        lfn_reset (slots ++ [(none, 3)]) =
      [⟨Bytes.ofList (entryBytes short 0x20 2 0), (none, 3), some threeParts, slots⟩] := by
  intro short slots
  have hname : lfn_prepare_name threeParts = some threeParts := by decide +kernel
  have hshort : generate_short_name (fun _ => false) threeParts = some short := by decide +kernel
  refine ⟨rfl, ?_⟩
  refine (long_name_round_trip_iff hname hshort (by decide) (by decide) (by decide) 2 0 emptyVol lfn_reset).mpr ?_
  exact ⟨all_iff_forall_prop.mp (by decide), by decide⟩

/-- `éa` comes back as `?a`, and a name of 248 letters does not come back at all. -/
theorem long_name_not_read_back : let one : List UInt8 := [0xE9, 0x61]
    let two : List UInt8 := List.replicate 248 0x61
    let slots : List Slot := (List.range 21).map fun i => (none, i)
    lfn_prepare_name one = some one ∧ lfn_prepare_name two = some two ∧
      generate_short_name (fun _ => false) one = some (make_short_name_from_base_ext [0x41] []) ∧
      generate_short_name (fun _ => false) two = some (make_short_name_from_base_ext (List.replicate 8 0x41) []) ∧
      (iterate_dir (withName emptyVol (make_short_name_from_base_ext [0x41] []) one (slots.take 2) 0x20 2 0).raw
        lfn_reset (slots.take 2)).map Item.long_name = [some [0x3F, 0x61]] ∧
      (iterate_dir (withName emptyVol (make_short_name_from_base_ext (List.replicate 8 0x41) []) two slots 0x20 2
        0).raw lfn_reset slots).map Item.long_name = [none] := by
  decide +kernel

end Orion.Fat
