import Orion.Lib.CString

/-!
# The kernel log (`src/kernel/log.c`)

`klog_add` writes a string into a ring of characters, and `klog_get` copies the ring in two pieces.
-/

namespace Orion.Kernel

open Lib List

def KLOG_BUF_SIZE : ℕ := 16384

/-- The ring of the kernel log. -/
structure Klog where
  klog_buf : ℕ → UInt8
  klog_head : ℕ
  klog_count : ℕ

def emptyLog : Klog := ⟨fun _ => 0, 0, 0⟩

/-- One turn of the loop of `klog_add`. -/
def Klog.put (k : Klog) (c : UInt8) : Klog where
  klog_buf := Function.update k.klog_buf k.klog_head c
  klog_head := if k.klog_head + 1 ≥ KLOG_BUF_SIZE then 0 else k.klog_head + 1
  klog_count := if k.klog_count < KLOG_BUF_SIZE then k.klog_count + 1 else k.klog_count

def klog_add (k : Klog) (s : List UInt8) : Klog := (cstr s).foldl Klog.put k

/-- The contents of `klog_out` in front of the zero that `klog_get` writes. -/
def Klog.copied (k : Klog) : List UInt8 :=
  if k.klog_count = 0 then []
  else if k.klog_count < KLOG_BUF_SIZE then (range k.klog_count).map k.klog_buf
  else
    let tail := KLOG_BUF_SIZE - k.klog_head
    (range tail).map (fun i => k.klog_buf (k.klog_head + i)) ++ (range k.klog_head).map k.klog_buf

/-- What `klog_get` leaves in the buffer, as a C string. -/
def klog_get (k : Klog) : List UInt8 := cstr (k.copied ++ [0])

/-- The ring holds the end of `text`; the character `i` of it is in the cell `i % KLOG_BUF_SIZE`. -/
structure Holds (k : Klog) (text : List UInt8) : Prop where
  head : k.klog_head = text.length % KLOG_BUF_SIZE
  count : k.klog_count = min text.length KLOG_BUF_SIZE
  cell : ∀ i < text.length, text.length ≤ i + KLOG_BUF_SIZE → text[i]? = some (k.klog_buf (i % KLOG_BUF_SIZE))

variable {k : Klog} {text : List UInt8}

theorem Holds.put (h : Holds k text) (c : UInt8) : Holds (k.put c) (text ++ [c]) := by
  obtain ⟨hhead, hcount, hcell⟩ := h
  have hsize : KLOG_BUF_SIZE = 16384 := rfl
  rw [hsize] at hhead hcount
  refine ⟨?_, ?_, fun i hi hrecent => ?_⟩ <;> simp only [Klog.put, length_append, length_singleton] at *
  · split <;> rw [hsize] at * <;> omega
  · split <;> omega
  · by_cases hlast : i = text.length
    · simp [hlast, hhead, hsize]
    · have hne : i % KLOG_BUF_SIZE ≠ k.klog_head := by
        rw [hsize] at hrecent ⊢
        omega
      rw [Function.update_of_ne hne, getElem?_append_left (by omega)]
      exact hcell i (by omega) (by omega)

theorem Holds.add (h : Holds k text) (s : List UInt8) : Holds (klog_add k s) (text ++ cstr s) := by
  unfold klog_add
  induction cstr s generalizing k text with
  | nil => simpa using h
  | cons c s ih => simpa using ih (h.put c)

theorem Holds.copied (h : Holds k text) : k.copied = text.drop (text.length - KLOG_BUF_SIZE) := by
  obtain ⟨hhead, hcount, hcell⟩ := h
  have hsize : KLOG_BUF_SIZE = 16384 := rfl
  unfold Klog.copied
  split
  · have hnil : text.length = 0 := by omega
    simp [length_eq_zero_iff.mp hnil]
  split
  · have hcount' : k.klog_count = text.length := by omega
    have hzero : text.length - KLOG_BUF_SIZE = 0 := by omega
    rw [hzero, drop_zero, hcount']
    refine ext_getElem? fun i => ?_
    by_cases hi : i < text.length
    · rw [hcell i hi (by omega), Nat.mod_eq_of_lt (by omega), getElem?_map, getElem?_range hi, Option.map_some]
    · rw [getElem?_eq_none (by simpa using hi), getElem?_eq_none (by omega)]
  · simp only [hsize] at *
    refine ext_getElem? fun i => ?_
    rw [getElem?_drop]
    by_cases hfirst : i < 16384 - k.klog_head
    · have hmod : (text.length - 16384 + i) % 16384 = k.klog_head + i := by omega
      rw [hcell _ (by omega) (by omega), hmod, getElem?_append_left (by simpa using hfirst), getElem?_map,
        getElem?_range hfirst, Option.map_some]
    by_cases hi : i < 16384
    · have hmod : (text.length - 16384 + i) % 16384 = i - (16384 - k.klog_head) := by omega
      have hlen : i - (16384 - k.klog_head) < k.klog_head := by omega
      rw [hcell _ (by omega) (by omega), hmod, getElem?_append_right (by simp; omega), length_map, length_range,
        getElem?_map, getElem?_range hlen, Option.map_some]
    · rw [getElem?_eq_none (by simp; omega), getElem?_eq_none (by omega)]

/-- After any calls of `klog_add`, `klog_get` returns the end of what was added. -/
theorem klog_keeps_newest (strings : List (List UInt8)) :
    klog_get (strings.foldl klog_add emptyLog) =
      (strings.flatMap cstr).drop ((strings.flatMap cstr).length - KLOG_BUF_SIZE) := by
  have hholds : Holds (strings.foldl klog_add emptyLog) (strings.flatMap cstr) := by
    induction strings using reverseRecOn with
    | nil => exact ⟨rfl, rfl, fun i hi => nomatch hi⟩
    | append_singleton strings s ih => simpa using ih.add s
  have hzero : (0 : UInt8) ∉ (strings.flatMap cstr).drop ((strings.flatMap cstr).length - KLOG_BUF_SIZE) := by
    intro hmem
    obtain ⟨s, -, hs⟩ := mem_flatMap.mp (mem_of_mem_drop hmem)
    exact zero_notMem_cstr s hs
  unfold klog_get
  rw [hholds.copied]
  exact cstr_append_zeros hzero 1

end Orion.Kernel
