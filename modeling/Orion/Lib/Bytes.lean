import Mathlib.Tactic

/-!
# Byte buffers

A buffer is a map from offsets to bytes; a user of it reads and writes the offsets it owns. `splice` is a
`memcpy` into the buffer, and the little-endian fields of packed records are read and written through
it.
-/

namespace Orion.Lib

/-- A buffer without bounds. -/
abbrev Bytes := Nat → UInt8

namespace Bytes

/-- The bytes of `l`, with zeros behind them. -/
def ofList (l : List UInt8) : Bytes := fun i => l.getD i 0

/-- `n` bytes from the offset `o` on. -/
def slice (b : Bytes) (o n : Nat) : List UInt8 := (List.range n).map fun k => b (o + k)

/-- `memcpy(b + o, src, n)` -/
def splice (b : Bytes) (o n : Nat) (src : Bytes) : Bytes :=
  fun i => if o ≤ i ∧ i < o + n then src (i - o) else b i

/-- The bytes of `v`, lowest first. -/
def le (v : Nat) : Bytes := fun k => UInt8.ofNat (v / 256 ^ k)

def get16 (b : Bytes) (o : Nat) : UInt16 := UInt16.ofNat ((b o).toNat + 256 * (b (o + 1)).toNat)

def get32 (b : Bytes) (o : Nat) : UInt32 :=
  UInt32.ofNat ((b o).toNat + 256 * (b (o + 1)).toNat + 256 ^ 2 * (b (o + 2)).toNat +
    256 ^ 3 * (b (o + 3)).toNat)

def put16 (b : Bytes) (o : Nat) (v : UInt16) : Bytes := b.splice o 2 (le v.toNat)

def put32 (b : Bytes) (o : Nat) (v : UInt32) : Bytes := b.splice o 4 (le v.toNat)

/-- Two buffers agree on `[o, o + n)`. -/
def Agree (b c : Bytes) (o n : Nat) : Prop := ∀ i, o ≤ i → i < o + n → b i = c i

variable {b c : Bytes} {o n o' n' : Nat} {src : Bytes} {i : Nat}

theorem splice_inside (h1 : o ≤ i) (h2 : i < o + n) : b.splice o n src i = src (i - o) := if_pos ⟨h1, h2⟩

theorem splice_outside (h : i < o ∨ o + n ≤ i) : b.splice o n src i = b i := if_neg fun hin => by omega

theorem agree_splice (h : o' + n' ≤ o ∨ o + n ≤ o') : Agree (b.splice o n src) b o' n' :=
  fun _ h1 h2 => splice_outside (by omega)

theorem Agree.trans {d : Bytes} (h : Agree b c o n) (h' : Agree c d o n) : Agree b d o n :=
  fun i h1 h2 => (h i h1 h2).trans (h' i h1 h2)

theorem Agree.mono (h : Agree b c o n) (hlow : o ≤ o') (hhigh : o' + n' ≤ o + n) : Agree b c o' n' :=
  fun i h1 h2 => h i (by omega) (by omega)

theorem slice_congr (h : Agree b c o n) : b.slice o n = c.slice o n := by
  unfold slice
  apply List.map_congr_left
  intro k hk
  have hlt := List.mem_range.mp hk
  exact h (o + k) (by omega) (by omega)

@[simp] theorem length_slice (b : Bytes) (o n : Nat) : (b.slice o n).length = n := by
  simp [slice]

theorem get32_congr (h : Agree b c o 4) : b.get32 o = c.get32 o := by
  unfold get32
  rw [h o (by omega) (by omega), h (o + 1) (by omega) (by omega), h (o + 2) (by omega) (by omega),
    h (o + 3) (by omega) (by omega)]

theorem get16_congr (h : Agree b c o 2) : b.get16 o = c.get16 o := by
  unfold get16
  rw [h o (by omega) (by omega), h (o + 1) (by omega) (by omega)]

theorem slice_splice_ofList (b : Bytes) (o : Nat) (l : List UInt8) :
    (b.splice o l.length (ofList l)).slice o l.length = l := by
  apply List.ext_getElem
  · simp
  intro k hk hk'
  simp only [slice, List.getElem_map, List.getElem_range]
  rw [splice_inside (by omega) (by omega)]
  simp [ofList, List.getD_eq_getElem?_getD, hk']

theorem toNat_le (v k : Nat) : (le v k).toNat = v / 256 ^ k % 256 := by
  simp [le, UInt8.toNat_ofNat']

theorem get16_put16 (b : Bytes) (o : Nat) (v : UInt16) : (b.put16 o v).get16 o = v := by
  have hlt := v.toNat_lt
  unfold get16 put16
  rw [splice_inside (by omega) (by omega), splice_inside (by omega) (by omega), toNat_le, toNat_le]
  apply UInt16.toNat_inj.mp
  rw [UInt16.toNat_ofNat']
  simp only [Nat.sub_self, Nat.add_sub_cancel_left, Nat.pow_zero, Nat.div_one, Nat.pow_one]
  omega

theorem get32_put32 (b : Bytes) (o : Nat) (v : UInt32) : (b.put32 o v).get32 o = v := by
  have hlt := v.toNat_lt
  unfold get32 put32
  rw [splice_inside (by omega) (by omega), splice_inside (by omega) (by omega),
    splice_inside (by omega) (by omega), splice_inside (by omega) (by omega), toNat_le, toNat_le,
    toNat_le, toNat_le]
  apply UInt32.toNat_inj.mp
  rw [UInt32.toNat_ofNat']
  simp only [Nat.sub_self, Nat.add_sub_cancel_left, Nat.pow_zero, Nat.div_one, Nat.pow_one]
  omega

theorem get32_put32_of_disjoint (b : Bytes) (v : UInt32) (h : o + 4 ≤ o' ∨ o' + 4 ≤ o) :
    (b.put32 o' v).get32 o = b.get32 o :=
  get32_congr (agree_splice h)

theorem get16_splice_of_disjoint (h : o' + 2 ≤ o ∨ o + n ≤ o') : (b.splice o n src).get16 o' = b.get16 o' :=
  get16_congr (agree_splice h)

theorem get32_splice_of_disjoint (h : o' + 4 ≤ o ∨ o + n ≤ o') : (b.splice o n src).get32 o' = b.get32 o' :=
  get32_congr (agree_splice h)

theorem get16_put16_of_disjoint {v : UInt16} (h : o' + 2 ≤ o ∨ o + 2 ≤ o') : (b.put16 o v).get16 o' = b.get16 o' :=
  get16_splice_of_disjoint h

theorem get16_put32_of_disjoint {v : UInt32} (h : o' + 2 ≤ o ∨ o + 4 ≤ o') : (b.put32 o v).get16 o' = b.get16 o' :=
  get16_splice_of_disjoint h

end Bytes

end Orion.Lib
