/-
  SensorServer.Framework.Bytes — a region of byte memory and the block operations on it.

  A region is a function from offsets to bytes.  `load bs` holds the bytes `bs` followed by
  zeros, `clear` and `move` are the effects of clearing and of copying a range down, and
  `slice` reads a range as a list.  Ranges are not bounded here: the user of the library
  says which ranges are legal and checks them before the operation.
-/
import Mathlib.Data.List.GetD

namespace SensorServer.Framework

/-- A region of memory, from its first byte on. -/
abbrev Region := Nat → UInt8

namespace Region

/-! ## §1. Operations. -/

/-- The bytes `bs`, then zeros. -/
def load (bs : List UInt8) : Region := fun i => bs.getD i 0

/-- Zero the `len` bytes from `off` on. -/
def clear (m : Region) (off len : Nat) : Region :=
  fun i => if off ≤ i ∧ i < off + len then 0 else m i

/-- Copy the `len` bytes from `src` on to the beginning of the region. -/
def move (m : Region) (src len : Nat) : Region :=
  fun i => if i < len then m (src + i) else m i

/-- The `len` bytes from `off` on. -/
def slice (m : Region) (off len : Nat) : List UInt8 :=
  (List.range len).map fun i => m (off + i)

/-- A 16-bit big-endian number. -/
def be16 (hi lo : UInt8) : Nat := hi.toNat * 256 + lo.toNat

/-- A slice in two parts. -/
theorem slice_add (m : Region) (off a b : Nat) :
    slice m off (a + b) = slice m off a ++ slice m (off + a) b := by
  unfold slice
  rw [List.range_add, List.map_append, List.map_map]
  congr 1
  apply List.map_congr_left
  intro i _
  show m (off + (a + i)) = m (off + a + i)
  rw [Nat.add_assoc]

/-! ## §2. Reading loaded bytes. -/

/-- Inside the first part, a concatenation reads as its first part. -/
theorem load_append_left {bs cs : List UInt8} {i : Nat} (h : i < bs.length) :
    load (bs ++ cs) i = load bs i :=
  List.getD_append _ _ _ _ h

/-- A slice of loaded bytes that begins with them and is as long. -/
theorem slice_load (bs : List UInt8) : slice (load bs) 0 bs.length = bs := by
  apply List.ext_getElem
  · simp [slice]
  · intro i _ hi
    have hget : load bs (0 + i) = bs[i] := by
      rw [Nat.zero_add]
      exact List.getD_eq_getElem _ _ hi
    simpa [slice] using hget

/-- A slice that lies in the loaded bytes. -/
theorem slice_load_drop {bs : List UInt8} {off len : Nat} (h : off + len ≤ bs.length) :
    slice (load bs) off len = (bs.drop off).take len := by
  apply List.ext_getElem
  · rw [slice, List.length_map, List.length_range, List.length_take, List.length_drop]
    omega
  · intro i hi _
    rw [slice, List.length_map, List.length_range] at hi
    have hget : load bs (off + i) = bs[off + i] := List.getD_eq_getElem _ _ (by omega)
    simpa [slice] using hget

/-- The two big-endian bytes of a 16-bit number read back as the number. -/
theorem be16_split {n : Nat} (h : n < 65536) :
    be16 (UInt8.ofNat (n / 256)) (UInt8.ofNat (n % 256)) = n := by
  unfold be16
  rw [UInt8.toNat_ofNat', UInt8.toNat_ofNat']
  omega

/-! ## §3. Clearing before copying down. -/

theorem clear_inside {m : Region} {off len i : Nat} (h1 : off ≤ i) (h2 : i < off + len) :
    clear m off len i = 0 :=
  if_pos ⟨h1, h2⟩

/-- Copying a range down after it has been cleared leaves zeros. -/
theorem move_clear {m : Region} {off len n i : Nat} (hlen : len ≤ n) (hi : i < len) :
    move (clear m off n) off len i = 0 := by
  rw [move, if_pos hi]
  exact clear_inside (Nat.le_add_right _ _) (by omega)

end Region

end SensorServer.Framework
