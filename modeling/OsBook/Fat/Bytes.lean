import Mathlib.Data.List.Basic
import Mathlib.Tactic

/-!
# Byte strings with slices

A slice is a window `[i, i + n)` of a byte string, cut off at its end.  A slice
assignment replaces a window by other bytes; outside the window nothing changes
as long as the new bytes have the length of the window (`slice_setSlice_apart`),
and inside it exactly the new bytes are read back (`slice_setSlice_same`).
-/

namespace OsBook
namespace Fat

abbrev Bytes := List UInt8

/-- The bytes from `i` to `i + n`, or up to the end. -/
def slice (l : Bytes) (i n : Nat) : Bytes := (l.drop i).take n

/-- Replace the bytes from `i` to `j`.  Positions past the end count as the end. -/
def setSlice (l : Bytes) (i j : Nat) (v : Bytes) : Bytes := l.take i ++ v ++ l.drop j

/-- The byte at a position; past the end it is zero. -/
def byteAt (l : Bytes) (i : Nat) : Nat := (l.getD i 0).toNat

/-- A little-endian 16-bit number. -/
def le16 (l : Bytes) (i : Nat) : Nat := byteAt l i + 256 * byteAt l (i + 1)

/-- A little-endian 32-bit number. -/
def le32 (l : Bytes) (i : Nat) : Nat := le16 l i + 65536 * le16 l (i + 2)

/-- The bytes of a 16-bit number. -/
def u16 (x : Nat) : Bytes := [UInt8.ofNat x, UInt8.ofNat (x / 256)]

/-- The bytes of a 32-bit number. -/
def u32 (x : Nat) : Bytes := u16 x ++ u16 (x / 65536)

/-- `n` zero bytes. -/
def zeros (n : Nat) : Bytes := List.replicate n 0

variable {l a b v : Bytes} {i j k n : Nat}

/-! ## Slices -/

@[simp] theorem length_zeros (n : Nat) : (zeros n).length = n := List.length_replicate

@[simp] theorem length_u16 (x : Nat) : (u16 x).length = 2 := rfl

@[simp] theorem length_u32 (x : Nat) : (u32 x).length = 4 := rfl

theorem length_slice (h : i + n ≤ l.length) : (slice l i n).length = n := by
  rw [slice, List.length_take, List.length_drop]
  omega

/-- A slice, position by position. -/
theorem getElem?_slice (l : Bytes) (i n k : Nat) :
    (slice l i n)[k]? = if k < n then l[i + k]? else none := by
  rw [slice, List.getElem?_take, List.getElem?_drop]

theorem byteAt_eq (l : Bytes) (i : Nat) : byteAt l i = (l[i]?.getD 0).toNat := by
  rw [byteAt, List.getD_eq_getElem?_getD]

/-- Reading inside a slice. -/
theorem byteAt_slice (hk : k < n) : byteAt (slice l i n) k = byteAt l (i + k) := by
  rw [byteAt_eq, byteAt_eq, getElem?_slice, if_pos hk]

theorem le16_slice (hk : k + 2 ≤ n) : le16 (slice l i n) k = le16 l (i + k) := by
  rw [le16, le16, byteAt_slice (by omega), byteAt_slice (by omega)]
  rfl

theorem slice_all (l : Bytes) : slice l 0 l.length = l := by
  rw [slice, List.drop_zero, List.take_length]

theorem slice_append_left (h : i + n ≤ a.length) : slice (a ++ b) i n = slice a i n := by
  apply List.ext_getElem?
  intro p
  simp only [getElem?_slice]
  by_cases hp : p < n
  · rw [if_pos hp, if_pos hp, List.getElem?_append_left (by omega)]
  · rw [if_neg hp, if_neg hp]

theorem slice_append_right (h : a.length ≤ i) :
    slice (a ++ b) i n = slice b (i - a.length) n := by
  rw [slice, slice, List.drop_append, List.drop_eq_nil_of_le h, List.nil_append]

/-- A slice that starts in the second part. -/
theorem slice_skip (ha : a.length = k) : slice (a ++ b) (k + i) n = slice b i n := by
  rw [slice_append_right (by omega), ha, Nat.add_sub_cancel_left]

/-- A slice that may straddle the seam. -/
theorem slice_append (a b : Bytes) (i n : Nat) :
    slice (a ++ b) i n = slice a i n ++ slice b (i - a.length) (n - (a.drop i).length) := by
  rw [slice, slice, slice, List.drop_append, List.take_append]

/-- The first slices of a byte string, one after the other. -/
theorem flatMap_slices (l : Bytes) (n k : Nat) :
    (List.range k).flatMap (fun i => slice l (i * n) n) = l.take (k * n) := by
  induction k with
  | zero => simp
  | succ k ih =>
      rw [List.range_succ, List.flatMap_append, ih, Nat.succ_mul, List.take_add]
      show l.take (k * n) ++ (slice l (k * n) n ++ []) = _
      rw [List.append_nil, slice]

theorem slice_zeros (h : i + n ≤ k) : slice (zeros k) i n = zeros n := by
  rw [slice, zeros, zeros, List.drop_replicate, List.take_replicate, Nat.min_eq_left (by omega)]

/-! ## Slice assignments -/

theorem length_setSlice (hv : v.length = n) (h : i + n ≤ l.length) :
    (setSlice l i (i + n) v).length = l.length := by
  simp only [setSlice, List.length_append, List.length_take, List.length_drop]
  omega

theorem getElem?_setSlice (hv : v.length = n) (h : i + n ≤ l.length) (p : Nat) :
    (setSlice l i (i + n) v)[p]? = if i ≤ p ∧ p < i + n then v[p - i]? else l[p]? := by
  have htake : (l.take i).length = i := by
    rw [List.length_take]
    omega
  rw [setSlice]
  by_cases hlow : p < i
  · rw [if_neg (by omega), List.append_assoc, List.getElem?_append_left (by omega),
      List.getElem?_take, if_pos hlow]
  · by_cases hhigh : p < i + n
    · rw [if_pos ⟨by omega, hhigh⟩, List.append_assoc, List.getElem?_append_right (by omega),
        htake, List.getElem?_append_left (by omega)]
    · rw [if_neg (by omega), List.getElem?_append_right (by rw [List.length_append]; omega),
        List.length_append, htake, hv, List.getElem?_drop]
      congr 1
      omega

/-- Reading back exactly the assigned window. -/
theorem slice_setSlice_same (hv : v.length = n) (h : i + n ≤ l.length) :
    slice (setSlice l i (i + n) v) i n = v := by
  apply List.ext_getElem?
  intro p
  rw [getElem?_slice, getElem?_setSlice hv h]
  by_cases hp : p < n
  · rw [if_pos hp, if_pos ⟨by omega, by omega⟩, Nat.add_sub_cancel_left]
  · rw [if_neg hp, List.getElem?_eq_none (by omega)]

/-- Reading a window that the assignment does not meet. -/
theorem slice_setSlice_apart (hv : v.length = n) (h : i + n ≤ l.length)
    (hapart : j + k ≤ i ∨ i + n ≤ j) : slice (setSlice l i (i + n) v) j k = slice l j k := by
  apply List.ext_getElem?
  intro p
  rw [getElem?_slice, getElem?_slice]
  by_cases hp : p < k
  · rw [if_pos hp, if_pos hp, getElem?_setSlice hv h, if_neg (by omega)]
  · rw [if_neg hp, if_neg hp]

/-! ## Little-endian numbers -/

theorem byteAt_append_left (h : i < a.length) : byteAt (a ++ b) i = byteAt a i := by
  rw [byteAt_eq, byteAt_eq, List.getElem?_append_left h]

/-- Reading in the second part. -/
theorem byteAt_skip (ha : a.length = k) : byteAt (a ++ b) (k + i) = byteAt b i := by
  rw [byteAt_eq, byteAt_eq, List.getElem?_append_right (by omega), ha, Nat.add_sub_cancel_left]

theorem le16_skip (ha : a.length = k) : le16 (a ++ b) (k + i) = le16 b i := by
  rw [le16, le16, byteAt_skip ha, Nat.add_assoc, byteAt_skip ha]

theorem le32_skip (ha : a.length = k) : le32 (a ++ b) (k + i) = le32 b i := by
  rw [le32, le32, le16_skip ha, Nat.add_assoc, le16_skip ha]

theorem le16_append_left (h : i + 2 ≤ a.length) : le16 (a ++ b) i = le16 a i := by
  rw [le16, le16, byteAt_append_left (by omega), byteAt_append_left (by omega)]

/-- Reading back a 16-bit number. -/
theorem le16_u16 (x : Nat) : le16 (u16 x) 0 = x % 65536 := by
  have hlow : byteAt (u16 x) 0 = x % 256 := UInt8.toNat_ofNat'
  have hhigh : byteAt (u16 x) 1 = x / 256 % 256 := UInt8.toNat_ofNat'
  rw [le16, hlow, hhigh]
  omega

/-- Reading back a 32-bit number. -/
theorem le32_u32 (x : Nat) : le32 (u32 x) 0 = x % 2 ^ 32 := by
  have hlow : le16 (u32 x) 0 = x % 65536 := le16_u16 x
  have hhigh : le16 (u32 x) 2 = x / 65536 % 65536 := le16_u16 (x / 65536)
  rw [le32, hlow, hhigh]
  omega

theorem byteAt_zeros (n i : Nat) : byteAt (zeros n) i = 0 := by
  rw [byteAt_eq, zeros, List.getElem?_replicate]
  split <;> rfl

theorem le16_zeros (n i : Nat) : le16 (zeros n) i = 0 := by
  rw [le16, byteAt_zeros, byteAt_zeros]

/-- A 16-bit number is determined by the slice it occupies. -/
theorem le16_eq_slice (l : Bytes) (i : Nat) : le16 l i = le16 (slice l i 2) 0 := by
  rw [le16_slice (by omega), Nat.add_zero]

end Fat
end OsBook
