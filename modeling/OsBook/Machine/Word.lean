import Mathlib.Data.Nat.Bitwise
import Mathlib.Tactic

/-!
# Bit fields of 64-bit machine words

Address arithmetic on `UInt64` mixes masks, shifts and wrapping sums.  This
file turns the three recurring patterns into arithmetic on `toNat`, where
`omega` can finish:

* clearing the low bits of a word rounds it down to a multiple of `2 ^ k`;
* a shift followed by a low mask is a quotient followed by a remainder;
* setting low flag bits in an aligned word is an addition.
-/

namespace OsBook
namespace Machine

/-- Masking with the bits `k, ..., w - 1` rounds down to a multiple of `2 ^ k`. -/
theorem nat_and_highMask (n k w : Nat) (hk : k ≤ w) (hn : n < 2 ^ w) :
    n &&& (2 ^ w - 2 ^ k) = n / 2 ^ k * 2 ^ k := by
  have hmask : 2 ^ w - 2 ^ k = (2 ^ (w - k) - 1) <<< k := by
    rw [Nat.shiftLeft_eq, Nat.sub_mul, one_mul, ← pow_add, Nat.sub_add_cancel hk]
  rw [hmask, ← Nat.shiftRight_eq_div_pow, ← Nat.shiftLeft_eq]
  apply Nat.eq_of_testBit_eq
  intro i
  simp only [Nat.testBit_and, Nat.testBit_shiftLeft, Nat.testBit_two_pow_sub_one,
    Nat.testBit_shiftRight]
  by_cases hi : k ≤ i
  · by_cases hw : i < w
    · have hlow : i - k < w - k := by omega
      simp [hi, hlow]
    · have hfalse : n.testBit i = false :=
        Nat.testBit_lt_two_pow (hn.trans_le (Nat.pow_le_pow_right (by omega) (by omega)))
      simp [hi, hfalse]
  · simp [hi]

/-- Masking with the bits `k, ..., w - 1` of a possibly longer number. -/
theorem nat_and_fieldMask (n k w : Nat) (hk : k ≤ w) :
    n &&& (2 ^ w - 2 ^ k) = n % 2 ^ w / 2 ^ k * 2 ^ k := by
  rw [← nat_and_highMask (n % 2 ^ w) k w hk (Nat.mod_lt _ (by positivity))]
  apply Nat.eq_of_testBit_eq
  intro i
  have hlt : 2 ^ w - 2 ^ k < 2 ^ w := Nat.sub_lt (by positivity) (by positivity)
  simp only [Nat.testBit_and, Nat.testBit_mod_two_pow]
  by_cases hi : i < w
  · simp [hi]
  · have hfalse : (2 ^ w - 2 ^ k).testBit i = false :=
      Nat.testBit_lt_two_pow (hlt.trans_le (Nat.pow_le_pow_right (by omega) (by omega)))
    simp [hfalse]

/-- A sum of words that stays below `2 ^ 64` does not wrap. -/
theorem toNat_add_of_lt {a b : UInt64} (h : a.toNat + b.toNat < 2 ^ 64) :
    (a + b).toNat = a.toNat + b.toNat := by
  rw [UInt64.toNat_add]
  exact Nat.mod_eq_of_lt h

/-- A product of words that stays below `2 ^ 64` does not wrap. -/
theorem toNat_mul_of_lt {a b : UInt64} (h : a.toNat * b.toNat < 2 ^ 64) :
    (a * b).toNat = a.toNat * b.toNat := by
  rw [UInt64.toNat_mul]
  exact Nat.mod_eq_of_lt h

/-- Clearing the low twelve bits rounds down to a 4 KiB boundary. -/
theorem toNat_and_not_fff (x : UInt64) :
    (x &&& ~~~0xfff).toNat = x.toNat / 4096 * 4096 := by
  rw [UInt64.toNat_and]
  exact nat_and_highMask x.toNat 12 64 (by omega) x.toNat_lt

/-- Clearing the low four bits rounds down to a multiple of sixteen. -/
theorem toNat_and_not_f (x : UInt64) : (x &&& ~~~0xf).toNat = x.toNat / 16 * 16 := by
  rw [UInt64.toNat_and]
  exact nat_and_highMask x.toNat 4 64 (by omega) x.toNat_lt

/-- The low twelve bits are the offset inside a 4 KiB block. -/
theorem toNat_and_fff (x : UInt64) : (x &&& 0xfff).toNat = x.toNat % 4096 := by
  rw [UInt64.toNat_and]
  exact Nat.and_two_pow_sub_one_eq_mod x.toNat 12

/-- A nine-bit field of a word. -/
theorem toNat_shiftRight_and_1ff (x : UInt64) (s : Nat) (hs : s < 64) :
    ((x >>> UInt64.ofNat s) &&& 0x1ff).toNat = x.toNat / 2 ^ s % 512 := by
  rw [UInt64.toNat_and, UInt64.toNat_shiftRight]
  have hshift : (UInt64.ofNat s).toNat % 64 = s := by
    rw [UInt64.toNat_ofNat']
    omega
  rw [hshift, Nat.shiftRight_eq_div_pow]
  exact Nat.and_two_pow_sub_one_eq_mod _ 9

/-- Setting flag bits below an alignment boundary is an addition. -/
theorem toNat_or_of_aligned {a f : UInt64} (ha : a.toNat % 4096 = 0) (hf : f.toNat < 4096) :
    (a ||| f).toNat = a.toNat + f.toNat := by
  rw [UInt64.toNat_or]
  have hsplit : a.toNat = 2 ^ 12 * (a.toNat / 4096) := by omega
  rw [hsplit]
  exact (Nat.two_pow_add_eq_or_of_lt (i := 12) hf _).symm

/-- Subtracting two words one after the other. -/
theorem sub_sub_eq (a b c : UInt64) : a - b - c = a - (b + c) := by
  rw [UInt64.eq_sub_iff_add_eq, UInt64.add_comm b, ← UInt64.add_assoc, UInt64.sub_add_cancel,
    UInt64.sub_add_cancel]

/-- A word is zero exactly when its value is. -/
theorem eq_zero_iff_toNat {x : UInt64} : x = 0 ↔ x.toNat = 0 := by
  rw [← UInt64.toNat_inj]
  rfl

end Machine
end OsBook
