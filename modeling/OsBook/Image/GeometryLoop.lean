import Mathlib.Logic.Function.Iterate
import OsBook.Image.MakeFat16

/-!
# The FAT size loop for every image size

The loop replaces a FAT size by the one that the remaining clusters need, at
most twenty times.  A larger FAT leaves fewer clusters, so the step is
decreasing.  Each sector of a FAT costs two sectors and holds 256 entries: with
`total - 3 = 258 * q + r` the loop reaches `q` or `q + 1` after two rounds, and
from there it is a walk on these two values that depends on `r` alone.  For
`r = 1` and `r = 2` they alternate, and the twentieth round leaves `q`, which is
too small.
-/

namespace OsBook
namespace Image

open Fat

/-- One round: the FAT size that the clusters beside a FAT of the given size need. -/
def fatRound (total fatSectors : Int) : Int :=
  ceilDiv ((clustersBeside total fatSectors + 2) * 2) bytesPerSector

/-- Stopping at a fixed point is going on: the loop iterates its round. -/
theorem fatSizeLoop_snd (total : Int) (left : Nat) (clusterCount fatSectors : Int) :
    (fatSizeLoop total left clusterCount fatSectors).2 = (fatRound total)^[left] fatSectors := by
  induction left generalizing clusterCount fatSectors with
  | zero => rfl
  | succ left ih =>
      rw [fatSizeLoop]
      split
      next hfixed =>
        have hround : fatRound total fatSectors = fatSectors := hfixed
        exact (Function.iterate_fixed hround (left + 1)).symm
      next =>
        rw [ih, Function.iterate_succ_apply]
        rfl

/-- The FAT size that the script ends up with. -/
def finalFatSectors (total : Int) : Int := (fatRound total)^[20] 1

/-- What is known when no exception is raised. -/
theorem geometry_eq_ok {total : Int} {fat data : Nat} (h : geometry total = .ok (fat, data)) :
    fat = (finalFatSectors total).toNat ∧
      (data : Int) = clustersBeside total (finalFatSectors total) := by
  have hfinal := fatSizeLoop_snd total 20 0 1
  unfold geometry at h
  generalize fatSizeLoop total 20 0 1 = result at h hfinal
  obtain ⟨clusterCount, fatSectors⟩ := result
  have hfat : fatSectors = finalFatSectors total := hfinal
  simp only at h
  split at h
  · cases h
  · split at h
    · cases h
    · rename_i hdata
      cases h
      rw [← hfat]
      exact ⟨rfl, Int.toNat_of_nonneg (by omega)⟩

/-- The clusters beside a FAT, as a number. -/
theorem clustersBeside_eq (total fatSectors : Int) :
    clustersBeside total fatSectors = total - 5 - 2 * fatSectors := by
  have hroot : rootDirSectors = 4 := rfl
  simp only [clustersBeside, reservedSectors, hroot, fatCount]
  omega

/-- One round in the coordinates `q` and `r` of the image size. -/
theorem fatRound_add {total q r : Int} (htotal : total - 3 = 258 * q + r) (d : Int) :
    fatRound total (q + d) = q - (2 * d - r) / 256 := by
  simp only [fatRound, ceilDiv, clustersBeside_eq, bytesPerSector]
  omega

section Walk

variable {total q r : Int}

/-- With `r` at most two the loop is at `q` after two rounds. -/
theorem fatRound_two (htotal : total - 3 = 258 * q + r) (hr : 0 ≤ r) (hr' : r ≤ 2)
    (hq : 2 ≤ q) (hq' : q ≤ 256) : fatRound total (fatRound total 1) = q := by
  have hfirst := fatRound_add htotal (1 - q)
  rw [add_sub_cancel] at hfirst
  have hsecond := fatRound_add htotal (-((2 * (1 - q) - r) / 256))
  rw [← sub_eq_add_neg] at hsecond
  rw [hfirst, hsecond]
  omega

/-- Otherwise it is at `q + 1` after three rounds. -/
theorem fatRound_three (htotal : total - 3 = 258 * q + r) (hr : 3 ≤ r) (hr' : r < 258)
    (hq : 2 ≤ q) (hq' : q ≤ 256) :
    fatRound total (fatRound total (fatRound total 1)) = q + 1 := by
  have hfirst := fatRound_add htotal (1 - q)
  rw [add_sub_cancel] at hfirst
  have hsecond := fatRound_add htotal (-((2 * (1 - q) - r) / 256))
  rw [← sub_eq_add_neg] at hsecond
  rw [hfirst, hsecond]
  have hnext : q - (2 * -((2 * (1 - q) - r) / 256) - r) / 256 = q ∧ r ≤ 256 ∨
      q - (2 * -((2 * (1 - q) - r) / 256) - r) / 256 = q + 1 := by
    omega
  have hzero := fatRound_add htotal 0
  have hone := fatRound_add htotal 1
  rw [add_zero] at hzero
  rcases hnext with ⟨hnext, hr256⟩ | hnext
  · rw [hnext, hzero]
    omega
  · rw [hnext, hone]
    omega

/-- The FAT size after twenty rounds. -/
theorem finalFatSectors_eq (htotal : total - 3 = 258 * q + r) (hr : 0 ≤ r) (hr' : r < 258)
    (hq : 2 ≤ q) (hq' : q ≤ 256) : finalFatSectors total = if r ≤ 2 then q else q + 1 := by
  have hzero := fatRound_add htotal 0
  have hone := fatRound_add htotal 1
  rw [add_zero] at hzero
  split
  next hsmall =>
    have htwo := fatRound_two htotal hr hsmall hq hq'
    -- The loop comes back to `q` every other round.
    have hreturn : (fatRound total)^[2] q = q := by
      show fatRound total (fatRound total q) = q
      have hstep : fatRound total q = q ∨ fatRound total q = q + 1 ∧ 1 ≤ r := by omega
      rcases hstep with hstep | ⟨hstep, hr1⟩
      · rw [hstep, hstep]
      · rw [hstep, hone]
        omega
    show (fatRound total)^[2 * 9] (fatRound total (fatRound total 1)) = q
    rw [htwo, Function.iterate_mul]
    exact Function.iterate_fixed hreturn 9
  next hlarge =>
    have hthree := fatRound_three htotal (by omega) hr' hq hq'
    have hfixed : fatRound total (q + 1) = q + 1 := by
      rw [hone]
      omega
    show (fatRound total)^[17] (fatRound total (fatRound total (fatRound total 1))) = q + 1
    rw [hthree]
    exact Function.iterate_fixed hfixed 17

end Walk

/-! ## Image sizes whose cluster count is in the FAT16 range -/

/-- Whatever the image size, the FAT stays far smaller. -/
theorem finalFatSectors_bound (total : Int) :
    finalFatSectors total ≤ |total| / 200 + 2 ∧ -(|total| / 200 + 2) ≤ finalFatSectors total := by
  have hround : ∀ f : Int, f ≤ |total| / 200 + 2 ∧ -(|total| / 200 + 2) ≤ f →
      fatRound total f ≤ |total| / 200 + 2 ∧ -(|total| / 200 + 2) ≤ fatRound total f := by
    intro f hf
    simp only [fatRound, ceilDiv, clustersBeside_eq, bytesPerSector]
    rcases abs_cases total with ⟨habs, hsign⟩ | ⟨habs, hsign⟩
    · omega
    · omega
  have hstart : (1 : Int) ≤ |total| / 200 + 2 ∧ -(|total| / 200 + 2) ≤ 1 := by
    have habs := abs_nonneg total
    omega
  exact Function.Iterate.rec (fun f => f ≤ |total| / 200 + 2 ∧ -(|total| / 200 + 2) ≤ f)
    hstart (fun f hf => hround f hf) 20

/-- **FAT geometry.**  When no exception is raised and the clusters are in the FAT16 range, the
FAT has an entry for every cluster, and the parts add up to the image, exactly if the loop does
not end between its two values. -/
theorem geometry_consistent_iff {total : Int} {fat data : Nat}
    (hok : geometry total = .ok (fat, data)) (hmin : 4085 ≤ data) (hmax : data ≤ 65524) :
    (2 * (data + 2) ≤ fat * bytesPerSector ∧
      (reservedSectors + fatCount * fat + rootDirSectors + data : Int) = total) ↔
      total % 258 ≠ 4 ∧ total % 258 ≠ 5 := by
  obtain ⟨hfat, hdata⟩ := geometry_eq_ok hok
  have hroot : rootDirSectors = 4 := rfl
  rw [clustersBeside_eq] at hdata
  have hbound := finalFatSectors_bound total
  have hq : 2 ≤ (total - 3) / 258 ∧ (total - 3) / 258 ≤ 256 := by
    rcases abs_cases total with ⟨habs, hsign⟩ | ⟨habs, hsign⟩
    · omega
    · omega
  have htotal : total - 3 = 258 * ((total - 3) / 258) + (total - 3) % 258 := by omega
  have hfinal := finalFatSectors_eq htotal (by omega) (by omega) hq.1 hq.2
  simp only [reservedSectors, fatCount, hroot, bytesPerSector]
  split at hfinal
  next hsmall => omega
  next hlarge => omega

/-- The shipped image size. -/
theorem geometry_consistent_iff_totalSectors :
    (2 * (32509 + 2) ≤ 127 * bytesPerSector ∧
      (reservedSectors + fatCount * (127 : Nat) + rootDirSectors + (32509 : Nat) : Int) =
        totalSectors) ↔ (totalSectors : Int) % 258 ≠ 4 ∧ (totalSectors : Int) % 258 ≠ 5 := by
  have hok : geometry totalSectors = .ok (127, 32509) := by decide
  exact geometry_consistent_iff hok (by decide) (by decide)

/-- Two sectors more than the shipped image: the FAT has no entry for the last cluster. -/
theorem geometry_two_more :
    ¬ ∀ (total : Int) (fat data : Nat), geometry total = .ok (fat, data) → 4085 ≤ data →
      data ≤ 65524 → 2 * (data + 2) ≤ fat * bytesPerSector ∧
        (reservedSectors + fatCount * fat + rootDirSectors + data : Int) = total := by
  intro h
  have hgeometry : geometry 32770 = .ok (127, 32511) := by decide +kernel
  have hentries := (h 32770 127 32511 hgeometry (by decide) (by decide)).1
  simp [bytesPerSector] at hentries

end Image
end OsBook
