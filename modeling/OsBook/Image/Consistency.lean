import OsBook.Image.RoundTrip

/-!
# Consistency of the allocation

Reading the file back says nothing about the clusters that the reader does not
visit.  Here the whole FAT and the whole data area are accounted for: the three
chains are disjoint runs of existing clusters, every other entry is free, and
every byte outside the chains, or past the end of the file, is zero
(`makeFat16Image_consistent`).
-/

namespace OsBook
namespace Image

open Fat

/-- The allocation of an image, with the chains of the two directories and of the file. -/
structure FatConsistent (efiData img : Bytes) (efiChain bootChain fileChain : List Nat) :
    Prop where
  /-- The two copies of the FAT are identical. -/
  copies : ∀ k, k < (readGeometry img).fatSectors * 512 →
    byteAt img ((readGeometry img).fatStart 0 + k) =
      byteAt img ((readGeometry img).fatStart 1 + k)
  /-- Each chain ends in an end-of-chain mark. -/
  efi : chainFrom (readGeometry img) img 2 = some efiChain
  boot : chainFrom (readGeometry img) img 3 = some bootChain
  file : chainFrom (readGeometry img) img 4 = some fileChain
  /-- No chain meets itself or another one. -/
  disjoint : (efiChain ++ bootChain ++ fileChain).Nodup
  /-- All clusters exist in the data area. -/
  exist : ∀ c ∈ efiChain ++ bootChain ++ fileChain, 2 ≤ c ∧ c ≤ 32510
  /-- The data area has these clusters and ends with the image. -/
  extent : (readGeometry img).clusterCount = 32509 ∧
    (readGeometry img).dataStart + 32509 * (readGeometry img).clusterBytes = img.length
  size : fileChain.length = max 1 ((efiData.length + 511) / 512)
  /-- No cluster is lost. -/
  free : ∀ c, 2 ≤ c → 2 * c < (readGeometry img).fatSectors * 512 →
    c ∉ efiChain ++ bootChain ++ fileChain → (readGeometry img).fatEntry img c = 0
  /-- Unused clusters are zero. -/
  blank : ∀ c, 2 ≤ c → c ≤ 32510 → c ∉ efiChain ++ bootChain ++ fileChain →
    ∀ k, k < (readGeometry img).clusterBytes → byteAt ((readGeometry img).clusterData img c) k = 0
  /-- The last cluster of the file is zero past the file's end. -/
  tail : ∀ c, fileChain.getLast? = some c →
    ∀ k, efiData.length ≤ (fileChain.length - 1) * 512 + k → k < (readGeometry img).clusterBytes →
      byteAt ((readGeometry img).clusterData img c) k = 0

/-- The clusters of the three chains, in order. -/
theorem chains_eq (n : Nat) : [2] ++ [3] ++ List.range' 4 n = List.range' 2 (n + 2) := by
  rw [List.range'_succ, List.range'_succ]
  rfl

theorem mem_chains {n c : Nat} :
    c ∈ [2] ++ [3] ++ List.range' 4 n ↔ 2 ≤ c ∧ c < 4 + n := by
  rw [chains_eq, List.mem_range'_1]
  omega

/-- Entries past the last chain are free. -/
theorem fatMap_free {needed c : Nat} (hc : 4 + needed ≤ c) : fatMap needed needed c = 0 := by
  unfold fatMap
  rw [if_neg (by omega), if_neg (by omega), if_neg (by omega)]

/-- Clusters past the last chain are blank. -/
theorem contentUpTo_free (efiData : Bytes) {needed c : Nat} (hc : 4 + needed ≤ c) :
    contentUpTo efiData needed c = zeros 512 := by
  unfold contentUpTo
  rw [if_neg (by omega), if_neg (by omega), if_neg (by omega)]

/-- A chunk is zero past the end of the file. -/
theorem byteAt_fileChunk {efiData : Bytes} {i k : Nat} (hend : efiData.length ≤ i * 512 + k)
    (hk : k < 512) : byteAt (fileChunk efiData i) k = 0 := by
  obtain ⟨j, hj⟩ := Nat.exists_eq_add_of_le hend
  rw [fileChunk_eq (n := (i + 1) * 512) (by omega), byteAt_slice hk, hj, byteAt_skip rfl,
    byteAt_zeros]

/-- **An image with these fields is consistent.** -/
theorem ImageOf.consistent {efiData img : Bytes} (h : ImageOf efiData img)
    (hfit : efiData.length ≤ fileCapacity) :
    FatConsistent efiData img [2] [3] (List.range' 4 (fileClustersNeeded efiData)) := by
  have hmost := fileClustersNeeded_le hfit
  constructor
  all_goals try rw [h.geometry]
  case copies =>
    intro k hk
    rw [← byteAt_slice (n := 127 * 512) hk, ← byteAt_slice (n := 127 * 512) hk, h.copies]
  case efi => exact h.chain_directory (Or.inl rfl)
  case boot => exact h.chain_directory (Or.inr rfl)
  case file => exact h.chain_file hfit
  case disjoint =>
    rw [chains_eq]
    exact List.nodup_range'
  case exist =>
    intro c hc
    have hrange := mem_chains.mp hc
    omega
  case extent => exact ⟨rfl, h.length.symm⟩
  case size => rw [List.length_range', fileClustersNeeded_eq]
  case free =>
    intro c hlow hc hfree
    rw [mem_chains] at hfree
    have hroom : 2 * c < 127 * 512 := hc
    rw [h.entry c (by omega), fatMap_free (by omega)]
  case blank =>
    intro c hlow hhigh hfree k hk
    rw [mem_chains] at hfree
    rw [h.cluster c hlow (by omega), contentUpTo_free efiData (by omega), byteAt_zeros]
  case tail =>
    intro c hlast k hend hk
    obtain ⟨n, hn⟩ : ∃ n, fileClustersNeeded efiData = n + 1 :=
      ⟨fileClustersNeeded efiData - 1, by rw [fileClustersNeeded_eq]; omega⟩
    rw [hn, List.range'_concat, List.getLast?_concat, Nat.one_mul] at hlast
    rw [hn, List.length_range', Nat.add_sub_cancel] at hend
    -- The last cluster holds the last chunk.
    have hc : c = 4 + n := (Option.some.inj hlast).symm
    have hdata : volume.clusterData img c = fileChunk efiData n := by
      rw [h.cluster c (by omega) (by omega), hn, contentUpTo, if_neg (by omega), if_neg (by omega),
        if_pos (by omega), hc, Nat.add_sub_cancel_left]
    rw [hdata, byteAt_fileChunk hend hk]

/-- **Consistent allocation.**  Every image that is written is consistent. -/
theorem makeFat16Image_consistent {efiData img : Bytes} (h : makeFat16Image efiData = .ok img) :
    ∃ efiChain bootChain fileChain, FatConsistent efiData img efiChain bootChain fileChain := by
  by_cases hfit : efiData.length ≤ fileCapacity
  · obtain ⟨img', hmake, himage⟩ := makeFat16Image_ok hfit
    have himg : img' = img := Except.ok.inj (hmake.symm.trans h)
    exact ⟨_, _, _, (himg ▸ himage).consistent hfit⟩
  · obtain ⟨e, hmake⟩ := makeFat16Image_error (Nat.lt_of_not_le hfit)
    rw [hmake] at h
    cases h

/-- A file of 1300 bytes takes three clusters. -/
theorem makeFat16Image_consistent_small :
    ∃ img, makeFat16Image (List.replicate 1300 0x4D) = .ok img ∧
      ∃ efiChain bootChain fileChain, fileChain.length = 3 ∧
        FatConsistent (List.replicate 1300 0x4D) img efiChain bootChain fileChain := by
  have hfit : (List.replicate 1300 (0x4D : UInt8)).length ≤ fileCapacity := by
    rw [List.length_replicate]
    decide
  obtain ⟨img, hmake, -⟩ := makeFat16Image_ok hfit
  obtain ⟨efiChain, bootChain, fileChain, h⟩ := makeFat16Image_consistent hmake
  refine ⟨img, hmake, efiChain, bootChain, fileChain, ?_, h⟩
  rw [h.size, List.length_replicate]
  decide

end Image
end OsBook
