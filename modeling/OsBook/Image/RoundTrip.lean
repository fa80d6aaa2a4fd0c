import OsBook.Image.Layout

/-!
# Reading the image back

The reader knows nothing of the builder: it decodes the boot sector, scans
directories and follows FAT entries.  On a finished image it finds the three
entries the builder wrote, one per directory, and follows three chains of
consecutive clusters.  The chunks on the last one are the file padded to whole
clusters, and the size in the directory entry cuts the padding off
(`main_roundTrip`).
-/

namespace OsBook
namespace Image

open Fat

/-! ## Directory entries -/

/-- A directory entry reads back as the fields it was made of. -/
theorem parseEntry_makeDirEntry (name83 : List Char) {attr fstClus size : Nat}
    (hattr : attr < 256) (hclus : fstClus < 65536) (hsize : size < 2 ^ 32) :
    parseEntry (makeDirEntry name83 attr fstClus size) =
      { name := packName name83, attr := attr, firstCluster := fstClus, size := size } := by
  have hname := length_packName name83
  have hattr' : (UInt8.ofNat attr).toNat = attr :=
    UInt8.toNat_ofNat'.trans (Nat.mod_eq_of_lt hattr)
  have hclus' : le16 (u16 fstClus ++ u32 size) 0 = fstClus := by
    rw [le16_append_left (by simp), le16_u16, Nat.mod_eq_of_lt hclus]
  have hsize' : le32 (u16 fstClus ++ u32 size) (2 + 0) = size := by
    rw [le32_skip (length_u16 fstClus), le32_u32, Nat.mod_eq_of_lt hsize]
  -- The eight fields between the attribute and the cluster are zero.
  have hsplit : makeDirEntry name83 attr fstClus size =
      packName name83 ++ ([UInt8.ofNat attr] ++ (zeros 14 ++ (u16 fstClus ++ u32 size))) := rfl
  have hname' : slice (makeDirEntry name83 attr fstClus size) 0 11 = packName name83 := by
    rw [hsplit, slice_append_left (by omega), ← hname, slice_all]
  have hbyte : byteAt (makeDirEntry name83 attr fstClus size) (11 + 0) = attr := by
    rw [hsplit, byteAt_skip hname]
    exact hattr'
  have hlow : le16 (makeDirEntry name83 attr fstClus size) (11 + (1 + (14 + 0))) = fstClus := by
    rw [hsplit, le16_skip hname, le16_skip (List.length_singleton), le16_skip (length_zeros 14),
      hclus']
  have htail : le32 (makeDirEntry name83 attr fstClus size) (11 + (1 + (14 + (2 + 0)))) = size := by
    rw [hsplit, le32_skip hname, le32_skip (List.length_singleton), le32_skip (length_zeros 14),
      hsize']
  rw [parseEntry]
  exact DirEntry.mk.injEq .. ▸ ⟨hname', hbyte, hlow, htail⟩

/-- A scan finds the first entry of a directory. -/
theorem findEntry_makeDirEntry (name83 : List Char) {attr fstClus size n : Nat} (k : Nat)
    (hattr : attr < 256) (hclus : fstClus < 65536) (hsize : size < 2 ^ 32) (hn : 32 ≤ n)
    (hused : byteAt (packName name83) 0 ≠ 0) (hlabel : (attr &&& 0x08 != 0) = false) :
    findEntry (packName name83) (k + 1)
        (setSlice (zeros n) 0 32 (makeDirEntry name83 attr fstClus size)) =
      some { name := packName name83, attr := attr, firstCluster := fstClus, size := size } := by
  have hlen := length_makeDirEntry name83 attr fstClus size
  have hparse := parseEntry_makeDirEntry name83 hattr hclus hsize
  -- Only the length and the parse of the entry matter to the scan.
  generalize makeDirEntry name83 attr fstClus size = e at hlen hparse
  have hwindow : slice (setSlice (zeros n) 0 32 e) 0 32 = e := by
    have hfit : 0 + 32 ≤ (zeros n).length := by
      rw [length_zeros]
      omega
    exact slice_setSlice_same hlen hfit
  have hbyte : byteAt (setSlice (zeros n) 0 32 e) 0 = byteAt (packName name83) 0 := by
    have hname : slice e 0 11 = packName name83 := congrArg DirEntry.name hparse
    have houter := byteAt_slice (l := setSlice (zeros n) 0 32 e) (i := 0) (show 0 < 32 by decide)
    have hinner := byteAt_slice (l := e) (i := 0) (show 0 < 11 by decide)
    rw [hwindow] at houter
    rw [hname] at hinner
    exact houter.symm.trans hinner.symm
  rw [findEntry, hwindow, hbyte, hparse]
  show (if byteAt (packName name83) 0 = 0 then none
    else if packName name83 = packName name83 ∧ (attr &&& 0x08 != 0) = false then _ else _) = _
  rw [if_neg hused, if_pos ⟨rfl, hlabel⟩]

/-! ## The path of the boot file -/

/-- The 11-byte name `EFI`. -/
def efiName : Bytes := [0x45, 0x46, 0x49, 0x20, 0x20, 0x20, 0x20, 0x20, 0x20, 0x20, 0x20]

/-- The 11-byte name `BOOT`. -/
def bootName : Bytes := [0x42, 0x4F, 0x4F, 0x54, 0x20, 0x20, 0x20, 0x20, 0x20, 0x20, 0x20]

/-- The 11-byte name `BOOTX64.EFI`. -/
def bootFileName : Bytes := [0x42, 0x4F, 0x4F, 0x54, 0x58, 0x36, 0x34, 0x20, 0x45, 0x46, 0x49]

def bootPath : List Bytes := [efiName, bootName, bootFileName]

theorem findEntry_rootDir :
    findEntry efiName (rootDir.length / 32) rootDir =
      some { name := efiName, attr := 0x10, firstCluster := 2, size := 0 } := by
  rw [length_rootDir]
  exact findEntry_makeDirEntry ['E', 'F', 'I'] 63 (by decide) (by decide) (by decide) (by decide)
    (by decide) (by decide)

theorem findEntry_efiDir :
    findEntry bootName (efiDir.length / 32) efiDir =
      some { name := bootName, attr := 0x10, firstCluster := 3, size := 0 } := by
  rw [length_efiDir]
  exact findEntry_makeDirEntry ['B', 'O', 'O', 'T'] 15 (by decide) (by decide) (by decide)
    (by decide) (by decide) (by decide)

theorem findEntry_bootDir {efiData : Bytes} (hsize : efiData.length < 2 ^ 32) :
    findEntry bootFileName ((bootDir efiData).length / 32) (bootDir efiData) =
      some { name := bootFileName, attr := 0x20, firstCluster := 4, size := efiData.length } := by
  rw [length_bootDir]
  exact findEntry_makeDirEntry ['B', 'O', 'O', 'T', 'X', '6', '4', '.', 'E', 'F', 'I'] 15
    (by decide) (by decide) hsize (by decide) (by decide) (by decide)

/-! ## The three chains -/

section Chains

variable {efiData img : Bytes} (h : ImageOf efiData img)

include h

/-- The file's clusters follow each other. -/
theorem ImageOf.chain_file (hfit : efiData.length ≤ fileCapacity) :
    chainFrom volume img 4 = some (List.range' 4 (fileClustersNeeded efiData)) := by
  have hpos : 1 ≤ fileClustersNeeded efiData := by
    rw [fileClustersNeeded_eq]
    omega
  have hmost := fileClustersNeeded_le hfit
  obtain ⟨n, hn⟩ : ∃ n, fileClustersNeeded efiData = n + 1 :=
    ⟨fileClustersNeeded efiData - 1, by omega⟩
  rw [hn]
  apply chain_consecutive n 4 (by omega) _ _ _
  · intro i hi
    rw [h.entry (4 + i) (by omega), hn]
    unfold fatMap
    rw [if_neg (by omega), if_neg (by omega), if_pos (by omega), if_neg (by omega)]
  · rw [h.entry (4 + n) (by omega), hn]
    unfold fatMap
    rw [if_neg (by omega), if_neg (by omega), if_pos (by omega), if_pos (by omega)]
    decide
  · show 4 + n < 2 + 32509
    omega
  · show n < 32509
    omega
  · show 4 + n < 0xFFF8
    omega

/-- The clusters on the file's chain are the file, padded to whole clusters. -/
theorem ImageOf.readChain_file (hfit : efiData.length ≤ fileCapacity) {n : Nat}
    (hn : efiData.length + n = fileClustersNeeded efiData * 512) :
    readChain volume img 4 = some (efiData ++ zeros n) := by
  have hmost := fileClustersNeeded_le hfit
  have hlen : (efiData ++ zeros n).length = fileClustersNeeded efiData * 512 := by
    rw [List.length_append, length_zeros, hn]
  have hcluster : ∀ i, i ∈ List.range (fileClustersNeeded efiData) →
      volume.clusterData img (4 + i) = slice (efiData ++ zeros n) (i * 512) 512 := by
    intro i hi
    have hlt := List.mem_range.mp hi
    rw [h.cluster (4 + i) (by omega) (by omega), contentUpTo, if_neg (by omega),
      if_neg (by omega), if_pos (by omega), Nat.add_sub_cancel_left,
      fileChunk_eq (n := n) (by omega)]
  rw [readChain, h.chain_file hfit, Option.map_some, List.range'_eq_map_range, List.flatMap_map,
    List.flatMap_congr hcluster, flatMap_slices, ← hlen, List.take_length]

/-- Each directory is a chain of one cluster. -/
theorem ImageOf.chain_directory {c : Nat} (hc : c = 2 ∨ c = 3) :
    chainFrom volume img c = some [c] := by
  have hmark : volume.fatEntry img (c + 0) = 0xFFFF := by
    rw [h.entry (c + 0) (by omega)]
    unfold fatMap
    rw [if_neg (by omega), if_pos (by omega)]
  have hbound : c + 0 < 2 + volume.clusterCount := by
    show c + 0 < 2 + 32509
    omega
  apply chain_consecutive 0 c (by omega) hbound (by decide)
  · show c + 0 < 0xFFF8
    omega
  · intro i hi
    omega
  · rw [hmark]
    decide

theorem ImageOf.readChain_efiDir : readChain volume img 2 = some efiDir := by
  rw [readChain, h.chain_directory (Or.inl rfl)]
  show some (volume.clusterData img 2 ++ []) = _
  rw [List.append_nil, h.cluster 2 (by omega) (by omega)]
  rfl

theorem ImageOf.readChain_bootDir : readChain volume img 3 = some (bootDir efiData) := by
  rw [readChain, h.chain_directory (Or.inr rfl)]
  show some (volume.clusterData img 3 ++ []) = _
  rw [List.append_nil, h.cluster 3 (by omega) (by omega)]
  rfl

end Chains

/-! ## The round trip -/

/-- The path leads through the root directory and two subdirectories to the file's entry. -/
theorem ImageOf.lookupPath_bootPath {efiData img : Bytes} (h : ImageOf efiData img)
    (hsize : efiData.length < 2 ^ 32) :
    lookupPath volume img (slice img volume.rootStart (volume.rootEntries * 32)) bootPath =
      some { name := bootFileName, attr := 0x20, firstCluster := 4, size := efiData.length } := by
  have hroot : slice img volume.rootStart (volume.rootEntries * 32) = rootDir := h.root
  rw [hroot]
  rw [bootPath, lookupPath_cons findEntry_rootDir rfl h.readChain_efiDir,
    lookupPath_cons findEntry_efiDir rfl h.readChain_bootDir, lookupPath,
    findEntry_bootDir hsize]

/-- **An image with these fields contains the file.** -/
theorem ImageOf.readFile_bootPath {efiData img : Bytes} (h : ImageOf efiData img)
    (hfit : efiData.length ≤ fileCapacity) : readFile img bootPath = some efiData := by
  have hsize : efiData.length < 2 ^ 32 := by
    unfold fileCapacity at hfit
    omega
  have hlong : ¬ img.length < volume.totalSectors * volume.bytesPerSector := by
    show ¬ img.length < 32768 * 512
    rw [h.length]
    exact Nat.lt_irrefl _
  have hcover : efiData.length ≤ fileClustersNeeded efiData * 512 := by
    rw [fileClustersNeeded_eq]
    omega
  have hdata := h.readChain_file hfit (Nat.add_sub_cancel' hcover)
  unfold readFile
  rw [h.geometry]
  show (if img.length < volume.totalSectors * volume.bytesPerSector then none else _) = _
  rw [if_neg hlong, h.lookupPath_bootPath hsize]
  show (if (DirEntry.mk bootFileName 0x20 4 efiData.length).isDirectory then none
    else (readChain volume img 4).bind (fun data =>
      if data.length < efiData.length then none else some (data.take efiData.length))) = _
  rw [if_neg (by simp [DirEntry.isDirectory]), hdata, Option.bind_some, List.length_append,
    if_neg (by omega), List.take_left]

/-- **Round trip.**  A file that fits is written as a volume of the reported size in which a
reader finds exactly the file; a longer one raises, and the output file keeps its contents. -/
theorem main_roundTrip (old : Option Bytes) (efiData : Bytes) :
    (efiData.length ≤ 32507 * 512 ∧
      ∃ img, main old efiData = (.ok (), some img) ∧ img.length = 32768 * 512 ∧
        readFile img bootPath = some efiData) ∨
    (32507 * 512 < efiData.length ∧ ∃ e, main old efiData = (.error e, old)) := by
  by_cases hfit : efiData.length ≤ fileCapacity
  · left
    obtain ⟨img, hmake, himage⟩ := makeFat16Image_ok hfit
    refine ⟨hfit, img, ?_, himage.length, himage.readFile_bootPath hfit⟩
    rw [main, hmake]
  · right
    obtain ⟨e, hmake⟩ := makeFat16Image_error (Nat.lt_of_not_le hfit)
    refine ⟨Nat.lt_of_not_le hfit, e, ?_⟩
    rw [main, hmake]

end Image
end OsBook
