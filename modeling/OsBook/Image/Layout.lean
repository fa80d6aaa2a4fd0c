import OsBook.Image.MakeFat16

/-!
# What the builder puts where

The FAT and the data area are built by loops of slice assignments.  Each is
described by a function that the loop updates at one place per round: `FatsHold`
gives the value of every FAT entry, `DataHolds` the bytes of every cluster.  The
finished image is then known field by field (`ImageOf`), and both the reader and
the consistency check only look at these fields.
-/

namespace OsBook
namespace Image

open Fat

/-! ## The FAT -/

/-- Two equal FAT copies whose entries are given by `f`. -/
structure FatsHold (fatSectors : Nat) (f : Nat → Nat) (fats : Bytes × Bytes) : Prop where
  copies : fats.1 = fats.2
  length : fats.1.length = fatSectors * 512
  entry : ∀ c, c < fatSectors * 256 → le16 fats.1 (2 * c) = f c

/-- One entry is updated, and no other. -/
theorem FatsHold.set {fatSectors : Nat} {f : Nat → Nat} {fats : Bytes × Bytes}
    (h : FatsHold fatSectors f fats) {clus val : Nat} (hclus : clus < fatSectors * 256)
    (hval : val < 65536) :
    FatsHold fatSectors (fun c => if c = clus then val else f c) (setFatEntry clus val fats) := by
  have hlen := h.length
  constructor
  · simp only [setFatEntry, h.copies]
  · simp only [setFatEntry]
    rw [length_setSlice (length_u16 val) (by omega), hlen]
  · intro c hc
    simp only [setFatEntry]
    rw [le16_eq_slice]
    by_cases heq : c = clus
    · rw [if_pos heq, heq, Nat.mul_comm 2 clus,
        slice_setSlice_same (length_u16 val) (by omega), le16_u16]
      omega
    · rw [if_neg heq, slice_setSlice_apart (length_u16 val) (by omega) (by omega),
        ← le16_eq_slice, h.entry c hc]

/-- The FAT after the first `i` links of a file of `needed` clusters. -/
def fatMap (needed i c : Nat) : Nat :=
  if c = 0 then 0xFFF8
  else if c < 4 then 0xFFFF
  else if c < 4 + i then if c + 1 = 4 + needed then 0xFFFF else c + 1
  else 0

theorem fatMap_succ (needed i c : Nat) :
    fatMap needed (i + 1) c =
      if c = 4 + i then if i + 1 = needed then 0xFFFF else 4 + i + 1 else fatMap needed i c := by
  unfold fatMap
  by_cases hc : c = 4 + i
  · subst hc
    rw [if_neg (by omega), if_neg (by omega), if_pos (by omega), if_pos rfl]
    by_cases hlast : i + 1 = needed
    · rw [if_pos (by omega), if_pos hlast]
    · rw [if_neg (by omega), if_neg hlast]
  · rw [if_neg hc]
    by_cases hlow : c < 4 + i
    · have hnext : c < 4 + (i + 1) := by omega
      simp only [hlow, hnext]
    · have hnext : ¬ c < 4 + (i + 1) := by omega
      simp only [hlow, hnext]

/-- The loop adds the links one by one. -/
theorem fileChainLoop_holds {fatSectors needed : Nat} (hroom : 4 + needed ≤ fatSectors * 256)
    (hsmall : 4 + needed ≤ 0xFFFF) :
    ∀ left i fats, i + left = needed → FatsHold fatSectors (fatMap needed i) fats →
      FatsHold fatSectors (fatMap needed needed) (fileChainLoop needed left i fats) := by
  intro left
  induction left with
  | zero =>
      intro i fats hi h
      have hdone : i = needed := by omega
      rw [fileChainLoop, ← hdone]
      exact hdone ▸ h
  | succ left ih =>
      intro i fats hi h
      rw [fileChainLoop]
      apply ih (i + 1) _ (by omega)
      -- The new entry is the one in which consecutive maps differ.
      rw [funext (fatMap_succ needed i)]
      by_cases hlast : i + 1 = needed
      · simp only [hlast, if_true]
        exact h.set (by omega) (by decide)
      · simp only [hlast, if_false]
        exact h.set (by omega) (by omega)

/-- Both copies hold exactly the reserved entries and the three chains. -/
theorem buildFats_holds {fatSectors needed : Nat} (hroom : 4 + needed ≤ fatSectors * 256)
    (hsmall : 4 + needed ≤ 0xFFFF) :
    FatsHold fatSectors (fatMap needed needed) (buildFats fatSectors needed) := by
  have hzero : FatsHold fatSectors (fun _ => 0)
      (zeros (fatSectors * bytesPerSector), zeros (fatSectors * bytesPerSector)) :=
    ⟨rfl, length_zeros _, fun c _ => le16_zeros _ _⟩
  have h₀ := hzero.set (show 0 < fatSectors * 256 by omega) (show 0xFFF8 < 65536 by decide)
  have h₁ := h₀.set (show 1 < fatSectors * 256 by omega) (show 0xFFFF < 65536 by decide)
  have h₂ := h₁.set (show 2 < fatSectors * 256 by omega) (show 0xFFFF < 65536 by decide)
  have h₃ := h₂.set (show 3 < fatSectors * 256 by omega) (show 0xFFFF < 65536 by decide)
  -- The four reserved entries are the map before the first link.
  refine fileChainLoop_holds hroom hsmall needed 0 _ (by omega) ?_
  refine ⟨h₃.copies, h₃.length, fun c hc => (h₃.entry c hc).trans ?_⟩
  show (if c = 3 then 0xFFFF else if c = 2 then 0xFFFF else if c = 1 then 0xFFFF
    else if c = 0 then 0xFFF8 else 0) = fatMap needed 0 c
  unfold fatMap
  by_cases hc4 : c < 4
  · have hcases : c = 0 ∨ c = 1 ∨ c = 2 ∨ c = 3 := by omega
    obtain rfl | rfl | rfl | rfl := hcases <;> rfl
  · rw [if_neg (by omega), if_neg (by omega), if_neg (by omega), if_neg (by omega),
      if_neg (by omega), if_neg (by omega), if_neg (by omega)]

/-! ## The data area -/

/-- A data area of `sectors` one-sector clusters whose contents are given by `content`. -/
structure DataHolds (sectors : Nat) (content : Nat → Bytes) (data : Bytes) : Prop where
  length : data.length = sectors * 512
  cluster : ∀ c, 2 ≤ c → c < 2 + sectors → slice data ((c - 2) * 512) 512 = content c

theorem clusterToLba_sub (fatSectors clus : Nat) :
    clusterToLba fatSectors clus - dataStartLba fatSectors = clus - 2 := by
  rw [clusterToLba, sectorsPerCluster, Nat.mul_one, Nat.add_sub_cancel_left]

/-- A cluster of the data area is replaced, and no other. -/
theorem writeCluster_holds (fatSectors : Nat) {sectors clus : Nat} {content : Nat → Bytes}
    {payload data : Bytes} (h : DataHolds sectors content data) (hlow : 2 ≤ clus)
    (hhigh : clus < 2 + sectors) (hpayload : payload.length = 512) :
    ∃ data', writeCluster fatSectors sectors clus payload data = .ok data' ∧
      DataHolds sectors (fun c => if c = clus then payload else content c) data' := by
  have hlen := h.length
  have hfit : (clus - 2) * 512 + 512 ≤ data.length := by omega
  refine ⟨setSlice data ((clus - 2) * 512) ((clus - 2) * 512 + 512) payload, ?_, ?_, ?_⟩
  · rw [writeCluster, clusterToLba_sub]
    show (if clus - 2 < sectors then _ else _) = _
    rw [if_pos (by omega), hpayload]
    rfl
  · rw [length_setSlice hpayload hfit, hlen]
  · intro c hc hcs
    by_cases heq : c = clus
    · rw [if_pos heq, heq, slice_setSlice_same hpayload hfit]
    · rw [if_neg heq, slice_setSlice_apart hpayload hfit (by omega), h.cluster c hc hcs]

/-- A cluster past the data area fails the assertion. -/
theorem writeCluster_error {fatSectors sectors clus : Nat} {payload data : Bytes}
    (hclus : 2 + sectors ≤ clus) :
    writeCluster fatSectors sectors clus payload data = .error .assertionError := by
  rw [writeCluster, clusterToLba_sub]
  show (if clus - 2 < sectors then _ else _) = _
  rw [if_neg (by omega)]

/-- A chunk is a slice of the file padded with enough zeros. -/
theorem fileChunk_eq {efiData : Bytes} {i n : Nat} (hn : (i + 1) * 512 ≤ efiData.length + n) :
    fileChunk efiData i = slice (efiData ++ zeros n) (i * 512) 512 := by
  have hlen : (slice efiData (i * 512) 512).length = min 512 (efiData.length - i * 512) := by
    rw [slice, List.length_take, List.length_drop]
  rw [slice_append, List.length_drop, slice_zeros (by omega)]
  show (if (slice efiData (i * 512) 512).length < 512
    then slice efiData (i * 512) 512 ++ zeros (512 - (slice efiData (i * 512) 512).length)
    else slice efiData (i * 512) 512) = _
  by_cases hshort : (slice efiData (i * 512) 512).length < 512
  · rw [if_pos hshort, hlen, show 512 - min 512 (efiData.length - i * 512) =
      512 - (efiData.length - i * 512) by omega]
  · rw [if_neg hshort, show 512 - (efiData.length - i * 512) = 0 by omega]
    exact (List.append_nil _).symm

theorem length_fileChunk (efiData : Bytes) (i : Nat) : (fileChunk efiData i).length = 512 := by
  have hfit : i * 512 + 512 ≤ (efiData ++ zeros ((i + 1) * 512)).length := by
    rw [List.length_append, length_zeros]
    omega
  rw [fileChunk_eq (n := (i + 1) * 512) (by omega), length_slice hfit]

/-- The data area after the two directories and the first `i` clusters of the file. -/
def contentUpTo (efiData : Bytes) (i c : Nat) : Bytes :=
  if c = 2 then efiDir
  else if c = 3 then bootDir efiData
  else if c < 4 + i then fileChunk efiData (c - 4)
  else zeros 512

theorem contentUpTo_succ (efiData : Bytes) (i c : Nat) :
    contentUpTo efiData (i + 1) c =
      if c = 4 + i then fileChunk efiData i else contentUpTo efiData i c := by
  unfold contentUpTo
  by_cases hc : c = 4 + i
  · subst hc
    rw [if_neg (by omega), if_neg (by omega), if_pos (by omega), if_pos rfl,
      Nat.add_sub_cancel_left]
  · rw [if_neg hc]
    by_cases hlow : c < 4 + i
    · have hnext : c < 4 + (i + 1) := by omega
      simp only [hlow, hnext]
    · have hnext : ¬ c < 4 + (i + 1) := by omega
      simp only [hlow, hnext]

/-- The loop writes the file cluster by cluster, if the clusters exist. -/
theorem writeFileLoop_holds (fatSectors : Nat) {sectors : Nat} {efiData : Bytes} :
    ∀ left i data, 2 + (i + left) ≤ sectors →
      DataHolds sectors (contentUpTo efiData i) data →
        ∃ data', writeFileLoop fatSectors sectors efiData left i data = .ok data' ∧
          DataHolds sectors (contentUpTo efiData (i + left)) data' := by
  intro left
  induction left with
  | zero =>
      intro i data _ h
      exact ⟨data, rfl, h⟩
  | succ left ih =>
      intro i data hroom h
      obtain ⟨data₁, hwrite, h₁⟩ := writeCluster_holds fatSectors h
        (show 2 ≤ 4 + i by omega) (by omega) (length_fileChunk efiData i)
      rw [← funext (contentUpTo_succ efiData i)] at h₁
      obtain ⟨data₂, hrest, h₂⟩ := ih (i + 1) data₁ (by omega) h₁
      refine ⟨data₂, ?_, ?_⟩
      · rw [writeFileLoop]
        show (writeCluster fatSectors sectors (4 + i) (fileChunk efiData i) data >>= _) = _
        rw [hwrite]
        exact hrest
      · rw [show i + (left + 1) = i + 1 + left by omega]
        exact h₂

/-- If the clusters do not all exist, the loop stops at the first missing one. -/
theorem writeFileLoop_error {fatSectors sectors : Nat} {efiData : Bytes} :
    ∀ left i data, i + 2 ≤ sectors → sectors < 2 + (i + left) →
      DataHolds sectors (contentUpTo efiData i) data →
        writeFileLoop fatSectors sectors efiData left i data = .error .assertionError := by
  intro left
  induction left with
  | zero =>
      intro i data hlow hhigh _
      omega
  | succ left ih =>
      intro i data hlow hhigh h
      rw [writeFileLoop]
      show (writeCluster fatSectors sectors (4 + i) (fileChunk efiData i) data >>= _) = _
      by_cases hfit : 4 + i < 2 + sectors
      · obtain ⟨data₁, hwrite, h₁⟩ := writeCluster_holds fatSectors h
          (show 2 ≤ 4 + i by omega) hfit (length_fileChunk efiData i)
        rw [← funext (contentUpTo_succ efiData i)] at h₁
        rw [hwrite]
        exact ih (i + 1) data₁ (by omega) (by omega) h₁
      · rw [writeCluster_error (by omega)]
        rfl

theorem length_packName (name83 : List Char) : (packName name83).length = 11 := by
  simp only [packName, List.length_map, List.length_append, List.length_take,
    List.length_replicate]
  omega

theorem length_makeDirEntry (name83 : List Char) (attr fstClus size : Nat) :
    (makeDirEntry name83 attr fstClus size).length = 32 := by
  simp only [makeDirEntry, List.length_append, length_packName, length_u16, length_u32,
    List.length_singleton]

/-- A directory cluster with one entry. -/
theorem length_oneEntry {n : Nat} {e : Bytes} (he : e.length = 32) (hn : 32 ≤ n) :
    (setSlice (zeros n) 0 32 e).length = n := by
  have hfit : 0 + 32 ≤ (zeros n).length := by
    rw [length_zeros]
    omega
  exact (length_setSlice he hfit).trans (length_zeros n)

theorem length_efiDir : efiDir.length = 512 :=
  length_oneEntry (length_makeDirEntry _ _ _ _) (by decide)

theorem length_bootDir (efiData : Bytes) : (bootDir efiData).length = 512 :=
  length_oneEntry (length_makeDirEntry _ _ _ _) (by decide)

theorem length_rootDir : rootDir.length = 2048 :=
  length_oneEntry (length_makeDirEntry _ _ _ _) (by decide)

/-- After the two directories the data area is ready for the file. -/
theorem directories_hold (fatSectors : Nat) {sectors : Nat} (efiData : Bytes)
    (hroom : 2 ≤ sectors) :
    ∃ data, DataHolds sectors (contentUpTo efiData 0) data ∧
      buildData fatSectors sectors efiData =
        writeFileLoop fatSectors sectors efiData (fileClustersNeeded efiData) 0 data := by
  have hzero : DataHolds sectors (fun _ => zeros 512) (zeros (sectors * bytesPerSector)) := by
    refine ⟨length_zeros _, fun c _ hcs => slice_zeros ?_⟩
    show (c - 2) * 512 + 512 ≤ sectors * 512
    omega
  obtain ⟨data₁, hwrite₁, h₁⟩ := writeCluster_holds fatSectors hzero
    (show 2 ≤ 2 by omega) (by omega) length_efiDir
  obtain ⟨data₂, hwrite₂, h₂⟩ := writeCluster_holds fatSectors h₁
    (show 2 ≤ 3 by omega) (by omega) (length_bootDir efiData)
  refine ⟨data₂, ⟨h₂.length, fun c hc hcs => (h₂.cluster c hc hcs).trans ?_⟩, ?_⟩
  · unfold contentUpTo
    by_cases hc3 : c = 3
    · rw [if_pos hc3, if_neg (by omega), if_pos hc3]
    · by_cases hc2 : c = 2
      · rw [if_neg hc3, if_pos hc2, if_pos hc2]
      · rw [if_neg hc3, if_neg hc2, if_neg hc2, if_neg hc3, if_neg (by omega)]
  · show (writeCluster fatSectors sectors 2 efiDir _ >>= fun data =>
      writeCluster fatSectors sectors 3 (bootDir efiData) data >>= _) = _
    rw [hwrite₁]
    show (writeCluster fatSectors sectors 3 (bootDir efiData) data₁ >>= _) = _
    rw [hwrite₂]
    rfl

/-! ## The image -/

/-- The largest file that fits next to the two directories. -/
def fileCapacity : Nat := 32507 * 512

theorem geometry_totalSectors : geometry totalSectors = .ok (127, 32509) := by
  decide

theorem fileClustersNeeded_eq (efiData : Bytes) :
    fileClustersNeeded efiData = max 1 ((efiData.length + 511) / 512) := by
  show (if (efiData.length + 512 * 1 - 1) / (512 * 1) ≤ 0 then 1
    else (efiData.length + 512 * 1 - 1) / (512 * 1)) = _
  split <;> omega

theorem fileClustersNeeded_le {efiData : Bytes} (hfit : efiData.length ≤ fileCapacity) :
    fileClustersNeeded efiData ≤ 32507 := by
  rw [fileClustersNeeded_eq]
  unfold fileCapacity at hfit
  omega

/-- The boot sector of the volume. -/
def volumeBootSector : Bytes := bootSector totalSectors 127

/-- The volume as its boot sector describes it. -/
def volume : Geometry where
  bytesPerSector := 512
  sectorsPerCluster := 1
  reservedSectors := 1
  fatCount := 2
  rootEntries := 64
  totalSectors := 32768
  fatSectors := 127

theorem length_volumeBootSector : volumeBootSector.length = 512 := by
  decide +kernel

/-- The geometry only depends on the first 512 bytes. -/
theorem readGeometry_append {bs rest : Bytes} (hbs : bs.length = 512) :
    readGeometry (bs ++ rest) = readGeometry bs := by
  have h16 : ∀ i, i + 2 ≤ 512 → le16 (bs ++ rest) i = le16 bs i :=
    fun i hi => le16_append_left (by omega)
  have h8 : ∀ i, i < 512 → byteAt (bs ++ rest) i = byteAt bs i :=
    fun i hi => byteAt_append_left (by omega)
  have h32 : le32 (bs ++ rest) 32 = le32 bs 32 := by
    rw [le32, le32, h16 32 (by omega), h16 (32 + 2) (by omega)]
  simp only [readGeometry, h32, h16 11 (by omega), h8 13 (by omega), h16 14 (by omega),
    h8 16 (by omega), h16 17 (by omega), h16 19 (by omega), h16 22 (by omega)]

theorem readGeometry_volumeBootSector : readGeometry volumeBootSector = volume := by
  decide +kernel

/-- What a finished image holds, in the places where the boot sector puts it. -/
structure ImageOf (efiData img : Bytes) : Prop where
  length : img.length = 32768 * 512
  geometry : readGeometry img = volume
  copies : slice img (volume.fatStart 0) (127 * 512) = slice img (volume.fatStart 1) (127 * 512)
  entry : ∀ c, c < 127 * 256 →
    volume.fatEntry img c = fatMap (fileClustersNeeded efiData) (fileClustersNeeded efiData) c
  root : slice img volume.rootStart 2048 = rootDir
  cluster : ∀ c, 2 ≤ c → c < 2 + 32509 →
    volume.clusterData img c = contentUpTo efiData (fileClustersNeeded efiData) c

theorem fatStart_zero : volume.fatStart 0 = 512 + 0 := rfl

theorem fatStart_one : volume.fatStart 1 = 512 + (65024 + 0) := rfl

theorem rootStart_eq : volume.rootStart = 512 + (65024 + (65024 + 0)) := rfl

theorem dataStart_eq : volume.dataStart = 512 + (65024 + (65024 + 2048)) := rfl

theorem clusterBytes_eq : volume.clusterBytes = 512 := rfl

/-- The parts of the image in order, and what they hold. -/
theorem imageOf_parts {efiData data : Bytes} {fats : Bytes × Bytes}
    (hfats : FatsHold 127 (fatMap (fileClustersNeeded efiData) (fileClustersNeeded efiData)) fats)
    (hdata : DataHolds 32509 (contentUpTo efiData (fileClustersNeeded efiData)) data) :
    ImageOf efiData (volumeBootSector ++ (fats.1 ++ (fats.2 ++ (rootDir ++ data)))) := by
  have hbs := length_volumeBootSector
  have hroot := length_rootDir
  have hfat₁ : fats.1.length = 65024 := hfats.length
  have hfat₂ : fats.2.length = 65024 := hfats.copies ▸ hfat₁
  have hlen : data.length = 16644608 := hdata.length
  constructor
  · simp only [List.length_append, hbs, hfat₁, hfat₂, hroot, hlen]
  · rw [readGeometry_append hbs, readGeometry_volumeBootSector]
  · rw [fatStart_zero, fatStart_one, slice_skip hbs, slice_skip hbs,
      slice_append_left (by omega), slice_skip hfat₁, slice_append_left (by omega),
      hfats.copies]
  · intro c hc
    rw [Geometry.fatEntry, fatStart_zero, Nat.add_assoc, Nat.zero_add, le16_skip hbs,
      le16_append_left (by omega), hfats.entry c hc]
  · rw [rootStart_eq, slice_skip hbs, slice_skip hfat₁, slice_skip hfat₂,
      slice_append_left (by omega), ← hroot, slice_all]
  · intro c hc hcs
    rw [Geometry.clusterData, dataStart_eq, clusterBytes_eq, Nat.add_assoc, Nat.add_assoc,
      Nat.add_assoc, slice_skip hbs, slice_skip hfat₁, slice_skip hfat₂,
      slice_skip hroot, hdata.cluster c hc (by omega)]

theorem fitImage_of_length {img : Bytes} (h : img.length = 32768 * 512) : fitImage img = img :=
  if_pos h

/-- **A file that fits becomes an image with the fields of `ImageOf`.** -/
theorem makeFat16Image_ok {efiData : Bytes} (hfit : efiData.length ≤ fileCapacity) :
    ∃ img, makeFat16Image efiData = .ok img ∧ ImageOf efiData img := by
  have hneeded := fileClustersNeeded_le hfit
  have hfats : FatsHold 127 _ (buildFats 127 (fileClustersNeeded efiData)) :=
    buildFats_holds (by omega) (by omega)
  obtain ⟨data₀, h₀, hbuild⟩ := directories_hold 127 efiData (show 2 ≤ 32509 by omega)
  obtain ⟨data, hfile, hdata⟩ :=
    writeFileLoop_holds 127 (fileClustersNeeded efiData) 0 data₀ (by omega) h₀
  rw [Nat.zero_add] at hdata
  have himage := imageOf_parts hfats hdata
  refine ⟨_, ?_, himage⟩
  rw [makeFat16Image, geometry_totalSectors]
  show (if 4 + fileClustersNeeded efiData ≥ 0xFFF0 then _
    else buildData 127 32509 efiData >>= _) = _
  rw [if_neg (by omega), hbuild, hfile]
  -- The length is already the expected one, so the last adjustment does nothing.
  exact congrArg Except.ok (fitImage_of_length himage.length)

/-- **A longer file raises before the image is complete.** -/
theorem makeFat16Image_error {efiData : Bytes} (hlong : fileCapacity < efiData.length) :
    ∃ e, makeFat16Image efiData = .error e := by
  have hneeded : 32507 < fileClustersNeeded efiData := by
    rw [fileClustersNeeded_eq]
    unfold fileCapacity at hlong
    omega
  rw [makeFat16Image, geometry_totalSectors]
  show ∃ e, (if 4 + fileClustersNeeded efiData ≥ 0xFFF0 then _
    else buildData 127 32509 efiData >>= _) = _
  -- Either the clusters cannot be numbered, or the data area is too small for them.
  by_cases htoo : 4 + fileClustersNeeded efiData ≥ 0xFFF0
  · exact ⟨_, if_pos htoo⟩
  · obtain ⟨data₀, h₀, hbuild⟩ := directories_hold 127 efiData (show 2 ≤ 32509 by omega)
    rw [if_neg htoo, hbuild, writeFileLoop_error _ 0 data₀ (by omega) (by omega) h₀]
    exact ⟨.assertionError, rfl⟩

end Image
end OsBook
