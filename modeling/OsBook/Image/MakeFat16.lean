import OsBook.Fat.Reader

/-!
# The FAT16 image builder

`make_fat16_image.py` lays out one file, `EFI/BOOT/BOOTX64.EFI`, on a FAT16
volume of 32768 sectors.  Byte strings are lists of bytes; a Python exception is
an error of the `Except` monad, and `main` only writes the output file after the
whole image has been built.

Quotients of lengths by 512 are exact in floating point for every length below
`2 ^ 53`, so `math.ceil` is an exact ceiling here.
-/

namespace OsBook
namespace Image

open Fat

/-- The exceptions the script can raise while it builds the image. -/
inductive PyError where
  | runtimeError (message : String)
  | assertionError
deriving DecidableEq, Repr

/-! ## Directory entries -/

/-- The 11-byte name field: base and extension, padded with blanks. -/
def packName (name83 : List Char) : Bytes :=
  let name83 := name83.map Char.toUpper
  let base := name83.takeWhile (· != '.')
  let ext := (name83.dropWhile (· != '.')).drop 1
  let base := (base ++ List.replicate 8 ' ').take 8
  let ext := (ext ++ List.replicate 3 ' ').take 3
  (base ++ ext).map fun c => UInt8.ofNat c.toNat

/-- A 32-byte directory entry. -/
def makeDirEntry (name83 : List Char) (attr fstClus size : Nat) : Bytes :=
  packName name83
    ++ ([UInt8.ofNat attr] -- attr
    ++ ([0] -- ntRes
    ++ ([0] -- crtTimeTenth
    ++ (u16 0 -- crtTime
    ++ (u16 0 -- crtDate
    ++ (u16 0 -- lstAccDate
    ++ (u16 0 -- fstClusHI
    ++ (u16 0 -- wrtTime
    ++ (u16 0 -- wrtDate
    ++ (u16 fstClus -- fstClusLO
    ++ u32 size)))))))))) -- fileSize

/-! ## Geometry -/

def bytesPerSector : Nat := 512

def sectorsPerCluster : Nat := 1

def reservedSectors : Nat := 1

def fatCount : Nat := 2

def rootEntries : Nat := 64

def rootDirSectors : Nat := (rootEntries * 32 + bytesPerSector - 1) / bytesPerSector

def totalSectors : Nat := 32768

/-- `math.ceil` of a quotient. -/
def ceilDiv (x d : Int) : Int := -(-x / d)

/-- The sectors that remain for clusters next to a FAT of the given size. -/
def clustersBeside (total fatSectors : Int) : Int :=
  total - reservedSectors - rootDirSectors - fatCount * fatSectors

/-- The loop that looks for a FAT size, with `left` rounds to go. -/
def fatSizeLoop (total : Int) : (left : Nat) → (clusterCount fatSectors : Int) → Int × Int
  | 0, clusterCount, fatSectors => (clusterCount, fatSectors)
  | left + 1, _, fatSectors =>
      let clusterCount := clustersBeside total fatSectors
      let fatSectorsNew := ceilDiv ((clusterCount + 2) * 2) bytesPerSector
      if fatSectorsNew = fatSectors then (clusterCount, fatSectors)
      else fatSizeLoop total left clusterCount fatSectorsNew

/-- The number of sectors of a FAT and of the data area. -/
def geometry (total : Int) : Except PyError (Nat × Nat) :=
  let (clusterCount, fatSectors) := fatSizeLoop total 20 0 1
  if clusterCount < 10 then
    .error (.runtimeError s!"cluster_count too small: {clusterCount}")
  else
    let dataSectors := clustersBeside total fatSectors
    if dataSectors < 1 then .error (.runtimeError "invalid FAT geometry")
    else .ok (fatSectors.toNat, dataSectors.toNat)

def dataStartLba (fatSectors : Nat) : Nat :=
  reservedSectors + fatCount * fatSectors + rootDirSectors

def clusterToLba (fatSectors clus : Nat) : Nat :=
  dataStartLba fatSectors + (clus - 2) * sectorsPerCluster

/-! ## Clusters -/

def efiDirClus : Nat := 2

def bootDirClus : Nat := 3

def fileFirstClus : Nat := 4

/-- At least one cluster, also for the empty file. -/
def fileClustersNeeded (efiData : Bytes) : Nat :=
  let clusterBytes := bytesPerSector * sectorsPerCluster
  let needed := (efiData.length + clusterBytes - 1) / clusterBytes
  if needed ≤ 0 then 1 else needed

/-! ## The boot sector -/

def bootSector (total fatSectors : Nat) : Bytes :=
  let bs := zeros 512
  let bs := setSlice bs 0 3 [0xEB, 0x3C, 0x90]
  let bs := setSlice bs 3 11 [0x48, 0x45, 0x4C, 0x4C, 0x4F, 0x49, 0x4E, 0x49]
  let bs := setSlice bs 11 13 (u16 bytesPerSector)
  let bs := setSlice bs 13 14 [UInt8.ofNat sectorsPerCluster]
  let bs := setSlice bs 14 16 (u16 reservedSectors)
  let bs := setSlice bs 16 17 [UInt8.ofNat fatCount]
  let bs := setSlice bs 17 19 (u16 rootEntries)
  let bs := setSlice bs 19 21 (u16 (if total < 0x10000 then total else 0))
  let bs := setSlice bs 21 22 [0xF8]
  let bs := setSlice bs 22 24 (u16 fatSectors)
  let bs := setSlice bs 24 26 (u16 63)
  let bs := setSlice bs 26 28 (u16 255)
  let bs := setSlice bs 28 32 (u32 0)
  let bs := setSlice bs 32 36 (u32 (if total < 0x10000 then 0 else total))
  let bs := setSlice bs 36 37 [0]
  let bs := setSlice bs 37 38 [0]
  let bs := setSlice bs 38 39 [0x29]
  let bs := setSlice bs 39 43 (u32 0x12345678)
  let bs := setSlice bs 43 54 [0x48, 0x45, 0x4C, 0x4C, 0x4F, 0x49, 0x4E, 0x49, 0x54, 0x4F, 0x53]
  let bs := setSlice bs 54 62 [0x46, 0x41, 0x54, 0x31, 0x36, 0x20, 0x20, 0x20]
  let bs := setSlice bs 62 510 (zeros (510 - 62))
  setSlice bs 510 512 [0x55, 0xAA]

/-! ## The FAT -/

def eoc : Nat := 0xFFFF

/-- Set one entry in both copies. -/
def setFatEntry (clus val : Nat) (fats : Bytes × Bytes) : Bytes × Bytes :=
  let off := clus * 2
  (setSlice fats.1 off (off + 2) (u16 val), setSlice fats.2 off (off + 2) (u16 val))

/-- The loop over the file's clusters, from the `i`-th on. -/
def fileChainLoop (needed : Nat) : (left i : Nat) → Bytes × Bytes → Bytes × Bytes
  | 0, _, fats => fats
  | left + 1, i, fats =>
      let clus := fileFirstClus + i
      let fats :=
        if i + 1 = needed then setFatEntry clus eoc fats
        else setFatEntry clus (clus + 1) fats
      fileChainLoop needed left (i + 1) fats

/-- Both copies of the FAT. -/
def buildFats (fatSectors needed : Nat) : Bytes × Bytes :=
  let fats := (zeros (fatSectors * bytesPerSector), zeros (fatSectors * bytesPerSector))
  let fats := setFatEntry 0 0xFFF8 fats
  let fats := setFatEntry 1 0xFFFF fats
  let fats := setFatEntry efiDirClus eoc fats
  let fats := setFatEntry bootDirClus eoc fats
  fileChainLoop needed needed 0 fats

/-! ## The data area -/

def writeCluster (fatSectors dataSectors clus : Nat) (payload data : Bytes) :
    Except PyError Bytes :=
  let lba := clusterToLba fatSectors clus
  let sectorIndex := lba - dataStartLba fatSectors
  if sectorIndex < dataSectors then
    let start := sectorIndex * bytesPerSector
    .ok (setSlice data start (start + payload.length) payload)
  else .error .assertionError

/-- The `i`-th cluster of the file, padded with zeros. -/
def fileChunk (efiData : Bytes) (i : Nat) : Bytes :=
  let clusterBytes := bytesPerSector * sectorsPerCluster
  let chunk := slice efiData (i * clusterBytes) clusterBytes
  if chunk.length < clusterBytes then chunk ++ zeros (clusterBytes - chunk.length) else chunk

/-- The loop that writes the file, from the `i`-th cluster on. -/
def writeFileLoop (fatSectors dataSectors : Nat) (efiData : Bytes) :
    (left i : Nat) → Bytes → Except PyError Bytes
  | 0, _, data => .ok data
  | left + 1, i, data => do
      let data ← writeCluster fatSectors dataSectors (fileFirstClus + i) (fileChunk efiData i) data
      writeFileLoop fatSectors dataSectors efiData left (i + 1) data

/-- The root directory: one entry, then zeros. -/
def rootDir : Bytes :=
  setSlice (zeros (rootDirSectors * bytesPerSector)) 0 32
    (makeDirEntry ['E', 'F', 'I'] 0x10 efiDirClus 0)

/-- The cluster of the `EFI` directory. -/
def efiDir : Bytes :=
  setSlice (zeros bytesPerSector) 0 32 (makeDirEntry ['B', 'O', 'O', 'T'] 0x10 bootDirClus 0)

/-- The cluster of the `BOOT` directory. -/
def bootDir (efiData : Bytes) : Bytes :=
  setSlice (zeros bytesPerSector) 0 32
    (makeDirEntry ['B', 'O', 'O', 'T', 'X', '6', '4', '.', 'E', 'F', 'I'] 0x20 fileFirstClus
      efiData.length)

def buildData (fatSectors dataSectors : Nat) (efiData : Bytes) : Except PyError Bytes := do
  let data := zeros (dataSectors * bytesPerSector)
  let data ← writeCluster fatSectors dataSectors efiDirClus efiDir data
  let data ← writeCluster fatSectors dataSectors bootDirClus (bootDir efiData) data
  writeFileLoop fatSectors dataSectors efiData (fileClustersNeeded efiData) 0 data

/-! ## The image -/

/-- Trim or pad to the size the boot sector reports. -/
def fitImage (img : Bytes) : Bytes :=
  let expectedSize := totalSectors * bytesPerSector
  if img.length = expectedSize then img
  else if img.length > expectedSize then img.take expectedSize
  else img ++ zeros (expectedSize - img.length)

/-- Everything up to the point where the output file is opened. -/
def makeFat16Image (efiData : Bytes) : Except PyError Bytes := do
  let (fatSectors, dataSectors) ← geometry totalSectors
  let needed := fileClustersNeeded efiData
  if fileFirstClus + needed ≥ 0xFFF0 then
    .error (.runtimeError "file requires too many clusters for FAT16 demo")
  else
    let bs := bootSector totalSectors fatSectors
    let fats := buildFats fatSectors needed
    let data ← buildData fatSectors dataSectors efiData
    .ok (fitImage (bs ++ (fats.1 ++ (fats.2 ++ (rootDir ++ data)))))

/-- The script: its outcome, and the contents of the output file afterwards. -/
def main (old : Option Bytes) (efiData : Bytes) : Except PyError Unit × Option Bytes :=
  match makeFat16Image efiData with
  | .error e => (.error e, old)
  | .ok img => (.ok (), some img)

end Image
end OsBook
