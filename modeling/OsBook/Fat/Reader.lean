import OsBook.Fat.Bytes

/-!
# Reading a FAT16 volume

A reader that trusts nothing but the volume itself: the geometry comes from the
boot sector, directories are scanned entry by entry, and a file is the data of
the clusters on its chain, truncated to the size in its directory entry.

Following a chain is done for an arbitrary successor function, with a bound on
the number of steps, so a chain that is cyclic, leaves the data area or never
ends reads as `none`.
-/

namespace OsBook
namespace Fat

/-! ## Geometry -/

/-- The fields of the boot sector that locate everything else. -/
structure Geometry where
  bytesPerSector : Nat
  sectorsPerCluster : Nat
  reservedSectors : Nat
  fatCount : Nat
  rootEntries : Nat
  totalSectors : Nat
  fatSectors : Nat
deriving DecidableEq, Repr

/-- Decode the boot sector.  The 32-bit sector count is used when the 16-bit
one is zero. -/
def readGeometry (img : Bytes) : Geometry where
  bytesPerSector := le16 img 11
  sectorsPerCluster := byteAt img 13
  reservedSectors := le16 img 14
  fatCount := byteAt img 16
  rootEntries := le16 img 17
  totalSectors := if le16 img 19 = 0 then le32 img 32 else le16 img 19
  fatSectors := le16 img 22

namespace Geometry

variable (g : Geometry)

def rootDirSectors : Nat := (g.rootEntries * 32 + g.bytesPerSector - 1) / g.bytesPerSector

/-- The first byte of the `k`-th copy of the FAT. -/
def fatStart (k : Nat) : Nat := (g.reservedSectors + k * g.fatSectors) * g.bytesPerSector

/-- The first byte of the root directory. -/
def rootStart : Nat := (g.reservedSectors + g.fatCount * g.fatSectors) * g.bytesPerSector

/-- The first byte of the data area. -/
def dataStart : Nat := g.rootStart + g.rootDirSectors * g.bytesPerSector

def clusterBytes : Nat := g.sectorsPerCluster * g.bytesPerSector

/-- The number of clusters in the data area; they are numbered from `2`. -/
def clusterCount : Nat :=
  (g.totalSectors - (g.reservedSectors + g.fatCount * g.fatSectors + g.rootDirSectors)) /
    g.sectorsPerCluster

/-- The first FAT's entry for a cluster. -/
def fatEntry (img : Bytes) (c : Nat) : Nat := le16 img (g.fatStart 0 + 2 * c)

/-- The bytes of a cluster. -/
def clusterData (img : Bytes) (c : Nat) : Bytes :=
  slice img (g.dataStart + (c - 2) * g.clusterBytes) g.clusterBytes

end Geometry

/-! ## Chains -/

/-- Entries from here on mark the end of a chain. -/
def endOfChain : Nat := 0xFFF8

/-- Follow `next` from cluster `c` to an end-of-chain mark, through clusters
`2, ..., bound - 1` only. -/
def chain (next : Nat → Nat) (bound : Nat) : (fuel c : Nat) → Option (List Nat)
  | 0, _ => none
  | fuel + 1, c =>
      if 2 ≤ c ∧ c < bound then
        if endOfChain ≤ next c then some [c]
        else (chain next bound fuel (next c)).map (c :: ·)
      else none

/-- A run of consecutive clusters ended by a mark is a chain. -/
theorem chain_consecutive {next : Nat → Nat} {bound : Nat} {fuel : Nat} :
    ∀ n c, 2 ≤ c → c + n < bound → n < fuel → c + n < endOfChain →
      (∀ i, i < n → next (c + i) = c + i + 1) → endOfChain ≤ next (c + n) →
        chain next bound fuel c = some (List.range' c (n + 1)) := by
  induction fuel with
  | zero =>
      intro n c _ _ hfuel
      omega
  | succ fuel ih =>
      intro n c hlow hhigh hfuel hmark hlink hend
      rw [chain, if_pos ⟨hlow, by omega⟩]
      cases n with
      | zero =>
          rw [if_pos (by simpa using hend)]
          rfl
      | succ n =>
          have hfirst : next c = c + 1 := by simpa using hlink 0 (by omega)
          have hrest : chain next bound fuel (c + 1) = some (List.range' (c + 1) (n + 1)) := by
            apply ih n (c + 1) (by omega) (by omega) (by omega) (by omega)
            · intro i hi
              have hstep := hlink (i + 1) (by omega)
              rw [Nat.add_right_comm c 1 i]
              exact hstep
            · rw [Nat.add_right_comm c 1 n]
              exact hend
          rw [if_neg (by omega), hfirst, hrest, List.range'_succ (n := n + 1)]
          rfl

/-! ## Directories -/

/-- What the reader uses of a 32-byte directory entry. -/
structure DirEntry where
  name : Bytes
  attr : Nat
  firstCluster : Nat
  size : Nat
deriving DecidableEq, Repr

def parseEntry (e : Bytes) : DirEntry where
  name := slice e 0 11
  attr := byteAt e 11
  firstCluster := le16 e 26
  size := le32 e 28

def DirEntry.isDirectory (e : DirEntry) : Bool := e.attr &&& 0x10 != 0

def DirEntry.isVolumeLabel (e : DirEntry) : Bool := e.attr &&& 0x08 != 0

/-- Scan a directory for an 11-byte name.  A zero byte ends the directory. -/
def findEntry (name : Bytes) : (entries : Nat) → (dir : Bytes) → Option DirEntry
  | 0, _ => none
  | entries + 1, dir =>
      let e := parseEntry (slice dir 0 32)
      if byteAt dir 0 = 0 then none
      else if e.name = name ∧ e.isVolumeLabel = false then some e
      else findEntry name entries (dir.drop 32)

/-! ## Files -/

section Files

variable (g : Geometry) (img : Bytes)

/-- The clusters of the chain from a first cluster. -/
def chainFrom (c : Nat) : Option (List Nat) :=
  chain (g.fatEntry img) (2 + g.clusterCount) g.clusterCount c

/-- The bytes on a chain. -/
def readChain (c : Nat) : Option Bytes :=
  (chainFrom g img c).map fun cs => cs.flatMap (g.clusterData img)

/-- Look up a path of names, starting in a directory. -/
def lookupPath : (dir : Bytes) → (path : List Bytes) → Option DirEntry
  | _, [] => none
  | dir, [name] => findEntry name (dir.length / 32) dir
  | dir, name :: rest => do
      let e ← findEntry name (dir.length / 32) dir
      if e.isDirectory then
        let sub ← readChain g img e.firstCluster
        lookupPath sub rest
      else none

variable {g img}

/-- One step down the path. -/
theorem lookupPath_cons {dir sub name next : Bytes} {rest : List Bytes} {e : DirEntry}
    (hfind : findEntry name (dir.length / 32) dir = some e) (hdir : e.isDirectory = true)
    (hsub : readChain g img e.firstCluster = some sub) :
    lookupPath g img dir (name :: next :: rest) = lookupPath g img sub (next :: rest) := by
  show (findEntry name (dir.length / 32) dir).bind (fun e =>
    if e.isDirectory then
      (readChain g img e.firstCluster).bind (fun sub => lookupPath g img sub (next :: rest))
    else none) = _
  rw [hfind, Option.bind_some, if_pos hdir, hsub, Option.bind_some]

end Files

/-- Read the file at a path. -/
def readFile (img : Bytes) (path : List Bytes) : Option Bytes := do
  let g := readGeometry img
  if img.length < g.totalSectors * g.bytesPerSector then none
  else
    let e ← lookupPath g img (slice img g.rootStart (g.rootEntries * 32)) path
    if e.isDirectory then none
    else
      let data ← readChain g img e.firstCluster
      if data.length < e.size then none else some (data.take e.size)

end Fat
end OsBook
