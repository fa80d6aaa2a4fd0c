import OsBook.Machine.PageTables

/-!
# The handover and the memory-map scan

`kernel_entry` receives six words from the loader and derives from them the
kernel, stack and memory-map ranges.  It then scans the UEFI descriptors in the
memory-map buffer, caching conventional ranges and looking for the LOADER_DATA
descriptor that holds the buffer.  The scan stops at the end of the map, after
256 KiB of descriptors, or once 64 conventional ranges are cached.

The fields `Pad`, `VirtualStart` and `Attribute` of a descriptor are never read
by the kernel and are left out.
-/

namespace OsBook
namespace Kernel

open Machine

/-! ## Constants and the handover -/

def pageSize : UInt64 := 4096

def upperHalf : UInt64 := 0xffff800000000000

/-- Must match the loader: the stack has four pages. -/
def stackPages : UInt64 := 4

def loaderDataType : UInt32 := 2

def conventionalMemoryType : UInt32 := 7

def maxRanges : Nat := 64

def kMaxScanBytes : UInt64 := 64 * pageSize

@[simp] theorem toNat_pageSize : pageSize.toNat = 4096 := rfl

/-- The next page. -/
theorem toNat_add_pageSize {x : UInt64} (h : x.toNat + 4096 < 2 ^ 64) :
    (x + pageSize).toNat = x.toNat + 4096 :=
  toNat_add_of_lt h

/-- The arguments of `kernel_entry`. -/
structure Handover where
  mmapPhys : UInt64
  mmapSizeUsed : UInt64
  descSize : UInt64
  kernelPhys : UInt64
  kernelPages : UInt64
  stackPhys : UInt64
deriving DecidableEq, Repr

def pageAlignDown (x pageSize : UInt64) : UInt64 := x &&& ~~~(pageSize - 1)

def pageAlignUp (x pageSize : UInt64) : UInt64 := (x + pageSize - 1) &&& ~~~(pageSize - 1)

theorem toNat_pageAlignDown (x : UInt64) :
    (pageAlignDown x pageSize).toNat = x.toNat / 4096 * 4096 :=
  toNat_and_not_fff x

theorem toNat_pageAlignUp_aligned (x : UInt64) : (pageAlignUp x pageSize).toNat % 4096 = 0 := by
  rw [pageAlignUp, show pageSize - 1 = 0xfff from rfl, toNat_and_not_fff]
  omega

theorem toNat_pageAlignUp {x : UInt64} (h : x.toNat + 4095 < 2 ^ 64) :
    (pageAlignUp x pageSize).toNat = (x.toNat + 4095) / 4096 * 4096 := by
  have hsum : (x + pageSize - 1).toNat = x.toNat + 4095 := by
    have hone : (1 : UInt64).toNat = 1 := rfl
    rw [UInt64.toNat_sub, UInt64.toNat_add, toNat_pageSize, hone]
    omega
  rw [pageAlignUp, show pageSize - 1 = 0xfff from rfl, toNat_and_not_fff, hsum]

namespace Handover

variable (h : Handover)

def kernelSizeBytes : UInt64 := h.kernelPages * pageSize

def kernelEnd : UInt64 := h.kernelPhys + h.kernelSizeBytes

def stackSizeBytes : UInt64 := stackPages * pageSize

def stackEnd : UInt64 := h.stackPhys + stackSizeBytes

def mmapStart : UInt64 := pageAlignDown h.mmapPhys pageSize

def mmapEnd : UInt64 := pageAlignUp (h.mmapPhys + h.mmapSizeUsed) pageSize

def descCount : UInt64 := h.mmapSizeUsed / h.descSize

def scanBytes : UInt64 := if h.mmapSizeUsed < kMaxScanBytes then h.mmapSizeUsed else kMaxScanBytes

def scanCount : UInt64 := h.scanBytes / h.descSize

/-- The number of descriptors the scan may visit. -/
def scanLimit : Nat := min h.descCount.toNat h.scanCount.toNat

end Handover

/-! ## Descriptors and the scan -/

/-- The fields of a UEFI memory descriptor that the kernel reads. -/
structure EfiMemoryDescriptor where
  type : UInt32
  physicalStart : UInt64
  numberOfPages : UInt64
deriving DecidableEq, Repr

/-- A cached conventional range; `endExcl` is exclusive. -/
structure Range where
  start : UInt64
  endExcl : UInt64
deriving DecidableEq, Repr

/-- Read the descriptor at an address, at the offsets of the UEFI layout. -/
def readDescriptor (m : Memory) (a : UInt64) : EfiMemoryDescriptor where
  type := m.load32 a
  physicalStart := m.load64 (a + 8)
  numberOfPages := m.load64 (a + 24)

/-- The `i`-th descriptor of the map in the buffer. -/
def descriptor (h : Handover) (m : Memory) (i : Nat) : EfiMemoryDescriptor :=
  readDescriptor m (h.mmapPhys + UInt64.ofNat i * h.descSize)

namespace EfiMemoryDescriptor

variable (d : EfiMemoryDescriptor)

/-- The exclusive end the kernel computes from a start, wrapping at `2 ^ 64`. -/
def endFrom (start : UInt64) : UInt64 := start + d.numberOfPages * pageSize

/-- The bytes a descriptor reports, in exact arithmetic. -/
def Covers (x : Nat) : Prop :=
  d.physicalStart.toNat ≤ x ∧ x < d.physicalStart.toNat + d.numberOfPages.toNat * 4096

/-- The descriptor passes the kernel's test for holding the map buffer. -/
def HoldsBuffer (h : Handover) : Prop :=
  d.type = loaderDataType ∧ h.mmapPhys ≥ d.physicalStart ∧
    h.mmapPhys < d.endFrom d.physicalStart

/-- The descriptor is cached as a fallback range. -/
def IsCached : Prop := d.type = conventionalMemoryType ∧ d.numberOfPages > 0

instance (h : Handover) : Decidable (d.HoldsBuffer h) :=
  inferInstanceAs (Decidable (_ ∧ _ ∧ _))

instance : Decidable d.IsCached := inferInstanceAs (Decidable (_ ∧ _))

/-- The range cached for a conventional descriptor. -/
def range : Range :=
  ⟨pageAlignDown d.physicalStart pageSize, d.endFrom (pageAlignDown d.physicalStart pageSize)⟩

/-- A wrapped end never lies above the exact one. -/
theorem toNat_endFrom_le (start : UInt64) :
    (d.endFrom start).toNat ≤ start.toNat + d.numberOfPages.toNat * 4096 := by
  unfold endFrom
  rw [UInt64.toNat_add, UInt64.toNat_mul, toNat_pageSize]
  exact (Nat.mod_le _ _).trans (Nat.add_le_add_left (Nat.mod_le _ _) _)

theorem toNat_endFrom_aligned {start : UInt64} (h : start.toNat % 4096 = 0) :
    (d.endFrom start).toNat % 4096 = 0 := by
  unfold endFrom
  rw [UInt64.toNat_add, UInt64.toNat_mul, toNat_pageSize]
  omega

theorem toNat_endFrom {start : UInt64}
    (h : start.toNat + d.numberOfPages.toNat * 4096 < 2 ^ 64) :
    (d.endFrom start).toNat = start.toNat + d.numberOfPages.toNat * 4096 := by
  unfold endFrom
  rw [UInt64.toNat_add, UInt64.toNat_mul, toNat_pageSize]
  omega

theorem range_start_of_aligned (h : d.physicalStart.toNat % 4096 = 0) :
    d.range.start = d.physicalStart := by
  apply UInt64.toNat_inj.mp
  show (pageAlignDown d.physicalStart pageSize).toNat = _
  rw [toNat_pageAlignDown]
  omega

/-- Every byte of the cached range of an aligned descriptor is one it reports. -/
theorem covers_of_range (h : d.physicalStart.toNat % 4096 = 0) {x : Nat}
    (hlow : d.range.start.toNat ≤ x) (hhigh : x < d.range.endExcl.toNat) : d.Covers x := by
  have hstart := d.range_start_of_aligned h
  have hend : d.range.endExcl = d.endFrom d.physicalStart := by
    rw [← hstart]
    rfl
  rw [hstart] at hlow
  rw [hend] at hhigh
  exact ⟨hlow, hhigh.trans_le (d.toNat_endFrom_le _)⟩

end EfiMemoryDescriptor

/-- What the scan collects. -/
structure ScanState where
  mmapAllocEnd : UInt64
  ranges : List Range
deriving DecidableEq, Repr

/-- The body of the scan loop. -/
def scanStep (h : Handover) (d : EfiMemoryDescriptor) (s : ScanState) : ScanState :=
  let s :=
    if d.type = loaderDataType then
      let start := d.physicalStart
      let endExcl := start + d.numberOfPages * pageSize
      if h.mmapPhys ≥ start ∧ h.mmapPhys < endExcl then
        { s with mmapAllocEnd := pageAlignUp endExcl pageSize }
      else s
    else s
  if d.type = conventionalMemoryType ∧ d.numberOfPages > 0 then
    let start := pageAlignDown d.physicalStart pageSize
    let endExcl := start + d.numberOfPages * pageSize
    { s with ranges := s.ranges ++ [⟨start, endExcl⟩] }
  else s

/-- The scan loop from index `i`, with `left` descriptors still allowed. -/
def scanDescriptors (h : Handover) (m : Memory) : (left i : Nat) → ScanState → ScanState
  | 0, _, s => s
  | left + 1, i, s =>
      if s.ranges.length < maxRanges then
        scanDescriptors h m left (i + 1) (scanStep h (descriptor h m i) s)
      else s

/-- The whole scan. -/
def scan (h : Handover) (m : Memory) : ScanState :=
  scanDescriptors h m h.scanLimit 0 ⟨h.mmapEnd, []⟩

@[simp] theorem scanStep_mmapAllocEnd (h : Handover) (d : EfiMemoryDescriptor) (s : ScanState) :
    (scanStep h d s).mmapAllocEnd =
      if d.HoldsBuffer h then pageAlignUp (d.endFrom d.physicalStart) pageSize
      else s.mmapAllocEnd := by
  unfold scanStep EfiMemoryDescriptor.HoldsBuffer EfiMemoryDescriptor.endFrom
  by_cases htype : d.type = loaderDataType
  · simp only [htype, if_true, true_and]
    split <;> split <;> rfl
  · simp only [htype, if_false, false_and]
    split <;> rfl

@[simp] theorem scanStep_ranges (h : Handover) (d : EfiMemoryDescriptor) (s : ScanState) :
    (scanStep h d s).ranges = if d.IsCached then s.ranges ++ [d.range] else s.ranges := by
  unfold scanStep EfiMemoryDescriptor.IsCached
  by_cases hcached : d.type = conventionalMemoryType ∧ d.numberOfPages > 0
  · simp only [hcached, and_self, if_true]
    split
    · split <;> rfl
    · rfl
  · simp only [hcached, if_false]
    split
    · split <;> rfl
    · rfl

/-- The induction rule of the scan: an invariant of the loop body holds at the
index where the loop stops, for one of its three reasons. -/
theorem scan_induction {h : Handover} {m : Memory} (inv : Nat → ScanState → Prop)
    (hinit : inv 0 ⟨h.mmapEnd, []⟩)
    (hstep : ∀ i s, i < h.scanLimit → s.ranges.length < maxRanges → inv i s →
      inv (i + 1) (scanStep h (descriptor h m i) s)) :
    ∃ i, i ≤ h.scanLimit ∧ inv i (scan h m) ∧
      (i = h.scanLimit ∨ maxRanges ≤ (scan h m).ranges.length) := by
  have hloop : ∀ left i s, left + i = h.scanLimit → inv i s →
      ∃ j, j ≤ h.scanLimit ∧ inv j (scanDescriptors h m left i s) ∧
        (j = h.scanLimit ∨ maxRanges ≤ (scanDescriptors h m left i s).ranges.length) := by
    intro left
    induction left with
    | zero =>
        intro i s hi hs
        exact ⟨i, by omega, hs, Or.inl (by omega)⟩
    | succ left ih =>
        intro i s hi hs
        rw [scanDescriptors]
        by_cases hroom : s.ranges.length < maxRanges
        · rw [if_pos hroom]
          exact ih (i + 1) _ (by omega) (hstep i s (by omega) hroom hs)
        · rw [if_neg hroom]
          exact ⟨i, by omega, hs, Or.inr (by omega)⟩
  exact hloop h.scanLimit 0 _ (by omega) hinit

/-- Every cached range belongs to a conventional descriptor of the map. -/
theorem mem_scan_ranges {h : Handover} {m : Memory} {r : Range} (hr : r ∈ (scan h m).ranges) :
    ∃ i, i < h.scanLimit ∧ (descriptor h m i).IsCached ∧ r = (descriptor h m i).range := by
  obtain ⟨i, hi, hinv, -⟩ := scan_induction (h := h) (m := m)
    (fun i s => ∀ r ∈ s.ranges,
      ∃ j, j < i ∧ (descriptor h m j).IsCached ∧ r = (descriptor h m j).range)
    (by simp)
    (by
      intro i s _ _ hs r hr
      rw [scanStep_ranges] at hr
      split at hr
      · rename_i hcached
        rcases List.mem_append.mp hr with hr | hr
        · obtain ⟨j, hj, hjr⟩ := hs r hr
          exact ⟨j, by omega, hjr⟩
        · exact ⟨i, by omega, hcached, List.mem_singleton.mp hr⟩
      · obtain ⟨j, hj, hjr⟩ := hs r hr
        exact ⟨j, by omega, hjr⟩)
  obtain ⟨j, hj, hjr⟩ := hinv r hr
  exact ⟨j, by omega, hjr⟩

/-- A relation between the ranges of any two cached descriptors holds pairwise
along the cache. -/
theorem scan_ranges_pairwise {h : Handover} {m : Memory} {rel : Range → Range → Prop}
    (hrel : ∀ i j, i < j → j < h.scanLimit → (descriptor h m i).IsCached →
      (descriptor h m j).IsCached → rel (descriptor h m i).range (descriptor h m j).range) :
    (scan h m).ranges.Pairwise rel := by
  obtain ⟨i, -, ⟨hpair, -⟩, -⟩ := scan_induction (h := h) (m := m)
    (fun i s => s.ranges.Pairwise rel ∧ ∀ r ∈ s.ranges,
      ∃ j, j < i ∧ (descriptor h m j).IsCached ∧ r = (descriptor h m j).range)
    (by simp)
    (by
      rintro i s hi - ⟨hpair, hmem⟩
      rw [scanStep_ranges]
      split
      · rename_i hcached
        refine ⟨?_, ?_⟩
        · rw [List.pairwise_append]
          refine ⟨hpair, List.pairwise_singleton _ _, ?_⟩
          intro r hr t ht
          obtain ⟨j, hj, hjc, rfl⟩ := hmem r hr
          rw [List.mem_singleton.mp ht]
          exact hrel j i hj hi hjc hcached
        · intro r hr
          rcases List.mem_append.mp hr with hr | hr
          · obtain ⟨j, hj, hjr⟩ := hmem r hr
            exact ⟨j, by omega, hjr⟩
          · exact ⟨i, by omega, hcached, List.mem_singleton.mp hr⟩
      · refine ⟨hpair, fun r hr => ?_⟩
        obtain ⟨j, hj, hjr⟩ := hmem r hr
        exact ⟨j, by omega, hjr⟩)
  exact hpair

/-- The window end found by the scan is the initial one or the end of a
descriptor that holds the buffer. -/
theorem scan_mmapAllocEnd (h : Handover) (m : Memory) :
    (scan h m).mmapAllocEnd = h.mmapEnd ∨
      ∃ i, i < h.scanLimit ∧ (descriptor h m i).HoldsBuffer h ∧
        (scan h m).mmapAllocEnd =
          pageAlignUp ((descriptor h m i).endFrom (descriptor h m i).physicalStart) pageSize := by
  obtain ⟨i, hi, hinv, -⟩ := scan_induction (h := h) (m := m)
    (fun i s => s.mmapAllocEnd = h.mmapEnd ∨
      ∃ j, j < i ∧ (descriptor h m j).HoldsBuffer h ∧ s.mmapAllocEnd =
        pageAlignUp ((descriptor h m j).endFrom (descriptor h m j).physicalStart) pageSize)
    (Or.inl rfl)
    (by
      intro i s _ _ hs
      rw [scanStep_mmapAllocEnd]
      split
      · rename_i hholds
        exact Or.inr ⟨i, by omega, hholds, rfl⟩
      · rcases hs with hs | ⟨j, hj, hjr⟩
        · exact Or.inl hs
        · exact Or.inr ⟨j, by omega, hjr⟩)
  rcases hinv with hinv | ⟨j, hj, hjr⟩
  · exact Or.inl hinv
  · exact Or.inr ⟨j, by omega, hjr⟩

/-! ## The scratch window -/

/-- The lower of kernel and stack among those above the map, or `0`. -/
def nextReservedStart (h : Handover) : UInt64 :=
  let next := if h.kernelPhys > h.mmapEnd then h.kernelPhys else 0
  if h.stackPhys > h.mmapEnd ∧ (next = 0 ∨ h.stackPhys < next) then h.stackPhys else next

/-- The guessed end of the window when no LOADER_DATA descriptor widened it:
256 pages of headroom, clipped at the next of kernel and stack. -/
def headroomEnd (h : Handover) : UInt64 :=
  let candidate := h.mmapEnd + 256 * pageSize
  let candidate :=
    if nextReservedStart h ≠ 0 ∧ candidate > nextReservedStart h then nextReservedStart h
    else candidate
  pageAlignUp candidate pageSize

/-- The end of the scratch window after the scan. -/
def scratchEndOf (h : Handover) (s : ScanState) : UInt64 :=
  if s.mmapAllocEnd = h.mmapEnd then headroomEnd h else s.mmapAllocEnd

/-- The variables that the allocator captures and never changes. -/
structure AllocEnv where
  kernelPhys : UInt64
  kernelEnd : UInt64
  stackPhys : UInt64
  stackEnd : UInt64
  scratch : UInt64
  scratchEnd : UInt64
  ranges : List Range
deriving Repr

/-- How `kernel_entry` can stop inside Stage 1. -/
inductive Stop where
  /-- A failure code was printed; the machine halts. -/
  | failCode (code : Char)
  /-- A loop that never ends. -/
  | spin
deriving DecidableEq, Repr

/-- Stage 1 up to the definition of the allocator. -/
def prepare (h : Handover) (m : Memory) : Except Stop AllocEnv :=
  if h.descSize = 0 ∨ h.mmapSizeUsed < h.descSize then
    .error (.failCode 'A')
  else
    .ok {
      kernelPhys := h.kernelPhys
      kernelEnd := h.kernelEnd
      stackPhys := h.stackPhys
      stackEnd := h.stackEnd
      scratch := pageAlignUp h.mmapStart pageSize
      scratchEnd := scratchEndOf h (scan h m)
      ranges := (scan h m).ranges
    }

/-! ## Layouts

The hypotheses under which the results about Stage 1 are stated: where the
loader placed the kernel, the stack and the map, and what the map says about
the memory it describes. -/

/-- The placement of the three loader ranges: page-aligned, below `2 ^ 47`. -/
structure Placed (h : Handover) : Prop where
  kernel_aligned : h.kernelPhys.toNat % 4096 = 0
  stack_aligned : h.stackPhys.toNat % 4096 = 0
  mmap_aligned : h.mmapPhys.toNat % 4096 = 0
  kernel_below : h.kernelPhys.toNat + h.kernelPages.toNat * 4096 ≤ 2 ^ 47
  stack_below : h.stackPhys.toNat + 4 * 4096 ≤ 2 ^ 47
  mmap_below : h.mmapPhys.toNat + h.mmapSizeUsed.toNat ≤ 2 ^ 47

/-- Conventional descriptors are page-aligned and do not overlap. -/
structure ConventionalOk (h : Handover) (m : Memory) : Prop where
  aligned : ∀ i, i < h.descCount.toNat → (descriptor h m i).type = conventionalMemoryType →
    (descriptor h m i).physicalStart.toNat % 4096 = 0
  disjoint : ∀ i j, i < h.descCount.toNat → j < h.descCount.toNat → i ≠ j →
    (descriptor h m i).type = conventionalMemoryType →
    (descriptor h m j).type = conventionalMemoryType →
    ∀ x, (descriptor h m i).Covers x → ¬ (descriptor h m j).Covers x

/-- The descriptors of one type end at or below `b`, in exact arithmetic. -/
def EndsBelow (h : Handover) (m : Memory) (type : UInt32) (b : Nat) : Prop :=
  ∀ i, i < h.descCount.toNat → (descriptor h m i).type = type →
    (descriptor h m i).physicalStart.toNat + (descriptor h m i).numberOfPages.toNat * 4096 ≤ b

/-- The descriptor of the map buffer ends, as the kernel computes it, below the
last two pages of the address space, so that the cursor over it cannot wrap. -/
def BufferRoom (h : Handover) (m : Memory) : Prop :=
  ∀ i, i < h.descCount.toNat → (descriptor h m i).HoldsBuffer h →
    ((descriptor h m i).endFrom (descriptor h m i).physicalStart).toNat ≤ 2 ^ 64 - 8192

/-- Physical addresses leave that room. -/
theorem EndsBelow.bufferRoom {h : Handover} {m : Memory} {b : Nat}
    (hld : EndsBelow h m loaderDataType b) (hb : b ≤ 2 ^ 52) : BufferRoom h m := by
  intro i hi hholds
  have hbound := hld i hi hholds.1
  have hle := (descriptor h m i).toNat_endFrom_le (descriptor h m i).physicalStart
  omega

/-- A byte of the kernel image. -/
def InKernelImage (h : Handover) (x : Nat) : Prop :=
  h.kernelPhys.toNat ≤ x ∧ x < h.kernelPhys.toNat + h.kernelPages.toNat * 4096

/-- A byte of the stack. -/
def InStackRange (h : Handover) (x : Nat) : Prop :=
  h.stackPhys.toNat ≤ x ∧ x < h.stackPhys.toNat + 4 * 4096

namespace Placed

variable {h : Handover} (hp : Placed h)
include hp

theorem toNat_kernelSizeBytes : h.kernelSizeBytes.toNat = h.kernelPages.toNat * 4096 := by
  have hbelow := hp.kernel_below
  unfold Handover.kernelSizeBytes
  rw [toNat_mul_of_lt (by rw [toNat_pageSize]; omega), toNat_pageSize]

theorem toNat_kernelEnd :
    h.kernelEnd.toNat = h.kernelPhys.toNat + h.kernelPages.toNat * 4096 := by
  have hbelow := hp.kernel_below
  have hsize := hp.toNat_kernelSizeBytes
  unfold Handover.kernelEnd
  rw [toNat_add_of_lt (by omega), hsize]

theorem toNat_stackEnd : h.stackEnd.toNat = h.stackPhys.toNat + 4 * 4096 := by
  have hbelow := hp.stack_below
  have hsize : Handover.stackSizeBytes.toNat = 4 * 4096 := rfl
  unfold Handover.stackEnd
  rw [toNat_add_of_lt (by omega), hsize]

theorem mmapStart_eq : h.mmapStart = h.mmapPhys := by
  have halign := hp.mmap_aligned
  apply UInt64.toNat_inj.mp
  unfold Handover.mmapStart
  rw [toNat_pageAlignDown]
  omega

theorem scratch_eq : pageAlignUp h.mmapStart pageSize = h.mmapPhys := by
  have halign := hp.mmap_aligned
  have hbelow := hp.mmap_below
  apply UInt64.toNat_inj.mp
  rw [hp.mmapStart_eq, toNat_pageAlignUp (by omega)]
  omega

theorem toNat_mmapEnd :
    h.mmapEnd.toNat = (h.mmapPhys.toNat + h.mmapSizeUsed.toNat + 4095) / 4096 * 4096 := by
  have hbelow := hp.mmap_below
  have hsum : (h.mmapPhys + h.mmapSizeUsed).toNat = h.mmapPhys.toNat + h.mmapSizeUsed.toNat :=
    toNat_add_of_lt (by omega)
  unfold Handover.mmapEnd
  rw [toNat_pageAlignUp (by omega), hsum]

end Placed

theorem scanLimit_le (h : Handover) : h.scanLimit ≤ h.descCount.toNat := Nat.min_le_left _ _

/-- The unclipped headroom. -/
theorem Placed.toNat_candidate {h : Handover} (hp : Placed h) :
    (h.mmapEnd + 256 * pageSize).toNat = h.mmapEnd.toNat + 256 * 4096 := by
  have hbelow := hp.mmap_below
  have hend := hp.toNat_mmapEnd
  have hsize : (256 * pageSize).toNat = 256 * 4096 := rfl
  rw [toNat_add_of_lt (by omega), hsize]

theorem nextReservedStart_cases (h : Handover) :
    (nextReservedStart h = 0 ∧ h.kernelPhys.toNat ≤ h.mmapEnd.toNat ∧
        h.stackPhys.toNat ≤ h.mmapEnd.toNat) ∨
      (nextReservedStart h = h.kernelPhys ∧ h.mmapEnd.toNat < h.kernelPhys.toNat ∧
        (h.mmapEnd.toNat < h.stackPhys.toNat → h.kernelPhys.toNat ≤ h.stackPhys.toNat)) ∨
      (nextReservedStart h = h.stackPhys ∧ h.mmapEnd.toNat < h.stackPhys.toNat ∧
        (h.mmapEnd.toNat < h.kernelPhys.toNat → h.stackPhys.toNat ≤ h.kernelPhys.toNat)) := by
  unfold nextReservedStart
  simp only [gt_iff_lt, UInt64.lt_iff_toNat_lt]
  by_cases hk : h.mmapEnd.toNat < h.kernelPhys.toNat
  · have hne : h.kernelPhys ≠ 0 := by
      rw [Ne, eq_zero_iff_toNat]
      omega
    simp only [hk, if_true, hne, false_or]
    by_cases hs : h.mmapEnd.toNat < h.stackPhys.toNat ∧ h.stackPhys.toNat < h.kernelPhys.toNat
    · rw [if_pos hs]
      exact Or.inr (Or.inr ⟨rfl, hs.1, fun _ => by omega⟩)
    · rw [if_neg hs]
      exact Or.inr (Or.inl ⟨rfl, trivial, fun _ => by omega⟩)
  · simp only [hk, if_false, true_or, and_true]
    by_cases hs : h.mmapEnd.toNat < h.stackPhys.toNat
    · rw [if_pos hs]
      exact Or.inr (Or.inr ⟨rfl, hs, fun h' => absurd h' not_false⟩)
    · rw [if_neg hs]
      exact Or.inl ⟨rfl, by omega, by omega⟩

/-- The guessed window end: the headroom, cut at the kernel and at the stack
where these lie above the map. -/
theorem toNat_headroomEnd {h : Handover} (hp : Placed h) :
    (headroomEnd h).toNat =
      min (h.mmapEnd.toNat + 256 * 4096)
        (min (if h.mmapEnd.toNat < h.kernelPhys.toNat then h.kernelPhys.toNat else 2 ^ 64)
          (if h.mmapEnd.toNat < h.stackPhys.toNat then h.stackPhys.toNat else 2 ^ 64)) := by
  have hbelow := hp.mmap_below
  have hend := hp.toNat_mmapEnd
  have hcand := hp.toNat_candidate
  -- The clipped candidate is still page-aligned, so rounding up changes nothing.
  have hround : ∀ c : UInt64, c.toNat % 4096 = 0 → c.toNat < 2 ^ 48 →
      (pageAlignUp c pageSize).toNat = c.toNat := by
    intro c halign hlt
    rw [toNat_pageAlignUp (by omega)]
    omega
  have hcut : ∀ next : UInt64, next.toNat % 4096 = 0 → 0 < next.toNat → next.toNat < 2 ^ 48 →
      (pageAlignUp (if next ≠ 0 ∧ h.mmapEnd + 256 * pageSize > next then next
        else h.mmapEnd + 256 * pageSize) pageSize).toNat =
          min (h.mmapEnd.toNat + 256 * 4096) next.toNat := by
    intro next halign hpos hlt
    have hne : next ≠ 0 := by
      rw [Ne, eq_zero_iff_toNat]
      omega
    simp only [ne_eq, hne, not_false_eq_true, true_and, gt_iff_lt, UInt64.lt_iff_toNat_lt, hcand]
    by_cases hclip : next.toNat < h.mmapEnd.toNat + 256 * 4096
    · rw [if_pos hclip, hround _ halign hlt]
      omega
    · rw [if_neg hclip, hround _ (by omega) (by omega), hcand]
      omega
  have hkb := hp.kernel_below
  have hsb := hp.stack_below
  unfold headroomEnd
  rcases nextReservedStart_cases h with ⟨hnext, hk, hs⟩ | ⟨hnext, hk, hs⟩ | ⟨hnext, hs, hk⟩
  · -- Nothing reserved above the map.
    simp only [hnext, ne_eq, not_true_eq_false, false_and, if_false]
    rw [hround _ (by omega) (by omega), if_neg (by omega), if_neg (by omega), hcand]
    omega
  · -- The kernel comes first.
    simp only [hnext]
    rw [hcut _ hp.kernel_aligned (by omega) (by omega), if_pos hk]
    split <;> omega
  · -- The stack comes first.
    simp only [hnext]
    rw [hcut _ hp.stack_aligned (by omega) (by omega), if_pos hs]
    split <;> omega

theorem toNat_headroomEnd_le {h : Handover} (hp : Placed h) :
    (headroomEnd h).toNat ≤ h.mmapEnd.toNat + 256 * 4096 := by
  rw [toNat_headroomEnd hp]
  exact Nat.min_le_left _ _

/-- The guess never ends before the map does. -/
theorem le_headroomEnd {h : Handover} (hp : Placed h) :
    h.mmapEnd.toNat ≤ (headroomEnd h).toNat := by
  have hlt := h.mmapEnd.toNat_lt
  rw [toNat_headroomEnd hp]
  refine Nat.le_min.mpr ⟨by omega, Nat.le_min.mpr ⟨?_, ?_⟩⟩
  · split <;> omega
  · split <;> omega

theorem prepare_eq_ok {h : Handover} {m : Memory} {e : AllocEnv} (he : prepare h m = .ok e) :
    h.descSize ≠ 0 ∧ h.descSize.toNat ≤ h.mmapSizeUsed.toNat ∧
      e = ⟨h.kernelPhys, h.kernelEnd, h.stackPhys, h.stackEnd, pageAlignUp h.mmapStart pageSize,
        scratchEndOf h (scan h m), (scan h m).ranges⟩ := by
  unfold prepare at he
  split at he
  · contradiction
  · rename_i hok
    simp only [not_or, UInt64.lt_iff_toNat_lt, not_lt] at hok
    exact ⟨hok.1, hok.2, (Except.ok.inj he).symm⟩

end Kernel
end OsBook
