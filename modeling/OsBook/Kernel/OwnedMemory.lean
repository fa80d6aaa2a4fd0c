import OsBook.Kernel.AllocatorRuns

/-!
# Which memory the allocator takes

The scratch window ends where the LOADER_DATA descriptor of the map buffer
ends, provided the scan gets to see that descriptor.  If the scan stops before
it, the kernel guesses 256 pages of headroom behind the map, while the loader
has only reserved 128 spare pages.

`scan_mmapAllocEnd_eq` says exactly when the descriptor is seen, and
`allocRun_reaches` that a long enough run returns every unreserved page of the
window.  Together they decide when all pages are owned (`TakesOwned`).
-/

namespace OsBook
namespace Kernel

open Machine

/-! ## UEFI memory maps -/

/-- What UEFI promises about a map: page-aligned descriptors that do not
overlap, within the physical address space. -/
structure UefiMap (h : Handover) (m : Memory) : Prop where
  aligned : ∀ i, i < h.descCount.toNat → (descriptor h m i).physicalStart.toNat % 4096 = 0
  below : ∀ i, i < h.descCount.toNat → (descriptor h m i).physicalStart.toNat +
    (descriptor h m i).numberOfPages.toNat * 4096 ≤ 2 ^ 52
  disjoint : ∀ i j, i < h.descCount.toNat → j < h.descCount.toNat → i ≠ j →
    ∀ x, (descriptor h m i).Covers x → ¬ (descriptor h m j).Covers x

theorem UefiMap.conventionalOk {h : Handover} {m : Memory} (hmap : UefiMap h m) :
    ConventionalOk h m where
  aligned := fun i hi _ => hmap.aligned i hi
  disjoint := fun i j hi hj hij _ _ => hmap.disjoint i j hi hj hij

theorem UefiMap.bufferRoom {h : Handover} {m : Memory} (hmap : UefiMap h m) : BufferRoom h m :=
  EndsBelow.bufferRoom (b := 2 ^ 52) (fun i hi _ => hmap.below i hi) (le_refl _)

/-- The pages the loader allocates for a map whose probed size is `probeSize`. -/
def mmapBufferPages (probeSize : Nat) : Nat := max ((probeSize + 4095) / 4096) 2 + 128

/-- Descriptor `k` is the LOADER_DATA descriptor that holds the buffer the
loader allocated for the map. -/
structure HoldsLoaderBuffer (h : Handover) (m : Memory) (probeSize k : Nat) : Prop where
  index : k < h.descCount.toNat
  type : (descriptor h m k).type = loaderDataType
  /-- The map was filled into a buffer allocated for the probed size. -/
  used_le : h.mmapSizeUsed.toNat ≤ probeSize
  start_le : (descriptor h m k).physicalStart.toNat ≤ h.mmapPhys.toNat
  end_ge : h.mmapPhys.toNat + mmapBufferPages probeSize * 4096 ≤
    (descriptor h m k).physicalStart.toNat + (descriptor h m k).numberOfPages.toNat * 4096

/-- All bytes of the page at `p` are ones the descriptor reports. -/
def EfiMemoryDescriptor.HoldsPage (d : EfiMemoryDescriptor) (p : UInt64) : Prop :=
  d.physicalStart.toNat ≤ p.toNat ∧
    p.toNat + 4096 ≤ d.physicalStart.toNat + d.numberOfPages.toNat * 4096

/-- The page lies in the buffer's descriptor `k` or in a conventional one. -/
def OwnedPage (h : Handover) (m : Memory) (k : Nat) (p : UInt64) : Prop :=
  (descriptor h m k).HoldsPage p ∨ ∃ i, i < h.descCount.toNat ∧
    (descriptor h m i).type = conventionalMemoryType ∧ (descriptor h m i).HoldsPage p

/-! ## What the scan sees -/

/-- The conventional ranges cached before descriptor `k`, if the scan gets there. -/
def cachedBefore (h : Handover) (m : Memory) : Nat → Nat
  | 0 => 0
  | k + 1 => cachedBefore h m k + if (descriptor h m k).IsCached then 1 else 0

/-- Descriptor `k` is within the scan cap, and fewer than 64 conventional
ranges precede it. -/
def ScanReaches (h : Handover) (m : Memory) (k : Nat) : Prop :=
  k < h.scanLimit ∧ cachedBefore h m k < maxRanges

theorem cachedBefore_mono {h : Handover} {m : Memory} {i j : Nat} (hij : i ≤ j) :
    cachedBefore h m i ≤ cachedBefore h m j := by
  induction hij with
  | refl => exact le_refl _
  | step _ ih =>
      rw [cachedBefore]
      omega

section Scan

variable {h : Handover} {m : Memory} {probeSize k : Nat}

/-- Among disjoint descriptors only the buffer's own holds the buffer. -/
theorem HoldsLoaderBuffer.holdsBuffer_iff (hk : HoldsLoaderBuffer h m probeSize k)
    (hmap : UefiMap h m) {i : Nat} (hi : i < h.descCount.toNat) :
    (descriptor h m i).HoldsBuffer h ↔ i = k := by
  have hpages : 130 ≤ mmapBufferPages probeSize := by
    unfold mmapBufferPages
    omega
  have hcovers : (descriptor h m k).Covers h.mmapPhys.toNat := by
    have hend := hk.end_ge
    exact ⟨hk.start_le, by omega⟩
  constructor
  · rintro ⟨-, hlow, hhigh⟩
    by_contra hne
    refine hmap.disjoint i k hi hk.index hne _ ⟨UInt64.le_iff_toNat_le.mp hlow, ?_⟩ hcovers
    exact (UInt64.lt_iff_toNat_lt.mp hhigh).trans_le ((descriptor h m i).toNat_endFrom_le _)
  · rintro rfl
    have hbelow := hmap.below i hi
    have hlt := hcovers.2
    refine ⟨hk.type, UInt64.le_iff_toNat_le.mpr hk.start_le, UInt64.lt_iff_toNat_lt.mpr ?_⟩
    rw [(descriptor h m i).toNat_endFrom (by omega)]
    exact hlt

/-- The scan finds the end of the buffer's descriptor exactly when it reaches it. -/
theorem scan_mmapAllocEnd_eq (hmap : UefiMap h m) (hk : HoldsLoaderBuffer h m probeSize k) :
    (ScanReaches h m k → (scan h m).mmapAllocEnd =
        pageAlignUp ((descriptor h m k).endFrom (descriptor h m k).physicalStart) pageSize) ∧
      (¬ ScanReaches h m k → (scan h m).mmapAllocEnd = h.mmapEnd) := by
  -- The invariant after `i` descriptors: the cache holds the ranges counted by
  -- `cachedBefore`, it was never full before, and the end is set once `k` is passed.
  obtain ⟨i, hi, ⟨hlen, hguard, hend⟩, hstop⟩ := scan_induction (h := h) (m := m)
    (fun i s => s.ranges.length = cachedBefore h m i ∧
      (∀ j, j < i → cachedBefore h m j < maxRanges) ∧
      s.mmapAllocEnd = if k < i then
        pageAlignUp ((descriptor h m k).endFrom (descriptor h m k).physicalStart) pageSize
        else h.mmapEnd)
    (by simp [cachedBefore])
    (by
      rintro i s hi hroom ⟨hlen, hguard, hend⟩
      refine ⟨?_, ?_, ?_⟩
      · rw [scanStep_ranges, cachedBefore]
        split
        · rw [List.length_append, hlen, List.length_singleton]
        · omega
      · intro j hj
        by_cases hji : j = i
        · rw [hji, ← hlen]
          exact hroom
        · exact hguard j (by omega)
      · rw [scanStep_mmapAllocEnd, hend]
        have hholds := hk.holdsBuffer_iff hmap (hi.trans_le (scanLimit_le h))
        by_cases hik : i = k
        · rw [if_pos (hholds.mpr hik), if_pos (by omega), hik]
        · rw [if_neg (fun hc => hik (hholds.mp hc))]
          by_cases hlt : k < i
          · rw [if_pos hlt, if_pos (by omega)]
          · rw [if_neg hlt, if_neg (by omega)])
  constructor
  · rintro ⟨hlimit, hcached⟩
    rw [hend, if_pos]
    rcases hstop with rfl | hfull
    · exact hlimit
    · -- A full cache before `k` contradicts the count at `k`.
      by_contra hle
      have hmono := cachedBefore_mono (h := h) (m := m) (Nat.le_of_not_lt hle)
      omega
  · intro hnot
    rw [hend, if_neg]
    intro hlt
    exact hnot ⟨by omega, hguard k hlt⟩

/-- The window the kernel uses: the buffer's descriptor, or the guess. -/
theorem scratchEndOf_scan (hp : Placed h) (hmap : UefiMap h m)
    (hk : HoldsLoaderBuffer h m probeSize k) :
    (ScanReaches h m k → (scratchEndOf h (scan h m)).toNat =
        (descriptor h m k).physicalStart.toNat + (descriptor h m k).numberOfPages.toNat * 4096) ∧
      (¬ ScanReaches h m k → scratchEndOf h (scan h m) = headroomEnd h) := by
  obtain ⟨hreach, hmiss⟩ := scan_mmapAllocEnd_eq hmap hk
  constructor
  · intro hr
    have haligned := hmap.aligned k hk.index
    have hbelow := hmap.below k hk.index
    have hused := hk.used_le
    have hend := hk.end_ge
    have hmmapEnd := hp.toNat_mmapEnd
    have hma := hp.mmap_aligned
    have hexact : (pageAlignUp ((descriptor h m k).endFrom (descriptor h m k).physicalStart)
        pageSize).toNat = (descriptor h m k).physicalStart.toNat +
          (descriptor h m k).numberOfPages.toNat * 4096 := by
      have hfrom : ((descriptor h m k).endFrom (descriptor h m k).physicalStart).toNat = _ :=
        (descriptor h m k).toNat_endFrom (by omega)
      rw [toNat_pageAlignUp (by omega), hfrom]
      omega
    -- The spare pages of the loader keep the end apart from the fallback value.
    have hne : (scan h m).mmapAllocEnd ≠ h.mmapEnd := by
      intro heq
      have htoNat := congrArg UInt64.toNat heq
      rw [hreach hr, hexact, hmmapEnd] at htoNat
      unfold mmapBufferPages at hend
      omega
    rw [scratchEndOf, if_neg hne, hreach hr, hexact]
  · intro hr
    rw [scratchEndOf, if_pos (hmiss hr)]

end Scan

/-! ## Long runs reach every page of the window -/

section Reach

variable {e : AllocEnv} {s : AllocState} {q : UInt64}

/-- An unreserved page of the window bounds the next result. -/
theorem nextPage_le (ok : e.Ok) (inv : AllocInv e s) (hq : q.toNat % 4096 = 0)
    (hlow : s.scratchNext.toNat ≤ q.toNat) (hhigh : q.toNat + 4096 ≤ e.scratchEnd.toNat)
    (hkernel : e.inKernel q = false) (hstack : e.inStack q = false) :
    ∃ p, nextPage e s = .ok (some p, { s with scratchNext := p + pageSize }) ∧
      s.scratchNext.toNat ≤ p.toNat ∧ p.toNat ≤ q.toNat ∧
      (p + pageSize).toNat = p.toNat + 4096 := by
  have hend := ok.scratchEnd_room
  have halign := inv.next_aligned
  obtain ⟨⟨found, next⟩, hloop⟩ := scratchLoop_ends ok inv
  obtain ⟨hrun, hcursor⟩ := scratchLoop_run ok inv hloop
  have hskip : (e.inKernel q || e.inStack q) = false := by simp [hkernel, hstack]
  -- The cursor cannot pass `q` without returning it.
  have hpass : q.toNat < next.toNat → found = some q := by
    intro hlt
    by_contra hne
    have hskipped := (hrun.passed q hlow hlt (by omega)).2 hne
    exact Bool.false_ne_true (hskip.symm.trans hskipped)
  cases found with
  | none =>
      by_cases hlt : q.toNat < next.toNat
      · exact absurd (hpass hlt) (by simp)
      · have hmore := (scratch_more_iff (e := e) hcursor.2.2.1).mpr (by omega)
        exact absurd ((hrun.found_none rfl).symm.trans hmore) Bool.false_ne_true
  | some p =>
      obtain ⟨hple, hnext, -, -, -⟩ := hrun.found_some p rfl
      have hnext' : next = p + pageSize := by
        have hlt := next.toNat_lt
        apply UInt64.toNat_inj.mp
        rw [hnext, toNat_add_pageSize (by omega)]
      refine ⟨p, ?_, hple, ?_, hnext' ▸ hnext⟩
      · rw [nextPage, hloop, ← hnext']
        rfl
      · by_cases hlt : q.toNat < next.toNat
        · exact (Option.some.inj (hpass hlt)).symm ▸ le_refl _
        · omega

/-- **A long enough run returns every unreserved page of the window.** -/
theorem allocRun_reaches (ok : e.Ok) (hq : q.toNat % 4096 = 0)
    (hhigh : q.toNat + 4096 ≤ e.scratchEnd.toNat) (hkernel : e.inKernel q = false)
    (hstack : e.inStack q = false) :
    ∀ n s, AllocInv e s → s.scratchNext.toNat ≤ q.toNat → q.toNat < s.scratchNext.toNat + n →
      ∃ calls s', AllocRun e s calls s' ∧ ∃ c ∈ calls, c.page = q := by
  intro n
  induction n with
  | zero =>
      intro s _ hlow hn
      omega
  | succ n ih =>
      intro s inv hlow hn
      obtain ⟨p, hnext, hple, hpq, hstep⟩ := nextPage_le ok inv hq hlow hhigh hkernel hstack
      have hinv := (nextPage_spec ok inv hnext).inv
      have hcall : allocPage e s (fun _ => 0) =
          .ok (p, { s with scratchNext := p + pageSize }, zeroPage (fun _ => 0) p) := by
        rw [allocPage, hnext]
        rfl
      -- Either this call returns `q`, or the cursor has come closer to it.
      by_cases hpeq : p = q
      · exact ⟨_, _, AllocRun.cons hcall (AllocRun.nil _), _, List.mem_singleton_self _, hpeq⟩
      · have hne : p.toNat ≠ q.toNat := fun heq => hpeq (UInt64.toNat_inj.mp heq)
        have halign := inv.next_aligned
        have hpalign := ((nextPage_spec ok inv hnext).taken p rfl).aligned
        obtain ⟨calls, s', hrun, c, hc, hcq⟩ := ih _ hinv (by rw [hstep]; omega)
          (by rw [hstep]; omega)
        exact ⟨_, s', AllocRun.cons hcall hrun, c, List.mem_cons_of_mem _ hc, hcq⟩

end Reach

/-! ## When every page is owned -/

/-- Every unreserved page of the guessed headroom behind the map is owned. -/
def HeadroomOwned (h : Handover) (m : Memory) (k : Nat) : Prop :=
  ∀ q : UInt64, q.toNat % 4096 = 0 → h.mmapEnd.toNat ≤ q.toNat →
    q.toNat + 4096 ≤ (headroomEnd h).toNat → ¬ InKernelImage h q.toNat →
    ¬ InStackRange h q.toNat → OwnedPage h m k q

/-- Every nonzero result of every run of calls is owned. -/
def TakesOwned (h : Handover) (m : Memory) (k : Nat) (e : AllocEnv) : Prop :=
  ∀ calls s, AllocRun e (initialAlloc e) calls s → ∀ c ∈ calls, c.page ≠ 0 → OwnedPage h m k c.page

section Owned

variable {h : Handover} {m : Memory} {e : AllocEnv} {probeSize k : Nat} (hp : Placed h)
  (hmap : UefiMap h m) (hk : HoldsLoaderBuffer h m probeSize k) (he : prepare h m = .ok e)

include hmap he in
/-- Pages that a cached range offers lie in its conventional descriptor. -/
theorem ownedPage_of_range {p : UInt64} {r : Range} (hr : r ∈ e.ranges)
    (hlow : r.start.toNat ≤ p.toNat) (hhigh : p.toNat + 4096 ≤ r.endExcl.toNat) :
    OwnedPage h m k p := by
  obtain ⟨-, -, rfl⟩ := prepare_eq_ok he
  obtain ⟨i, hi, hcached, rfl⟩ := mem_scan_ranges hr
  have hlt := hi.trans_le (scanLimit_le h)
  have hfirst := (descriptor h m i).covers_of_range (hmap.aligned i hlt) hlow (by omega)
  have hlast := (descriptor h m i).covers_of_range (x := p.toNat + 4095) (hmap.aligned i hlt)
    (by omega) (by omega)
  refine Or.inr ⟨i, hlt, hcached.1, hfirst.1, ?_⟩
  have := hlast.2
  omega

include hp hk in
/-- Window pages before the guessed headroom lie in the buffer's descriptor. -/
theorem holdsPage_of_lt_mmapEnd {p : UInt64} (hpa : p.toNat % 4096 = 0)
    (hlow : h.mmapPhys.toNat ≤ p.toNat) (hlt : p.toNat < h.mmapEnd.toNat) :
    (descriptor h m k).HoldsPage p := by
  have hstart := hk.start_le
  have hend := hk.end_ge
  have hused := hk.used_le
  have hmmapEnd := hp.toNat_mmapEnd
  have hma := hp.mmap_aligned
  unfold mmapBufferPages at hend
  refine ⟨by omega, ?_⟩
  omega

include hp hmap he

/-- The results of a run come from the window or from a cached range. -/
theorem allocRun_offered {calls : List AllocCall} {s : AllocState}
    (hrun : AllocRun e (initialAlloc e) calls s) {c : AllocCall} (hc : c ∈ calls)
    (hne : c.page ≠ 0) :
    c.page.toNat % 4096 = 0 ∧ Offered e c.page ∧ ¬ InKernelImage h c.page.toNat ∧
      ¬ InStackRange h c.page.toNat := by
  have ok := allocEnv_ok hp hmap.conventionalOk hmap.bufferRoom he
  obtain ⟨s₁, s₂, htaken, -⟩ :=
    (runOk_of_allocRun ok hrun (allocInv_initial ok)).taken c hc hne
  have hbase : InBlock c.page 4096 c.page := by simp [InBlock]
  exact ⟨htaken.aligned, htaken.offered, htaken.not_inKernelImage ok hp he hbase,
    htaken.not_inStackRange ok hp he hbase⟩

/-- An unreserved page of the window is a result of some run. -/
theorem exists_allocRun {q : UInt64} (hq : q.toNat % 4096 = 0)
    (hlow : h.mmapPhys.toNat ≤ q.toNat) (hhigh : q.toNat + 4096 ≤ e.scratchEnd.toNat)
    (hkernel : ¬ InKernelImage h q.toNat) (hstack : ¬ InStackRange h q.toNat) :
    ∃ calls s, AllocRun e (initialAlloc e) calls s ∧ ∃ c ∈ calls, c.page = q := by
  have ok := allocEnv_ok hp hmap.conventionalOk hmap.bufferRoom he
  obtain ⟨hkp, hke, hsp, hse⟩ := prepare_layout hp he
  have hscratch : (initialAlloc e).scratchNext = h.mmapPhys := by
    obtain ⟨-, -, rfl⟩ := prepare_eq_ok he
    exact hp.scratch_eq
  have hnotKernel : e.inKernel q = false := by
    by_contra hin
    simp only [AllocEnv.inKernel, Bool.not_eq_false, Bool.and_eq_true, decide_eq_true_eq, ge_iff_le,
      UInt64.le_iff_toNat_le, UInt64.lt_iff_toNat_lt, hkp, hke] at hin
    exact hkernel hin
  have hnotStack : e.inStack q = false := by
    by_contra hin
    simp only [AllocEnv.inStack, Bool.not_eq_false, Bool.and_eq_true, decide_eq_true_eq, ge_iff_le,
      UInt64.le_iff_toNat_le, UInt64.lt_iff_toNat_lt, hsp, hse] at hin
    exact hstack hin
  refine allocRun_reaches ok hq hhigh hnotKernel hnotStack (q.toNat + 1) _ (allocInv_initial ok)
    ?_ (by omega)
  rw [hscratch]
  exact hlow

include hk

theorem takesOwned_of_scanReaches (hr : ScanReaches h m k) : TakesOwned h m k e := by
  intro calls s hrun c hc hne
  obtain ⟨halign, hoffered, -, -⟩ := allocRun_offered hp hmap he hrun hc hne
  rcases hoffered with ⟨hlow, hhigh⟩ | ⟨r, hmem, hlow, hhigh⟩
  · -- The window ends where the buffer's descriptor does.
    have hend := (scratchEndOf_scan hp hmap hk).1 hr
    have hstart := hk.start_le
    obtain ⟨-, -, rfl⟩ := prepare_eq_ok he
    simp only [hp.scratch_eq, hend] at hlow hhigh
    exact Or.inl ⟨by omega, hhigh⟩
  · exact ownedPage_of_range hmap he hmem hlow hhigh

theorem takesOwned_iff_headroomOwned (hr : ¬ ScanReaches h m k) :
    TakesOwned h m k e ↔ HeadroomOwned h m k := by
  have hend : e.scratchEnd = headroomEnd h := by
    obtain ⟨-, -, rfl⟩ := prepare_eq_ok he
    exact (scratchEndOf_scan hp hmap hk).2 hr
  have hmmapEnd := hp.toNat_mmapEnd
  obtain ⟨hdesc, hsize, heq⟩ := prepare_eq_ok he
  rw [Ne, eq_zero_iff_toNat] at hdesc
  constructor
  · intro hall q hq hlow hhigh hkernel hstack
    rw [← hend] at hhigh
    obtain ⟨calls, s, hrun, c, hc, rfl⟩ :=
      exists_allocRun hp hmap he hq (by omega) hhigh hkernel hstack
    refine hall calls s hrun c hc ?_
    rw [Ne, eq_zero_iff_toNat]
    omega
  · intro hhead calls s hrun c hc hne
    obtain ⟨halign, hoffered, hkernel, hstack⟩ := allocRun_offered hp hmap he hrun hc hne
    rcases hoffered with ⟨hlow, hhigh⟩ | ⟨r, hmem, hlow, hhigh⟩
    · rw [hend] at hhigh
      -- Pages under the map itself are the buffer's; behind it the guess counts.
      by_cases hlt : c.page.toNat < h.mmapEnd.toNat
      · have hscratch : e.scratch = h.mmapPhys := by
          rw [heq]
          exact hp.scratch_eq
        rw [hscratch] at hlow
        exact Or.inl (holdsPage_of_lt_mmapEnd hp hk halign hlow hlt)
      · exact hhead c.page halign (by omega) hhigh hkernel hstack
    · exact ownedPage_of_range hmap he hmem hlow hhigh

end Owned

/-- **When Stage 1 only takes memory it owns.**  All results of all runs lie in
the buffer's LOADER_DATA descriptor or in conventional ones exactly when the
scan reaches that descriptor, or the guessed headroom happens to be owned. -/
theorem takesOwned_iff {h : Handover} {m : Memory} {e : AllocEnv} {probeSize k : Nat}
    (hp : Placed h) (hmap : UefiMap h m) (hk : HoldsLoaderBuffer h m probeSize k)
    (he : prepare h m = .ok e) :
    TakesOwned h m k e ↔ ScanReaches h m k ∨ HeadroomOwned h m k := by
  by_cases hr : ScanReaches h m k
  · exact ⟨fun _ => Or.inl hr, fun _ => takesOwned_of_scanReaches hp hmap hk he hr⟩
  · rw [takesOwned_iff_headroomOwned hp hmap hk he hr]
    exact ⟨Or.inr, fun hor => hor.resolve_left hr⟩

/-! ## A crowded memory map -/

/-- A memory that holds the descriptors `desc 0, desc 1, ...` from `base`, 48
bytes apart. -/
def mapMemory (base : UInt64) (desc : Nat → EfiMemoryDescriptor) : Memory := fun x =>
  let d := desc ((x - base).toNat / 48)
  let field := (x - base).toNat % 48
  if field < 8 then UInt8.ofNat (d.type.toNat / 256 ^ field)
  else if field < 16 then UInt8.ofNat (d.physicalStart.toNat / 256 ^ (field - 8))
  else if field < 24 then 0
  else if field < 32 then UInt8.ofNat (d.numberOfPages.toNat / 256 ^ (field - 24))
  else 0

/-- Reading a written map gives back its descriptors. -/
theorem descriptor_mapMemory {h : Handover} (hsize : h.descSize = 48)
    (desc : Nat → EfiMemoryDescriptor) {i : Nat} (hi : i < 2 ^ 32) :
    descriptor h (mapMemory h.mmapPhys desc) i = desc i := by
  -- No address computation wraps relative to the base of the map.
  have hfield : ∀ f : Nat, f < 32 →
      (h.mmapPhys + UInt64.ofNat i * h.descSize + UInt64.ofNat f - h.mmapPhys).toNat =
        48 * i + f := by
    intro f hf
    have hsize' : h.descSize.toNat = 48 := by
      rw [hsize]
      rfl
    have hlt := h.mmapPhys.toNat_lt
    rw [UInt64.toNat_sub, UInt64.toNat_add, UInt64.toNat_add, UInt64.toNat_mul,
      UInt64.toNat_ofNat', UInt64.toNat_ofNat', hsize']
    omega
  have hstart : h.mmapPhys + UInt64.ofNat i * h.descSize + 8 =
      h.mmapPhys + UInt64.ofNat i * h.descSize + UInt64.ofNat 8 := rfl
  have hpages : h.mmapPhys + UInt64.ofNat i * h.descSize + 24 =
      h.mmapPhys + UInt64.ofNat i * h.descSize + UInt64.ofNat 24 := rfl
  have htypeLoad : (mapMemory h.mmapPhys desc).load
      (h.mmapPhys + UInt64.ofNat i * h.descSize) 4 = (desc i).type.toNat % 256 ^ 4 := by
    apply Memory.load_of_digits
    intro f hf
    have hoff := hfield f (by omega)
    have hdiv : (48 * i + f) / 48 = i := by omega
    have hmod : (48 * i + f) % 48 = f := by omega
    simp only [mapMemory, hoff, hdiv, hmod]
    rw [if_pos (by omega)]
  have hword : ∀ o w : Nat, o + 8 ≤ 32 →
      (∀ f, f < 8 → mapMemory h.mmapPhys desc (h.mmapPhys + UInt64.ofNat i * h.descSize +
        UInt64.ofNat (o + f)) = UInt8.ofNat (w / 256 ^ f)) →
      (mapMemory h.mmapPhys desc).load
        (h.mmapPhys + UInt64.ofNat i * h.descSize + UInt64.ofNat o) 8 = w % 256 ^ 8 := by
    intro o w _ hbytes
    apply Memory.load_of_digits
    intro f hf
    rw [UInt64.add_assoc, ← UInt64.ofNat_add]
    exact hbytes f hf
  have hstartLoad := hword 8 (desc i).physicalStart.toNat (by omega) (by
    intro f hf
    have hoff := hfield (8 + f) (by omega)
    have hdiv : (48 * i + (8 + f)) / 48 = i := by omega
    have hmod : (48 * i + (8 + f)) % 48 = 8 + f := by omega
    simp only [mapMemory, hoff, hdiv, hmod]
    rw [if_neg (by omega), if_pos (by omega), Nat.add_sub_cancel_left])
  have hpagesLoad := hword 24 (desc i).numberOfPages.toNat (by omega) (by
    intro f hf
    have hoff := hfield (24 + f) (by omega)
    have hdiv : (48 * i + (24 + f)) / 48 = i := by omega
    have hmod : (48 * i + (24 + f)) % 48 = 24 + f := by omega
    simp only [mapMemory, hoff, hdiv, hmod]
    rw [if_neg (by omega), if_neg (by omega), if_neg (by omega), if_pos (by omega),
      Nat.add_sub_cancel_left])
  have htlt := (desc i).type.toNat_lt
  have hslt := (desc i).physicalStart.toNat_lt
  have hplt := (desc i).numberOfPages.toNat_lt
  unfold descriptor readDescriptor Memory.load32 Memory.load64
  rw [htypeLoad, hstart, hstartLoad, hpages, hpagesLoad, Nat.mod_eq_of_lt (by omega),
    Nat.mod_eq_of_lt (by omega), Nat.mod_eq_of_lt (by omega), UInt32.ofNat_toNat,
    UInt64.ofNat_toNat, UInt64.ofNat_toNat]

/-- 64 conventional pages, the buffer of 130 pages, runtime services data right
behind it, then the kernel and the stack. -/
def crowdedMap (i : Nat) : EfiMemoryDescriptor :=
  if i < 64 then ⟨conventionalMemoryType, 0x1000000 + 0x2000 * UInt64.ofNat i, 1⟩
  else if i = 64 then ⟨loaderDataType, 0x4000000, 130⟩
  else if i = 65 then ⟨6, 0x4082000, 100⟩
  else if i = 66 then ⟨1, 0x100000, 1⟩
  else ⟨loaderDataType, 0x200000, 4⟩

def crowdedHandover : Handover where
  mmapPhys := 0x4000000
  mmapSizeUsed := 68 * 48
  descSize := 48
  kernelPhys := 0x100000
  kernelPages := 1
  stackPhys := 0x200000

def crowdedMemory : Memory := mapMemory crowdedHandover.mmapPhys crowdedMap

theorem crowded_descriptor {i : Nat} (hi : i < crowdedHandover.descCount.toNat) :
    descriptor crowdedHandover crowdedMemory i = crowdedMap i := by
  have hcount : crowdedHandover.descCount.toNat = 68 := by decide
  exact descriptor_mapMemory rfl crowdedMap (by omega)

/-- The descriptors of the crowded map, with their starts and sizes. -/
theorem crowdedMap_cases {i : Nat} (hi : i < crowdedHandover.descCount.toNat) :
    (i < 64 ∧ (crowdedMap i).type = conventionalMemoryType ∧
        (crowdedMap i).physicalStart.toNat = 0x1000000 + 0x2000 * i ∧
        (crowdedMap i).numberOfPages.toNat = 1) ∨
      (64 ≤ i ∧ (crowdedMap i).type ≠ conventionalMemoryType ∧
        ((i = 64 ∧ (crowdedMap i).physicalStart.toNat = 0x4000000 ∧
            (crowdedMap i).numberOfPages.toNat = 130) ∨
          (i = 65 ∧ (crowdedMap i).physicalStart.toNat = 0x4082000 ∧
            (crowdedMap i).numberOfPages.toNat = 100) ∨
          (i = 66 ∧ (crowdedMap i).physicalStart.toNat = 0x100000 ∧
            (crowdedMap i).numberOfPages.toNat = 1) ∨
          (i = 67 ∧ (crowdedMap i).physicalStart.toNat = 0x200000 ∧
            (crowdedMap i).numberOfPages.toNat = 4))) := by
  have hcount : crowdedHandover.descCount.toNat = 68 := by decide
  by_cases hlt : i < 64
  · refine Or.inl ⟨hlt, ?_⟩
    have hstart : (0x1000000 + 0x2000 * UInt64.ofNat i).toNat = 0x1000000 + 0x2000 * i := by
      have hbase : (0x1000000 : UInt64).toNat = 0x1000000 := rfl
      have hstep : (0x2000 : UInt64).toNat = 0x2000 := rfl
      rw [UInt64.toNat_add, UInt64.toNat_mul, UInt64.toNat_ofNat', hbase, hstep]
      omega
    unfold crowdedMap
    rw [if_pos hlt]
    exact ⟨rfl, hstart, rfl⟩
  · refine Or.inr ⟨by omega, ?_⟩
    have hcases : i = 64 ∨ i = 65 ∨ i = 66 ∨ i = 67 := by omega
    rcases hcases with rfl | rfl | rfl | rfl
    · exact ⟨by decide, Or.inl ⟨rfl, rfl, rfl⟩⟩
    · exact ⟨by decide, Or.inr (Or.inl ⟨rfl, rfl, rfl⟩)⟩
    · exact ⟨by decide, Or.inr (Or.inr (Or.inl ⟨rfl, rfl, rfl⟩))⟩
    · exact ⟨by decide, Or.inr (Or.inr (Or.inr ⟨rfl, rfl, rfl⟩))⟩

theorem crowded_placed : Placed crowdedHandover := by
  constructor <;> decide

theorem crowded_uefiMap : UefiMap crowdedHandover crowdedMemory where
  aligned := by
    intro i hi
    rw [crowded_descriptor hi]
    have hcases := crowdedMap_cases hi
    omega
  below := by
    intro i hi
    rw [crowded_descriptor hi]
    have hcases := crowdedMap_cases hi
    omega
  disjoint := by
    intro i j hi hj hij x hx hx'
    rw [crowded_descriptor hi] at hx
    rw [crowded_descriptor hj] at hx'
    have hcases := crowdedMap_cases hi
    have hcases' := crowdedMap_cases hj
    obtain ⟨hlow, hhigh⟩ := hx
    obtain ⟨hlow', hhigh'⟩ := hx'
    omega

theorem crowded_holdsLoaderBuffer :
    HoldsLoaderBuffer crowdedHandover crowdedMemory (68 * 48) 64 where
  index := by decide
  type := by
    rw [crowded_descriptor (by decide)]
    rfl
  used_le := by decide
  start_le := by
    rw [crowded_descriptor (by decide)]
    decide
  end_ge := by
    rw [crowded_descriptor (by decide)]
    decide

/-- The cache is full when the scan comes to the buffer's descriptor. -/
theorem crowded_not_scanReaches : ¬ ScanReaches crowdedHandover crowdedMemory 64 := by
  have hcount : crowdedHandover.descCount.toNat = 68 := by decide
  have hcached : ∀ k, k ≤ 64 → cachedBefore crowdedHandover crowdedMemory k = k := by
    intro k
    induction k with
    | zero => exact fun _ => rfl
    | succ k ih =>
        intro hk
        have hi : k < crowdedHandover.descCount.toNat := by omega
        have hentry : (descriptor crowdedHandover crowdedMemory k).IsCached := by
          rw [crowded_descriptor hi]
          rcases crowdedMap_cases hi with ⟨-, htype, -, hpages⟩ | ⟨hge, -⟩
          · exact ⟨htype, UInt64.lt_iff_toNat_lt.mpr (by rw [hpages]; decide)⟩
          · omega
        rw [cachedBefore, if_pos hentry, ih (by omega)]
  rintro ⟨-, hlt⟩
  rw [hcached 64 (le_refl _)] at hlt
  exact absurd hlt (by decide)

theorem crowded_prepare : ∃ e, prepare crowdedHandover crowdedMemory = .ok e := by
  unfold prepare
  rw [if_neg (by decide)]
  exact ⟨_, rfl⟩

/-- In the crowded map the guess decides. -/
theorem takesOwned_iff_crowded : ∃ e, prepare crowdedHandover crowdedMemory = .ok e ∧
    (TakesOwned crowdedHandover crowdedMemory 64 e ↔
      ScanReaches crowdedHandover crowdedMemory 64 ∨
        HeadroomOwned crowdedHandover crowdedMemory 64) := by
  obtain ⟨e, he⟩ := crowded_prepare
  exact ⟨e, he, takesOwned_iff crowded_placed crowded_uefiMap crowded_holdsLoaderBuffer he⟩

/-- Stage 1 does not always own what it takes: in the crowded map the page at
`0x4082000`, the first of the runtime services data, is handed out. -/
theorem not_takesOwned : ¬ ∀ (h : Handover) (m : Memory) (e : AllocEnv) (probeSize k : Nat),
    Placed h → 40 ≤ h.descSize.toNat → UefiMap h m → HoldsLoaderBuffer h m probeSize k →
    prepare h m = .ok e → TakesOwned h m k e := by
  intro hall
  obtain ⟨e, he⟩ := crowded_prepare
  have howned := hall _ _ _ _ _ crowded_placed (by decide) crowded_uefiMap
    crowded_holdsLoaderBuffer he
  rw [takesOwned_iff_headroomOwned crowded_placed crowded_uefiMap crowded_holdsLoaderBuffer he
    crowded_not_scanReaches] at howned
  have hpage := howned 0x4082000 (by decide) (by decide) (by decide)
    (fun hin => absurd hin.2 (by decide)) (fun hin => absurd hin.2 (by decide))
  have hvalue : (0x4082000 : UInt64).toNat = 0x4082000 := rfl
  rcases hpage with ⟨-, hend⟩ | ⟨i, hi, htype, hlow, hend⟩
  · rw [crowded_descriptor (by decide)] at hend
    exact absurd hend (by decide)
  · rw [crowded_descriptor hi] at htype hlow hend
    rw [hvalue] at hend
    rcases crowdedMap_cases hi with ⟨hlt, -, hstart, hpages⟩ | ⟨-, htype', -⟩
    · omega
    · exact htype' htype

end Kernel
end OsBook
