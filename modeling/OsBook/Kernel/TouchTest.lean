import OsBook.Kernel.AddressSpace

/-!
# The memory-touch test of Stage 1

After the `CR3` load the kernel writes a flipped word through the upper-half
alias of the map buffer and then puts the old word back.  The buffer is also
the start of the scratch window, so its first page is the PML4 itself and the
touched word is the entry for the lowest 512 GiB.

Between the two stores that entry is not present.  Kernel and stack stay mapped
in every state exactly when both lie above it (`touchTest_keepsLive_iff`).
-/

namespace OsBook
namespace Kernel

open Machine

/-! ## The test -/

/-- Read a word through the tables. -/
def loadVirtual (m : Memory) (cr3 v : UInt64) : Option UInt64 :=
  (translateAddr m cr3 v).map fun t => m.load64 t.addr

/-- Write a word through the tables; a missing or read-only page faults. -/
def storeVirtual (m : Memory) (cr3 v w : UInt64) : Option Memory :=
  (translateAddr m cr3 v).bind fun t => if t.writable then some (m.store64 t.addr w) else none

theorem loadVirtual_eq {m : Memory} {cr3 v a : UInt64}
    (h : translateAddr m cr3 v = some ⟨a, true⟩) : loadVirtual m cr3 v = some (m.load64 a) := by
  rw [loadVirtual, h, Option.map_some]

theorem storeVirtual_eq {m : Memory} {cr3 v a : UInt64}
    (h : translateAddr m cr3 v = some ⟨a, true⟩) (w : UInt64) :
    storeVirtual m cr3 v w = some (m.store64 a w) := by
  rw [storeVirtual, h, Option.bind_some, if_pos rfl]

/-- The memory after each of the two stores, unless an access faults. -/
def touchTest (m : Memory) (cr3 mmapPhys : UInt64) : Option (Memory × Memory) := do
  let testPtr := mmapPhys + upperHalf
  let old ← loadVirtual m cr3 testPtr
  let flipped ← storeVirtual m cr3 testPtr (old ^^^ 0xa5a5a5a5a5a5a5a5)
  let _ ← loadVirtual flipped cr3 testPtr
  let restored ← storeVirtual flipped cr3 testPtr old
  some (flipped, restored)

/-! ## The PML4 is the first page of the map buffer -/

/-- A byte of the map in its buffer. -/
def InMmapBuffer (h : Handover) (x : Nat) : Prop :=
  h.mmapPhys.toNat ≤ x ∧ x < h.mmapPhys.toNat + h.mmapSizeUsed.toNat

/-- A byte of the kernel image or of the stack. -/
def Live (h : Handover) (x : Nat) : Prop := InKernelImage h x ∨ InStackRange h x

/-- The three ranges of the loader do not overlap. -/
structure RangesDisjoint (h : Handover) : Prop where
  kernel_stack : ∀ x, InKernelImage h x → ¬ InStackRange h x
  live_mmap : ∀ x, Live h x → ¬ InMmapBuffer h x

/-- The window has at least one page. -/
theorem prepare_window {h : Handover} {m : Memory} {e : AllocEnv} (hp : Placed h)
    (hb : MapBelow h m) (he : prepare h m = .ok e) :
    e.scratch = h.mmapPhys ∧ h.mmapPhys.toNat + 4096 ≤ e.scratchEnd.toNat := by
  obtain ⟨hdesc, hsize, rfl⟩ := prepare_eq_ok he
  rw [Ne, eq_zero_iff_toNat] at hdesc
  have hma := hp.mmap_aligned
  refine ⟨hp.scratch_eq, ?_⟩
  simp only [scratchEndOf]
  split
  · have hend := hp.toNat_mmapEnd
    have hhead := le_headroomEnd hp
    omega
  · rename_i hne
    rcases scan_mmapAllocEnd h m with heq | ⟨i, hi, hholds, heq⟩
    · exact absurd heq hne
    · have hbound := hb.loaderData i (hi.trans_le (scanLimit_le h)) hholds.1
      have hle := (descriptor h m i).toNat_endFrom_le (descriptor h m i).physicalStart
      have hgt := UInt64.lt_iff_toNat_lt.mp hholds.2.2
      rw [heq, toNat_pageAlignUp (by omega)]
      omega

/-- **The page tables start on the page that the test touches.** -/
theorem buildPaging_pml4Phys {h : Handover} {m : Memory} {P : Paging} (hp : Placed h)
    (hd : RangesDisjoint h) (hb : MapBelow h m) (hbuild : buildPaging h m = .ok P) :
    P.pml4Phys = h.mmapPhys := by
  obtain ⟨e, s, m₁, -, he, halloc, -, -⟩ := buildPaging_cases hbuild
  obtain ⟨hscratch, hroom⟩ := prepare_window hp hb he
  obtain ⟨hk, hke, hs, hse⟩ := prepare_layout hp he
  obtain ⟨hdesc, hsize, -⟩ := prepare_eq_ok he
  rw [Ne, eq_zero_iff_toNat] at hdesc
  have hbuffer : ¬ Live h h.mmapPhys.toNat :=
    fun hlive => hd.live_mmap _ hlive ⟨le_refl _, by omega⟩
  have hkernel : e.inKernel e.scratch = false := by
    by_contra hin
    simp only [AllocEnv.inKernel, Bool.not_eq_false, Bool.and_eq_true, decide_eq_true_eq, ge_iff_le,
      UInt64.le_iff_toNat_le, UInt64.lt_iff_toNat_lt, hscratch, hk, hke] at hin
    exact hbuffer (Or.inl hin)
  have hstack : e.inStack e.scratch = false := by
    by_contra hin
    simp only [AllocEnv.inStack, Bool.not_eq_false, Bool.and_eq_true, decide_eq_true_eq, ge_iff_le,
      UInt64.le_iff_toNat_le, UInt64.lt_iff_toNat_lt, hscratch, hs, hse] at hin
    exact hbuffer (Or.inr hin)
  rw [← hscratch] at hroom
  have hfirst := allocPage_of_free (s := initialAlloc e) hroom hkernel hstack m
  rw [hfirst] at halloc
  simp only [Except.ok.injEq, Prod.mk.injEq] at halloc
  rw [← halloc.1, ← hscratch]
  rfl

/-! ## Walks around the touched word -/

section Touched

variable {m : Memory} {node : SlotMap} {root v : UInt64}

theorem entryAddr_zero (root : UInt64) : entryAddr root 0 = root := by
  simp [entryAddr]

/-- A walk that does not use entry `0` of the root never reads the touched word. -/
theorem load_touched (T : PageTree m node) (hroot : node 4 0 = some ⟨root, true⟩)
    (hv : pageNumber v / 512 ^ 3 ≠ 0) (w : UInt64) {a : UInt64} (ha : a ∈ visited m 4 root v) :
    (m.store64 root w).load64 a = m.load64 a := by
  have htop : node (3 + 1) (pageNumber v / 512 ^ (3 + 1)) = some ⟨root, true⟩ := by
    rw [pageNumber_div_top]
    exact hroot
  obtain ⟨l, t, hl, ht, rfl⟩ := T.mem_visited v a 3 _ (by omega) htop ha
  have hne : ¬ (l = 3 ∧ 512 * (pageNumber v / 512 ^ (l + 1)) + (tableIndex l v).toNat =
      512 * 0 + (0 : UInt64).toNat) := by
    rintro ⟨rfl, hindex⟩
    rw [toNat_tableIndex (by omega), pageNumber_div_split] at hindex
    exact hv hindex
  have hstore := T.load_store_ne (w := w) hroot ht (by decide)
    (tableIndex_lt (by omega : l < 4) v) hne
  rw [entryAddr_zero] at hstore
  exact hstore

theorem translate_touched (T : PageTree m node) (hroot : node 4 0 = some ⟨root, true⟩)
    (hv : pageNumber v / 512 ^ 3 ≠ 0) (w : UInt64) :
    translateAddr (m.store64 root w) root v = translateAddr m root v :=
  walk_congr fun _ ha => load_touched T hroot hv w ha

theorem not_mem_visited_touched (T : PageTree m node) (hroot : node 4 0 = some ⟨root, true⟩)
    (hv : pageNumber v / 512 ^ 3 ≠ 0) : root ∉ visited m 4 root v := by
  intro ha
  -- If the walk read the word, a store that flips its lowest bit would not show.
  have hload := load_touched T hroot hv (m.load64 root ^^^ 1) ha
  rw [Memory.load64_store64_same] at hload
  have hparity := congrArg (fun x : UInt64 => x.toNat % 2) hload
  have hone : (1 : UInt64).toNat = 1 := rfl
  simp only [UInt64.toNat_xor, Nat.xor_mod_two_eq, hone] at hparity
  omega

/-- The low half of the PML4 starts at the touched word. -/
theorem entryAddr_top (root : UInt64) (hv : pageNumber v / 512 ^ 3 = 0) :
    entryAddr root (tableIndex 3 v) = root := by
  have hindex : tableIndex 3 v = 0 := by
    rw [eq_zero_iff_toNat, toNat_tableIndex (by omega), hv]
  rw [hindex, entryAddr_zero]

theorem mem_visited_touched (hv : pageNumber v / 512 ^ 3 = 0) : root ∈ visited m 4 root v := by
  simp [visited, entryAddr_top root hv]

/-- Flipping the bits of a present entry makes it not present. -/
theorem entryPresent_flipped {x : UInt64} (h : entryPresent x = true) :
    entryPresent (x ^^^ 0xa5a5a5a5a5a5a5a5) = false := by
  have hbit : ∀ y : UInt64, (y &&& 1).toNat = y.toNat % 2 := by
    intro y
    rw [UInt64.toNat_and]
    exact Nat.and_one_is_mod _
  unfold entryPresent at *
  rw [bne_iff_ne, Ne, eq_zero_iff_toNat, hbit] at h
  rw [bne_eq_false_iff_eq, eq_zero_iff_toNat, hbit, UInt64.toNat_xor, Nat.xor_mod_two_eq]
  have hpattern : (0xa5a5a5a5a5a5a5a5 : UInt64).toNat % 2 = 1 := rfl
  omega

/-- A mapped page of the lowest 512 GiB is lost while the word is flipped. -/
theorem translate_flipped (hv : pageNumber v / 512 ^ 3 = 0) {t : Translated}
    (ht : translateAddr m root v = some t) :
    translateAddr (m.store64 root (m.load64 root ^^^ 0xa5a5a5a5a5a5a5a5)) root v = none := by
  have hpresent : entryPresent (m.load64 root) = true := by
    by_contra habsent
    simp [translateAddr, walk, entryAddr_top root hv, habsent] at ht
  simp [translateAddr, walk, entryAddr_top root hv, entryPresent_flipped hpresent]

end Touched

/-! ## The states of the test -/

/-- Every kernel and stack byte translates to itself. -/
def KeepsLive (h : Handover) (m : Memory) (cr3 : UInt64) : Prop :=
  ∀ v : UInt64, Live h v.toNat → translateAddr m cr3 v = some ⟨v, true⟩

/-- Kernel image and stack lie above the lowest 512 GiB. -/
def LiveAbove (h : Handover) : Prop := ∀ x, Live h x → 2 ^ 39 ≤ x

section States

variable {h : Handover} {m : Memory} {P : Paging} (hp : Placed h) (hc : ConventionalOk h m)
  (hb : MapBelow h m) (hbuild : buildPaging h m = .ok P)
include hp hc hb hbuild

/-- At the `CR3` load kernel and stack are identity-mapped. -/
theorem buildPaging_keepsLive : KeepsLive h P.mem P.pml4Phys := by
  intro v hv
  have hk := hp.kernel_below
  have hs := hp.stack_below
  have hlt : v.toNat < 2 ^ 47 := by
    rcases hv with hv | hv
    · have := hv.2
      omega
    · have := hv.2
      omega
  have hbase := toNat_pageAlignDown v
  have hoff := toNat_and_fff v
  have hsum : pageAlignDown v pageSize + (v &&& 0xfff) = v := by
    apply UInt64.toNat_inj.mp
    rw [toNat_add_of_lt (by omega)]
    omega
  have hpage : pageNumber v = (pageAlignDown v pageSize).toNat / 4096 := by
    rw [pageNumber_low hlt]
    omega
  refine (translateAddr_buildPaging hp hc hb hbuild _ _).mpr
    ⟨pageAlignDown v pageSize, ⟨by omega, ?_⟩, Or.inl hpage, by rw [hsum]⟩
  have hka := hp.kernel_aligned
  have hsa := hp.stack_aligned
  rcases hv with hv | hv
  · have hlow := hv.1
    have hhigh := hv.2
    refine Or.inl ⟨?_, ?_⟩ <;> omega
  · have hlow := hv.1
    have hhigh := hv.2
    refine Or.inr (Or.inl ⟨?_, ?_⟩) <;> omega

/-- The alias of the touched word. -/
theorem translate_testPtr :
    translateAddr P.mem P.pml4Phys (h.mmapPhys + upperHalf) = some ⟨h.mmapPhys, true⟩ := by
  obtain ⟨e, -, -, -, he, -, -, -⟩ := buildPaging_cases hbuild
  have hmmap := prepare_mmapPhys_lt hp he
  have hma := hp.mmap_aligned
  have hva := toNat_add_upperHalf hmmap
  have hoff : (h.mmapPhys + upperHalf) &&& 0xfff = 0 := by
    rw [eq_zero_iff_toNat, toNat_and_fff]
    omega
  refine (translateAddr_buildPaging hp hc hb hbuild _ _).mpr
    ⟨h.mmapPhys, ⟨hma, Or.inr (Or.inr (Or.inl rfl))⟩, Or.inr (pageNumber_alias hmmap), ?_⟩
  rw [hoff, UInt64.add_zero]

variable (hd : RangesDisjoint h)
include hd

/-- A walk outside the lowest 512 GiB ignores any store to the touched word. -/
theorem translate_touched_high {v : UInt64} (hv : pageNumber v / 512 ^ 3 ≠ 0) (w : UInt64) :
    translateAddr (P.mem.store64 h.mmapPhys w) P.pml4Phys v = translateAddr P.mem P.pml4Phys v := by
  obtain ⟨e, s, -, node, hbuilt⟩ := buildPaging_built hp hc hb hbuild
  rw [← buildPaging_pml4Phys hp hd hb hbuild]
  exact translate_touched hbuilt.tree hbuilt.root hv w

/-- The test runs to its end: it flips the first word of the PML4 and restores it. -/
theorem touchTest_eq :
    touchTest P.mem P.pml4Phys h.mmapPhys =
      some (P.mem.store64 h.mmapPhys (P.mem.load64 h.mmapPhys ^^^ 0xa5a5a5a5a5a5a5a5), P.mem) := by
  obtain ⟨e, -, -, -, he, -, -, -⟩ := buildPaging_cases hbuild
  have hmmap := prepare_mmapPhys_lt hp he
  have htest := translate_testPtr hp hc hb hbuild
  have hhigh : pageNumber (h.mmapPhys + upperHalf) / 512 ^ 3 ≠ 0 := by
    rw [pageNumber_alias hmmap]
    omega
  have hload := loadVirtual_eq htest
  have hstore := storeVirtual_eq htest
  -- The alias itself is translated through the upper half, before and after the flip.
  have hflipped := fun w => (translate_touched_high hp hc hb hbuild hd hhigh w).trans htest
  have hreload := fun w => loadVirtual_eq (hflipped w)
  have hrestore := fun w => storeVirtual_eq (hflipped w)
  unfold touchTest
  simp only [Option.bind_eq_bind]
  rw [hload, Option.bind_some, hstore, Option.bind_some, hreload, Option.bind_some, hrestore,
    Option.bind_some, Memory.store64_restore]

end States

/-- Addresses below `2 ^ 39` are exactly those of the first PML4 entry. -/
theorem pageNumber_top_eq_zero_iff {v : UInt64} (hv : v.toNat < 2 ^ 47) :
    pageNumber v / 512 ^ 3 = 0 ↔ v.toNat < 2 ^ 39 := by
  rw [pageNumber_low hv]
  omega

/-- **When the touch test keeps kernel and stack mapped.**  The touched word is
always the first word of the PML4.  The walks of all kernel and stack pages
survive every state of the test, equivalently never read the touched word,
exactly when kernel and stack lie at or above `2 ^ 39`. -/
theorem touchTest_keepsLive_iff {h : Handover} {m : Memory} {P : Paging} (hp : Placed h)
    (hd : RangesDisjoint h) (hc : ConventionalOk h m) (hb : MapBelow h m)
    (hbuild : buildPaging h m = .ok P) :
    h.mmapPhys = P.pml4Phys ∧ ∃ flipped restored,
      touchTest P.mem P.pml4Phys h.mmapPhys = some (flipped, restored) ∧
      ((KeepsLive h P.mem P.pml4Phys ∧ KeepsLive h flipped P.pml4Phys ∧
          KeepsLive h restored P.pml4Phys) ↔ LiveAbove h) ∧
      ((∀ v : UInt64, Live h v.toNat → h.mmapPhys ∉ visited P.mem 4 P.pml4Phys v) ↔
        LiveAbove h) := by
  have hroot := buildPaging_pml4Phys hp hd hb hbuild
  have hkeeps := buildPaging_keepsLive hp hc hb hbuild
  have hlt : ∀ x, Live h x → x < 2 ^ 47 := by
    have hk := hp.kernel_below
    have hs := hp.stack_below
    rintro x (hx | hx)
    · exact hx.2.trans_le hk
    · exact hx.2.trans_le hs
  have hword : ∀ x, Live h x → ∃ v : UInt64, v.toNat = x := by
    intro x hx
    have hxlt := hlt x hx
    exact ⟨UInt64.ofNat x, by rw [UInt64.toNat_ofNat']; omega⟩
  refine ⟨hroot.symm, _, _, touchTest_eq hp hc hb hbuild hd, ⟨?_, ?_⟩, ?_, ?_⟩
  · -- A live byte below `2 ^ 39` is not mapped while the word is flipped.
    rintro ⟨-, hflipped, -⟩ x hx
    obtain ⟨v, rfl⟩ := hword x hx
    by_contra hlow
    have htop := (pageNumber_top_eq_zero_iff (hlt _ hx)).mpr (by omega)
    have hnone := translate_flipped htop (hkeeps v hx)
    have hsome := hflipped v hx
    rw [← hroot, hnone] at hsome
    contradiction
  · intro habove
    refine ⟨hkeeps, fun v hv => ?_, hkeeps⟩
    have hge := habove _ hv
    have hhigh : pageNumber v / 512 ^ 3 ≠ 0 := by
      rw [Ne, pageNumber_top_eq_zero_iff (hlt _ hv)]
      omega
    rw [translate_touched_high hp hc hb hbuild hd hhigh]
    exact hkeeps v hv
  · -- Such a byte reads the word as the first entry of its walk.
    intro hall x hx
    obtain ⟨v, rfl⟩ := hword x hx
    by_contra hlow
    have htop := (pageNumber_top_eq_zero_iff (hlt _ hx)).mpr (by omega)
    exact hall v hx (hroot ▸ mem_visited_touched htop)
  · intro habove v hv
    obtain ⟨e, s, -, node, hbuilt⟩ := buildPaging_built hp hc hb hbuild
    have hge := habove _ hv
    rw [← hroot]
    apply not_mem_visited_touched hbuilt.tree hbuilt.root
    rw [Ne, pageNumber_top_eq_zero_iff (hlt _ hv)]
    omega

theorem smallHandover_rangesDisjoint : RangesDisjoint smallHandover := by
  have hk : smallHandover.kernelPhys.toNat = 0x100000 := rfl
  have hn : smallHandover.kernelPages.toNat = 1 := rfl
  have hs : smallHandover.stackPhys.toNat = 0x200000 := rfl
  have hm : smallHandover.mmapPhys.toNat = 0x1000000 := rfl
  constructor
  · simp only [InKernelImage, InStackRange, hk, hn, hs]
    omega
  · simp only [Live, InKernelImage, InStackRange, InMmapBuffer, hk, hn, hs, hm]
    omega

/-- In the small placement the PML4 is the page at `0x1000000`. -/
theorem touchTest_keepsLive_iff_small : ∃ P, buildPaging smallHandover (fun _ => 0) = .ok P ∧
    P.pml4Phys = 0x1000000 := by
  obtain ⟨P, hbuild⟩ := smallHandover_buildPaging
  exact ⟨P, hbuild, (touchTest_keepsLive_iff smallHandover_placed smallHandover_rangesDisjoint
    smallHandover_conventionalOk smallHandover_mapBelow hbuild).1.symm⟩

/-- The test does not always keep kernel and stack mapped: in the small
placement the kernel page at `0x100000` is lost between the two stores. -/
theorem not_touchTest_keepsLive : ¬ ∀ (h : Handover) (m : Memory) (P : Paging)
    (flipped restored : Memory), Placed h → RangesDisjoint h → ConventionalOk h m →
    MapBelow h m → buildPaging h m = .ok P →
    touchTest P.mem P.pml4Phys h.mmapPhys = some (flipped, restored) →
    KeepsLive h P.mem P.pml4Phys ∧ KeepsLive h flipped P.pml4Phys ∧
      KeepsLive h restored P.pml4Phys := by
  intro hall
  obtain ⟨P, hbuild⟩ := smallHandover_buildPaging
  have hp := smallHandover_placed
  have hd := smallHandover_rangesDisjoint
  have hc := smallHandover_conventionalOk
  have hb := smallHandover_mapBelow
  have hroot := buildPaging_pml4Phys hp hd hb hbuild
  have htest := touchTest_eq hp hc hb hbuild hd
  obtain ⟨hbefore, hflipped, -⟩ := hall _ _ _ _ _ hp hd hc hb hbuild htest
  have hlive : Live smallHandover (0x100000 : UInt64).toNat := Or.inl ⟨by decide, by decide⟩
  have hnone := translate_flipped (v := 0x100000) (by decide) (hbefore _ hlive)
  have hsome := hflipped _ hlive
  rw [← hroot, hnone] at hsome
  exact Option.some_ne_none _ hsome.symm

end Kernel
end OsBook
