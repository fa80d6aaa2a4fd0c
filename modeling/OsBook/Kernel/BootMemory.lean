import OsBook.Kernel.Boot

/-!
# What a boot writes

The builder of the page tables stores to pages that its allocator has handed
out, and nowhere else (`mapCalls_unchanged`).  On a supported machine these
pages lie in the buffer of the memory map.  The rest of the kernel stores to its
image and to its stack, and twice to the first word of the buffer.  So whatever
else is in memory when the loader jumps, such as the data of the firmware's
runtime services, is there in every reachable state (`boot_memory`).
-/

namespace OsBook
namespace Kernel

open Machine Memory

/-! ## Builders that stay in their pages -/

section Sources

variable {σ : Type} {alloc : PageAllocator σ} {inv : σ → Prop} {used : σ → UInt64 → Prop}
  {own : UInt64 → Prop}

/-- The tables are pages that the allocator has handed out, and memory outside the pages of `own`
is that of `m₀`. -/
def Confined (inv : σ → Prop) (used : σ → UInt64 → Prop) (own : UInt64 → Prop) (m₀ : Memory)
    (live : UInt64 → Prop) (s : σ) (m : Memory) : Prop :=
  TablesUsed inv used live s m ∧ ∀ x, (∀ p, own p → ¬ InBlock p 4096 x) → m x = m₀ x

/-- An allocator that hands out pages of `own` keeps the builder inside them. -/
theorem PageSource.confined (src : PageSource alloc inv used) (hown : ∀ s p, used s p → own p)
    (m₀ : Memory) : FreshSource alloc (Confined inv used own m₀) where
  grant := by
    rintro live s m p s' m' ⟨hknown, hsame⟩ halloc hne
    obtain ⟨hfresh, hknown'⟩ := src.fresh.grant _ _ _ _ _ _ hknown halloc hne
    refine ⟨hfresh, hknown', fun x hx => ?_⟩
    have g := src _ _ _ _ _ hknown.1 halloc hne
    exact (g.unchanged x (hx p (hown _ _ g.taken))).trans (hsame x hx)
  store := by
    rintro live s m t i w ⟨hknown, hsame⟩ ht hi
    refine ⟨hknown, fun x hx => ?_⟩
    obtain ⟨hframe, hused⟩ := hknown.2 t ht
    have hout : ¬ InBlock (entryAddr t i) 8 x := fun hin =>
      hx t (hown _ _ hused) (hframe.entry_inBlock hi hin)
    exact (store64_of_not_inBlock hout).trans (hsame x hx)

/-- **Root and tables are built inside the pages of `own`.** -/
theorem mapCalls_unchanged (src : PageSource alloc inv used) (hown : ∀ s p, used s p → own p)
    {s₀ s : σ} {m m₁ : Memory} {root : UInt64} {calls : List MapCall} {st : BuildState σ}
    (hinv : inv s₀) (hroot : alloc s₀ m = .ok (root, s, m₁)) (hne : root ≠ 0)
    (hp : ∀ c ∈ calls, IsFrame c.paddr) (hrun : mapCalls alloc root calls ⟨s, m₁⟩ = .ok st)
    {x : UInt64} (hx : ∀ p, own p → ¬ InBlock p 4096 x) : st.mem x = m x := by
  have g := src _ _ _ _ _ hinv hroot hne
  have hstart : Confined inv used own m (fun p => p = root) s m₁ := by
    refine ⟨⟨g.inv, ?_⟩, fun x hx => g.unchanged x (hx root (hown _ _ g.taken))⟩
    rintro p rfl
    exact ⟨g.isFrame, g.taken⟩
  obtain ⟨node, hb⟩ := mapCalls_holds (src.confined hown m) hp
    (holds_rootOnly g.isFrame g.zeroed hstart) hrun
  exact hb.known.2 x hx

end Sources

/-! ## Stage 1 and the touch test -/

section Stage

variable {h : Handover} {m : Memory} {P : Paging}

/-- The tables of Stage 1 lie in the buffer of the memory map. -/
theorem LoaderHandover.buildPaging_unchanged {probeSize : Nat} (hl : LoaderHandover h probeSize)
    (hfound : FoundCovers h m probeSize) (hpages : h.kernelPages.toNat ≤ 16384)
    (hbuild : buildPaging h m = .ok P) {x : UInt64} (hx : ¬ InBuffer h probeSize x.toNat) :
    P.mem x = m x := by
  obtain ⟨e, -, -, -, he, -, -, -⟩ := buildPaging_cases hbuild
  have hp := hl.placed
  have hmmap := prepare_mmapPhys_lt hp he
  have hmb := hp.mmap_below
  obtain ⟨limit, hlimit⟩ := hl.exists_poolEnd
  have ok := hl.pool_ok he hlimit
  obtain ⟨root, s, m₁, st, hroot, hne, hrun, hpool⟩ := hl.pool_buildPaging hfound hpages he hlimit
  obtain rfl : P = ⟨root, st.mem⟩ := Except.ok.inj (hbuild.symm.trans hpool)
  -- The run of the pool, without its log.
  have hroot' := simulates_fst _ _ _ _ _ _ hroot hne
  have hrun' := mapCalls_simulates (simulates_fst _) hrun
  have hown : ∀ s p, TablePage (e.below limit) s p → ∃ s₁ s₂, Taken (e.below limit) s₁ s₂ p :=
    fun _ _ hused => hused.2
  refine mapCalls_unchanged (allocPage_tableSource ok ?_) hown (allocInv_initial ok) hroot' hne
    (fun c hc => isFrame_of_mem_layoutCalls hp hmmap hc) hrun' ?_
  · rw [AllocEnv.below_scratchEnd, hlimit]
    exact ⟨by omega, by simp⟩
  · rintro p ⟨s, s', htaken⟩ hin
    have hoffered := htaken.offered
    have hscratch : e.scratch = h.mmapPhys := by
      obtain ⟨-, -, rfl⟩ := prepare_eq_ok he
      exact hp.scratch_eq
    simp only [Offered, AllocEnv.below_ranges, List.not_mem_nil, false_and, exists_false, or_false,
      AllocEnv.below_scratch, AllocEnv.below_scratchEnd, hscratch, hlimit] at hoffered
    have hbuffer := le_mmapBufferPages probeSize
    rw [inBlock_iff (by omega)] at hin
    exact hx ⟨by omega, by omega⟩

/-- The touch test flips a word of the buffer. -/
theorem flipMemory_unchanged (hp : Placed h) (hc : ConventionalOk h m) (hb : MapBelow h m)
    (hbuild : buildPaging h m = .ok P) {flipped : Memory} {old : UInt64}
    (hflip : flipMemory P.mem P.pml4Phys (h.mmapPhys + upperHalf) = some (flipped, old))
    {x : UInt64} (hx : ¬ InBlock h.mmapPhys 8 x) : flipped x = P.mem x := by
  have htest := translate_testPtr hp hc hb hbuild
  simp only [flipMemory, loadVirtual_eq htest, storeVirtual_eq htest, Option.bind_eq_bind,
    Option.bind_some, Option.some.injEq, Prod.mk.injEq] at hflip
  obtain ⟨rfl, -⟩ := hflip
  exact store64_of_not_inBlock hx

end Stage

/-! ## The whole boot -/

section Boot

variable {σ : Type} {bs : Loader.BootServices σ} {view : σ → Loader.MapView}
  {blob : Loader.KernelBlob} {s₀ : σ} {m₀ : Memory} {k : LoadedKernel}

/-- Memory that the kernel does not write, in its image as well. -/
theorem boot_unwritten (h : Supported bs view blob s₀ m₀)
    (hk : k.EnteredBy blob (Loader.efiMain bs blob s₀ m₀)) (fw : Firmware)
    {events : List EntryEvent} {s : EntryState}
    (hrun : runs (bootStep k fw (Loader.efiMain bs blob s₀ m₀).mem) events (bootStart fw) =
      some (.entry s))
    (hinside : s.crashed = false) {x : UInt64} (hunwritten : Unwritten k x)
    (hbuffer : ¬ InBuffer k.toHandover (Loader.mapProbe bs blob s₀ m₀).mmapSize.toNat x.toNat) :
    s.mem x = (Loader.efiMain bs blob s₀ m₀).mem x := by
  have hok := hk.ok h
  have hl := h.loaderHandover
  have hc := h.conventional
  have hb := h.below
  have hfound := h.found
  have hpages := h.kernelPages_le
  rw [← hk.handover] at hl hc hb hfound hpages
  cases bootInv_run hrun with
  | @entry hw P _ events' hbuild hlog hoff hsub hentry =>
      have hstage := hl.buildPaging_unchanged hfound hpages hbuild hbuffer
      obtain ⟨-, hsame | hflip⟩ := entry_unwritten { fw with hw := hw } hl.placed hok
        hl.rangesDisjoint hc hb hbuild hentry hinside
      · exact (hsame x hunwritten).trans hstage
      · refine (flipMemory_unchanged hl.placed hc hb hbuild hflip fun hin => ?_).trans hstage
        -- The flipped word is the first one of the buffer.
        have hbelow := hl.pages.mmap_below
        have hfirst := le_mmapBufferPages (Loader.mapProbe bs blob s₀ m₀).mmapSize.toNat
        rw [inBlock_iff (by omega)] at hin
        exact hbuffer ⟨hin.1, by omega⟩

/-- **The kernel writes to what the loader has allocated for it.**  On a supported machine, in
every reachable state behind the `CR3` load that has not left the kernel, memory outside the
kernel's image, its stack and the buffer of the memory map is as the loader has left it. -/
theorem boot_memory (h : Supported bs view blob s₀ m₀)
    (hk : k.EnteredBy blob (Loader.efiMain bs blob s₀ m₀)) (fw : Firmware)
    {events : List EntryEvent} {s : EntryState}
    (hrun : runs (bootStep k fw (Loader.efiMain bs blob s₀ m₀).mem) events (bootStart fw) =
      some (.entry s))
    (hinside : s.crashed = false) {x : UInt64} (hforeign : Foreign k.toHandover x)
    (hbuffer : ¬ InBuffer k.toHandover (Loader.mapProbe bs blob s₀ m₀).mmapSize.toNat x.toNat) :
    s.mem x = (Loader.efiMain bs blob s₀ m₀).mem x := by
  have hl := h.loaderHandover
  rw [← hk.handover] at hl
  exact boot_unwritten h hk fw hrun hinside (hforeign.unwritten hl.placed (hk.ok h)) hbuffer

end Boot

/-- The small machine leaves the byte at address 0 alone. -/
theorem boot_memory_small :
    ∃ s, Reaches (bootStep bootedKernel idleFirmware smallJump.mem) (bootStart idleFirmware)
        (.entry s) ∧ s.mem 0 = 0 := by
  obtain ⟨P, (hbuild : buildPaging bootedKernel.toHandover smallJump.mem = .ok P)⟩ :=
    small_supported.exists_buildPaging
  obtain ⟨hw, events, hrun⟩ := @reaches_entered _ idleFirmware _ _ hbuild
  refine ⟨_, ⟨events, hrun⟩, ?_⟩
  have hsame := boot_memory small_supported bootedKernel_enteredBy idleFirmware hrun rfl (x := 0)
  have hhandover : bootedKernel.toHandover = ⟨0x300000, 384, 48, 0x100000, 2, 0x200000⟩ :=
    smallJump_handover
  rw [hhandover] at hsame
  have hzero : smallJump.mem 0 = 0 := by
    rw [smallJump_mem]
  refine (hsame ⟨fun hin => ?_, fun hin => ?_⟩ fun hin => ?_).trans hzero
  all_goals exact absurd hin.1 (by decide)

end Kernel
end OsBook
