import OsBook.Kernel.PagingBuilder

/-!
# The address space of Stage 1

The page allocator is a `PageSource`, so the tables in memory at the `CR3` load
hold the last-write-wins map of `layoutCalls`.  All calls for one page agree:
page number `n` can only be bound to the physical page with number
`n % 2 ^ 35`.  The map is therefore the set of `MappedPage`s, once at their
physical addresses and once shifted into the upper half.
-/

namespace OsBook
namespace Kernel

open Machine

/-! ## The allocator as a page source -/

/-- All physical ranges the map offers lie below `2 ^ 47`. -/
structure MapBelow (h : Handover) (m : Memory) : Prop where
  loaderData : EndsBelow h m loaderDataType (2 ^ 47)
  conventional : EndsBelow h m conventionalMemoryType (2 ^ 47)

/-- The window and the cached ranges fit the frame field of an entry. -/
theorem prepare_below {h : Handover} {m : Memory} {e : AllocEnv} (hp : Placed h)
    (hb : MapBelow h m) (he : prepare h m = .ok e) :
    e.scratchEnd.toNat ≤ 2 ^ 52 ∧ ∀ r ∈ e.ranges, r.endExcl.toNat ≤ 2 ^ 52 := by
  obtain ⟨-, -, rfl⟩ := prepare_eq_ok he
  constructor
  · simp only [scratchEndOf]
    split
    · have hend := hp.toNat_mmapEnd
      have hbelow := hp.mmap_below
      have hhead := toNat_headroomEnd_le hp
      omega
    · rename_i hne
      rcases scan_mmapAllocEnd h m with heq | ⟨i, hi, hholds, heq⟩
      · exact absurd heq hne
      · have hbound := hb.loaderData i (hi.trans_le (scanLimit_le h)) hholds.1
        have hle := (descriptor h m i).toNat_endFrom_le (descriptor h m i).physicalStart
        rw [heq, toNat_pageAlignUp (by omega)]
        omega
  · intro r hr
    obtain ⟨i, hi, hcached, rfl⟩ := mem_scan_ranges hr
    have hbound := hb.conventional i (hi.trans_le (scanLimit_le h)) hcached.1
    have hle := (descriptor h m i).toNat_endFrom_le
      (pageAlignDown (descriptor h m i).physicalStart pageSize)
    have hdown := toNat_pageAlignDown (descriptor h m i).physicalStart
    show ((descriptor h m i).endFrom _).toNat ≤ _
    omega

/-- A page with a known source is a frame. -/
theorem Offered.isFrame {e : AllocEnv} {p : UInt64} (h : Offered e p)
    (halign : p.toNat % 4096 = 0)
    (hbelow : e.scratchEnd.toNat ≤ 2 ^ 52 ∧ ∀ r ∈ e.ranges, r.endExcl.toNat ≤ 2 ^ 52) :
    IsFrame p := by
  refine ⟨halign, ?_⟩
  rcases h with ⟨-, hend⟩ | ⟨r, hr, -, hend⟩
  · have := hbelow.1
    omega
  · have := hbelow.2 r hr
    omega

/-- **The Stage 1 allocator only hands out fresh zeroed frames.** -/
theorem allocPage_pageSource {e : AllocEnv} (ok : e.Ok)
    (hbelow : e.scratchEnd.toNat ≤ 2 ^ 52 ∧ ∀ r ∈ e.ranges, r.endExcl.toNat ≤ 2 ^ 52) :
    PageSource (allocPage e) (AllocInv e) (Consumed e) := by
  intro s m p s' m' inv h hne
  rcases allocPage_cases h with ⟨hnext, rfl⟩ | ⟨-, rfl, -⟩
  · have hstep := nextPage_spec ok inv hnext
    have htaken := hstep.taken p rfl
    refine ⟨hstep.inv, hstep.mono, htaken.offered.isFrame htaken.aligned hbelow, htaken.fresh,
      htaken.consumed, ?_, ?_⟩
    · intro x hx
      rw [zeroPage_apply, if_pos hx]
    · intro x hx
      rw [zeroPage_apply, if_neg hx]
  · exact absurd rfl hne

/-- A page that a call of the allocator took. -/
def TablePage (e : AllocEnv) (s : AllocState) (p : UInt64) : Prop :=
  Consumed e s p ∧ ∃ s₁ s₂, Taken e s₁ s₂ p

/-- The same, with the tables told apart from the pages that a cursor has skipped. -/
theorem allocPage_tableSource {e : AllocEnv} (ok : e.Ok)
    (hbelow : e.scratchEnd.toNat ≤ 2 ^ 52 ∧ ∀ r ∈ e.ranges, r.endExcl.toNat ≤ 2 ^ 52) :
    PageSource (allocPage e) (AllocInv e) (TablePage e) := by
  intro s m p s' m' inv h hne
  have g := allocPage_pageSource ok hbelow s m p s' m' inv h hne
  rcases allocPage_cases h with ⟨hnext, rfl⟩ | ⟨-, rfl, -⟩
  · have htaken := (nextPage_spec ok inv hnext).taken p rfl
    exact ⟨g.inv, fun q hq => ⟨g.mono q hq.1, hq.2⟩, g.isFrame, fun hq => g.fresh hq.1,
      ⟨g.taken, s, s', htaken⟩, g.zeroed, g.unchanged⟩
  · exact absurd rfl hne

/-! ## The pages of the address space -/

/-- The base address of a page that Stage 1 maps. -/
def MappedPage (h : Handover) (p : UInt64) : Prop :=
  p.toNat % 4096 = 0 ∧
    (InKernelImage h p.toNat ∨ InStackRange h p.toNat ∨ p = h.mmapPhys ∨ p = lapicMmioPhys)

/-- A 48-bit address, sign-extended. -/
def Canonical (v : UInt64) : Prop := v.toNat < 2 ^ 47 ∨ 2 ^ 64 - 2 ^ 47 ≤ v.toNat

/-- A map with at least one descriptor starts below `2 ^ 47`. -/
theorem prepare_mmapPhys_lt {h : Handover} {m : Memory} {e : AllocEnv} (hp : Placed h)
    (he : prepare h m = .ok e) : h.mmapPhys.toNat < 2 ^ 47 := by
  obtain ⟨hdesc, hsize, -⟩ := prepare_eq_ok he
  have hbelow := hp.mmap_below
  rw [Ne, eq_zero_iff_toNat] at hdesc
  omega

/-- The pages of an aligned range, counted from its start. -/
theorem mem_pageCalls_iff {start : UInt64} {n : Nat} (halign : start.toNat % 4096 = 0)
    (hbelow : start.toNat + n * 4096 ≤ 2 ^ 48) (offset : UInt64) (c : MapCall) :
    c ∈ pageCalls (start + offset) start 0 n ↔
      ∃ p : UInt64, p.toNat % 4096 = 0 ∧ start.toNat ≤ p.toNat ∧
        p.toNat < start.toNat + n * 4096 ∧ c = ⟨p + offset, p, pteWritable⟩ := by
  have hstep : ∀ j, j ≤ n → (start + UInt64.ofNat j * pageSize).toNat = start.toNat + j * 4096 := by
    intro j hj
    rw [UInt64.toNat_add, UInt64.toNat_mul, UInt64.toNat_ofNat', toNat_pageSize]
    omega
  have hcomm : ∀ j, start + offset + UInt64.ofNat j * pageSize =
      start + UInt64.ofNat j * pageSize + offset := by
    intro j
    rw [UInt64.add_assoc, UInt64.add_comm offset, ← UInt64.add_assoc]
  simp only [pageCalls, List.mem_map, List.mem_range'_1, Nat.zero_le, true_and, Nat.zero_add]
  constructor
  · rintro ⟨j, hj, rfl⟩
    have hj' := hstep j (by omega)
    exact ⟨start + UInt64.ofNat j * pageSize, by omega, by omega, by omega, by rw [hcomm]⟩
  · rintro ⟨p, hpa, hlow, hhigh, rfl⟩
    have hj' := hstep ((p.toNat - start.toNat) / 4096) (by omega)
    have hpeq : start + UInt64.ofNat ((p.toNat - start.toNat) / 4096) * pageSize = p :=
      UInt64.toNat_inj.mp (by omega)
    exact ⟨(p.toNat - start.toNat) / 4096, by omega, by rw [hcomm, hpeq]⟩

section Layout

variable {h : Handover} (hp : Placed h) (hmmap : h.mmapPhys.toNat < 2 ^ 47)
include hp hmmap

theorem MappedPage.below {p : UInt64} (hm : MappedPage h p) :
    p.toNat % 4096 = 0 ∧ p.toNat < 2 ^ 47 := by
  refine ⟨hm.1, ?_⟩
  have hk := hp.kernel_below
  have hs := hp.stack_below
  rcases hm.2 with hin | hin | rfl | rfl
  · have := hin.2
    omega
  · have := hin.2
    omega
  · exact hmmap
  · decide

/-- The calls of one half are the mapped pages, shifted. -/
theorem mem_halfCalls_iff (offset : UInt64) (c : MapCall) :
    c ∈ halfCalls h offset ↔
      ∃ p, MappedPage h p ∧ c = ⟨p + offset, p, pteWritable⟩ := by
  have hk := hp.kernel_below
  have hs := hp.stack_below
  have hkernel := mem_pageCalls_iff (n := h.kernelPages.toNat) hp.kernel_aligned (by omega) offset c
  have hstack := mem_pageCalls_iff (n := 4) hp.stack_aligned (by omega) offset c
  have htouch := mem_pageCalls_iff (n := 1) hp.mmap_aligned (by omega) offset c
  simp only [halfCalls, List.mem_append, List.mem_singleton, hkernel, hstack, htouch]
  constructor
  · rintro (⟨p, ha, hlow, hhigh, rfl⟩ | ⟨p, ha, hlow, hhigh, rfl⟩ | ⟨p, ha, hlow, hhigh, rfl⟩ | rfl)
    · exact ⟨p, ⟨ha, Or.inl ⟨hlow, hhigh⟩⟩, rfl⟩
    · exact ⟨p, ⟨ha, Or.inr (Or.inl ⟨hlow, hhigh⟩)⟩, rfl⟩
    · have hma := hp.mmap_aligned
      have heq : p = h.mmapPhys := UInt64.toNat_inj.mp (by omega)
      exact ⟨p, ⟨ha, Or.inr (Or.inr (Or.inl heq))⟩, rfl⟩
    · exact ⟨lapicMmioPhys, ⟨by decide, Or.inr (Or.inr (Or.inr rfl))⟩, rfl⟩
  · rintro ⟨p, ⟨ha, hin | hin | rfl | rfl⟩, rfl⟩
    · exact Or.inl ⟨p, ha, hin.1, hin.2, rfl⟩
    · exact Or.inr (Or.inl ⟨p, ha, hin.1, hin.2, rfl⟩)
    · exact Or.inr (Or.inr (Or.inl ⟨_, ha, le_refl _, by omega, rfl⟩))
    · exact Or.inr (Or.inr (Or.inr rfl))

theorem mem_layoutCalls_iff (c : MapCall) :
    c ∈ layoutCalls h ↔
      ∃ p, MappedPage h p ∧ (c.vaddr = p ∨ c.vaddr = p + upperHalf) ∧ c.slot = ⟨p, true⟩ ∧
        c.flags = pteWritable := by
  simp only [layoutCalls, List.mem_append, mem_halfCalls_iff hp hmmap]
  constructor
  · rintro (⟨p, hm, rfl⟩ | ⟨p, hm, rfl⟩)
    · exact ⟨p, hm, Or.inl (UInt64.add_zero p), by simp [MapCall.slot], rfl⟩
    · exact ⟨p, hm, Or.inr rfl, by simp [MapCall.slot], rfl⟩
  · rintro ⟨p, hm, hv, hslot, hflags⟩
    obtain ⟨v, q, flags⟩ := c
    obtain rfl : q = p := congrArg Slot.frame hslot
    simp only at hv hflags
    subst hflags
    rcases hv with rfl | rfl
    · exact Or.inl ⟨_, hm, by rw [UInt64.add_zero]⟩
    · exact Or.inr ⟨_, hm, rfl⟩

/-- Every call maps a frame. -/
theorem isFrame_of_mem_layoutCalls {c : MapCall} (hc : c ∈ layoutCalls h) : IsFrame c.paddr := by
  obtain ⟨p, hm, -, hslot, -⟩ := (mem_layoutCalls_iff hp hmmap c).mp hc
  have hbelow := hm.below hp hmmap
  obtain rfl : c.paddr = p := congrArg Slot.frame hslot
  exact ⟨hbelow.1, by omega⟩

end Layout

/-! ## Page numbers of the two halves -/

theorem toNat_add_upperHalf {p : UInt64} (hp : p.toNat < 2 ^ 47) :
    (p + upperHalf).toNat = p.toNat + (2 ^ 64 - 2 ^ 47) := by
  have hupper : upperHalf.toNat = 2 ^ 64 - 2 ^ 47 := rfl
  rw [toNat_add_of_lt (by omega), hupper]

theorem pageNumber_low {p : UInt64} (hp : p.toNat < 2 ^ 47) : pageNumber p = p.toNat / 4096 := by
  unfold pageNumber
  omega

theorem pageNumber_alias {p : UInt64} (hp : p.toNat < 2 ^ 47) :
    pageNumber (p + upperHalf) = p.toNat / 4096 + 2 ^ 35 := by
  unfold pageNumber
  rw [toNat_add_upperHalf hp]
  omega

/-- A canonical address is in the page of `p` exactly when its page number is. -/
theorem pageNumber_eq_low_iff {v p : UInt64} (hv : Canonical v) (ha : p.toNat % 4096 = 0)
    (hp : p.toNat < 2 ^ 47) :
    pageNumber v = p.toNat / 4096 ↔ pageAlignDown v pageSize = p := by
  have hvlt := v.toNat_lt
  rw [← UInt64.toNat_inj, toNat_pageAlignDown]
  unfold pageNumber
  rcases hv with hv | hv <;> omega

theorem pageNumber_eq_alias_iff {v p : UInt64} (hv : Canonical v) (ha : p.toNat % 4096 = 0)
    (hp : p.toNat < 2 ^ 47) :
    pageNumber v = p.toNat / 4096 + 2 ^ 35 ↔ pageAlignDown v pageSize = p + upperHalf := by
  have hvlt := v.toNat_lt
  rw [← UInt64.toNat_inj, toNat_pageAlignDown, toNat_add_upperHalf hp]
  unfold pageNumber
  rcases hv with hv | hv <;> omega

/-- The map that Stage 1 builds. -/
theorem lastWrite_layoutCalls {h : Handover} (hp : Placed h) (hmmap : h.mmapPhys.toNat < 2 ^ 47)
    (n : Nat) (s : Slot) :
    lastWrite (fun _ => none) (layoutCalls h) n = some s ↔
      ∃ p, MappedPage h p ∧ (n = p.toNat / 4096 ∨ n = p.toNat / 4096 + 2 ^ 35) ∧
        s = ⟨p, true⟩ := by
  -- The physical page of a call is determined by its page number.
  have hnumber : ∀ c ∈ layoutCalls h, ∃ p, MappedPage h p ∧ c.slot = ⟨p, true⟩ ∧
      (pageNumber c.vaddr = p.toNat / 4096 ∨ pageNumber c.vaddr = p.toNat / 4096 + 2 ^ 35) := by
    intro c hc
    obtain ⟨p, hm, hv, hslot, -⟩ := (mem_layoutCalls_iff hp hmmap c).mp hc
    have hbelow := (hm.below hp hmmap).2
    refine ⟨p, hm, hslot, ?_⟩
    rcases hv with hv | hv
    · exact Or.inl (by rw [hv, pageNumber_low hbelow])
    · exact Or.inr (by rw [hv, pageNumber_alias hbelow])
  rw [lastWrite_empty_iff]
  · constructor
    · rintro ⟨c, hc, rfl, rfl⟩
      obtain ⟨p, hm, hslot, hn⟩ := hnumber c hc
      exact ⟨p, hm, hn, hslot⟩
    · rintro ⟨p, hm, hn, rfl⟩
      have hbelow := (hm.below hp hmmap).2
      have hslot : (⟨p, entryWritable pteWritable⟩ : Slot) = ⟨p, true⟩ := by simp
      rcases hn with rfl | rfl
      · exact ⟨⟨p, p, pteWritable⟩,
          (mem_layoutCalls_iff hp hmmap _).mpr ⟨p, hm, Or.inl rfl, hslot, rfl⟩,
          pageNumber_low hbelow, hslot⟩
      · exact ⟨⟨p + upperHalf, p, pteWritable⟩,
          (mem_layoutCalls_iff hp hmmap _).mpr ⟨p, hm, Or.inr rfl, hslot, rfl⟩,
          pageNumber_alias hbelow, hslot⟩
  · -- Low pages and aliases never share a number, as all pages are below `2 ^ 47`.
    intro c hc d hd hcn hdn
    obtain ⟨p, hpm, hps, hpn⟩ := hnumber c hc
    obtain ⟨q, hqm, hqs, hqn⟩ := hnumber d hd
    have hpb := hpm.below hp hmmap
    have hqb := hqm.below hp hmmap
    have hpq : p = q := UInt64.toNat_inj.mp (by omega)
    rw [hps, hqs, hpq]

/-! ## The address space -/

/-- The steps of a successful Stage 1. -/
theorem buildPaging_cases {h : Handover} {m : Memory} {P : Paging}
    (hbuild : buildPaging h m = .ok P) :
    ∃ e s m₁ s₂, prepare h m = .ok e ∧ allocPage e (initialAlloc e) m = .ok (P.pml4Phys, s, m₁) ∧
      P.pml4Phys ≠ 0 ∧ mapLayout (allocPage e) P.pml4Phys h ⟨s, m₁⟩ = .ok ⟨s₂, P.mem⟩ := by
  obtain ⟨e, he, hbuild⟩ := bind_eq_ok.mp hbuild
  obtain ⟨⟨root, s, m₁⟩, halloc, hbuild⟩ := bind_eq_ok.mp hbuild
  by_cases hzero : root = 0
  · simp [hzero] at hbuild
  · simp only [hzero, if_false] at hbuild
    obtain ⟨st, hmap, hbuild⟩ := bind_eq_ok.mp hbuild
    obtain rfl := Except.ok.inj hbuild
    exact ⟨e, s, m₁, st.alloc, he, halloc, hzero, hmap⟩

/-- The tables at the `CR3` load hold the map of all calls. -/
theorem buildPaging_built {h : Handover} {m : Memory} {P : Paging} (hp : Placed h)
    (hc : ConventionalOk h m) (hb : MapBelow h m) (hbuild : buildPaging h m = .ok P) :
    ∃ e s, prepare h m = .ok e ∧ Built (AllocInv e) (TablePage e) P.pml4Phys
      (lastWrite (fun _ => none) (layoutCalls h)) ⟨s, P.mem⟩ := by
  obtain ⟨e, s, m₁, s₂, he, halloc, hzero, hmap⟩ := buildPaging_cases hbuild
  have hmmap := prepare_mmapPhys_lt hp he
  have ok := allocEnv_ok hp hc (hb.loaderData.bufferRoom (by omega)) he
  have src := allocPage_tableSource ok (prepare_below hp hb he)
  have g := src _ _ _ _ _ (allocInv_initial ok) halloc hzero
  rw [mapLayout_eq hp] at hmap
  exact ⟨e, s₂, he,
    mapCalls_spec src (fun c hc => isFrame_of_mem_layoutCalls hp hmmap hc) g.built hmap⟩

/-- The tables lie outside kernel and stack, so a walk does not see a change there. -/
theorem translateAddr_congr {h : Handover} {m m' : Memory} {P : Paging} (hp : Placed h)
    (hc : ConventionalOk h m) (hb : MapBelow h m) (hbuild : buildPaging h m = .ok P)
    (hsame : ∀ x : UInt64, ¬ InKernelImage h x.toNat → ¬ InStackRange h x.toNat → m' x = P.mem x)
    (v : UInt64) : translateAddr m' P.pml4Phys v = translateAddr P.mem P.pml4Phys v := by
  obtain ⟨e, s, he, node, hbuilt⟩ := buildPaging_built hp hc hb hbuild
  have ok := allocEnv_ok hp hc (hb.loaderData.bufferRoom (by omega)) he
  have htree : PageTree m' node := by
    refine hbuilt.tree.congr_memory fun l k slot hslot x hx => ?_
    obtain ⟨-, s₁, s₂, htaken⟩ := hbuilt.used l k slot hslot
    exact hsame x (htaken.not_inKernelImage ok hp he hx) (htaken.not_inStackRange ok hp he hx)
  rw [htree.walk_root hbuilt.root, hbuilt.tree.walk_root hbuilt.root]

/-- A window clear of kernel and stack supplies pages. -/
theorem allocPage_pageSupply (e : AllocEnv) : PageSupply (allocPage e) (WindowRoom e) where
  grant := fun _ _ m h =>
    let hpage := h.allocPage m
    ⟨_, _, _, hpage.1, h.nonzero, hpage.2⟩
  of_le := fun _ _ _ h hk => h.of_le hk

/-- **With a large enough window, Stage 1 prints no failure code.** -/
theorem buildPaging_ok {h : Handover} {m : Memory} {e : AllocEnv} (hp : Placed h)
    (he : prepare h m = .ok e)
    (hroom : WindowRoom e (initialAlloc e) (3 * (layoutCalls h).length + 1)) :
    ∃ P, buildPaging h m = .ok P := by
  obtain ⟨halloc, hrest⟩ := hroom.allocPage m
  obtain ⟨st, hmap, -⟩ := mapCalls_ok (n := 0) (allocPage_pageSupply e) e.scratch (layoutCalls h)
    ⟨_, zeroPage m e.scratch⟩ hrest
  rw [← mapLayout_eq hp] at hmap
  refine ⟨⟨e.scratch, st.mem⟩, ?_⟩
  unfold buildPaging
  rw [he]
  simp only [bind, Except.bind]
  rw [halloc]
  have hnonzero : e.scratch ≠ 0 := hroom.nonzero
  simp only [initialAlloc, hnonzero, if_false]
  simp only [initialAlloc] at hmap
  rw [hmap]

/-- The page numbers that translate, and to what. -/
theorem translateAddr_buildPaging {h : Handover} {m : Memory} {P : Paging} (hp : Placed h)
    (hc : ConventionalOk h m) (hb : MapBelow h m) (hbuild : buildPaging h m = .ok P)
    (v : UInt64) (t : Translated) :
    translateAddr P.mem P.pml4Phys v = some t ↔
      ∃ p, MappedPage h p ∧
        (pageNumber v = p.toNat / 4096 ∨ pageNumber v = p.toNat / 4096 + 2 ^ 35) ∧
        t = ⟨p + (v &&& 0xfff), true⟩ := by
  obtain ⟨e, s, he, hbuilt⟩ := buildPaging_built hp hc hb hbuild
  have hmmap := prepare_mmapPhys_lt hp he
  rw [hbuilt.translate, Option.map_eq_some_iff]
  constructor
  · rintro ⟨leaf, hleaf, rfl⟩
    obtain ⟨p, hm, hn, rfl⟩ := (lastWrite_layoutCalls hp hmmap _ _).mp hleaf
    exact ⟨p, hm, hn, rfl⟩
  · rintro ⟨p, hm, hn, rfl⟩
    exact ⟨⟨p, true⟩, (lastWrite_layoutCalls hp hmmap _ _).mpr ⟨p, hm, hn, rfl⟩, rfl⟩

/-- **Stage 1 builds exactly the intended address space.**  At the `CR3` load, a
canonical address translates exactly when it lies in a mapped page or in the
upper-half alias of one; every entry on the way is then writable, and the
result is the physical page with the offset of the address. -/
theorem buildPaging_translate {h : Handover} {m : Memory} {P : Paging} (hp : Placed h)
    (hc : ConventionalOk h m) (hb : MapBelow h m) (hbuild : buildPaging h m = .ok P)
    {v : UInt64} (hv : Canonical v) (t : Translated) :
    translateAddr P.mem P.pml4Phys v = some t ↔
      ∃ p, MappedPage h p ∧
        (pageAlignDown v pageSize = p ∨ pageAlignDown v pageSize = p + upperHalf) ∧
        t = ⟨p + (v &&& 0xfff), true⟩ := by
  obtain ⟨e, -, -, -, he, -, -, -⟩ := buildPaging_cases hbuild
  have hmmap := prepare_mmapPhys_lt hp he
  rw [translateAddr_buildPaging hp hc hb hbuild]
  constructor
  · rintro ⟨p, hm, hn, rfl⟩
    obtain ⟨ha, hbelow⟩ := hm.below hp hmmap
    rw [pageNumber_eq_low_iff hv ha hbelow, pageNumber_eq_alias_iff hv ha hbelow] at hn
    exact ⟨p, hm, hn, rfl⟩
  · rintro ⟨p, hm, hn, rfl⟩
    obtain ⟨ha, hbelow⟩ := hm.below hp hmmap
    rw [← pageNumber_eq_low_iff hv ha hbelow, ← pageNumber_eq_alias_iff hv ha hbelow] at hn
    exact ⟨p, hm, hn, rfl⟩

theorem smallHandover_mapBelow : MapBelow smallHandover (fun _ => 0) :=
  ⟨smallHandover_endsBelow _ _, smallHandover_endsBelow _ _⟩

theorem smallHandover_buildPaging : ∃ P, buildPaging smallHandover (fun _ => 0) = .ok P := by
  have hlength : (layoutCalls smallHandover).length = 14 := by
    simp [layoutCalls, halfCalls, pageCalls, smallHandover]
  apply buildPaging_ok smallHandover_placed smallHandover_prepare
  rw [hlength]
  exact smallEnv_windowRoom.of_le (by decide)

/-- In the small placement the alias of the kernel page reaches the kernel. -/
theorem buildPaging_translate_small : ∃ P, buildPaging smallHandover (fun _ => 0) = .ok P ∧
    translateAddr P.mem P.pml4Phys 0xffff800000100008 = some ⟨0x100008, true⟩ := by
  obtain ⟨P, hbuild⟩ := smallHandover_buildPaging
  refine ⟨P, hbuild, ?_⟩
  exact (buildPaging_translate smallHandover_placed smallHandover_conventionalOk
    smallHandover_mapBelow hbuild (Or.inr (by decide)) _).mpr
    ⟨0x100000, ⟨by decide, Or.inl ⟨by decide, by decide⟩⟩, Or.inr (by decide), rfl⟩

end Kernel
end OsBook
