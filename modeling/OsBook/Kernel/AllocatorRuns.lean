import OsBook.Kernel.PageAllocator

/-!
# Runs of the page allocator

A run is any sequence of `allocPage` calls.  Between two calls the caller may
write anything to memory, so every call carries its own memory before and
after.  The cursors alone decide which page is taken, and `Consumed` only
grows, hence no page is taken twice, none lies in the kernel or the stack, and
no call writes to a page that an earlier call returned.
-/

namespace OsBook
namespace Kernel

open Machine

/-! ## The environment of a placed handover -/

/-- The reserved ranges of the environment are those of the handover. -/
theorem prepare_layout {h : Handover} {m : Memory} {e : AllocEnv} (hp : Placed h)
    (he : prepare h m = .ok e) :
    e.kernelPhys = h.kernelPhys ∧
      e.kernelEnd.toNat = h.kernelPhys.toNat + h.kernelPages.toNat * 4096 ∧
      e.stackPhys = h.stackPhys ∧ e.stackEnd.toNat = h.stackPhys.toNat + 4 * 4096 := by
  obtain ⟨-, -, rfl⟩ := prepare_eq_ok he
  exact ⟨rfl, hp.toNat_kernelEnd, rfl, hp.toNat_stackEnd⟩

/-- The hypotheses on the placement and on the map make the environment of the
allocator well formed. -/
theorem allocEnv_ok {h : Handover} {m : Memory} {e : AllocEnv} (hp : Placed h)
    (hc : ConventionalOk h m) (hroom : BufferRoom h m) (he : prepare h m = .ok e) : e.Ok := by
  obtain ⟨-, -, rfl⟩ := prepare_eq_ok he
  have hkb := hp.kernel_below
  have hsb := hp.stack_below
  have hmb := hp.mmap_below
  have hka := hp.kernel_aligned
  have hsa := hp.stack_aligned
  have hma := hp.mmap_aligned
  have hend := hp.toNat_mmapEnd
  have hcached : ∀ i, i < h.scanLimit → (descriptor h m i).IsCached →
      i < h.descCount.toNat ∧ (descriptor h m i).type = conventionalMemoryType ∧
        (descriptor h m i).physicalStart.toNat % 4096 = 0 := by
    intro i hi hcached
    have hlt := hi.trans_le (scanLimit_le h)
    exact ⟨hlt, hcached.1, hc.aligned i hlt hcached.1⟩
  -- The window ends at the guess or at the end of the buffer's descriptor.
  have hwindow : (scratchEndOf h (scan h m)).toNat % 4096 = 0 ∧
      (scratchEndOf h (scan h m)).toNat + 4096 < 2 ^ 64 := by
    unfold scratchEndOf
    split
    · have hhead := toNat_headroomEnd_le hp
      exact ⟨toNat_pageAlignUp_aligned _, by omega⟩
    · rename_i hne
      rcases scan_mmapAllocEnd h m with heq | ⟨i, hi, hholds, heq⟩
      · exact absurd heq hne
      · have hbound := hroom i (hi.trans_le (scanLimit_le h)) hholds
        rw [heq]
        refine ⟨toNat_pageAlignUp_aligned _, ?_⟩
        rw [toNat_pageAlignUp (by omega)]
        omega
  have hscratch := hp.scratch_eq
  refine {
    kernelPhys_aligned := hka
    kernelEnd_aligned := ?_
    stackPhys_aligned := hsa
    stackEnd_aligned := ?_
    scratch_aligned := ?_
    scratch_room := ?_
    scratchEnd_aligned := hwindow.1
    scratchEnd_room := hwindow.2
    range_aligned := ?_
    ranges_disjoint := ?_ }
  · simp only [hp.toNat_kernelEnd]
    omega
  · simp only [hp.toNat_stackEnd]
    omega
  · simp only [hscratch]
    exact hma
  · simp only [hscratch]
    omega
  · intro r hr
    obtain ⟨i, hi, hci, rfl⟩ := mem_scan_ranges hr
    have hstart : (descriptor h m i).range.start.toNat % 4096 = 0 := by
      show (pageAlignDown _ pageSize).toNat % 4096 = 0
      rw [toNat_pageAlignDown]
      omega
    exact ⟨hstart, (descriptor h m i).toNat_endFrom_aligned hstart⟩
  · apply scan_ranges_pairwise
    intro i j hij hj hci hcj x h₁ h₂ h₃ h₄
    obtain ⟨hil, hit, hia⟩ := hcached i (by omega) hci
    obtain ⟨hjl, hjt, hja⟩ := hcached j hj hcj
    exact hc.disjoint i j hil hjl (by omega) hit hjt x
      ((descriptor h m i).covers_of_range hia h₁ h₂)
      ((descriptor h m j).covers_of_range hja h₃ h₄)

/-! ## One call -/

/-- A call either takes a page, zeroes it and returns its address, or takes
none, leaves memory alone and returns `0`. -/
theorem allocPage_cases {e : AllocEnv} {s s' : AllocState} {m m' : Memory} {p : UInt64}
    (h : allocPage e s m = .ok (p, s', m')) :
    (nextPage e s = .ok (some p, s') ∧ m' = zeroPage m p) ∨
      (nextPage e s = .ok (none, s') ∧ p = 0 ∧ m' = m) := by
  obtain ⟨⟨found, s₁⟩, hnext, h⟩ := bind_eq_ok.mp h
  cases found with
  | some q =>
      simp only [Except.ok.injEq, Prod.mk.injEq] at h
      obtain ⟨rfl, rfl, rfl⟩ := h
      exact Or.inl ⟨hnext, rfl⟩
  | none =>
      simp only [Except.ok.injEq, Prod.mk.injEq] at h
      obtain ⟨rfl, rfl, rfl⟩ := h
      exact Or.inr ⟨hnext, rfl, rfl⟩

/-- A page-aligned word below `2 ^ 64` is the start of a block that does not wrap. -/
theorem inBlock_page_iff {p : UInt64} (hp : p.toNat % 4096 = 0) (x : UInt64) :
    InBlock p 4096 x ↔ p.toNat ≤ x.toNat ∧ x.toNat < p.toNat + 4096 :=
  inBlock_iff (by have := p.toNat_lt; omega) x

/-- Two different aligned pages share no byte. -/
theorem page_disjoint {p q x : UInt64} (hp : p.toNat % 4096 = 0) (hq : q.toNat % 4096 = 0)
    (hpq : p ≠ q) (hx : InBlock p 4096 x) : ¬ InBlock q 4096 x := by
  have hne : p.toNat ≠ q.toNat := fun h => hpq (UInt64.toNat_inj.mp h)
  rw [inBlock_page_iff hq]
  rw [inBlock_page_iff hp] at hx
  omega

/-- An unreserved page under the cursor, inside the window, is the next result. -/
theorem allocPage_of_free {e : AllocEnv} {s : AllocState}
    (hroom : s.scratchNext.toNat + 4096 ≤ e.scratchEnd.toNat)
    (hkernel : e.inKernel s.scratchNext = false) (hstack : e.inStack s.scratchNext = false)
    (m : Memory) :
    allocPage e s m = .ok (s.scratchNext, { s with scratchNext := s.scratchNext + pageSize },
      zeroPage m s.scratchNext) := by
  have hend := e.scratchEnd.toNat_lt
  have hmore : s.scratchNext + pageSize ≤ e.scratchEnd := by
    rw [UInt64.le_iff_toNat_le, toNat_add_pageSize (by omega)]
    exact hroom
  obtain ⟨fuel, hfuel⟩ : ∃ fuel, loopFuel = fuel + 1 := ⟨2 ^ 52 - 1, by norm_num [loopFuel]⟩
  have hloop : cursorLoop (fun next => next + pageSize ≤ e.scratchEnd)
      (fun p => e.inKernel p || e.inStack p) loopFuel s.scratchNext =
        .ok (some s.scratchNext, s.scratchNext + pageSize) := by
    rw [hfuel, cursorLoop]
    simp [hmore, hkernel, hstack]
  have hnext : nextPage e s =
      .ok (some s.scratchNext, { s with scratchNext := s.scratchNext + pageSize }) := by
    unfold nextPage
    rw [hloop]
    rfl
  unfold allocPage
  rw [hnext]
  rfl

/-- The scratch window has room for `n` more pages, and no page in the rest of
the window is reserved. -/
structure WindowRoom (e : AllocEnv) (s : AllocState) (n : Nat) : Prop where
  room : s.scratchNext.toNat + 4096 * n ≤ e.scratchEnd.toNat
  nonzero : s.scratchNext ≠ 0
  clear : ∀ p : UInt64, s.scratchNext.toNat ≤ p.toNat → p.toNat < e.scratchEnd.toNat →
    e.inKernel p = false ∧ e.inStack p = false

theorem WindowRoom.of_le {e : AllocEnv} {s : AllocState} {n k : Nat} (h : WindowRoom e s n)
    (hk : k ≤ n) : WindowRoom e s k :=
  ⟨by have := h.room; omega, h.nonzero, h.clear⟩

/-- The page under the cursor ends inside the window. -/
theorem WindowRoom.first {e : AllocEnv} {s : AllocState} {n : Nat} (h : WindowRoom e s (n + 1)) :
    s.scratchNext.toNat + 4096 ≤ e.scratchEnd.toNat :=
  (Nat.add_le_add_left (Nat.le_mul_of_pos_right 4096 n.succ_pos) _).trans h.room

/-- While the window has room, a call takes the page under the cursor. -/
theorem WindowRoom.allocPage {e : AllocEnv} {s : AllocState} {n : Nat}
    (h : WindowRoom e s (n + 1)) (m : Memory) :
    allocPage e s m = .ok (s.scratchNext, { s with scratchNext := s.scratchNext + pageSize },
        zeroPage m s.scratchNext) ∧
      WindowRoom e { s with scratchNext := s.scratchNext + pageSize } n := by
  have hroom := h.room
  have hfirst := h.first
  have hend := e.scratchEnd.toNat_lt
  have hstep : (s.scratchNext + pageSize).toNat = s.scratchNext.toNat + 4096 :=
    toNat_add_pageSize (by omega)
  obtain ⟨hkernel, hstack⟩ := h.clear s.scratchNext (le_refl _) (by omega)
  refine ⟨allocPage_of_free hfirst hkernel hstack m, ?_, ?_, ?_⟩
  · simp only [hstep]
    omega
  · rw [Ne, eq_zero_iff_toNat]
    simp only [hstep]
    omega
  · intro p hlow hhigh
    simp only [hstep] at hlow
    exact h.clear p (by omega) hhigh

namespace Taken

variable {e : AllocEnv} {s s' : AllocState} {p : UInt64}

/-- A taken page lies outside the kernel image, byte by byte. -/
theorem not_kernel (t : Taken e s s' p) (ok : e.Ok) {x : UInt64} (hx : InBlock p 4096 x) :
    ¬ (e.kernelPhys.toNat ≤ x.toNat ∧ x.toNat < e.kernelEnd.toNat) := by
  have hp := t.aligned
  have hk := ok.kernelPhys_aligned
  have hke := ok.kernelEnd_aligned
  have hnot := t.notKernel
  rw [inBlock_page_iff hp] at hx
  unfold AllocEnv.inKernel at hnot
  simp only [Bool.and_eq_false_iff, decide_eq_false_iff_not, ge_iff_le,
    UInt64.le_iff_toNat_le, UInt64.lt_iff_toNat_lt] at hnot
  omega

/-- A taken page lies outside the stack, byte by byte. -/
theorem not_stack (t : Taken e s s' p) (ok : e.Ok) {x : UInt64} (hx : InBlock p 4096 x) :
    ¬ (e.stackPhys.toNat ≤ x.toNat ∧ x.toNat < e.stackEnd.toNat) := by
  have hp := t.aligned
  have hs := ok.stackPhys_aligned
  have hse := ok.stackEnd_aligned
  have hnot := t.notStack
  rw [inBlock_page_iff hp] at hx
  unfold AllocEnv.inStack at hnot
  simp only [Bool.and_eq_false_iff, decide_eq_false_iff_not, ge_iff_le,
    UInt64.le_iff_toNat_le, UInt64.lt_iff_toNat_lt] at hnot
  omega

theorem not_inKernelImage {h : Handover} {m : Memory} (t : Taken e s s' p) (ok : e.Ok)
    (hp : Placed h) (he : prepare h m = .ok e) {x : UInt64} (hx : InBlock p 4096 x) :
    ¬ InKernelImage h x.toNat := by
  have hout := t.not_kernel ok hx
  rw [(prepare_layout hp he).1, (prepare_layout hp he).2.1] at hout
  exact hout

theorem not_inStackRange {h : Handover} {m : Memory} (t : Taken e s s' p) (ok : e.Ok)
    (hp : Placed h) (he : prepare h m = .ok e) {x : UInt64} (hx : InBlock p 4096 x) :
    ¬ InStackRange h x.toNat := by
  have hout := t.not_stack ok hx
  rw [(prepare_layout hp he).2.2.1, (prepare_layout hp he).2.2.2] at hout
  exact hout

end Taken

/-! ## Runs -/

/-- One completed call: the memory before it, its result, the memory after it. -/
structure AllocCall where
  before : Memory
  page : UInt64
  after : Memory

/-- A sequence of calls; the memory may change freely between two calls. -/
inductive AllocRun (e : AllocEnv) : AllocState → List AllocCall → AllocState → Prop
  | nil (s : AllocState) : AllocRun e s [] s
  | cons {s s₁ s₂ : AllocState} {m m' : Memory} {p : UInt64} {calls : List AllocCall}
      (hcall : allocPage e s m = .ok (p, s₁, m')) (hrest : AllocRun e s₁ calls s₂) :
      AllocRun e s (⟨m, p, m'⟩ :: calls) s₂

/-- The page a call wrote to, if it wrote at all. -/
inductive Wrote (c : AllocCall) : Option UInt64 → Prop
  | page (hafter : c.after = zeroPage c.before c.page) : Wrote c (some c.page)
  | nothing (hpage : c.page = 0) (hafter : c.after = c.before) : Wrote c none

/-- What a whole run guarantees about one of its calls, given the state it
started from. -/
structure CallOk (e : AllocEnv) (s : AllocState) (c : AllocCall) : Prop where
  wrote : ∃ w, Wrote c w ∧ ∀ q, w = some q →
    ¬ Consumed e s q ∧ ∃ s₁ s₂, Taken e s₁ s₂ q

/-- A call leaves every byte outside the page it takes unchanged. -/
theorem CallOk.unchanged {e : AllocEnv} {s : AllocState} {c : AllocCall} (h : CallOk e s c)
    {x : UInt64} (hx : ∀ s₁ s₂ q, ¬ Consumed e s q → Taken e s₁ s₂ q → ¬ InBlock q 4096 x) :
    c.after x = c.before x := by
  obtain ⟨w, hw, hq⟩ := h.wrote
  cases hw with
  | page hafter =>
      obtain ⟨hfresh, s₁, s₂, htaken⟩ := hq _ rfl
      rw [hafter, zeroPage_apply, if_neg (hx s₁ s₂ _ hfresh htaken)]
  | nothing _ hafter => rw [hafter]

/-- Weakening the start of a run. -/
theorem CallOk.of_mono {e : AllocEnv} {s s₁ : AllocState} {c : AllocCall} (h : CallOk e s₁ c)
    (hmono : ∀ p, Consumed e s p → Consumed e s₁ p) : CallOk e s c := by
  obtain ⟨w, hw, hq⟩ := h.wrote
  refine ⟨w, hw, fun q hwq => ?_⟩
  obtain ⟨hfresh, htaken⟩ := hq q hwq
  exact ⟨fun hc => hfresh (hmono q hc), htaken⟩

/-- One call, seen from the state it starts in. -/
theorem callOk_of_allocPage {e : AllocEnv} {s s' : AllocState} {m m' : Memory} {p : UInt64}
    (ok : e.Ok) (inv : AllocInv e s) (h : allocPage e s m = .ok (p, s', m')) :
    AllocInv e s' ∧ (∀ q, Consumed e s q → Consumed e s' q) ∧ CallOk e s ⟨m, p, m'⟩ ∧
      (p ≠ 0 → Taken e s s' p) := by
  rcases allocPage_cases h with ⟨hnext, hm'⟩ | ⟨hnext, hp, hm'⟩
  · have hstep := nextPage_spec ok inv hnext
    have htaken := hstep.taken p rfl
    refine ⟨hstep.inv, hstep.mono, ⟨some p, Wrote.page hm', ?_⟩, fun _ => htaken⟩
    intro q hq
    obtain rfl := Option.some.inj hq
    exact ⟨htaken.fresh, s, s', htaken⟩
  · have hstep := nextPage_spec ok inv hnext
    refine ⟨hstep.inv, hstep.mono, ⟨none, Wrote.nothing hp hm', by simp⟩, ?_⟩
    intro hne
    exact absurd hp hne

/-- The run invariant: every later call is fresh with respect to the pages that
earlier calls consumed. -/
structure RunOk (e : AllocEnv) (s : AllocState) (calls : List AllocCall) : Prop where
  call : ∀ c ∈ calls, CallOk e s c
  taken : ∀ c ∈ calls, c.page ≠ 0 → ∃ s₁ s₂, Taken e s₁ s₂ c.page ∧ ¬ Consumed e s c.page
  later : calls.Pairwise fun c d => c.page ≠ 0 →
    d.page ≠ c.page ∧ ∀ x, InBlock c.page 4096 x → d.after x = d.before x

theorem runOk_of_allocRun {e : AllocEnv} {s s' : AllocState} {calls : List AllocCall}
    (ok : e.Ok) (hrun : AllocRun e s calls s') : AllocInv e s → RunOk e s calls := by
  induction hrun with
  | nil s => exact fun _ => ⟨by simp, by simp, List.Pairwise.nil⟩
  | @cons s s₁ s₂ m m' p calls hcall _ ih =>
      intro inv
      obtain ⟨inv₁, hmono, hcallok, htaken⟩ := callOk_of_allocPage ok inv hcall
      have hrest := ih inv₁
      refine ⟨?_, ?_, ?_⟩
      · intro c hc
        rcases List.mem_cons.mp hc with rfl | hc
        · exact hcallok
        · exact (hrest.call c hc).of_mono hmono
      · intro c hc hne
        rcases List.mem_cons.mp hc with rfl | hc
        · exact ⟨s, s₁, htaken hne, (htaken hne).fresh⟩
        · obtain ⟨t₁, t₂, ht, hfresh⟩ := hrest.taken c hc hne
          exact ⟨t₁, t₂, ht, fun hcons => hfresh (hmono _ hcons)⟩
      · refine List.Pairwise.cons ?_ hrest.later
        intro d hd hne
        have hp := htaken hne
        -- `p` counts as consumed from here on, and later calls take fresh pages only.
        refine ⟨?_, ?_⟩
        · intro heq
          by_cases hd0 : d.page = 0
          · exact hne (heq ▸ hd0)
          · obtain ⟨t₁, t₂, -, hfresh⟩ := hrest.taken d hd hd0
            rw [heq] at hfresh
            exact hfresh hp.consumed
        · intro x hx
          apply (hrest.call d hd).unchanged
          intro t₁ t₂ q hfresh hq
          refine page_disjoint hp.aligned hq.aligned ?_ hx
          rintro rfl
          exact hfresh hp.consumed

/-- The pages of a run are private to it and to the call that took them. -/
structure ExclusiveRun (h : Handover) (calls : List AllocCall) : Prop where
  /-- A nonzero result is an aligned page outside kernel and stack, all zero
  when it is returned. -/
  page : ∀ c ∈ calls, c.page ≠ 0 → c.page.toNat % 4096 = 0 ∧ ∀ x, InBlock c.page 4096 x →
    ¬ InKernelImage h x.toNat ∧ ¬ InStackRange h x.toNat ∧ c.after x = 0
  /-- No page is returned twice. -/
  distinct : calls.Pairwise fun c d => c.page ≠ 0 → d.page ≠ c.page
  /-- No call changes the kernel image or the stack. -/
  live : ∀ c ∈ calls, ∀ x : UInt64, InKernelImage h x.toNat ∨ InStackRange h x.toNat →
    c.after x = c.before x
  /-- No call changes a page that an earlier call returned. -/
  earlier : calls.Pairwise fun c d => c.page ≠ 0 → ∀ x, InBlock c.page 4096 x →
    d.after x = d.before x

/-- **Page-table pages are never shared and never clobber live memory**, in
runs of any length through the window and all fallback ranges. -/
theorem allocPage_run_exclusive {h : Handover} {m : Memory} {e : AllocEnv} {s : AllocState}
    {calls : List AllocCall} (hp : Placed h) (hc : ConventionalOk h m)
    (hroom : BufferRoom h m) (he : prepare h m = .ok e)
    (hrun : AllocRun e (initialAlloc e) calls s) : ExclusiveRun h calls := by
  have ok := allocEnv_ok hp hc hroom he
  have hok := runOk_of_allocRun ok hrun (allocInv_initial ok)
  refine ⟨?_, hok.later.imp fun hcd hne => (hcd hne).1, ?_,
    hok.later.imp fun hcd hne => (hcd hne).2⟩
  · intro c hcm hne
    -- A nonzero result is a page that the call zeroed.
    obtain ⟨s₁, s₂, htaken, -⟩ := hok.taken c hcm hne
    refine ⟨htaken.aligned, fun x hx =>
      ⟨htaken.not_inKernelImage ok hp he hx, htaken.not_inStackRange ok hp he hx, ?_⟩⟩
    obtain ⟨w, hw, -⟩ := (hok.call c hcm).wrote
    cases hw with
    | page hafter => rw [hafter, zeroPage_apply, if_pos hx]
    | nothing hpage _ => exact absurd hpage hne
  · intro c hcm x hx
    apply (hok.call c hcm).unchanged
    intro s₁ s₂ q _ htaken hin
    rcases hx with hx | hx
    · exact htaken.not_inKernelImage ok hp he hin hx
    · exact htaken.not_inStackRange ok hp he hin hx

/-! ## Cleared memory -/

/-- In cleared memory every descriptor is empty. -/
theorem descriptor_cleared (h : Handover) (i : Nat) : descriptor h (fun _ => 0) i = ⟨0, 0, 0⟩ := by
  simp [descriptor, readDescriptor, Memory.load32, Memory.load64]

theorem conventionalOk_cleared (h : Handover) : ConventionalOk h (fun _ => 0) where
  aligned := by
    intro i _ h
    simp [descriptor_cleared, conventionalMemoryType] at h
  disjoint := by
    intro i j _ _ _ h
    simp [descriptor_cleared, conventionalMemoryType] at h

theorem endsBelow_cleared (h : Handover) (type : UInt32) (b : Nat) :
    EndsBelow h (fun _ => 0) type b := by
  intro i _ _
  simp [descriptor_cleared]

/-- A map of one empty descriptor has nothing to cache. -/
theorem scan_cleared {h : Handover} (hlimit : h.scanLimit = 1) :
    scan h (fun _ => 0) = ⟨h.mmapEnd, []⟩ := by
  unfold scan
  rw [hlimit, scanDescriptors, descriptor_cleared]
  rfl

/-! ## A small placement -/

/-- Kernel, stack and map far apart, and a map of one 48-byte descriptor. -/
def smallHandover : Handover where
  mmapPhys := 0x1000000
  mmapSizeUsed := 48
  descSize := 48
  kernelPhys := 0x100000
  kernelPages := 1
  stackPhys := 0x200000

/-- The allocator of the small placement over cleared memory. -/
def smallEnv : AllocEnv where
  kernelPhys := 0x100000
  kernelEnd := 0x101000
  stackPhys := 0x200000
  stackEnd := 0x204000
  scratch := 0x1000000
  scratchEnd := 0x1101000
  ranges := []

theorem smallHandover_placed : Placed smallHandover := by
  constructor <;> decide

theorem smallHandover_descriptor (i : Nat) :
    descriptor smallHandover (fun _ => 0) i = ⟨0, 0, 0⟩ :=
  descriptor_cleared smallHandover i

theorem smallHandover_prepare : prepare smallHandover (fun _ => 0) = .ok smallEnv := by
  unfold prepare
  rw [scan_cleared (by decide)]
  rfl

theorem smallHandover_conventionalOk : ConventionalOk smallHandover (fun _ => 0) :=
  conventionalOk_cleared smallHandover

theorem smallHandover_endsBelow (type : UInt32) (b : Nat) :
    EndsBelow smallHandover (fun _ => 0) type b :=
  endsBelow_cleared smallHandover type b

theorem smallEnv_windowRoom : WindowRoom smallEnv (initialAlloc smallEnv) 257 where
  room := by decide
  nonzero := by decide
  clear := by
    intro p hlow _
    have hscratch : (initialAlloc smallEnv).scratchNext.toNat = 0x1000000 := rfl
    have hk : smallEnv.kernelEnd.toNat = 0x101000 := rfl
    have hs : smallEnv.stackEnd.toNat = 0x204000 := rfl
    rw [hscratch] at hlow
    unfold AllocEnv.inKernel AllocEnv.inStack
    simp only [Bool.and_eq_false_iff, decide_eq_false_iff_not, UInt64.lt_iff_toNat_lt]
    omega

/-! ### Without room

Here the window is clipped at the stack, and one of its two pages is the kernel's. -/

/-- The small placement, with the kernel and the stack right behind the page of the map. -/
def tightHandover : Handover :=
  { smallHandover with kernelPhys := 0x1001000, stackPhys := 0x1002000 }

def tightEnv : AllocEnv where
  kernelPhys := 0x1001000
  kernelEnd := 0x1002000
  stackPhys := 0x1002000
  stackEnd := 0x1006000
  scratch := 0x1000000
  scratchEnd := 0x1002000
  ranges := []

theorem tightHandover_placed : Placed tightHandover := by
  constructor <;> decide

/-- A map of one descriptor: two conventional pages at `0x5000000`. -/
def twoPageMap : Memory := fun x =>
  if x = 0x1000000 then 7 else if x = 0x100000B then 5 else if x = 0x1000018 then 2 else 0

/-- The allocator of the tight placement over that map. -/
def twoPageEnv : AllocEnv := { tightEnv with ranges := [⟨0x5000000, 0x5002000⟩] }

theorem twoPageMap_descriptor : descriptor tightHandover twoPageMap 0 = ⟨7, 0x5000000, 2⟩ := by
  decide +kernel

theorem twoPageMap_conventionalOk : ConventionalOk tightHandover twoPageMap where
  aligned := by
    intro i hi _
    obtain rfl : i = 0 := Nat.lt_one_iff.mp hi
    rw [twoPageMap_descriptor]
    decide
  disjoint := by
    intro i j hi hj hne
    exact absurd ((Nat.lt_one_iff.mp hi).trans (Nat.lt_one_iff.mp hj).symm) hne

theorem twoPageMap_prepare : prepare tightHandover twoPageMap = .ok twoPageEnv := by
  have hscan : scan tightHandover twoPageMap =
      ⟨tightHandover.mmapEnd, [⟨0x5000000, 0x5002000⟩]⟩ := by
    decide +kernel
  unfold prepare
  rw [hscan]
  rfl

/-- The first call takes the page of the map and the second one, behind the window, the first page
of the conventional range. -/
theorem allocPage_run_exclusive_small : ∃ calls s,
    calls.map AllocCall.page = [0x1000000, 0x5000000] ∧
    AllocRun twoPageEnv (initialAlloc twoPageEnv) calls s ∧ ExclusiveRun tightHandover calls := by
  have hfirst : nextPage twoPageEnv (initialAlloc twoPageEnv) =
      .ok (some 0x1000000, ⟨0x1001000, 0, 0⟩) := by
    decide +kernel
  have hsecond : nextPage twoPageEnv ⟨0x1001000, 0, 0⟩ =
      .ok (some 0x5000000, ⟨0x1002000, 0, 0x5001000⟩) := by
    decide +kernel
  have hwindow : allocPage twoPageEnv (initialAlloc twoPageEnv) twoPageMap =
      .ok (0x1000000, ⟨0x1001000, 0, 0⟩, zeroPage twoPageMap 0x1000000) := by
    rw [allocPage, hfirst]
    rfl
  have hfallback : allocPage twoPageEnv ⟨0x1001000, 0, 0⟩ (zeroPage twoPageMap 0x1000000) =
      .ok (0x5000000, ⟨0x1002000, 0, 0x5001000⟩,
        zeroPage (zeroPage twoPageMap 0x1000000) 0x5000000) := by
    rw [allocPage, hsecond]
    rfl
  have hends : EndsBelow tightHandover twoPageMap loaderDataType 0 := by
    intro i hi hdata
    obtain rfl : i = 0 := Nat.lt_one_iff.mp hi
    rw [twoPageMap_descriptor] at hdata
    exact absurd hdata (by decide)
  have hrun := AllocRun.cons hwindow (AllocRun.cons hfallback (AllocRun.nil _))
  exact ⟨_, _, rfl, hrun, allocPage_run_exclusive tightHandover_placed twoPageMap_conventionalOk
    (hends.bufferRoom (by decide)) twoPageMap_prepare hrun⟩

end Kernel
end OsBook
