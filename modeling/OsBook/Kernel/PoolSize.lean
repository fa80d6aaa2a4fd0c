import Mathlib.Data.Finset.Card
import Mathlib.Data.Finset.Prod
import Mathlib.Order.Interval.Finset.Nat
import Mathlib.Tactic.Linarith
import OsBook.Kernel.AddressSpace
import OsBook.Kernel.OwnedMemory
import OsBook.Loader.EfiMain

/-!
# The page-table pool is large enough

Stage 1 takes its page tables from the buffer the loader allocated for the
memory map.  A table is identified by its level and by the group of pages it
translates, so a list of calls needs at most as many tables as it names
different groups (`mapCalls_within`).  For the four ranges of Stage 1 this
number is bounded for every alignment (`card_layoutSlots_le`), and the buffer
always has that many pages, whichever way the kernel computes the end of the
window.

Which pages are taken is read off a log: `logged` keeps the results of an
allocator next to its state.
-/

namespace OsBook
namespace Kernel

open Machine

/-! ## Counting tables -/

/-- An allocator with pages left can be asked for one more.  The tables counted in `N` are bound
in the layout, and only groups in `S` are still to be bound. -/
structure Within {σ : Type} (ok : (UInt64 → Prop) → σ → Memory → Prop) (room : σ → Nat → Prop)
    (root : UInt64) (S : Finset (Nat × Nat)) (node : SlotMap) (st : BuildState σ) : Prop where
  holds : HoldsAs ok root (node 0) node st
  counted : ∃ N, N ⊆ S ∧ (∀ x ∈ N, node (x.1 + 1) x.2 ≠ none) ∧
    room st.alloc (S.card - N.card)

section Count

variable {σ : Type} {alloc : PageAllocator σ} {ok : (UInt64 → Prop) → σ → Memory → Prop}
  {room : σ → Nat → Prop} {root : UInt64} {S : Finset (Nat × Nat)} {node : SlotMap}
  {st : BuildState σ}

/-- A present table is followed, whatever the allocator has left. -/
theorem ensureTable_present (alloc : PageAllocator σ) (code : Char) {entry : UInt64}
    {st : BuildState σ} (h : entryPresent (st.mem.load64 entry) = true) :
    ensureTable alloc code entry st = .ok (st.mem.load64 entry &&& ~~~0xfff, st) := by
  have hpresent : ¬ st.mem.load64 entry &&& ptePresent = 0 := bne_iff_ne.mp h
  unfold ensureTable
  simp only [hpresent, if_false]

/-- **A table of a group in `S` is found, or a page is left for it.** -/
theorem ensureTable_within (src : FreshSource alloc ok) (supply : PageSupply alloc room)
    {level : Nat} (hlevel : level < 3) {v table : UInt64} (code : Char)
    (hw : Within ok room root S node st) (hS : (level, pageNumber v / 512 ^ (level + 1)) ∈ S)
    (htable : node (level + 2) (pageNumber v / 512 ^ (level + 2)) = some ⟨table, true⟩) :
    ∃ t st' node', ensureTable alloc code (entryAddr table (tableIndex (level + 1) v)) st =
        .ok (t, st') ∧ Within ok room root S node' st' ∧
      node' (level + 1) (pageNumber v / 512 ^ (level + 1)) = some ⟨t, true⟩ := by
  obtain ⟨N, hNS, hN, hroom⟩ := hw.counted
  have hentry := hw.holds.tree.load_entry (l := level + 1) (v := v) (by omega) htable
  simp only at hentry
  cases hslot : node (level + 1) (pageNumber v / 512 ^ (level + 1)) with
  | some c =>
      have hframe := hw.holds.tree.isFrame _ _ _ hslot
      have hwritable := hw.holds.tree.writable _ _ _ hslot
      have hpresent : entryPresent
          (st.mem.load64 (entryAddr table (tableIndex (level + 1) v))) = true := by
        rw [hentry, hslot]
        exact c.entryPresent_entry hframe
      have hrun := ensureTable_present alloc code hpresent
      rw [hentry, hslot] at hrun
      refine ⟨_, st, node, hrun, hw, ?_⟩
      rw [hslot, ← hwritable]
      simp only [slotEntry, slot_and_not_fff hframe]
  | none =>
      -- The group is not counted yet, so a page is left for its table.
      have hnew : (level, pageNumber v / 512 ^ (level + 1)) ∉ N := fun hmem => hN _ hmem hslot
      have hsub := Finset.insert_subset hS hNS
      have hcard := Finset.card_insert_of_notMem hnew
      have hle := Finset.card_le_card hsub
      rw [hcard] at hle
      have hone : S.card - N.card = S.card - (N.card + 1) + 1 := by omega
      rw [hone] at hroom
      obtain ⟨t, st', hrun, hroom'⟩ := ensureTable_ok supply code
        (entryAddr table (tableIndex (level + 1) v)) hroom
      obtain ⟨node', hholds, hnode, hlayout⟩ :=
        ensureTable_holds src hlevel hw.holds htable hrun
      refine ⟨t, st', node', hrun, ⟨?_, insert _ N, hsub, ?_, hcard ▸ hroom'⟩, hnode⟩
      · rw [hholds.leaf]
        exact hholds
      · intro x hx
        rcases Finset.mem_insert.mp hx with rfl | hx
        · rw [hnode]
          exact Option.some_ne_none _
        · rcases hlayout with hsame | hset
          · rw [hsame]
            exact hN x hx
          · rw [hset, SlotMap.set]
            split
            · exact Option.some_ne_none _
            · exact hN x hx

/-- One call binds its page, when its three groups are in `S`. -/
theorem mapPageDual_within (src : FreshSource alloc ok) (supply : PageSupply alloc room)
    {v p : UInt64} (hp : IsFrame p) (hw : Within ok room root S node st)
    (hS : ∀ l, l < 3 → (l, pageNumber v / 512 ^ (l + 1)) ∈ S) (flags : UInt64) :
    ∃ st' node', mapPageDual alloc root v p flags st = .ok st' ∧
      Within ok room root S node' st' := by
  obtain ⟨pdpt, st₁, node₁, h₁, hw₁, hpdpt⟩ := ensureTable_within src supply (by omega : 2 < 3) 'C'
    hw (hS 2 (by omega)) (hw.holds.rootSlot v)
  obtain ⟨pd, st₂, node₂, h₂, hw₂, hpd⟩ := ensureTable_within src supply (by omega : 1 < 3) 'D'
    hw₁ (hS 1 (by omega)) hpdpt
  obtain ⟨pt, st₃, node₃, h₃, hw₃, hpt⟩ := ensureTable_within src supply (by omega : 0 < 3) 'E'
    hw₂ (hS 0 (by omega)) hpd
  have hleaf := hw₃.holds.storeLeaf src hp hpt flags
  obtain ⟨N, hNS, hN, hroom⟩ := hw₃.counted
  refine ⟨_, node₃.set 0 (pageNumber v) ⟨p, entryWritable flags⟩,
    bind_eq_ok.mpr ⟨_, h₁, bind_eq_ok.mpr ⟨_, h₂, bind_eq_ok.mpr ⟨_, h₃, rfl⟩⟩⟩, ?_, N, hNS, ?_,
    hroom⟩
  · rw [hleaf.leaf]
    exact hleaf
  · -- A leaf is below every table.
    intro x hx
    rw [SlotMap.set_of_ne (by omega)]
    exact hN x hx

/-- **As many pages as the calls name groups are enough.** -/
theorem mapCalls_within (src : FreshSource alloc ok) (supply : PageSupply alloc room)
    {calls : List MapCall} (hp : ∀ c ∈ calls, IsFrame c.paddr)
    (hS : ∀ c ∈ calls, ∀ l, l < 3 → (l, pageNumber c.vaddr / 512 ^ (l + 1)) ∈ S)
    (hw : Within ok room root S node st) :
    ∃ st', mapCalls alloc root calls st = .ok st' ∧ room st'.alloc 0 := by
  induction calls generalizing node st with
  | nil =>
      obtain ⟨N, -, -, hroom⟩ := hw.counted
      exact ⟨st, rfl, supply.of_le _ _ _ hroom (Nat.zero_le _)⟩
  | cons c calls ih =>
      obtain ⟨st₁, node₁, h₁, hw₁⟩ := mapPageDual_within src supply (hp c (by simp)) hw
        (hS c (by simp)) c.flags
      obtain ⟨st₂, h₂, hroom⟩ := ih (fun d hd => hp d (by simp [hd]))
        (fun d hd => hS d (by simp [hd])) hw₁
      exact ⟨st₂, bind_eq_ok.mpr ⟨st₁, h₁, h₂⟩, hroom⟩

/-- A fresh root has bound nothing yet. -/
theorem within_rootOnly (hroot : IsFrame root) (hzero : ∀ x, InBlock root 4096 x → st.mem x = 0)
    (hknown : ok (fun p => p = root) st.alloc st.mem) (hroom : room st.alloc S.card) :
    Within ok room root S (rootOnly root) st := by
  refine ⟨?_, ∅, Finset.empty_subset S, by simp, by simpa using hroom⟩
  have hholds := holdsAs_rootOnly hroot hzero hknown
  rw [hholds.leaf]
  exact hholds

end Count

/-! ## Logged allocators -/

/-- One result of an allocator: the page, and the state after the call. -/
structure Result (σ : Type) where
  page : UInt64
  after : σ
deriving DecidableEq, Repr

/-- An allocator that keeps the list of its results next to its state. -/
def logged {σ : Type} (alloc : PageAllocator σ) : PageAllocator (σ × List (Result σ)) :=
  fun s m => do
    let (p, s', m') ← alloc s.1 m
    .ok (p, (s', s.2 ++ [⟨p, s'⟩]), m')

/-- Stage 1, together with the results of all its `allocPage` calls. -/
def buildPagingLogged (h : Handover) (m : Memory) :
    Except Stop (Paging × List (Result AllocState)) := do
  let e ← prepare h m
  let (pml4Phys, s, m) ← logged (allocPage e) (initialAlloc e, []) m
  if pml4Phys = 0 then .error (.failCode 'B')
  else do
    let st ← mapLayout (logged (allocPage e)) pml4Phys h ⟨s, m⟩
    .ok (⟨pml4Phys, st.mem⟩, st.alloc.2)

/-- Whenever `alloc` finds a page, `alloc'` finds the same one, in the state that `f` assigns. -/
def Simulates {σ τ : Type} (f : σ → τ) (alloc : PageAllocator σ) (alloc' : PageAllocator τ) :
    Prop :=
  ∀ s m p s' m', alloc s m = .ok (p, s', m') → p ≠ 0 → alloc' (f s) m = .ok (p, f s', m')

section Simulation

variable {σ τ : Type} {f : σ → τ} {alloc : PageAllocator σ} {alloc' : PageAllocator τ}
  {st st' : BuildState σ}

/-- The state of the builder under `f`. -/
def BuildState.map (f : σ → τ) (st : BuildState σ) : BuildState τ := ⟨f st.alloc, st.mem⟩

@[simp] theorem BuildState.map_id (st : BuildState σ) : st.map id = st := rfl

theorem ensureTable_simulates (sim : Simulates f alloc alloc') {code : Char} {entry t : UInt64}
    (h : ensureTable alloc code entry st = .ok (t, st')) :
    ensureTable alloc' code entry (st.map f) = .ok (t, st'.map f) := by
  rcases ensureTable_cases h with ⟨hpresent, ht, hst⟩ | ⟨habsent, hne, s, m, halloc, rfl⟩
  · have hpresent' : entryPresent ((st.map f).mem.load64 entry) = true := hpresent
    rw [ht, hst]
    exact ensureTable_present alloc' code hpresent'
  · have hzero : (st.map f).mem.load64 entry &&& ptePresent = 0 := bne_eq_false_iff_eq.mp habsent
    have hsim : alloc' (st.map f).alloc (st.map f).mem = .ok (t, f s, m) :=
      sim _ _ _ _ _ halloc hne
    unfold ensureTable
    simp only [hzero, if_true]
    rw [hsim]
    simp only [bind, Except.bind, hne, if_false]
    rfl

theorem mapPageDual_simulates (sim : Simulates f alloc alloc') {root v p flags : UInt64}
    (h : mapPageDual alloc root v p flags st = .ok st') :
    mapPageDual alloc' root v p flags (st.map f) = .ok (st'.map f) := by
  obtain ⟨⟨pdpt, st₁⟩, h₁, h⟩ := bind_eq_ok.mp h
  obtain ⟨⟨pd, st₂⟩, h₂, h⟩ := bind_eq_ok.mp h
  obtain ⟨⟨pt, st₃⟩, h₃, h⟩ := bind_eq_ok.mp h
  obtain rfl := Except.ok.inj h
  exact bind_eq_ok.mpr ⟨_, ensureTable_simulates sim h₁, bind_eq_ok.mpr
    ⟨_, ensureTable_simulates sim h₂, bind_eq_ok.mpr ⟨_, ensureTable_simulates sim h₃, rfl⟩⟩⟩

/-- **A completed list of calls completes alike with the simulating allocator.** -/
theorem mapCalls_simulates (sim : Simulates f alloc alloc') {root : UInt64}
    {calls : List MapCall} (h : mapCalls alloc root calls st = .ok st') :
    mapCalls alloc' root calls (st.map f) = .ok (st'.map f) := by
  induction calls generalizing st with
  | nil =>
      obtain rfl := Except.ok.inj h
      rfl
  | cons c calls ih =>
      obtain ⟨st₁, hcall, h⟩ := bind_eq_ok.mp h
      exact bind_eq_ok.mpr ⟨_, mapPageDual_simulates sim hcall, ih h⟩

/-- A logged call and the call behind it. -/
theorem logged_eq_ok {s s' : σ × List (Result σ)} {m m' : Memory} {p : UInt64} :
    logged alloc s m = .ok (p, s', m') ↔
      ∃ t, alloc s.1 m = .ok (p, t, m') ∧ s' = (t, s.2 ++ [⟨p, t⟩]) := by
  unfold logged
  rw [bind_eq_ok]
  constructor
  · rintro ⟨⟨q, t, m₁⟩, halloc, h⟩
    simp only [Except.ok.injEq, Prod.mk.injEq] at h
    obtain ⟨rfl, rfl, rfl⟩ := h
    exact ⟨t, halloc, rfl⟩
  · rintro ⟨t, halloc, rfl⟩
    exact ⟨_, halloc, rfl⟩

/-- Forgetting the log. -/
theorem simulates_fst (alloc : PageAllocator σ) : Simulates Prod.fst (logged alloc) alloc := by
  intro s m p s' m' h _
  obtain ⟨t, halloc, rfl⟩ := logged_eq_ok.mp h
  exact halloc

/-- Logging respects simulation by the same states. -/
theorem Simulates.logged {alloc alloc' : PageAllocator σ} (sim : Simulates id alloc alloc') :
    Simulates id (logged alloc) (logged alloc') := by
  intro s m p s' m' h hne
  obtain ⟨t, halloc, rfl⟩ := logged_eq_ok.mp h
  exact logged_eq_ok.mpr ⟨t, sim _ _ _ _ _ halloc hne, rfl⟩

/-- A logged source is as fresh as the source. -/
theorem FreshSource.logged {ok : (UInt64 → Prop) → σ → Memory → Prop}
    (src : FreshSource alloc ok) : FreshSource (logged alloc) fun live s => ok live s.1 where
  grant := by
    intro live s m p s' m' hok h hne
    obtain ⟨t, halloc, rfl⟩ := logged_eq_ok.mp h
    exact src.grant _ _ _ _ _ _ hok halloc hne
  store := fun live s => src.store live s.1

end Simulation

/-- A logged run of Stage 1, and the run behind it. -/
theorem buildPaging_of_logged {h : Handover} {m m₁ : Memory} {e : AllocEnv} {root : UInt64}
    {s : AllocState × List (Result AllocState)}
    {st : BuildState (AllocState × List (Result AllocState))} (hp : Placed h)
    (he : prepare h m = .ok e)
    (hroot : logged (allocPage e) (initialAlloc e, []) m = .ok (root, s, m₁)) (hne : root ≠ 0)
    (hrun : mapCalls (logged (allocPage e)) root (layoutCalls h) ⟨s, m₁⟩ = .ok st) :
    buildPaging h m = .ok ⟨root, st.mem⟩ ∧
      buildPagingLogged h m = .ok (⟨root, st.mem⟩, st.alloc.2) := by
  have hplainRoot := simulates_fst (allocPage e) (initialAlloc e, []) m root s m₁ hroot hne
  have hplain := mapCalls_simulates (simulates_fst (allocPage e)) hrun
  rw [← mapLayout_eq hp] at hrun hplain
  constructor
  · refine bind_eq_ok.mpr ⟨e, he, bind_eq_ok.mpr ⟨_, hplainRoot, ?_⟩⟩
    simp only [hne, if_false]
    exact bind_eq_ok.mpr ⟨_, hplain, rfl⟩
  · refine bind_eq_ok.mpr ⟨e, he, bind_eq_ok.mpr ⟨_, hroot, ?_⟩⟩
    simp only [hne, if_false]
    exact bind_eq_ok.mpr ⟨_, hrun, rfl⟩

/-! ## The buffer as a pool -/

/-- The allocator's environment cut down to the window below `limit`. -/
def AllocEnv.below (e : AllocEnv) (limit : UInt64) : AllocEnv :=
  { e with scratchEnd := limit, ranges := [] }

section Below

variable (e : AllocEnv) (limit : UInt64)

@[simp] theorem AllocEnv.below_kernelPhys : (e.below limit).kernelPhys = e.kernelPhys := rfl

@[simp] theorem AllocEnv.below_kernelEnd : (e.below limit).kernelEnd = e.kernelEnd := rfl

@[simp] theorem AllocEnv.below_stackPhys : (e.below limit).stackPhys = e.stackPhys := rfl

@[simp] theorem AllocEnv.below_stackEnd : (e.below limit).stackEnd = e.stackEnd := rfl

@[simp] theorem AllocEnv.below_scratch : (e.below limit).scratch = e.scratch := rfl

@[simp] theorem AllocEnv.below_scratchEnd : (e.below limit).scratchEnd = limit := rfl

@[simp] theorem AllocEnv.below_ranges : (e.below limit).ranges = [] := rfl

theorem initialAlloc_below : initialAlloc (e.below limit) = initialAlloc e := rfl

end Below

/-- A page found under a tighter bound is found under a wider one. -/
theorem cursorLoop_mono {more more' skip : UInt64 → Bool}
    (hmore : ∀ x, more x = true → more' x = true) {p next' : UInt64} :
    ∀ fuel next, cursorLoop more skip fuel next = .ok (some p, next') →
      cursorLoop more' skip fuel next = .ok (some p, next') := by
  intro fuel
  induction fuel with
  | zero =>
      intro next h
      simp [cursorLoop] at h
  | succ fuel ih =>
      intro next h
      rw [cursorLoop] at h ⊢
      by_cases hm : more next = true
      · rw [if_pos hm] at h
        rw [if_pos (hmore next hm)]
        by_cases hs : skip next = true
        · rw [if_pos hs] at h ⊢
          exact ih _ h
        · rw [if_neg hs] at h ⊢
          exact h
      · rw [if_neg hm] at h
        cases h

/-- The allocator of the smaller window, where it finds a page, is the allocator. -/
theorem below_simulates {e : AllocEnv} {limit : UInt64} (hlimit : limit ≤ e.scratchEnd) :
    Simulates id (allocPage (e.below limit)) (allocPage e) := by
  intro s m p s' m' h hne
  rcases allocPage_cases h with ⟨hnext, rfl⟩ | ⟨-, hzero, -⟩
  · obtain ⟨⟨found, next⟩, hloop, hnext⟩ := bind_eq_ok.mp hnext
    cases found with
    | some q =>
        simp only [Except.ok.injEq, Prod.mk.injEq, Option.some.injEq] at hnext
        obtain ⟨rfl, rfl⟩ := hnext
        have hmore : ∀ x, decide (x + pageSize ≤ limit) = true →
            decide (x + pageSize ≤ e.scratchEnd) = true :=
          fun x hx => decide_eq_true (UInt64.le_trans (of_decide_eq_true hx) hlimit)
        have hwide := cursorLoop_mono hmore _ _ hloop
        have hfound : nextPage e s = .ok (some q, { s with scratchNext := next }) :=
          bind_eq_ok.mpr ⟨_, hwide, rfl⟩
        exact bind_eq_ok.mpr ⟨_, hfound, rfl⟩
    | none =>
        -- Without ranges the fallback path finds nothing.
        have hnone : ∀ left fbIdx fbNext, fallbackPath (e.below limit) next left fbIdx fbNext =
            .ok (none, ⟨next, fbIdx, fbNext⟩) := by
          intro left fbIdx fbNext
          cases left with
          | zero => rfl
          | succ left => rfl
        simp only [hnone] at hnext
        cases hnext
  · exact absurd hzero hne

/-- A result out of the window `[base, limit)`, with the fallback path untouched. -/
structure PoolResult (base limit : Nat) (r : Result AllocState) : Prop where
  nonzero : r.page ≠ 0
  low : base ≤ r.page.toNat
  high : r.page.toNat + 4096 ≤ limit
  fbIdx : r.after.fbIdx = 0
  fbNext : r.after.fbNext = 0

/-- The window has `n` more pages, and all results so far came from it. -/
structure PoolRoom (e : AllocEnv) (total : Nat) (s : AllocState × List (Result AllocState))
    (n : Nat) : Prop where
  window : WindowRoom e s.1 n
  low : e.scratch.toNat ≤ s.1.scratchNext.toNat
  fbIdx : s.1.fbIdx = 0
  fbNext : s.1.fbNext = 0
  count : s.2.length + n ≤ total
  results : ∀ r ∈ s.2, PoolResult e.scratch.toNat e.scratchEnd.toNat r

/-- One call in a pool with room. -/
theorem PoolRoom.grant {e : AllocEnv} {total n : Nat}
    {s : AllocState × List (Result AllocState)} (h : PoolRoom e total s (n + 1)) (m : Memory) :
    ∃ s', logged (allocPage e) s m =
        .ok (s.1.scratchNext, s', zeroPage m s.1.scratchNext) ∧ PoolRoom e total s' n := by
  obtain ⟨halloc, hwindow⟩ := h.window.allocPage m
  have hfirst := h.window.first
  have hend := e.scratchEnd.toNat_lt
  have hlow := h.low
  have hcount := h.count
  have hstep : (s.1.scratchNext + pageSize).toNat = s.1.scratchNext.toNat + 4096 :=
    toNat_add_pageSize (by omega)
  refine ⟨_, logged_eq_ok.mpr ⟨_, halloc, rfl⟩, hwindow, ?_, h.fbIdx, h.fbNext, ?_, ?_⟩
  · simp only [hstep]
    omega
  · simp only [List.length_append, List.length_singleton]
    omega
  · intro r hr
    rcases List.mem_append.mp hr with hr | hr
    · exact h.results r hr
    · obtain rfl := List.mem_singleton.mp hr
      exact ⟨h.window.nonzero, h.low, hfirst, h.fbIdx, h.fbNext⟩

theorem poolSupply (e : AllocEnv) (total : Nat) :
    PageSupply (logged (allocPage e)) (PoolRoom e total) where
  grant := fun _ _ m h =>
    let ⟨s', halloc, hroom⟩ := h.grant m
    ⟨_, s', _, halloc, h.window.nonzero, hroom⟩
  of_le := fun _ _ _ h hk =>
    ⟨h.window.of_le hk, h.low, h.fbIdx, h.fbNext, by have := h.count; omega, h.results⟩

/-- **A window with a page for the root and one for each group is enough.** -/
theorem pool_run {e : AllocEnv} {m : Memory} {S : Finset (Nat × Nat)} (calls : List MapCall)
    (ok : e.Ok) (src : PageSource (allocPage e) (AllocInv e) (Consumed e))
    (hwindow : WindowRoom e (initialAlloc e) (S.card + 1)) (hp : ∀ c ∈ calls, IsFrame c.paddr)
    (hS : ∀ c ∈ calls, ∀ l, l < 3 → (l, pageNumber c.vaddr / 512 ^ (l + 1)) ∈ S) :
    ∃ root s m₁ st, logged (allocPage e) (initialAlloc e, []) m = .ok (root, s, m₁) ∧ root ≠ 0 ∧
      mapCalls (logged (allocPage e)) root calls ⟨s, m₁⟩ = .ok st ∧
      PoolRoom e (S.card + 1) st.alloc 0 := by
  have hroom : PoolRoom e (S.card + 1) (initialAlloc e, []) (S.card + 1) :=
    ⟨hwindow, le_refl _, rfl, rfl, by simp, by simp⟩
  obtain ⟨s, hroot, hroom'⟩ := hroom.grant m
  have hne : (initialAlloc e).scratchNext ≠ 0 := hwindow.nonzero
  have hfirst : allocPage e (initialAlloc e) m =
      .ok ((initialAlloc e).scratchNext, s.1, zeroPage m (initialAlloc e).scratchNext) :=
    simulates_fst (allocPage e) (initialAlloc e, []) m _ s _ hroot hne
  have g := src _ _ _ _ _ (allocInv_initial ok) hfirst hne
  have hknown : TablesUsed (AllocInv e) (Consumed e) (fun p => p = (initialAlloc e).scratchNext)
      s.1 (zeroPage m (initialAlloc e).scratchNext) := by
    refine ⟨g.inv, ?_⟩
    rintro q rfl
    exact ⟨g.isFrame, g.taken⟩
  have hstart : Within (fun live t => TablesUsed (AllocInv e) (Consumed e) live t.1)
      (PoolRoom e (S.card + 1)) (initialAlloc e).scratchNext S
      (rootOnly (initialAlloc e).scratchNext) ⟨s, zeroPage m (initialAlloc e).scratchNext⟩ :=
    within_rootOnly g.isFrame g.zeroed hknown hroom'
  obtain ⟨st, hrun, hend⟩ := mapCalls_within src.fresh.logged (poolSupply e _) hp hS hstart
  exact ⟨_, s, _, st, hroot, hne, hrun, hend⟩

/-! ## The tables of four ranges -/

/-- The groups at one level that `n` pages from page number `first` touch. -/
def levelSlots (l first n : Nat) : Finset (Nat × Nat) :=
  (Finset.Icc (first / 512 ^ (l + 1)) ((first + (n - 1)) / 512 ^ (l + 1))).image (Prod.mk l)

/-- The groups of page tables, page directories and directory-pointer tables. -/
def rangeSlots (first n : Nat) : Finset (Nat × Nat) :=
  levelSlots 0 first n ∪ (levelSlots 1 first n ∪ levelSlots 2 first n)

/-- The groups of one half; `shift` is the page number of its offset. -/
def halfSlots (h : Handover) (shift : Nat) : Finset (Nat × Nat) :=
  rangeSlots (h.kernelPhys.toNat / 4096 + shift) h.kernelPages.toNat ∪
    (rangeSlots (h.stackPhys.toNat / 4096 + shift) 4 ∪
      (rangeSlots (h.mmapPhys.toNat / 4096 + shift) 1 ∪
        rangeSlots (lapicMmioPhys.toNat / 4096 + shift) 1))

def layoutSlots (h : Handover) : Finset (Nat × Nat) := halfSlots h 0 ∪ halfSlots h (2 ^ 35)

theorem mem_rangeSlots {first n k l : Nat} (hlow : first ≤ k) (hhigh : k ≤ first + (n - 1))
    (hl : l < 3) : (l, k / 512 ^ (l + 1)) ∈ rangeSlots first n := by
  have hmem : (l, k / 512 ^ (l + 1)) ∈ levelSlots l first n :=
    Finset.mem_image_of_mem _
      (Finset.mem_Icc.mpr ⟨Nat.div_le_div_right hlow, Nat.div_le_div_right hhigh⟩)
  simp only [rangeSlots, Finset.mem_union]
  have hcases : l = 0 ∨ l = 1 ∨ l = 2 := by omega
  rcases hcases with rfl | rfl | rfl
  · exact Or.inl hmem
  · exact Or.inr (Or.inl hmem)
  · exact Or.inr (Or.inr hmem)

/-- A range touches at most one group more than it would from an aligned start. -/
theorem card_levelSlots_le (l first n : Nat) :
    (levelSlots l first n).card ≤ (n - 1 + (512 ^ (l + 1) - 1)) / 512 ^ (l + 1) + 1 := by
  have hpos : 0 < 512 ^ (l + 1) := Nat.pow_pos (by decide)
  unfold levelSlots
  refine Finset.card_image_le.trans ?_
  rw [Nat.card_Icc]
  generalize 512 ^ (l + 1) = d at hpos ⊢
  have hdiv : (first + (n - 1)) / d ≤ first / d + (n - 1 + (d - 1)) / d := by
    have hfirst := Nat.lt_div_mul_add (a := first) hpos
    have hrest := Nat.lt_div_mul_add (a := n - 1 + (d - 1)) hpos
    apply Nat.le_of_lt_succ
    rw [Nat.div_lt_iff_lt_mul hpos, Nat.succ_mul, Nat.add_mul]
    omega
  exact Nat.sub_le_iff_le_add.mpr (by linarith)

theorem card_rangeSlots_le (first n : Nat) :
    (rangeSlots first n).card ≤ (n - 1 + 511) / 512 + (n - 1 + (512 ^ 2 - 1)) / 512 ^ 2 +
      (n - 1 + (512 ^ 3 - 1)) / 512 ^ 3 + 3 := by
  have h₀ := card_levelSlots_le 0 first n
  have h₁ := card_levelSlots_le 1 first n
  have h₂ := card_levelSlots_le 2 first n
  have hunion := Finset.card_union_le (levelSlots 0 first n)
    (levelSlots 1 first n ∪ levelSlots 2 first n)
  have hunion' := Finset.card_union_le (levelSlots 1 first n) (levelSlots 2 first n)
  unfold rangeSlots
  omega

/-- **The tables of both halves, for every alignment of the four ranges.** -/
theorem card_layoutSlots_le {h : Handover} (hpages : h.kernelPages.toNat ≤ 16384) :
    (layoutSlots h).card ≤ 2 * ((h.kernelPages.toNat - 1 + 511) / 512 + 17) := by
  have hhalf : ∀ shift, (halfSlots h shift).card ≤ (h.kernelPages.toNat - 1 + 511) / 512 + 17 := by
    intro shift
    have hkernel := card_rangeSlots_le (h.kernelPhys.toNat / 4096 + shift) h.kernelPages.toNat
    have hstack := card_rangeSlots_le (h.stackPhys.toNat / 4096 + shift) 4
    have hmmap := card_rangeSlots_le (h.mmapPhys.toNat / 4096 + shift) 1
    have hlapic := card_rangeSlots_le (lapicMmioPhys.toNat / 4096 + shift) 1
    unfold halfSlots
    refine (Finset.card_union_le _ _).trans ?_
    refine (Nat.add_le_add_left ((Finset.card_union_le _ _).trans
      (Nat.add_le_add_left (Finset.card_union_le _ _) _)) _).trans ?_
    omega
  refine (Finset.card_union_le _ _).trans ?_
  have hlow := hhalf 0
  have hhigh := hhalf (2 ^ 35)
  omega

/-- The groups of every page that Stage 1 maps. -/
theorem mem_layoutSlots {h : Handover} (hp : Placed h) (hmmap : h.mmapPhys.toNat < 2 ^ 47)
    {c : MapCall} (hc : c ∈ layoutCalls h) {l : Nat} (hl : l < 3) :
    (l, pageNumber c.vaddr / 512 ^ (l + 1)) ∈ layoutSlots h := by
  obtain ⟨p, hm, hv, -, -⟩ := (mem_layoutCalls_iff hp hmmap c).mp hc
  have hbelow := (hm.below hp hmmap).2
  have hka := hp.kernel_aligned
  have hsa := hp.stack_aligned
  have haligned := hm.1
  have hhalf : ∀ shift, (l, (p.toNat / 4096 + shift) / 512 ^ (l + 1)) ∈ halfSlots h shift := by
    intro shift
    simp only [halfSlots, Finset.mem_union]
    rcases hm.2 with hin | hin | rfl | rfl
    · obtain ⟨hlow, hhigh⟩ := hin
      exact Or.inl (mem_rangeSlots (by omega) (by omega) hl)
    · obtain ⟨hlow, hhigh⟩ := hin
      exact Or.inr (Or.inl (mem_rangeSlots (by omega) (by omega) hl))
    · exact Or.inr (Or.inr (Or.inl (mem_rangeSlots (le_refl _) (le_refl _) hl)))
    · exact Or.inr (Or.inr (Or.inr (mem_rangeSlots (le_refl _) (le_refl _) hl)))
  rw [layoutSlots, Finset.mem_union]
  rcases hv with hv | hv
  · rw [hv, pageNumber_low hbelow]
    exact Or.inl (hhalf 0)
  · rw [hv, pageNumber_alias hbelow]
    exact Or.inr (hhalf (2 ^ 35))

/-! ## The loader's handover -/

/-- A byte of the buffer the loader allocated for the memory map. -/
def InBuffer (h : Handover) (probeSize x : Nat) : Prop :=
  h.mmapPhys.toNat ≤ x ∧ x < h.mmapPhys.toNat + mmapBufferPages probeSize * 4096

/-- The pages of the loader's three requests: aligned, apart, and below `2 ^ 47`. -/
structure LoaderPages (h : Handover) (probeSize : Nat) : Prop where
  kernel_aligned : h.kernelPhys.toNat % 4096 = 0
  stack_aligned : h.stackPhys.toNat % 4096 = 0
  mmap_aligned : h.mmapPhys.toNat % 4096 = 0
  kernel_below : h.kernelPhys.toNat + h.kernelPages.toNat * 4096 ≤ 2 ^ 47
  stack_below : h.stackPhys.toNat + 4 * 4096 ≤ 2 ^ 47
  mmap_below : h.mmapPhys.toNat + mmapBufferPages probeSize * 4096 ≤ 2 ^ 47
  kernel_stack : ∀ x, InKernelImage h x → ¬ InStackRange h x
  kernel_buffer : ∀ x, InKernelImage h x → ¬ InBuffer h probeSize x
  stack_buffer : ∀ x, InStackRange h x → ¬ InBuffer h probeSize x

/-- A handover of the loader, for a map whose probed size is `probeSize`; the loader does not look
where the buffer lies. -/
structure LoaderHandover (h : Handover) (probeSize : Nat) : Prop where
  pages : LoaderPages h probeSize
  /-- A page at address `0` looks like an empty pool, see `not_buildPaging_pool`. -/
  mmap_ne : h.mmapPhys ≠ 0
  kernelPages_pos : 0 < h.kernelPages.toNat
  used_le : h.mmapSizeUsed.toNat ≤ probeSize

/-- A descriptor that the scan takes for the buffer's covers the whole buffer, and its end can be
rounded up to a page. -/
def FoundCovers (h : Handover) (m : Memory) (probeSize : Nat) : Prop :=
  ∀ i, i < h.descCount.toNat → (descriptor h m i).HoldsBuffer h →
    (∀ x, InBuffer h probeSize x → (descriptor h m i).Covers x) ∧
      (descriptor h m i).physicalStart.toNat + (descriptor h m i).numberOfPages.toNat * 4096 ≤
        2 ^ 64 - 4096

/-- The buffer has the pages that `efi_main` requests for it. -/
theorem mmapPagesOf_eq {mmapSize : UInt64} (h : mmapSize.toNat + 2 ^ 20 ≤ 2 ^ 64) :
    (Loader.mmapPagesOf mmapSize).toNat = mmapBufferPages mmapSize.toNat :=
  Loader.toNat_mmapPagesOf h

/-- A safe handoff of `efi_main`, with pages as firmware grants them, is such a handover. -/
theorem efiMain_loaderHandover {σ : Type} {bs : Loader.BootServices σ} {view : σ → Loader.MapView}
    {blob : Loader.KernelBlob} {s : σ} {m : Memory} (ok : Loader.BootServicesOk bs view)
    (hsafe : Loader.SafeHandoff bs view blob s m)
    (hpages : LoaderPages (Loader.efiMain bs blob s m).handover
      (Loader.mapProbe bs blob s m).mmapSize.toNat) :
    LoaderHandover (Loader.efiMain bs blob s m).handover
      (Loader.mapProbe bs blob s m).mmapSize.toNat where
  pages := hpages
  mmap_ne := hsafe.buffer_ne ok
  kernelPages_pos := by
    show 0 < (Loader.kernelPagesOf blob).toNat
    simp only [Loader.kernelPagesOf]
    split
    · decide
    · rename_i hne
      rw [eq_zero_iff_toNat] at hne
      exact Nat.pos_of_ne_zero hne
  used_le := by
    rw [hsafe.size, ok.mapProbe_size]
    exact (ok.mapFill_status.mp hsafe.filled).2

section Pool

variable {h : Handover} {m : Memory} {probeSize : Nat} {e : AllocEnv}

theorem LoaderHandover.placed (hl : LoaderHandover h probeSize) : Placed h where
  kernel_aligned := hl.pages.kernel_aligned
  stack_aligned := hl.pages.stack_aligned
  mmap_aligned := hl.pages.mmap_aligned
  kernel_below := hl.pages.kernel_below
  stack_below := hl.pages.stack_below
  mmap_below := by
    have hused := hl.used_le
    have hbelow := hl.pages.mmap_below
    unfold mmapBufferPages at hbelow
    omega

/-- Whatever size was probed, the buffer has 130 pages. -/
theorem le_mmapBufferPages (probeSize : Nat) : 130 ≤ mmapBufferPages probeSize := by
  unfold mmapBufferPages
  omega

/-- The end of the first 130 pages of the buffer. -/
theorem LoaderHandover.exists_poolEnd (hl : LoaderHandover h probeSize) :
    ∃ limit : UInt64, limit.toNat = h.mmapPhys.toNat + 130 * 4096 := by
  have hbelow := hl.placed.mmap_below
  have hsize : (130 * pageSize).toNat = 130 * 4096 := rfl
  exact ⟨h.mmapPhys + 130 * pageSize, by rw [toNat_add_of_lt (by omega), hsize]⟩

/-- The kernel lies below the buffer or above it. -/
theorem LoaderHandover.kernel_apart (hl : LoaderHandover h probeSize) :
    h.kernelPhys.toNat + h.kernelPages.toNat * 4096 ≤ h.mmapPhys.toNat ∨
      h.mmapPhys.toNat + mmapBufferPages probeSize * 4096 ≤ h.kernelPhys.toNat := by
  have hpos := hl.kernelPages_pos
  have hbuffer := le_mmapBufferPages probeSize
  have hfirst := hl.pages.kernel_buffer h.kernelPhys.toNat ⟨le_refl _, by omega⟩
  have hmap := hl.pages.kernel_buffer h.mmapPhys.toNat
  unfold InBuffer InKernelImage at hmap
  unfold InBuffer at hfirst
  omega

theorem LoaderHandover.stack_apart (hl : LoaderHandover h probeSize) :
    h.stackPhys.toNat + 4 * 4096 ≤ h.mmapPhys.toNat ∨
      h.mmapPhys.toNat + mmapBufferPages probeSize * 4096 ≤ h.stackPhys.toNat := by
  have hbuffer := le_mmapBufferPages probeSize
  have hfirst := hl.pages.stack_buffer h.stackPhys.toNat ⟨le_refl _, by omega⟩
  have hmap := hl.pages.stack_buffer h.mmapPhys.toNat
  unfold InBuffer InStackRange at hmap
  unfold InBuffer at hfirst
  omega

/-- **Both ways to compute the end of the window leave 130 pages of the buffer inside it.** -/
theorem LoaderHandover.poolEnd_le (hl : LoaderHandover h probeSize)
    (hfound : FoundCovers h m probeSize) :
    h.mmapPhys.toNat + 130 * 4096 ≤ (scratchEndOf h (scan h m)).toNat := by
  have hbuffer := le_mmapBufferPages probeSize
  unfold scratchEndOf
  split
  · -- The guess: 256 pages behind the map, or the kernel or stack behind the buffer.
    have hend := hl.placed.toNat_mmapEnd
    have hkernel := hl.kernel_apart
    have hstack := hl.stack_apart
    have hbelow := hl.placed.mmap_below
    have hlow : h.mmapPhys.toNat ≤ h.mmapEnd.toNat := by omega
    rw [toNat_headroomEnd hl.placed]
    refine Nat.le_min.mpr ⟨by omega, Nat.le_min.mpr ⟨?_, ?_⟩⟩
    · split <;> omega
    · split <;> omega
  · rename_i hne
    rcases scan_mmapAllocEnd h m with heq | ⟨i, hi, hholds, heq⟩
    · exact absurd heq hne
    · obtain ⟨hcovers, hroom⟩ := hfound i (hi.trans_le (scanLimit_le h)) hholds
      have hlast := (hcovers (h.mmapPhys.toNat + mmapBufferPages probeSize * 4096 - 1)
        ⟨by omega, by omega⟩).2
      have hfrom : ((descriptor h m i).endFrom (descriptor h m i).physicalStart).toNat = _ :=
        (descriptor h m i).toNat_endFrom (by omega)
      rw [heq, toNat_pageAlignUp (by omega), hfrom]
      omega

/-! ## Sufficiency -/

/-- The pool is a well-formed environment, whatever the map describes. -/
theorem LoaderHandover.pool_ok (hl : LoaderHandover h probeSize) (he : prepare h m = .ok e)
    {limit : UInt64} (hlimit : limit.toNat = h.mmapPhys.toNat + 130 * 4096) :
    (e.below limit).Ok := by
  have hp := hl.placed
  have hka := hp.kernel_aligned
  have hsa := hp.stack_aligned
  have hma := hp.mmap_aligned
  have hmb := hp.mmap_below
  have hscratch : e.scratch = h.mmapPhys := by
    obtain ⟨-, -, rfl⟩ := prepare_eq_ok he
    exact hp.scratch_eq
  obtain ⟨hkp, hke, hsp, hse⟩ := prepare_layout hp he
  constructor
  · rw [AllocEnv.below_kernelPhys, hkp]
    exact hka
  · rw [AllocEnv.below_kernelEnd, hke]
    omega
  · rw [AllocEnv.below_stackPhys, hsp]
    exact hsa
  · rw [AllocEnv.below_stackEnd, hse]
    omega
  · rw [AllocEnv.below_scratch, hscratch]
    exact hma
  · rw [AllocEnv.below_scratch, hscratch]
    omega
  · rw [AllocEnv.below_scratchEnd, hlimit]
    omega
  · rw [AllocEnv.below_scratchEnd, hlimit]
    omega
  · simp
  · simp

/-- Before the first call, the pool has all its pages. -/
theorem LoaderHandover.pool_room (hl : LoaderHandover h probeSize) (he : prepare h m = .ok e)
    {limit : UInt64} (hlimit : limit.toNat = h.mmapPhys.toNat + 130 * 4096) :
    WindowRoom (e.below limit) (initialAlloc (e.below limit)) 130 := by
  have hkernel := hl.kernel_apart
  have hstack := hl.stack_apart
  have hbuffer := le_mmapBufferPages probeSize
  obtain ⟨hkp, hke, hsp, hse⟩ := prepare_layout hl.placed he
  have hscratch : (initialAlloc e).scratchNext = h.mmapPhys := by
    obtain ⟨-, -, rfl⟩ := prepare_eq_ok he
    exact hl.placed.scratch_eq
  rw [initialAlloc_below]
  constructor
  · rw [hscratch, AllocEnv.below_scratchEnd]
    omega
  · rw [hscratch]
    exact hl.mmap_ne
  · intro p hlow hhigh
    rw [hscratch] at hlow
    rw [AllocEnv.below_scratchEnd, hlimit] at hhigh
    unfold AllocEnv.inKernel AllocEnv.inStack
    simp only [AllocEnv.below_kernelPhys, AllocEnv.below_kernelEnd, AllocEnv.below_stackPhys,
      AllocEnv.below_stackEnd, Bool.and_eq_false_iff, decide_eq_false_iff_not, ge_iff_le,
      UInt64.le_iff_toNat_le, UInt64.lt_iff_toNat_lt, hke, hse, hkp, hsp]
    omega

/-- **The page-table pool is sufficient.**  For every handover of the loader, every memory map
and every kernel of at most 16384 pages, Stage 1 either refuses the map with code `A` or builds
its tables.  It then takes at most one root and as many tables as the ranges can need, all of
them inside the loader's buffer and none through the fallback path. -/
theorem buildPaging_pool (hl : LoaderHandover h probeSize) (hfound : FoundCovers h m probeSize)
    (hpages : h.kernelPages.toNat ≤ 16384) :
    ((h.descSize = 0 ∨ h.mmapSizeUsed < h.descSize) ∧
        buildPaging h m = .error (.failCode 'A')) ∨
      ∃ P results, buildPaging h m = .ok P ∧ buildPagingLogged h m = .ok (P, results) ∧
        results.length ≤ 1 + 2 * ((h.kernelPages.toNat - 1 + 511) / 512 + 17) ∧
        ∀ r ∈ results, PoolResult h.mmapPhys.toNat
          (h.mmapPhys.toNat + mmapBufferPages probeSize * 4096) r := by
  by_cases hmap : h.descSize = 0 ∨ h.mmapSizeUsed < h.descSize
  · refine Or.inl ⟨hmap, ?_⟩
    unfold buildPaging prepare
    rw [if_pos hmap]
    rfl
  refine Or.inr ?_
  obtain ⟨e, he⟩ : ∃ e, prepare h m = .ok e := by
    unfold prepare
    rw [if_neg hmap]
    exact ⟨_, rfl⟩
  have hp := hl.placed
  have hmmap := prepare_mmapPhys_lt hp he
  have hcard := card_layoutSlots_le hpages
  obtain ⟨limit, hlimit⟩ := hl.exists_poolEnd
  have hwindow := hl.poolEnd_le hfound
  have hbuffer := le_mmapBufferPages probeSize
  obtain ⟨hscratch, hscratchEnd⟩ :
      e.scratch = h.mmapPhys ∧ e.scratchEnd = scratchEndOf h (scan h m) := by
    obtain ⟨-, -, rfl⟩ := prepare_eq_ok he
    exact ⟨hp.scratch_eq, rfl⟩
  -- The run with the allocator of the pool alone.
  have ok := hl.pool_ok he hlimit
  have src := allocPage_pageSource ok (by
    rw [AllocEnv.below_scratchEnd, hlimit]
    exact ⟨by omega, by simp⟩)
  obtain ⟨root, s, m₁, st, hroot, hne, hrun, hend⟩ := pool_run (m := m) (S := layoutSlots h)
    (layoutCalls h) ok src ((hl.pool_room he hlimit).of_le (by omega))
    (fun c hc => isFrame_of_mem_layoutCalls hp hmmap hc)
    (fun c hc l hlt => mem_layoutSlots hp hmmap hc hlt)
  -- The kernel's allocator does the same, logged or not.
  have hsim : Simulates id (logged (allocPage (e.below limit))) (logged (allocPage e)) := by
    refine (below_simulates ?_).logged
    rw [UInt64.le_iff_toNat_le, hscratchEnd, hlimit]
    exact hwindow
  rw [initialAlloc_below] at hroot
  have hroot' := hsim (initialAlloc e, []) m root s m₁ hroot hne
  have hrun' := mapCalls_simulates hsim hrun
  rw [BuildState.map_id, BuildState.map_id] at hrun'
  obtain ⟨hbuild, hlog⟩ := buildPaging_of_logged hp he hroot' hne hrun'
  refine ⟨_, _, hbuild, hlog, ?_, ?_⟩
  · have hcount := hend.count
    omega
  · intro r hr
    have hresult := hend.results r hr
    rw [AllocEnv.below_scratch, AllocEnv.below_scratchEnd, hscratch, hlimit] at hresult
    have hhigh := hresult.high.trans
      (Nat.add_le_add_left (Nat.mul_le_mul_right 4096 hbuffer) h.mmapPhys.toNat)
    exact ⟨hresult.nonzero, hresult.low, hhigh, hresult.fbIdx, hresult.fbNext⟩

end Pool

theorem smallHandover_loaderHandover : LoaderHandover smallHandover 48 := by
  have hkernel : smallHandover.kernelPhys.toNat = 0x100000 := rfl
  have hpages : smallHandover.kernelPages.toNat = 1 := rfl
  have hstack : smallHandover.stackPhys.toNat = 0x200000 := rfl
  have hmmap : smallHandover.mmapPhys.toNat = 0x1000000 := rfl
  have hbuffer : mmapBufferPages 48 = 130 := rfl
  refine ⟨⟨?_, ?_, ?_, ?_, ?_, ?_, ?_, ?_, ?_⟩, by decide, by decide, by decide⟩
  all_goals
    simp only [InKernelImage, InStackRange, InBuffer, hkernel, hpages, hstack, hmmap, hbuffer]
  all_goals omega

theorem smallHandover_foundCovers : FoundCovers smallHandover (fun _ => 0) 48 := by
  intro i _ hholds
  rw [smallHandover_descriptor] at hholds
  exact absurd hholds.1 (by decide)

/-- In the small placement Stage 1 takes at most 35 pages. -/
theorem buildPaging_pool_small : ∃ P results, buildPaging smallHandover (fun _ => 0) = .ok P ∧
    buildPagingLogged smallHandover (fun _ => 0) = .ok (P, results) ∧ results.length ≤ 35 ∧
    ∀ r ∈ results, PoolResult 0x1000000 0x1082000 r := by
  rcases buildPaging_pool smallHandover_loaderHandover smallHandover_foundCovers (by decide) with
    ⟨hrefused, -⟩ | hbuilt
  · exact absurd hrefused (by decide)
  · exact hbuilt

/-- The small placement, with the buffer at address `0`. -/
def zeroHandover : Handover := { smallHandover with mmapPhys := 0 }

/-- What Stage 1 prepares for it: the window runs up to the kernel. -/
def zeroEnv : AllocEnv := { smallEnv with scratch := 0, scratchEnd := 0x100000 }

theorem zeroHandover_prepare : prepare zeroHandover (fun _ => 0) = .ok zeroEnv := by
  unfold prepare
  rw [scan_cleared (by decide)]
  rfl

/-- The first page of the window is the one at address `0`, which is read as an empty pool. -/
theorem zeroHandover_buildPaging : buildPaging zeroHandover (fun _ => 0) = .error (.failCode 'B') := by
  have hnext : nextPage zeroEnv (initialAlloc zeroEnv) = .ok (some 0, ⟨0x1000, 0, 0⟩) := by
    decide +kernel
  have halloc : allocPage zeroEnv (initialAlloc zeroEnv) (fun _ => 0) =
      .ok (0, ⟨0x1000, 0, 0⟩, zeroPage (fun _ => 0) 0) := by
    rw [allocPage, hnext]
    rfl
  unfold buildPaging
  simp only [zeroHandover_prepare, halloc, bind, Except.bind, if_true]

theorem zeroHandover_loaderPages : LoaderPages zeroHandover 48 := by
  have hkernel : zeroHandover.kernelPhys.toNat = 0x100000 := rfl
  have hpages : zeroHandover.kernelPages.toNat = 1 := rfl
  have hstack : zeroHandover.stackPhys.toNat = 0x200000 := rfl
  have hmmap : zeroHandover.mmapPhys.toNat = 0 := rfl
  have hbuffer : mmapBufferPages 48 = 130 := rfl
  constructor
  all_goals
    simp only [InKernelImage, InStackRange, InBuffer, hkernel, hpages, hstack, hmmap, hbuffer]
  all_goals omega

/-- The place of the buffer matters: with the buffer at address `0`, and everything else as the
loader leaves it, Stage 1 prints code `B`. -/
theorem not_buildPaging_pool : ¬ ∀ (h : Handover) (m : Memory) (probeSize : Nat),
    LoaderPages h probeSize → 0 < h.kernelPages.toNat → h.mmapSizeUsed.toNat ≤ probeSize →
    FoundCovers h m probeSize → h.kernelPages.toNat ≤ 16384 →
    buildPaging h m ≠ .error (.failCode 'B') := by
  intro hall
  refine hall zeroHandover (fun _ => 0) 48 zeroHandover_loaderPages (by decide) (by decide) ?_
    (by decide) zeroHandover_buildPaging
  intro i _ hholds
  rw [descriptor_cleared] at hholds
  exact absurd hholds.1 (by decide)

end Kernel
end OsBook
