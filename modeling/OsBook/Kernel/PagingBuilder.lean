import OsBook.Kernel.AllocatorRuns

/-!
# The Stage 1 page-table builder

`mapPageDual` descends from the PML4 to a page table, asking the allocator for
each table that is missing, and stores one leaf entry.  Everything the builder
does is a list of such calls: the identity ranges, the local APIC page, and
their aliases in the upper half.

What the list achieves is stated without tables: `PageMap` is a finite map from
page numbers to slots, and a call updates it at one page.  `Holds` relates the
memory to such a map through a `PageTree`.  It is preserved by every call
(`mapPageDual_holds`) and hence by every list of calls (`mapCalls_holds`), for
any allocator whose pages are zeroed and apart from the live tables
(`FreshSource`).  An allocator that never hands out a page twice is one
(`PageSource`); for it `Built` adds that the tables are pages it has handed out.
-/

namespace OsBook
namespace Kernel

open Machine

/-! ## The builder -/

def ptePresent : UInt64 := 1

def pteWritable : UInt64 := 2

def lapicMmioPhys : UInt64 := 0xFEE00000

def idxPml4 (vaddr : UInt64) : UInt64 := (vaddr >>> 39) &&& 0x1ff

def idxPdpt (vaddr : UInt64) : UInt64 := (vaddr >>> 30) &&& 0x1ff

def idxPd (vaddr : UInt64) : UInt64 := (vaddr >>> 21) &&& 0x1ff

def idxPt (vaddr : UInt64) : UInt64 := (vaddr >>> 12) &&& 0x1ff

/-- Keep bits 51:12 of a physical page. -/
def makeEntryAddr (physPage : UInt64) : UInt64 := physPage &&& ~~~0xfff

/-- An allocator returns a page, or `0`, and may write to memory. -/
abbrev PageAllocator (σ : Type) := σ → Memory → Except Stop (UInt64 × σ × Memory)

/-- The state of the builder: the cursors of the allocator, and memory. -/
structure BuildState (σ : Type) where
  alloc : σ
  mem : Memory

section Builder

variable {σ : Type} (alloc : PageAllocator σ) (pml4Phys : UInt64)

/-- The table behind the entry at `entry`, allocated when the entry is not
present; `code` is printed when no page is left. -/
def ensureTable (code : Char) (entry : UInt64) (st : BuildState σ) :
    Except Stop (UInt64 × BuildState σ) :=
  let e := st.mem.load64 entry
  if e &&& ptePresent = 0 then do
    let (page, s, m) ← alloc st.alloc st.mem
    if page = 0 then .error (.failCode code)
    else
      let e := makeEntryAddr page ||| ptePresent ||| pteWritable
      .ok (page, ⟨s, m.store64 entry e⟩)
  else
    .ok (e &&& ~~~0xfff, st)

def mapPageDual (vaddrBase paddrBase pageFlags : UInt64) (st : BuildState σ) :
    Except Stop (BuildState σ) := do
  let v := vaddrBase
  let p := paddrBase
  let (pdptPhys, st) ← ensureTable alloc 'C' (entryAddr pml4Phys (idxPml4 v)) st
  let (pdPhys, st) ← ensureTable alloc 'D' (entryAddr pdptPhys (idxPdpt v)) st
  let (ptPhys, st) ← ensureTable alloc 'E' (entryAddr pdPhys (idxPd v)) st
  let pte := makeEntryAddr p ||| ptePresent ||| (pageFlags &&& pteWritable)
  .ok ⟨st.alloc, st.mem.store64 (entryAddr ptPhys (idxPt v)) pte⟩

/-- The loop of `mapRangeDual` from index `i`. -/
def mapRangeFrom (vStart pStart : UInt64) :
    (left i : Nat) → BuildState σ → Except Stop (BuildState σ)
  | 0, _, st => .ok st
  | left + 1, i, st => do
      let v := vStart + UInt64.ofNat i * pageSize
      let p := pStart + UInt64.ofNat i * pageSize
      let st ← mapPageDual alloc pml4Phys v p pteWritable st
      mapRangeFrom vStart pStart left (i + 1) st

def mapRangeDual (vStart pStart byteSize : UInt64) (st : BuildState σ) :
    Except Stop (BuildState σ) :=
  let pages := (byteSize + pageSize - 1) / pageSize
  mapRangeFrom alloc pml4Phys vStart pStart pages.toNat 0 st

/-- One loop of `mapUpperHalfAliases`, from offset `off`. -/
def mapAliasFrom (base bytes : UInt64) :
    (fuel : Nat) → (off : UInt64) → BuildState σ → Except Stop (BuildState σ)
  | 0, _, _ => .error .spin
  | fuel + 1, off, st =>
      if off < bytes then do
        let st ← mapPageDual alloc pml4Phys (base + upperHalf + off) (base + off) pteWritable st
        mapAliasFrom base bytes fuel (off + pageSize) st
      else .ok st

def mapUpperHalfAliases (h : Handover) (st : BuildState σ) : Except Stop (BuildState σ) := do
  let mmapTouchPhys := pageAlignDown h.mmapPhys pageSize
  let st ← mapAliasFrom alloc pml4Phys h.kernelPhys h.kernelSizeBytes loopFuel 0 st
  let st ← mapAliasFrom alloc pml4Phys h.stackPhys Handover.stackSizeBytes loopFuel 0 st
  let st ← mapAliasFrom alloc pml4Phys mmapTouchPhys pageSize loopFuel 0 st
  mapPageDual alloc pml4Phys (lapicMmioPhys + upperHalf) lapicMmioPhys pteWritable st

/-- All mappings of Stage 1, in order. -/
def mapLayout (h : Handover) (st : BuildState σ) : Except Stop (BuildState σ) := do
  let mmapTouchPhys := pageAlignDown h.mmapPhys pageSize
  let st ← mapRangeDual alloc pml4Phys h.kernelPhys h.kernelPhys h.kernelSizeBytes st
  let st ← mapRangeDual alloc pml4Phys h.stackPhys h.stackPhys Handover.stackSizeBytes st
  let st ← mapRangeDual alloc pml4Phys mmapTouchPhys mmapTouchPhys pageSize st
  let st ← mapPageDual alloc pml4Phys lapicMmioPhys lapicMmioPhys pteWritable st
  mapUpperHalfAliases alloc pml4Phys h st

end Builder

/-- What Stage 1 has built when it loads `CR3`. -/
structure Paging where
  pml4Phys : UInt64
  mem : Memory

/-- Stage 1 from the handover to the `CR3` load. -/
def buildPaging (h : Handover) (m : Memory) : Except Stop Paging := do
  let e ← prepare h m
  let (pml4Phys, s, m) ← allocPage e (initialAlloc e) m
  if pml4Phys = 0 then .error (.failCode 'B')
  else do
    let st ← mapLayout (allocPage e) pml4Phys h ⟨s, m⟩
    .ok ⟨pml4Phys, st.mem⟩

/-! ## Finite page maps -/

/-- The meaning of a page table: a slot for each mapped page number. -/
abbrev PageMap := Nat → Option Slot

def PageMap.set (map : PageMap) (n : Nat) (s : Slot) : PageMap := fun k =>
  if k = n then some s else map k

/-- The arguments of one call of `mapPageDual`. -/
structure MapCall where
  vaddr : UInt64
  paddr : UInt64
  flags : UInt64
deriving DecidableEq, Repr

/-- The leaf slot a call installs. -/
def MapCall.slot (c : MapCall) : Slot := ⟨c.paddr, entryWritable c.flags⟩

@[simp] theorem entryWritable_pteWritable : entryWritable pteWritable = true := rfl

/-- The map after a list of calls: the last call for a page wins. -/
def lastWrite (map : PageMap) (calls : List MapCall) : PageMap :=
  calls.foldl (fun map c => map.set (pageNumber c.vaddr) c.slot) map

/-- Pages that no call names keep their slot. -/
theorem lastWrite_of_not_mem {calls : List MapCall} {n : Nat}
    (h : ∀ c ∈ calls, pageNumber c.vaddr ≠ n) (map : PageMap) : lastWrite map calls n = map n := by
  induction calls generalizing map with
  | nil => rfl
  | cons c calls ih =>
      have hc : pageNumber c.vaddr ≠ n := h c (by simp)
      rw [lastWrite, List.foldl_cons]
      have hrest := ih (fun d hd => h d (by simp [hd])) (map.set (pageNumber c.vaddr) c.slot)
      rw [lastWrite] at hrest
      rw [hrest, PageMap.set, if_neg (Ne.symm hc)]

/-- If all calls for a page agree, their order does not matter. -/
theorem lastWrite_of_mem {calls : List MapCall} {n : Nat} {s : Slot}
    (hagree : ∀ c ∈ calls, pageNumber c.vaddr = n → c.slot = s)
    (hmem : ∃ c ∈ calls, pageNumber c.vaddr = n) (map : PageMap) :
    lastWrite map calls n = some s := by
  induction calls generalizing map with
  | nil => simp at hmem
  | cons c calls ih =>
      have hrest : ∀ d ∈ calls, pageNumber d.vaddr = n → d.slot = s :=
        fun d hd => hagree d (by simp [hd])
      rw [lastWrite, List.foldl_cons, ← lastWrite]
      -- A later call for the page overwrites this one with the same slot.
      by_cases hlater : ∃ d ∈ calls, pageNumber d.vaddr = n
      · exact ih hrest hlater _
      · have hnone : ∀ d ∈ calls, pageNumber d.vaddr ≠ n := fun d hd hn => hlater ⟨d, hd, hn⟩
        obtain ⟨d, hd, hdn⟩ := hmem
        rcases List.mem_cons.mp hd with rfl | hd
        · rw [lastWrite_of_not_mem hnone, PageMap.set, if_pos hdn.symm, hagree d (by simp) hdn]
        · exact absurd hdn (hnone d hd)

/-- From the empty map, calls that agree page by page bind exactly their slots. -/
theorem lastWrite_empty_iff {calls : List MapCall} {n : Nat}
    (hagree : ∀ c ∈ calls, ∀ d ∈ calls, pageNumber c.vaddr = n → pageNumber d.vaddr = n →
      c.slot = d.slot) (s : Slot) :
    lastWrite (fun _ => none) calls n = some s ↔
      ∃ c ∈ calls, pageNumber c.vaddr = n ∧ c.slot = s := by
  by_cases hmem : ∃ c ∈ calls, pageNumber c.vaddr = n
  · obtain ⟨c, hc, hcn⟩ := hmem
    rw [lastWrite_of_mem (s := c.slot) (fun d hd hdn => hagree d hd c hc hdn hcn) ⟨c, hc, hcn⟩]
    constructor
    · intro hs
      exact ⟨c, hc, hcn, Option.some.inj hs⟩
    · rintro ⟨d, hd, hdn, rfl⟩
      rw [hagree c hc d hd hcn hdn]
  · rw [lastWrite_of_not_mem fun c hc hcn => hmem ⟨c, hc, hcn⟩]
    constructor
    · intro hs
      contradiction
    · rintro ⟨c, hc, hcn, -⟩
      exact absurd ⟨c, hc, hcn⟩ hmem

/-! ## Sources of table pages -/

/-- A page fit to become a table while the pages `live` are tables: a zeroed frame apart from
them, with their content unchanged. -/
structure FreshPage (live : UInt64 → Prop) (m : Memory) (p : UInt64) (m' : Memory) : Prop where
  isFrame : IsFrame p
  fresh : ¬ live p
  zeroed : ∀ x, InBlock p 4096 x → m' x = 0
  kept : ∀ q, live q → ∀ x, InBlock q 4096 x → m' x = m x

/-- An allocator that returns fresh pages.  `ok live s m` says that, in state `s` and with
memory `m`, it knows that the pages `live` are tables; it may keep data of its own in any other
page. -/
structure FreshSource {σ : Type} (alloc : PageAllocator σ)
    (ok : (UInt64 → Prop) → σ → Memory → Prop) : Prop where
  grant : ∀ live s m p s' m', ok live s m → alloc s m = .ok (p, s', m') → p ≠ 0 →
    FreshPage live m p m' ∧ ok (fun q => q = p ∨ live q) s' m'
  /-- The builder writes to the tables only. -/
  store : ∀ live s m t i w, ok live s m → live t → i.toNat < 512 →
    ok live s (m.store64 (entryAddr t i) w)

/-! ## The builder refines the finite map -/

/-- The tables in memory, laid out as `node`, hold exactly the leaf map `map`, and the
allocator knows them. -/
structure HoldsAs {σ : Type} (ok : (UInt64 → Prop) → σ → Memory → Prop) (root : UInt64)
    (map : PageMap) (node : SlotMap) (st : BuildState σ) : Prop where
  known : ok node.IsTable st.alloc st.mem
  tree : PageTree st.mem node
  root : node 4 0 = some ⟨root, true⟩
  leaf : node 0 = map

/-- The tables in memory hold exactly the leaf map. -/
def Holds {σ : Type} (ok : (UInt64 → Prop) → σ → Memory → Prop) (root : UInt64) (map : PageMap)
    (st : BuildState σ) : Prop :=
  ∃ node, HoldsAs ok root map node st

/-- Run a list of calls. -/
def mapCalls {σ : Type} (alloc : PageAllocator σ) (root : UInt64) :
    List MapCall → BuildState σ → Except Stop (BuildState σ)
  | [], st => .ok st
  | c :: calls, st => do
      let st ← mapPageDual alloc root c.vaddr c.paddr c.flags st
      mapCalls alloc root calls st

section Refinement

variable {σ : Type} {alloc : PageAllocator σ} {ok : (UInt64 → Prop) → σ → Memory → Prop}
  {root : UInt64} {map : PageMap} {node : SlotMap} {st st' : BuildState σ}

/-- The translation of a state is the map it holds. -/
theorem Holds.translate (b : Holds ok root map st) (v : UInt64) :
    translateAddr st.mem root v =
      (map (pageNumber v)).map fun leaf => ⟨leaf.frame + (v &&& 0xfff), leaf.writable⟩ := by
  obtain ⟨node, h⟩ := b
  rw [← h.leaf]
  exact h.tree.walk_root h.root v

/-- A zeroed page, taken as the root, is laid out as an empty tree. -/
theorem holdsAs_rootOnly (hroot : IsFrame root) (hzero : ∀ x, InBlock root 4096 x → st.mem x = 0)
    (hknown : ok (fun p => p = root) st.alloc st.mem) :
    HoldsAs ok root (fun _ => none) (rootOnly root) st := by
  refine ⟨?_, PageTree.rootOnly hroot hzero, rfl, rfl⟩
  rw [SlotMap.isTable_rootOnly]
  exact hknown

/-- A zeroed page, taken as the root, holds the empty map. -/
theorem holds_rootOnly (hroot : IsFrame root) (hzero : ∀ x, InBlock root 4096 x → st.mem x = 0)
    (hknown : ok (fun p => p = root) st.alloc st.mem) :
    Holds ok root (fun _ => none) st :=
  ⟨rootOnly root, holdsAs_rootOnly hroot hzero hknown⟩

theorem makeEntryAddr_of_isFrame {p : UInt64} (h : IsFrame p) : makeEntryAddr p = p := by
  have haligned := h.aligned
  apply UInt64.toNat_inj.mp
  unfold makeEntryAddr
  rw [toNat_and_not_fff]
  omega

/-- The kernel reads the frame of an entry by clearing its low bits. -/
theorem slot_and_not_fff {s : Slot} (h : IsFrame s.frame) : s.entry &&& ~~~0xfff = s.frame := by
  have haligned := h.aligned
  apply UInt64.toNat_inj.mp
  rw [toNat_and_not_fff, s.toNat_entry h]
  cases s.writable <;> simp <;> omega

/-- A leaf entry as the kernel composes it. -/
theorem leaf_entry {p flags : UInt64} (h : IsFrame p) :
    makeEntryAddr p ||| ptePresent ||| (flags &&& pteWritable) =
      (⟨p, entryWritable flags⟩ : Slot).entry := by
  have hflag : flags &&& pteWritable = if entryWritable flags then 2 else 0 := by
    apply UInt64.toNat_inj.mp
    have hand : (flags &&& pteWritable).toNat = flags.toNat &&& 2 ^ 1 := UInt64.toNat_and ..
    have hbit : entryWritable flags = flags.toNat.testBit 1 := by
      unfold entryWritable
      rw [Bool.eq_iff_iff, bne_iff_ne, Ne, eq_zero_iff_toNat]
      show ¬ (flags &&& pteWritable).toNat = 0 ↔ _
      rw [hand, Nat.and_two_pow]
      cases flags.toNat.testBit 1 <;> simp
    rw [hand, Nat.and_two_pow, hbit]
    cases flags.toNat.testBit 1 <;> rfl
  rw [makeEntryAddr_of_isFrame h, hflag]
  rfl

/-- What `ensureTable` can do: follow a present entry, or allocate and link. -/
theorem ensureTable_cases {code : Char} {entry t : UInt64}
    (h : ensureTable alloc code entry st = .ok (t, st')) :
    (entryPresent (st.mem.load64 entry) = true ∧ t = st.mem.load64 entry &&& ~~~0xfff ∧
        st' = st) ∨
      (entryPresent (st.mem.load64 entry) = false ∧ t ≠ 0 ∧
        ∃ s m, alloc st.alloc st.mem = .ok (t, s, m) ∧
          st' = ⟨s, m.store64 entry (makeEntryAddr t ||| ptePresent ||| pteWritable)⟩) := by
  unfold ensureTable at h
  by_cases habsent : st.mem.load64 entry &&& ptePresent = 0
  · simp only [habsent, if_true] at h
    obtain ⟨⟨page, s, m⟩, halloc, h⟩ := bind_eq_ok.mp h
    by_cases hzero : page = 0
    · simp [hzero] at h
    · simp only [hzero, if_false, Except.ok.injEq, Prod.mk.injEq] at h
      obtain ⟨rfl, rfl⟩ := h
      refine Or.inr ⟨?_, hzero, s, m, halloc, rfl⟩
      show (_ &&& ptePresent != 0) = false
      simp [habsent]
  · simp only [habsent, if_false, Except.ok.injEq, Prod.mk.injEq] at h
    obtain ⟨rfl, rfl⟩ := h
    refine Or.inl ⟨?_, rfl, rfl⟩
    show (_ &&& ptePresent != 0) = true
    simp [habsent]

/-- **One missing level is created and linked.**  The layout is unchanged or gains this one
table. -/
theorem ensureTable_holds (src : FreshSource alloc ok) {level : Nat} (hlevel : level < 3)
    {v table t : UInt64} {code : Char} (hb : HoldsAs ok root map node st)
    (htable : node (level + 2) (pageNumber v / 512 ^ (level + 2)) = some ⟨table, true⟩)
    (h : ensureTable alloc code (entryAddr table (tableIndex (level + 1) v)) st = .ok (t, st')) :
    ∃ node', HoldsAs ok root map node' st' ∧
      node' (level + 1) (pageNumber v / 512 ^ (level + 1)) = some ⟨t, true⟩ ∧
      (node' = node ∨
        node' = node.set (level + 1) (pageNumber v / 512 ^ (level + 1)) ⟨t, true⟩) := by
  have hindex := tableIndex_lt (by omega : level + 1 < 4) v
  have hentry := hb.tree.load_entry (l := level + 1) (v := v) (by omega) htable
  simp only at hentry
  have hcases := ensureTable_cases h
  rw [hentry] at hcases
  cases hslot : node (level + 1) (pageNumber v / 512 ^ (level + 1)) with
  | some c =>
      -- The table exists; its entry is followed and nothing changes.
      have hframe := hb.tree.isFrame _ _ _ hslot
      rw [hslot] at hcases
      simp only [slotEntry, c.entryPresent_entry hframe, slot_and_not_fff hframe, true_and,
        Bool.true_eq_false, false_and, or_false] at hcases
      obtain ⟨rfl, rfl⟩ := hcases
      refine ⟨node, hb, ?_, Or.inl rfl⟩
      rw [hslot, ← hb.tree.writable _ _ _ hslot]
  | none =>
      -- A fresh page becomes the table, and the entry that links it binds its slot.
      rw [hslot] at hcases
      simp only [slotEntry, entryPresent_zero, Bool.false_eq_true, false_and, true_and,
        false_or] at hcases
      obtain ⟨hzero, s, m, halloc, rfl⟩ := hcases
      obtain ⟨g, hknown⟩ := src.grant _ _ _ _ _ _ hb.known halloc hzero
      have hne : ∀ l k u, node (l + 1) k = some u → u.frame ≠ t := by
        rintro l k u hu rfl
        exact g.fresh ⟨l, k, u, hu, rfl⟩
      -- Allocating a page that no table owns leaves the tree alone.
      have htree : PageTree m node :=
        hb.tree.congr_memory fun l k u hu x hx => g.kept _ ⟨l, k, u, hu, rfl⟩ x hx
      have hset := htree.setSlot (c := ⟨t, true⟩) htable hindex g.isFrame fun _ =>
        ⟨rfl, by rw [toNat_tableIndex (by omega), pageNumber_div_split, hslot], hne, g.zeroed⟩
      rw [toNat_tableIndex (by omega), pageNumber_div_split] at hset
      have hword : makeEntryAddr t ||| ptePresent ||| pteWritable = (⟨t, true⟩ : Slot).entry := by
        rw [makeEntryAddr_of_isFrame g.isFrame]
        rfl
      refine ⟨_, ⟨?_, hword ▸ hset, ?_, ?_⟩, SlotMap.set_same _ _ _ _, Or.inr rfl⟩
      · rw [SlotMap.isTable_set hslot]
        exact src.store _ _ _ _ _ _ hknown (Or.inr ⟨_, _, _, htable, rfl⟩) hindex
      · rw [SlotMap.set_of_ne (by omega), hb.root]
      · rw [← hb.leaf]
        funext n
        rw [SlotMap.set_of_ne (by omega)]

/-- Storing a leaf entry into the page table of `v` binds the page of `v`. -/
theorem HoldsAs.storeLeaf (src : FreshSource alloc ok) {v p table : UInt64}
    (hb : HoldsAs ok root map node st) (hp : IsFrame p)
    (htable : node 1 (pageNumber v / 512 ^ 1) = some ⟨table, true⟩) (flags : UInt64) :
    HoldsAs ok root (map.set (pageNumber v) ⟨p, entryWritable flags⟩)
      (node.set 0 (pageNumber v) ⟨p, entryWritable flags⟩)
      ⟨st.alloc, st.mem.store64 (entryAddr table (tableIndex 0 v))
        (makeEntryAddr p ||| ptePresent ||| (flags &&& pteWritable))⟩ := by
  have hindex := tableIndex_lt (by omega : 0 < 4) v
  have hset := hb.tree.setSlot (l := 0) (c := ⟨p, entryWritable flags⟩) htable hindex hp (by omega)
  rw [toNat_tableIndex (by omega), pageNumber_div_split v 0, Nat.pow_zero, Nat.div_one] at hset
  refine ⟨?_, leaf_entry hp ▸ hset, ?_, ?_⟩
  · rw [SlotMap.isTable_set_leaf]
    exact src.store _ _ _ _ _ _ hb.known ⟨_, _, _, htable, rfl⟩ hindex
  · rw [SlotMap.set_of_ne (by omega), hb.root]
  · rw [← hb.leaf]
    funext n
    simp [SlotMap.set, PageMap.set]

/-- The root is the table of every address. -/
theorem HoldsAs.rootSlot (hb : HoldsAs ok root map node st) (v : UInt64) :
    node 4 (pageNumber v / 512 ^ 4) = some ⟨root, true⟩ := by
  rw [pageNumber_div_top]
  exact hb.root

/-- **One call updates the map at one page.** -/
theorem mapPageDual_holds (src : FreshSource alloc ok) {v p flags : UInt64} (hp : IsFrame p)
    (b : Holds ok root map st) (h : mapPageDual alloc root v p flags st = .ok st') :
    Holds ok root (map.set (pageNumber v) ⟨p, entryWritable flags⟩) st' := by
  obtain ⟨⟨pdpt, st₁⟩, h₁, h⟩ := bind_eq_ok.mp h
  obtain ⟨⟨pd, st₂⟩, h₂, h⟩ := bind_eq_ok.mp h
  obtain ⟨⟨pt, st₃⟩, h₃, h⟩ := bind_eq_ok.mp h
  obtain ⟨node, hb⟩ := b
  -- Three levels down from the root, then the leaf.
  obtain ⟨node₁, hb₁, hpdpt, -⟩ := ensureTable_holds src (by omega : 2 < 3) hb (hb.rootSlot v) h₁
  obtain ⟨node₂, hb₂, hpd, -⟩ := ensureTable_holds src (by omega : 1 < 3) hb₁ hpdpt h₂
  obtain ⟨node₃, hb₃, hpt, -⟩ := ensureTable_holds src (by omega : 0 < 3) hb₂ hpd h₃
  obtain rfl := Except.ok.inj h
  exact ⟨_, hb₃.storeLeaf src hp hpt flags⟩

theorem mapCalls_append (first second : List MapCall) (st : BuildState σ) :
    mapCalls alloc root (first ++ second) st =
      mapCalls alloc root first st >>= mapCalls alloc root second := by
  induction first generalizing st with
  | nil => rfl
  | cons c calls ih =>
      simp only [List.cons_append, mapCalls, bind_assoc]
      exact congrArg _ (funext ih)

/-- **A list of calls builds its last-write-wins map.** -/
theorem mapCalls_holds (src : FreshSource alloc ok) {calls : List MapCall}
    (hp : ∀ c ∈ calls, IsFrame c.paddr) (b : Holds ok root map st)
    (h : mapCalls alloc root calls st = .ok st') :
    Holds ok root (lastWrite map calls) st' := by
  induction calls generalizing map st with
  | nil =>
      obtain rfl := Except.ok.inj h
      exact b
  | cons c calls ih =>
      obtain ⟨st₁, hcall, h⟩ := bind_eq_ok.mp h
      exact ih (fun d hd => hp d (by simp [hd])) (mapPageDual_holds src (hp c (by simp)) b hcall) h

end Refinement

/-! ## Allocators with a set of used pages -/

/-- A page handed out by an allocator: a frame that was not in use, zeroed,
with the rest of memory untouched. -/
structure Grant {σ : Type} (inv : σ → Prop) (used : σ → UInt64 → Prop) (s : σ) (m : Memory)
    (p : UInt64) (s' : σ) (m' : Memory) : Prop where
  inv : inv s'
  mono : ∀ q, used s q → used s' q
  isFrame : IsFrame p
  fresh : ¬ used s p
  taken : used s' p
  zeroed : ∀ x, InBlock p 4096 x → m' x = 0
  unchanged : ∀ x, ¬ InBlock p 4096 x → m' x = m x

/-- An allocator all of whose nonzero results are grants. -/
def PageSource {σ : Type} (alloc : PageAllocator σ) (inv : σ → Prop)
    (used : σ → UInt64 → Prop) : Prop :=
  ∀ s m p s' m', inv s → alloc s m = .ok (p, s', m') → p ≠ 0 → Grant inv used s m p s' m'

/-- The tables in memory, laid out as `node`, hold exactly the leaf map `map`
and consist of pages that the allocator has handed out. -/
structure BuiltAs {σ : Type} (inv : σ → Prop) (used : σ → UInt64 → Prop) (root : UInt64)
    (map : PageMap) (node : SlotMap) (st : BuildState σ) : Prop where
  inv : inv st.alloc
  tree : PageTree st.mem node
  root : node 4 0 = some ⟨root, true⟩
  leaf : node 0 = map
  used : ∀ l k s, node (l + 1) k = some s → used st.alloc s.frame

section Sources

variable {σ : Type} {alloc : PageAllocator σ} {inv : σ → Prop} {used : σ → UInt64 → Prop}
  {root : UInt64} {map : PageMap} {st st' : BuildState σ}

/-- The tables in memory hold exactly the leaf map. -/
def Built (inv : σ → Prop) (used : σ → UInt64 → Prop) (root : UInt64) (map : PageMap)
    (st : BuildState σ) : Prop :=
  ∃ node, BuiltAs inv used root map node st

/-- The live tables are frames that the allocator has handed out. -/
def TablesUsed (inv : σ → Prop) (used : σ → UInt64 → Prop) (live : UInt64 → Prop) (s : σ)
    (_ : Memory) : Prop :=
  inv s ∧ ∀ p, live p → IsFrame p ∧ used s p

/-- A page that was never handed out before is fresh. -/
theorem PageSource.fresh (src : PageSource alloc inv used) :
    FreshSource alloc (TablesUsed inv used) where
  grant := by
    rintro live s m p s' m' ⟨hinv, hlive⟩ halloc hp
    have g := src _ _ _ _ _ hinv halloc hp
    have hne : ∀ q, live q → q ≠ p := by
      rintro q hq rfl
      exact g.fresh (hlive q hq).2
    refine ⟨⟨g.isFrame, fun hp => hne p hp rfl, g.zeroed, ?_⟩, g.inv, ?_⟩
    · intro q hq x hx
      exact g.unchanged x ((hlive q hq).1.disjoint g.isFrame (hne q hq) hx)
    · rintro q (rfl | hq)
      · exact ⟨g.isFrame, g.taken⟩
      · exact ⟨(hlive q hq).1, g.mono q (hlive q hq).2⟩
  store := fun _ _ _ _ _ _ h _ _ => h

theorem built_iff_holds : Built inv used root map st ↔ Holds (TablesUsed inv used) root map st := by
  constructor
  · rintro ⟨node, hb⟩
    refine ⟨node, ⟨hb.inv, ?_⟩, hb.tree, hb.root, hb.leaf⟩
    rintro p ⟨l, k, s, hs, rfl⟩
    exact ⟨hb.tree.isFrame _ _ _ hs, hb.used l k s hs⟩
  · rintro ⟨node, hb⟩
    exact ⟨node, hb.known.1, hb.tree, hb.root, hb.leaf,
      fun l k s hs => (hb.known.2 s.frame ⟨l, k, s, hs, rfl⟩).2⟩

/-- The translation of a built state is its map. -/
theorem Built.translate (b : Built inv used root map st) (v : UInt64) :
    translateAddr st.mem root v =
      (map (pageNumber v)).map fun leaf => ⟨leaf.frame + (v &&& 0xfff), leaf.writable⟩ :=
  (built_iff_holds.mp b).translate v

/-- A granted page, taken as the root, holds the empty map. -/
theorem Grant.built {s s' : σ} {m m' : Memory} {p : UInt64} (g : Grant inv used s m p s' m') :
    Built inv used p (fun _ => none) ⟨s', m'⟩ := by
  refine built_iff_holds.mpr (holds_rootOnly g.isFrame g.zeroed ⟨g.inv, ?_⟩)
  rintro q rfl
  exact ⟨g.isFrame, g.taken⟩

theorem mapCalls_spec (src : PageSource alloc inv used) {calls : List MapCall}
    (hp : ∀ c ∈ calls, IsFrame c.paddr) (b : Built inv used root map st)
    (h : mapCalls alloc root calls st = .ok st') :
    Built inv used root (lastWrite map calls) st' :=
  built_iff_holds.mpr (mapCalls_holds src.fresh hp (built_iff_holds.mp b) h)

/-- An allocator that never refuses while it has room: `room s n` says that the
state `s` has at least `n` pages left. -/
structure PageSupply (alloc : PageAllocator σ) (room : σ → Nat → Prop) : Prop where
  grant : ∀ s n m, room s (n + 1) → ∃ p s' m', alloc s m = .ok (p, s', m') ∧ p ≠ 0 ∧ room s' n
  of_le : ∀ s n k, room s n → k ≤ n → room s k

section Progress

variable {room : σ → Nat → Prop}

theorem ensureTable_ok (supply : PageSupply alloc room) (code : Char) (entry : UInt64) {n : Nat}
    (h : room st.alloc (n + 1)) :
    ∃ t st', ensureTable alloc code entry st = .ok (t, st') ∧ room st'.alloc n := by
  unfold ensureTable
  by_cases habsent : st.mem.load64 entry &&& ptePresent = 0
  · obtain ⟨p, s, m, halloc, hp, hroom⟩ := supply.grant _ n st.mem h
    refine ⟨p, ⟨s, m.store64 entry (makeEntryAddr p ||| ptePresent ||| pteWritable)⟩, ?_, hroom⟩
    simp only [habsent, if_true]
    rw [halloc]
    simp only [bind, Except.bind, hp, if_false]
  · refine ⟨st.mem.load64 entry &&& ~~~0xfff, st, ?_, supply.of_le _ _ _ h (by omega)⟩
    simp only [habsent, if_false]

/-- A call needs at most three tables. -/
theorem mapPageDual_ok (supply : PageSupply alloc room) (root v p flags : UInt64)
    (st : BuildState σ) {n : Nat} (h : room st.alloc (n + 3)) :
    ∃ st', mapPageDual alloc root v p flags st = .ok st' ∧ room st'.alloc n := by
  obtain ⟨t₁, st₁, h₁, hroom₁⟩ := ensureTable_ok supply 'C' (entryAddr root (idxPml4 v)) h
  obtain ⟨t₂, st₂, h₂, hroom₂⟩ := ensureTable_ok supply 'D' (entryAddr t₁ (idxPdpt v)) hroom₁
  obtain ⟨t₃, st₃, h₃, hroom₃⟩ := ensureTable_ok supply 'E' (entryAddr t₂ (idxPd v)) hroom₂
  have hmap : mapPageDual alloc root v p flags st = .ok ⟨st₃.alloc,
      st₃.mem.store64 (entryAddr t₃ (idxPt v))
        (makeEntryAddr p ||| ptePresent ||| (flags &&& pteWritable))⟩ := by
    unfold mapPageDual
    simp only [h₁, h₂, h₃, bind, Except.bind]
  exact ⟨_, hmap, hroom₃⟩

/-- **With three pages for each call, no failure code is printed.** -/
theorem mapCalls_ok (supply : PageSupply alloc room) (root : UInt64) (calls : List MapCall)
    (st : BuildState σ) {n : Nat} (h : room st.alloc (3 * calls.length + n)) :
    ∃ st', mapCalls alloc root calls st = .ok st' ∧ room st'.alloc n := by
  induction calls generalizing st with
  | nil => exact ⟨st, rfl, by simpa using h⟩
  | cons c calls ih =>
      have hroom : room st.alloc (3 * calls.length + n + 3) := by
        have hlen : 3 * (c :: calls).length + n = 3 * calls.length + n + 3 := by
          rw [List.length_cons]
          omega
        exact hlen ▸ h
      obtain ⟨st₁, h₁, hroom₁⟩ := mapPageDual_ok supply root c.vaddr c.paddr c.flags st hroom
      obtain ⟨st₂, h₂, hroom₂⟩ := ih st₁ hroom₁
      exact ⟨st₂, bind_eq_ok.mpr ⟨st₁, h₁, h₂⟩, hroom₂⟩

end Progress

/-- The calls for pages `i, ..., i + n - 1` of a range. -/
def pageCalls (vStart pStart : UInt64) (i n : Nat) : List MapCall :=
  (List.range' i n).map fun j =>
    ⟨vStart + UInt64.ofNat j * pageSize, pStart + UInt64.ofNat j * pageSize, pteWritable⟩

theorem mapRangeFrom_eq (vStart pStart : UInt64) (left i : Nat) (st : BuildState σ) :
    mapRangeFrom alloc root vStart pStart left i st =
      mapCalls alloc root (pageCalls vStart pStart i left) st := by
  induction left generalizing i st with
  | zero => rfl
  | succ left ih =>
      simp only [mapRangeFrom, pageCalls, List.range'_succ, List.map_cons, mapCalls]
      exact congrArg _ (funext fun st => ih (i + 1) st)

/-- The offset loop over `n` whole pages makes the calls for these pages. -/
theorem mapAliasFrom_eq {base bytes : UInt64} {n : Nat} (hbytes : bytes.toNat = n * 4096)
    (fuel : Nat) : ∀ left i st, i + left = n → left < fuel →
      mapAliasFrom alloc root base bytes fuel (UInt64.ofNat i * pageSize) st =
        mapCalls alloc root (pageCalls (base + upperHalf) base i left) st := by
  have hlt := bytes.toNat_lt
  have hoff : ∀ i, i ≤ n → (UInt64.ofNat i * pageSize).toNat = i * 4096 := by
    intro i hi
    rw [UInt64.toNat_mul, UInt64.toNat_ofNat', toNat_pageSize]
    omega
  induction fuel with
  | zero =>
      intro left i st _ hfuel
      omega
  | succ fuel ih =>
      intro left i st hi hfuel
      have hi' := hoff i (by omega)
      rw [mapAliasFrom]
      cases left with
      | zero =>
          have hend : ¬ UInt64.ofNat i * pageSize < bytes := by
            rw [UInt64.lt_iff_toNat_lt, hi']
            omega
          rw [if_neg hend]
          rfl
      | succ left =>
          have hmore : UInt64.ofNat i * pageSize < bytes := by
            rw [UInt64.lt_iff_toNat_lt, hi']
            omega
          have hnext : UInt64.ofNat i * pageSize + pageSize = UInt64.ofNat (i + 1) * pageSize := by
            rw [UInt64.ofNat_add, UInt64.add_mul]
            rfl
          rw [if_pos hmore]
          simp only [pageCalls, List.range'_succ, List.map_cons, mapCalls, hnext]
          exact congrArg _ (funext fun st => ih left (i + 1) st (by omega) (by omega))

end Sources

/-! ## The calls of Stage 1 -/

/-- The calls of one half: the kernel, the stack, the first page of the map and
the local APIC, shifted by `offset`. -/
def halfCalls (h : Handover) (offset : UInt64) : List MapCall :=
  pageCalls (h.kernelPhys + offset) h.kernelPhys 0 h.kernelPages.toNat ++
    (pageCalls (h.stackPhys + offset) h.stackPhys 0 4 ++
      (pageCalls (h.mmapPhys + offset) h.mmapPhys 0 1 ++
        [⟨lapicMmioPhys + offset, lapicMmioPhys, pteWritable⟩]))

/-- Every call Stage 1 makes, in order. -/
def layoutCalls (h : Handover) : List MapCall := halfCalls h 0 ++ halfCalls h upperHalf

/-- The loops of Stage 1 make exactly these calls. -/
theorem mapLayout_eq {σ : Type} {alloc : PageAllocator σ} {root : UInt64} {h : Handover}
    (hp : Placed h) (st : BuildState σ) :
    mapLayout alloc root h st = mapCalls alloc root (layoutCalls h) st := by
  have hkb := hp.kernel_below
  have hksize := hp.toNat_kernelSizeBytes
  have htouch : pageAlignDown h.mmapPhys pageSize = h.mmapPhys := hp.mmapStart_eq
  have hssize : Handover.stackSizeBytes.toNat = 4 * 4096 := rfl
  have hmsize : pageSize.toNat = 1 * 4096 := rfl
  -- Both kinds of loop, over the whole pages of a range.
  have hpages : ∀ bytes : UInt64, ∀ n, bytes.toNat = n * 4096 → n ≤ 2 ^ 35 →
      ((bytes + pageSize - 1) / pageSize).toNat = n := by
    intro bytes n hbytes hn
    have hone : (1 : UInt64).toNat = 1 := rfl
    rw [UInt64.toNat_div, UInt64.toNat_sub, UInt64.toNat_add, toNat_pageSize, hone, hbytes]
    omega
  have hfuel : loopFuel = 2 ^ 52 := rfl
  have hstart : (0 : UInt64) = UInt64.ofNat 0 * pageSize := rfl
  have hrange : ∀ v p bytes : UInt64, ∀ n, bytes.toNat = n * 4096 → n ≤ 2 ^ 35 →
      ∀ st, mapRangeDual alloc root v p bytes st = mapCalls alloc root (pageCalls v p 0 n) st := by
    intro v p bytes n hbytes hn st
    rw [mapRangeDual, hpages bytes n hbytes hn, mapRangeFrom_eq]
  have halias : ∀ base bytes : UInt64, ∀ n, bytes.toNat = n * 4096 → n ≤ 2 ^ 35 →
      ∀ st, mapAliasFrom alloc root base bytes loopFuel 0 st =
        mapCalls alloc root (pageCalls (base + upperHalf) base 0 n) st := by
    intro base bytes n hbytes hn st
    rw [hstart]
    exact mapAliasFrom_eq hbytes loopFuel n 0 st (by omega) (by omega)
  -- Peel one range off the list of calls.
  have hpeel : ∀ (first second : List MapCall) (rest : BuildState σ → Except Stop (BuildState σ)),
      (∀ st, rest st = mapCalls alloc root second st) → ∀ st,
        (mapCalls alloc root first st >>= rest) = mapCalls alloc root (first ++ second) st := by
    intro first second rest hrest st
    rw [mapCalls_append]
    exact congrArg _ (funext hrest)
  have hupper : ∀ st, mapUpperHalfAliases alloc root h st =
      mapCalls alloc root (halfCalls h upperHalf) st := by
    intro st
    simp only [mapUpperHalfAliases, htouch, halfCalls]
    rw [halias _ _ _ hksize (by omega)]
    refine hpeel _ _ _ (fun st => ?_) st
    rw [halias _ _ _ hssize (by omega)]
    refine hpeel _ _ _ (fun st => ?_) st
    rw [halias _ _ _ hmsize (by omega)]
    refine hpeel _ _ _ (fun st => ?_) st
    exact (bind_pure _).symm
  have hlayout : layoutCalls h = pageCalls h.kernelPhys h.kernelPhys 0 h.kernelPages.toNat ++
      (pageCalls h.stackPhys h.stackPhys 0 4 ++ (pageCalls h.mmapPhys h.mmapPhys 0 1 ++
        ⟨lapicMmioPhys, lapicMmioPhys, pteWritable⟩ :: halfCalls h upperHalf)) := by
    rw [layoutCalls, halfCalls]
    simp only [UInt64.add_zero, List.append_assoc, List.cons_append, List.nil_append]
  simp only [mapLayout, htouch, hlayout]
  rw [hrange _ _ _ _ hksize (by omega)]
  refine hpeel _ _ _ (fun st => ?_) st
  rw [hrange _ _ _ _ hssize (by omega)]
  refine hpeel _ _ _ (fun st => ?_) st
  rw [hrange _ _ _ _ hmsize (by omega)]
  refine hpeel _ _ _ (fun st => ?_) st
  simp only [mapCalls]
  exact congrArg _ (funext hupper)

end Kernel
end OsBook
