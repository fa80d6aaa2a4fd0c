import OsBook.Machine.Memory

/-!
# Four-level address translation over raw memory

The processor translates a virtual address by reading one 64-bit entry at each
of four levels.  A level consumes nine bits of the address, and an entry holds
a present bit, a writable bit and the frame in bits 51:12.

Tables are ordinary memory, so nothing stops two entries from sharing a table
or a table from overlapping itself.  `PageTree` is the separation invariant
that rules this out: `node level k` names the slot that translates the `k`-th
group of `512 ^ level` virtual pages, level `0` being the mapped pages
themselves.  Each table page has one owner, and each of its 512 words encodes
the slot one level down.  Under this invariant the walk computes exactly the
finite map `node 0` (`PageTree.walk_root`), and one store into a table updates
one slot and no other (`PageTree.setSlot`).
-/

namespace OsBook
namespace Machine

/-! ## Entries and the hardware walk -/

def entryPresent (e : UInt64) : Bool := e &&& 1 != 0

def entryWritable (e : UInt64) : Bool := e &&& 2 != 0

/-- The frame address held in bits 51:12 of an entry. -/
def entryFrame (e : UInt64) : UInt64 := e &&& 0x000ffffffffff000

/-- The nine address bits that index a table whose entries are at `level`. -/
def tableIndex (level : Nat) (v : UInt64) : UInt64 :=
  (v >>> UInt64.ofNat (12 + 9 * level)) &&& 0x1ff

/-- The address of an entry of a table. -/
def entryAddr (table index : UInt64) : UInt64 := table + 8 * index

/-- The result of a successful walk: the physical address, and whether every
entry on the way had its writable bit set. -/
structure Translated where
  addr : UInt64
  writable : Bool
deriving DecidableEq, Repr

/-- Walk `level` levels of tables, starting at `table`. -/
def walk (m : Memory) : Nat → UInt64 → UInt64 → Option Translated
  | 0, frame, v => some ⟨frame + (v &&& 0xfff), true⟩
  | level + 1, table, v =>
      let e := m.load64 (entryAddr table (tableIndex level v))
      if entryPresent e then
        (walk m level (entryFrame e) v).map fun t => ⟨t.addr, t.writable && entryWritable e⟩
      else
        none

/-- The four-level translation from the table root held in `CR3`. -/
def translateAddr (m : Memory) (cr3 v : UInt64) : Option Translated := walk m 4 cr3 v

/-- The addresses of the entries a walk reads. -/
def visited (m : Memory) : Nat → UInt64 → UInt64 → List UInt64
  | 0, _, _ => []
  | level + 1, table, v =>
      let a := entryAddr table (tableIndex level v)
      let e := m.load64 a
      a :: if entryPresent e then visited m level (entryFrame e) v else []

/-- A walk only depends on the entries it reads. -/
theorem walk_congr {m m' : Memory} {level : Nat} {table v : UInt64}
    (h : ∀ a, a ∈ visited m level table v → m'.load64 a = m.load64 a) :
    walk m' level table v = walk m level table v := by
  induction level generalizing table with
  | zero => rfl
  | succ level ih =>
      have hhead : m'.load64 (entryAddr table (tableIndex level v)) =
          m.load64 (entryAddr table (tableIndex level v)) :=
        h _ (by simp [visited])
      simp only [walk, hhead]
      by_cases hp : entryPresent (m.load64 (entryAddr table (tableIndex level v))) = true
      · have htail :
            walk m' level (entryFrame (m.load64 (entryAddr table (tableIndex level v)))) v =
              walk m level (entryFrame (m.load64 (entryAddr table (tableIndex level v)))) v :=
          ih fun a ha => h a (by simp [visited, hp, ha])
        rw [htail]
      · simp [hp]

/-! ## Virtual page numbers -/

/-- The 36-bit number of the virtual page of `v`. -/
def pageNumber (v : UInt64) : Nat := v.toNat / 4096 % 2 ^ 36

theorem pageNumber_lt (v : UInt64) : pageNumber v < 2 ^ 36 :=
  Nat.mod_lt _ (by decide)

theorem pageNumber_div_top (v : UInt64) : pageNumber v / 512 ^ 4 = 0 :=
  Nat.div_eq_of_lt (pageNumber_lt v)

theorem toNat_tableIndex {level : Nat} (hlevel : level < 4) (v : UInt64) :
    (tableIndex level v).toNat = pageNumber v / 512 ^ level % 512 := by
  unfold tableIndex pageNumber
  rw [toNat_shiftRight_and_1ff v _ (by omega)]
  have hcases : level = 0 ∨ level = 1 ∨ level = 2 ∨ level = 3 := by omega
  rcases hcases with rfl | rfl | rfl | rfl <;> norm_num <;> omega

theorem tableIndex_lt {level : Nat} (hlevel : level < 4) (v : UInt64) :
    (tableIndex level v).toNat < 512 := by
  rw [toNat_tableIndex hlevel]
  exact Nat.mod_lt _ (by decide)

/-- Splitting a group number into its parent group and the index inside it. -/
theorem pageNumber_div_split (v : UInt64) (level : Nat) :
    512 * (pageNumber v / 512 ^ (level + 1)) + pageNumber v / 512 ^ level % 512 =
      pageNumber v / 512 ^ level := by
  rw [Nat.pow_succ, ← Nat.div_div_eq_div_mul]
  omega

/-! ## Frames and slots -/

/-- A page-aligned address that fits the frame field of an entry. -/
structure IsFrame (a : UInt64) : Prop where
  aligned : a.toNat % 4096 = 0
  bound : a.toNat < 2 ^ 52

/-- The content of a present entry. -/
structure Slot where
  frame : UInt64
  writable : Bool
deriving DecidableEq, Repr

/-- The entry word of a present slot. -/
def Slot.entry (s : Slot) : UInt64 := s.frame ||| 1 ||| if s.writable then 2 else 0

/-- The entry word of an optional slot; an absent slot is the zero word. -/
def slotEntry : Option Slot → UInt64
  | none => 0
  | some s => s.entry

theorem Slot.toNat_entry {s : Slot} (h : IsFrame s.frame) :
    s.entry.toNat = s.frame.toNat + 1 + if s.writable then 2 else 0 := by
  unfold Slot.entry
  rw [UInt64.or_assoc, toNat_or_of_aligned h.aligned]
  · cases s.writable <;> simp
  · cases s.writable <;> decide

theorem entryPresent_zero : entryPresent 0 = false := rfl

theorem Slot.entryPresent_entry {s : Slot} (h : IsFrame s.frame) :
    entryPresent s.entry = true := by
  have hone : (s.entry &&& 1).toNat = 1 := by
    rw [UInt64.toNat_and, s.toNat_entry h]
    have haligned := h.aligned
    show _ &&& 1 = 1
    rw [Nat.and_one_is_mod]
    cases s.writable <;> simp <;> omega
  unfold entryPresent
  rw [bne_iff_ne, Ne, eq_zero_iff_toNat, hone]
  decide

theorem Slot.entryWritable_entry {s : Slot} (h : IsFrame s.frame) :
    entryWritable s.entry = s.writable := by
  have htwo : (s.entry &&& 2).toNat = if s.writable then 2 else 0 := by
    rw [UInt64.toNat_and, s.toNat_entry h]
    have haligned := h.aligned
    show _ &&& 2 ^ 1 = _
    rw [Nat.and_two_pow]
    cases s.writable
    · -- Bit 1 of an aligned frame is clear, and the present bit is bit 0.
      have hbit : (s.frame.toNat + 1 + 0).testBit 1 = false := by
        rw [Nat.testBit_eq_decide_div_mod_eq]
        simp
        omega
      simp [hbit]
    · have hbit : (s.frame.toNat + 1 + 2).testBit 1 = true := by
        rw [Nat.testBit_eq_decide_div_mod_eq]
        simp
        omega
      simp [hbit]
  unfold entryWritable
  rw [Bool.eq_iff_iff, bne_iff_ne, Ne, eq_zero_iff_toNat, htwo]
  cases s.writable <;> simp

theorem Slot.entryFrame_entry {s : Slot} (h : IsFrame s.frame) :
    entryFrame s.entry = s.frame := by
  apply UInt64.toNat_inj.mp
  unfold entryFrame
  rw [UInt64.toNat_and, s.toNat_entry h]
  show _ &&& (2 ^ 52 - 2 ^ 12) = _
  rw [nat_and_fieldMask _ 12 52 (by omega)]
  have haligned := h.aligned
  have hbound := h.bound
  cases s.writable <;> simp <;> omega

/-- Entries of a table lie inside its page. -/
theorem IsFrame.toNat_entryAddr {a i : UInt64} (h : IsFrame a) (hi : i.toNat < 512) :
    (entryAddr a i).toNat = a.toNat + 8 * i.toNat := by
  have hbound := h.bound
  have height : (8 : UInt64).toNat = 8 := rfl
  unfold entryAddr
  rw [UInt64.toNat_add, UInt64.toNat_mul, height]
  omega

theorem IsFrame.inBlock_iff {a : UInt64} (h : IsFrame a) (x : UInt64) :
    InBlock a 4096 x ↔ a.toNat ≤ x.toNat ∧ x.toNat < a.toNat + 4096 :=
  Machine.inBlock_iff (by have := h.bound; omega) x

theorem IsFrame.entry_inBlock {a i x : UInt64} (h : IsFrame a) (hi : i.toNat < 512)
    (hx : InBlock (entryAddr a i) 8 x) : InBlock a 4096 x := by
  have hbound := h.bound
  have haddr := h.toNat_entryAddr hi
  rw [h.inBlock_iff]
  rw [Machine.inBlock_iff (by omega)] at hx
  omega

/-- Two different frames share no byte. -/
theorem IsFrame.disjoint {a b x : UInt64} (ha : IsFrame a) (hb : IsFrame b) (hab : a ≠ b)
    (hx : InBlock a 4096 x) : ¬ InBlock b 4096 x := by
  have hne : a.toNat ≠ b.toNat := fun h => hab (UInt64.toNat_inj.mp h)
  have haa := ha.aligned
  have hba := hb.aligned
  rw [hb.inBlock_iff]
  rw [ha.inBlock_iff] at hx
  omega

/-! ## The separation invariant -/

/-- Ownership of slots: `node level k` is the slot of the `k`-th group of
`512 ^ level` virtual pages. -/
abbrev SlotMap := Nat → Nat → Option Slot

/-- Bind one slot. -/
def SlotMap.set (node : SlotMap) (level k : Nat) (s : Slot) : SlotMap := fun l j =>
  if l = level ∧ j = k then some s else node l j

@[simp] theorem SlotMap.set_same (node : SlotMap) (level k : Nat) (s : Slot) :
    node.set level k s level k = some s := by
  simp [SlotMap.set]

theorem SlotMap.set_of_ne {node : SlotMap} {level k l j : Nat} {s : Slot}
    (h : ¬ (l = level ∧ j = k)) : node.set level k s l j = node l j := by
  simp only [SlotMap.set, h, if_false]

/-- A bound slot of the new layout is the new one, or it was bound before. -/
theorem SlotMap.set_eq_some {node : SlotMap} {level k l j : Nat} {c s : Slot}
    (h : node.set level k c l j = some s) :
    (l = level ∧ j = k ∧ s = c) ∨ ¬ (l = level ∧ j = k) ∧ node l j = some s := by
  by_cases heq : l = level ∧ j = k
  · obtain ⟨rfl, rfl⟩ := heq
    rw [SlotMap.set_same] at h
    exact Or.inl ⟨rfl, rfl, (Option.some.inj h).symm⟩
  · rw [SlotMap.set_of_ne heq] at h
    exact Or.inr ⟨heq, h⟩

/-- The pages that hold the tables of a layout. -/
def SlotMap.IsTable (node : SlotMap) (p : UInt64) : Prop :=
  ∃ l k s, node (l + 1) k = some s ∧ s.frame = p

/-- Binding a page of the address space adds no table. -/
theorem SlotMap.isTable_set_leaf (node : SlotMap) (k : Nat) (c : Slot) :
    (node.set 0 k c).IsTable = node.IsTable := by
  funext p
  simp only [IsTable, SlotMap.set_of_ne (fun h => Nat.succ_ne_zero _ h.1)]

/-- Binding an absent slot above the pages adds one table. -/
theorem SlotMap.isTable_set {node : SlotMap} {level k : Nat} {c : Slot}
    (habsent : node (level + 1) k = none) :
    (node.set (level + 1) k c).IsTable = fun p => p = c.frame ∨ node.IsTable p := by
  funext p
  apply propext
  constructor
  · rintro ⟨l, j, s, hs, rfl⟩
    rcases SlotMap.set_eq_some hs with ⟨-, -, rfl⟩ | ⟨-, hs⟩
    · exact Or.inl rfl
    · exact Or.inr ⟨l, j, s, hs, rfl⟩
  · rintro (rfl | ⟨l, j, s, hs, rfl⟩)
    · exact ⟨level, k, c, SlotMap.set_same _ _ _ _, rfl⟩
    · refine ⟨l, j, s, ?_, rfl⟩
      rw [SlotMap.set_of_ne, hs]
      rintro ⟨hl, rfl⟩
      rw [hl, habsent] at hs
      cases hs

/-- The tables below a root are well separated and encode `node`. -/
structure PageTree (m : Memory) (node : SlotMap) : Prop where
  level_le : ∀ l k s, node l k = some s → l ≤ 4
  isFrame : ∀ l k s, node l k = some s → IsFrame s.frame
  /-- Every table page has one owner. -/
  owner : ∀ l k s l' k' s', node (l + 1) k = some s → node (l' + 1) k' = some s' →
    s.frame = s'.frame → l = l' ∧ k = k'
  /-- Table slots are writable, so permissions are decided by the leaves. -/
  writable : ∀ l k s, node (l + 1) k = some s → s.writable = true
  /-- Each word of a table encodes the slot one level down. -/
  entry : ∀ l k s, node (l + 1) k = some s → ∀ i : UInt64, i.toNat < 512 →
    m.load64 (entryAddr s.frame i) = slotEntry (node l (512 * k + i.toNat))
  /-- A slot below the root hangs from a table. -/
  parent : ∀ l k s, l < 4 → node l k = some s → ∃ p, node (l + 1) (k / 512) = some p

/-- The slots of a root whose table is still empty. -/
def rootOnly (root : UInt64) : SlotMap := fun l k =>
  if l = 4 ∧ k = 0 then some ⟨root, true⟩ else none

/-- The only table of an empty layout. -/
theorem SlotMap.isTable_rootOnly (root : UInt64) :
    SlotMap.IsTable (rootOnly root) = fun p => p = root := by
  funext p
  apply propext
  constructor
  · rintro ⟨l, k, s, hs, rfl⟩
    unfold rootOnly at hs
    split at hs
    · exact (congrArg Slot.frame (Option.some.inj hs)).symm
    · cases hs
  · rintro rfl
    exact ⟨3, 0, ⟨p, true⟩, rfl, rfl⟩

namespace PageTree

variable {m m' : Memory} {node : SlotMap}

/-- A zeroed page is a tree that maps nothing. -/
theorem rootOnly {root : UInt64} (hroot : IsFrame root)
    (hzero : ∀ x, InBlock root 4096 x → m x = 0) : PageTree m (rootOnly root) := by
  have hinv : ∀ l k s, Machine.rootOnly root l k = some s → l = 4 ∧ k = 0 ∧ s = ⟨root, true⟩ := by
    intro l k s hs
    unfold Machine.rootOnly at hs
    split at hs
    · rename_i h
      exact ⟨h.1, h.2, (Option.some.inj hs).symm⟩
    · contradiction
  constructor
  · intro l k s hs
    have := (hinv l k s hs).1
    omega
  · intro l k s hs
    rw [(hinv l k s hs).2.2]
    exact hroot
  · intro l k s l' k' s' hs hs' _
    obtain ⟨hl, hk, -⟩ := hinv _ _ _ hs
    obtain ⟨hl', hk', -⟩ := hinv _ _ _ hs'
    omega
  · intro l k s hs
    rw [(hinv _ k s hs).2.2]
  · intro l k s hs i hi
    obtain ⟨hl, -, rfl⟩ := hinv _ _ _ hs
    -- Below the root there is no slot, and the page holds zero words only.
    have hnone : Machine.rootOnly root l (512 * k + i.toNat) = none := by
      unfold Machine.rootOnly
      rw [if_neg]
      omega
    rw [hnone]
    exact Memory.load64_of_zero fun x hx => hzero x (hroot.entry_inBlock hi hx)
  · intro l k s hl hs
    have := (hinv l k s hs).1
    omega

/-- A slot with no ancestor is absent. -/
theorem leaf_none_of_none (T : PageTree m node) (n : Nat) :
    ∀ l, l ≤ 4 → node l (n / 512 ^ l) = none → node 0 n = none := by
  intro l
  induction l with
  | zero =>
      intro _ h
      simpa using h
  | succ l ih =>
      intro hl h
      apply ih (by omega)
      cases hslot : node l (n / 512 ^ l) with
      | none => rfl
      | some s =>
          obtain ⟨p, hp⟩ := T.parent l _ s (by omega) hslot
          rw [Nat.div_div_eq_div_mul, ← Nat.pow_succ] at hp
          rw [hp] at h
          contradiction

/-- The entry met by a walk at one level. -/
theorem load_entry (T : PageTree m node) {l : Nat} {s : Slot} {v : UInt64} (hl : l < 4)
    (hs : node (l + 1) (pageNumber v / 512 ^ (l + 1)) = some s) :
    m.load64 (entryAddr s.frame (tableIndex l v)) =
      slotEntry (node l (pageNumber v / 512 ^ l)) := by
  rw [T.entry l _ s hs _ (tableIndex_lt hl v), toNat_tableIndex hl, pageNumber_div_split]

/-- Walking from a table computes the leaf map restricted to its group. -/
theorem walk_eq (T : PageTree m node) (v : UInt64) :
    ∀ l s, l < 4 → node (l + 1) (pageNumber v / 512 ^ (l + 1)) = some s →
      walk m (l + 1) s.frame v =
        (node 0 (pageNumber v)).map fun leaf => ⟨leaf.frame + (v &&& 0xfff), leaf.writable⟩ := by
  intro l
  induction l with
  | zero =>
      intro s hl hs
      rw [walk, T.load_entry hl hs, Nat.pow_zero, Nat.div_one]
      cases hleaf : node 0 (pageNumber v) with
      | none => simp [slotEntry, entryPresent_zero]
      | some leaf =>
          have hframe := T.isFrame _ _ _ hleaf
          simp [slotEntry, walk, leaf.entryPresent_entry hframe, leaf.entryFrame_entry hframe,
            leaf.entryWritable_entry hframe]
  | succ l ih =>
      intro s hl hs
      rw [walk, T.load_entry hl hs]
      cases hchild : node (l + 1) (pageNumber v / 512 ^ (l + 1)) with
      | none =>
          -- The walk stops here, and no leaf hangs from an absent slot.
          rw [T.leaf_none_of_none _ (l + 1) (by omega) hchild]
          simp [slotEntry, entryPresent_zero]
      | some c =>
          have hframe := T.isFrame _ _ _ hchild
          have hw := T.writable _ _ _ hchild
          simp only [slotEntry, c.entryPresent_entry hframe, c.entryFrame_entry hframe,
            c.entryWritable_entry hframe, hw, if_true, ih c (by omega) hchild, Bool.and_true,
            Option.map_map]
          rfl

/-- **The walk from the root is the leaf map.** -/
theorem walk_root (T : PageTree m node) {root : Slot} (hroot : node 4 0 = some root)
    (v : UInt64) :
    translateAddr m root.frame v =
      (node 0 (pageNumber v)).map fun leaf => ⟨leaf.frame + (v &&& 0xfff), leaf.writable⟩ := by
  have htop : node (3 + 1) (pageNumber v / 512 ^ (3 + 1)) = some root := by
    rw [pageNumber_div_top]
    exact hroot
  exact T.walk_eq v 3 root (by omega) htop

/-- Every entry a walk reads is the entry of an owned table on the path of `v`. -/
theorem mem_visited (T : PageTree m node) (v a : UInt64) :
    ∀ l s, l < 4 → node (l + 1) (pageNumber v / 512 ^ (l + 1)) = some s →
      a ∈ visited m (l + 1) s.frame v →
        ∃ l' t, l' ≤ l ∧ node (l' + 1) (pageNumber v / 512 ^ (l' + 1)) = some t ∧
          a = entryAddr t.frame (tableIndex l' v) := by
  intro l
  induction l with
  | zero =>
      intro s hl hs ha
      refine ⟨0, s, le_refl _, hs, ?_⟩
      rw [visited] at ha
      simp only [visited, ite_self, List.mem_singleton] at ha
      exact ha
  | succ l ih =>
      intro s hl hs ha
      rw [visited] at ha
      simp only [List.mem_cons] at ha
      rcases ha with rfl | ha
      · exact ⟨l + 1, s, le_refl _, hs, rfl⟩
      · rw [T.load_entry hl hs] at ha
        cases hchild : node (l + 1) (pageNumber v / 512 ^ (l + 1)) with
        | none => simp [hchild, slotEntry, entryPresent_zero] at ha
        | some c =>
            have hframe := T.isFrame _ _ _ hchild
            simp only [hchild, slotEntry, c.entryPresent_entry hframe,
              c.entryFrame_entry hframe, if_true] at ha
            obtain ⟨l', t, hle, ht, hat⟩ := ih c (by omega) hchild ha
            exact ⟨l', t, by omega, ht, hat⟩

/-- The invariant survives any change of memory outside the owned tables. -/
theorem congr_memory (T : PageTree m node)
    (h : ∀ l k s, node (l + 1) k = some s → ∀ x, InBlock s.frame 4096 x → m' x = m x) :
    PageTree m' node where
  level_le := T.level_le
  isFrame := T.isFrame
  owner := T.owner
  writable := T.writable
  parent := T.parent
  entry := by
    intro l k s hs i hi
    rw [← T.entry l k s hs i hi]
    apply Memory.load64_congr
    intro x hx
    exact h l k s hs x ((T.isFrame _ _ _ hs).entry_inBlock hi hx)

/-- Storing an entry leaves every other entry of the owned tables alone. -/
theorem load_store_ne (T : PageTree m node) {l k l' k' : Nat} {s t : Slot} {i j w : UInt64}
    (hs : node (l + 1) k = some s) (ht : node (l' + 1) k' = some t)
    (hi : i.toNat < 512) (hj : j.toNat < 512)
    (hne : ¬ (l' = l ∧ 512 * k' + j.toNat = 512 * k + i.toNat)) :
    (m.store64 (entryAddr s.frame i) w).load64 (entryAddr t.frame j) =
      m.load64 (entryAddr t.frame j) := by
  have hsf := T.isFrame _ _ _ hs
  have htf := T.isFrame _ _ _ ht
  have hsa := hsf.toNat_entryAddr hi
  have hta := htf.toNat_entryAddr hj
  have hsb := hsf.bound
  have htb := htf.bound
  by_cases hframe : s.frame = t.frame
  · -- The same table, hence two different indices of it.
    obtain ⟨rfl, rfl⟩ := T.owner _ _ _ _ _ _ hs ht hframe
    rw [hframe] at hsa ⊢
    refine Memory.load64_store64_of_apart (by omega) (by omega) ?_
    omega
  · apply Memory.load64_store64_of_disjoint
    intro x hx hx'
    exact hsf.disjoint htf hframe (hsf.entry_inBlock hi hx') (htf.entry_inBlock hj hx)

/-- A page without a parent slot has no slots below it. -/
theorem slot_eq_none_of_parent (T : PageTree m node) {l k : Nat} (hl : l + 1 ≤ 4)
    (habsent : node (l + 1) k = none) {j : UInt64} (hj : j.toNat < 512) :
    node l (512 * k + j.toNat) = none := by
  cases hslot : node l (512 * k + j.toNat) with
  | none => rfl
  | some u =>
      obtain ⟨p, hp⟩ := T.parent _ _ _ (by omega) hslot
      have hdiv : (512 * k + j.toNat) / 512 = k := by omega
      rw [hdiv, habsent] at hp
      contradiction

/-- A zeroed page stays zero when an entry of a table is written. -/
theorem load_store_of_zero (T : PageTree m node) {l k : Nat} {s : Slot} {frame w : UInt64}
    {i j : UInt64} (hs : node (l + 1) k = some s) (hi : i.toNat < 512) (hframe : IsFrame frame)
    (hne : s.frame ≠ frame) (hzero : ∀ x, InBlock frame 4096 x → m x = 0) (hj : j.toNat < 512) :
    (m.store64 (entryAddr s.frame i) w).load64 (entryAddr frame j) = 0 := by
  have hsf := T.isFrame _ _ _ hs
  apply Memory.load64_of_zero
  intro x hx
  have hxc := hframe.entry_inBlock hj hx
  rw [Memory.store64_of_not_inBlock, hzero x hxc]
  intro hxs
  exact hsf.disjoint hframe hne (hsf.entry_inBlock hi hxs) hxc

/-- **One store binds one slot.**  Above the leaves the new slot must be an
absent one, and its frame a zeroed page that no slot owns yet. -/
theorem setSlot (T : PageTree m node) {l k : Nat} {s c : Slot} {i : UInt64}
    (hs : node (l + 1) k = some s) (hi : i.toNat < 512) (hc : IsFrame c.frame)
    (htable : 0 < l → c.writable = true ∧ node l (512 * k + i.toNat) = none ∧
      (∀ l' k' t, node (l' + 1) k' = some t → t.frame ≠ c.frame) ∧
      ∀ x, InBlock c.frame 4096 x → m x = 0) :
    PageTree (m.store64 (entryAddr s.frame i) c.entry) (node.set l (512 * k + i.toNat) c) := by
  have hl : l + 1 ≤ 4 := T.level_le _ _ _ hs
  constructor
  · intro l' k' t ht
    rcases SlotMap.set_eq_some ht with ⟨rfl, -, -⟩ | ⟨-, hold⟩
    · omega
    · exact T.level_le _ _ _ hold
  · intro l' k' t ht
    rcases SlotMap.set_eq_some ht with ⟨-, -, rfl⟩ | ⟨-, hold⟩
    · exact hc
    · exact T.isFrame _ _ _ hold
  · intro l₁ k₁ t₁ l₂ k₂ t₂ h₁ h₂ hframe
    -- The new page was owned by no slot, so only old tables can share a frame.
    rcases SlotMap.set_eq_some h₁ with ⟨hl₁, hk₁, rfl⟩ | ⟨-, hold₁⟩ <;>
      rcases SlotMap.set_eq_some h₂ with ⟨hl₂, hk₂, rfl⟩ | ⟨-, hold₂⟩
    · omega
    · exact absurd hframe.symm ((htable (by omega)).2.2.1 _ _ _ hold₂)
    · exact absurd hframe ((htable (by omega)).2.2.1 _ _ _ hold₁)
    · exact T.owner _ _ _ _ _ _ hold₁ hold₂ hframe
  · intro l' k' t ht
    rcases SlotMap.set_eq_some ht with ⟨hl', -, rfl⟩ | ⟨-, hold⟩
    · exact (htable (by omega)).1
    · exact T.writable _ _ _ hold
  · intro l' k' t ht j hj
    rcases SlotMap.set_eq_some ht with ⟨hl', rfl, rfl⟩ | ⟨-, hold⟩
    · -- The new table is empty, and so is every slot below it.
      obtain ⟨-, habsent, hfresh, hzero⟩ := htable (by omega)
      rw [← hl'] at habsent
      rw [SlotMap.set_of_ne (by omega), T.slot_eq_none_of_parent (by omega) habsent hj]
      exact T.load_store_of_zero hs hi hc (hfresh _ _ _ hs) hzero hj
    · by_cases hsame : l' = l ∧ 512 * k' + j.toNat = 512 * k + i.toNat
      · -- The word that was stored.
        obtain ⟨rfl, hk⟩ := hsame
        obtain rfl : k' = k := by omega
        obtain rfl : j = i := UInt64.toNat_inj.mp (by omega)
        rw [hs] at hold
        obtain rfl := Option.some.inj hold
        simp [slotEntry]
      · rw [T.load_store_ne hs hold hi hj hsame, T.entry _ _ _ hold j hj, SlotMap.set_of_ne hsame]
  · intro l' k' t hl' ht
    -- The parent of the new slot is `s`; every other slot had its parent before.
    have hold : ∃ p, node (l' + 1) (k' / 512) = some p := by
      rcases SlotMap.set_eq_some ht with ⟨rfl, rfl, -⟩ | ⟨-, hbefore⟩
      · have hdiv : (512 * k + i.toNat) / 512 = k := by omega
        exact ⟨s, by rw [hdiv, hs]⟩
      · exact T.parent _ _ _ hl' hbefore
    by_cases heq : l' + 1 = l ∧ k' / 512 = 512 * k + i.toNat
    · exact ⟨c, by simp [SlotMap.set, heq]⟩
    · rw [SlotMap.set_of_ne heq]
      exact hold

end PageTree

end Machine
end OsBook
