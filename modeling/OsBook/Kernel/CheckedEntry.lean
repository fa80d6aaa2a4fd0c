import OsBook.Kernel.DeliveryTables
import OsBook.Kernel.EntryMemory
import OsBook.Machine.Segments

/-!
# `kernel_entry` with the checks of the processor

`Kernel.EntryMachine` leaves out what the processor looks at besides the
operations: it fetches them from the image and pushes to the stack through the
page tables, and `lretq`, the delivery of an interrupt and `iretq` read a segment
descriptor through GDTR.  Here a step whose checks fail leaves the kernel, and in
all reachable states they do not fail: the checked machine takes the same steps
(`checkedStep_eq`).

Between the two stores of the touch test the first word of the PML4 is wrong, and
with it the translation of image and stack.  The program goes on only because the
processor still has them in its TLB.  This is an assumption on the processor,
`KeepsTranslations`.
-/

namespace OsBook
namespace Kernel

open Machine Memory

/-- The second store of the touch test is to come. -/
def EntryState.BetweenStores (s : EntryState) : Prop :=
  s.code.head? = some .restoreWord ∨ ∃ frame ∈ s.saved, frame.1.head? = some .restoreWord

instance : DecidablePred EntryState.BetweenStores := fun s =>
  inferInstanceAs (Decidable (s.code.head? = some .restoreWord ∨
    ∃ frame ∈ s.saved, frame.1.head? = some .restoreWord))

/-- What the kernel assumes of the TLB.  Image and stack are translated by the tables in memory
and, between the two stores of the touch test, as the tables did before the first of them and do
behind the second. -/
structure KeepsTranslations (k : LoadedKernel) (mmu : EntryState → Mmu) : Prop where
  walks : ∀ s v, Live k.toHandover v.toNat → ¬ s.BetweenStores →
    mmu s v = translateAddr s.mem s.cr3 v
  caches : ∀ s v m, Live k.toHandover v.toNat → s.BetweenStores →
    restoreMemory s.mem s.cr3 (k.mmapPhys + upperHalf) s.old = some m →
      mmu s v = translateAddr m s.cr3 v

/-- A processor that walks the tables, and whose TLB keeps what they were before the first store. -/
def keepingMmu (k : LoadedKernel) (s : EntryState) : Mmu := fun v =>
  if s.BetweenStores then
    (restoreMemory s.mem s.cr3 (k.mmapPhys + upperHalf) s.old).bind fun m => translateAddr m s.cr3 v
  else translateAddr s.mem s.cr3 v

theorem keepingMmu_keeps (k : LoadedKernel) : KeepsTranslations k (keepingMmu k) where
  walks := fun _ _ _ hnot => if_neg hnot
  caches := by
    intro s v m _ hbetween hrestore
    unfold keepingMmu
    rw [if_pos hbetween, hrestore]
    rfl

/-- The two pointers do not share bytes with the descriptors, which stay in use. -/
structure LoadedKernel.LocalsApart (k : LoadedKernel) : Prop where
  bootGdtr : k.bootGdt.toNat + 24 ≤ k.bootGdtr.toNat ∨ k.bootGdtr.toNat + 10 ≤ k.bootGdt.toNat
  idtPointer : k.bootGdt.toNat + 24 ≤ k.idtPointer.toNat ∨
    k.idtPointer.toNat + 10 ≤ k.bootGdt.toNat

/-! ## The checks -/

section Checks

variable (k : LoadedKernel) (mmu : EntryState → Mmu)

/-- The pages of the image and of the stack. -/
def LoadedKernel.pages (k : LoadedKernel) : List UInt64 :=
  (List.range k.kernelPages.toNat).map (fun i => k.kernelPhys + UInt64.ofNat (4096 * i)) ++
    (List.range 4).map fun i => k.stackPhys + UInt64.ofNat (4096 * i)

namespace EntryState

/-- The program can be fetched and can push. -/
def pagesMapped (s : EntryState) : Bool := k.pages.all fun p => mmu s p = some ⟨p, true⟩

/-- A selector can be loaded into CS. -/
def loadsCode (s : EntryState) (selector : UInt16) : Bool :=
  (readSegment (mmu s) s.mem s.gdtr.base s.gdtr.limit selector).any isCode64

/-- The data selector `0x10`, which the program loads behind `lretq` and `iretq` pops. -/
def loadsData (s : EntryState) : Bool :=
  (readSegment (mmu s) s.mem s.gdtr.base s.gdtr.limit 0x10).any isWritableData

/-- The gate of a vector can be read, and its code segment can be loaded.  Without a stub behind
the gate, delivery leaves the kernel anyway. -/
def gateUsable (s : EntryState) (vector : UInt8) : Bool :=
  let a := gateAddr s.idtr.base vector
  match s.stubOf k vector with
  | none => true
  | some (_, g) =>
      mmu s a = some ⟨a, true⟩ && mmu s (a + 15) = some ⟨a + 15, true⟩ && s.loadsCode mmu g.selector

/-- The descriptors that a step reads. -/
def segmentsUsable (s : EntryState) : EntryEvent → Bool
  | .op =>
      match s.code, s.saved with
      | .reloadCs :: _, _ => s.loadsCode mmu 8 && s.loadsData mmu
      | .int3 :: _, _ => s.gateUsable k mmu kVectorBreakpoint
      | .probe :: _, _ =>
          (translateAddr s.mem s.cr3 kProbeUnmappedVa).isSome ||
            s.gateUsable k mmu kVectorPageFault
      | .op .iretq :: _, (_, _, cs) :: _ => s.loadsCode mmu cs && s.loadsData mmu
      | _, _ => true
  | .irq src =>
      match s.deliverable src with
      | some vector => !s.idtLoaded || s.gateUsable k mmu vector
      | none => true

end EntryState

/-- A step of `kernel_entry` with the checks of the processor. -/
def checkedStep (e : EntryEvent) (s : EntryState) : Option EntryState :=
  (entryStep k e s).map fun t =>
    if s.pagesMapped k mmu && s.segmentsUsable k mmu e then t else s.leave

end Checks

/-! ## Image and stack are mapped -/

section Mapped

variable {k : LoadedKernel} {mmu : EntryState → Mmu} {s : EntryState}

/-- Image and stack are translated to themselves. -/
def EntryState.LiveMapped (k : LoadedKernel) (mmu : EntryState → Mmu) (s : EntryState) : Prop :=
  ∀ v : UInt64, Live k.toHandover v.toNat → mmu s v = some ⟨v, true⟩

/-- The start of the `i`-th page of a range. -/
theorem toNat_page {base : UInt64} {n i : Nat} (hi : i < n) (hbelow : base.toNat + n * 4096 ≤ 2 ^ 47) :
    (base + UInt64.ofNat (4096 * i)).toNat = base.toNat + 4096 * i := by
  have hoffset : (UInt64.ofNat (4096 * i)).toNat = 4096 * i := by
    rw [UInt64.toNat_ofNat']
    exact Nat.mod_eq_of_lt (by omega)
  rw [toNat_add_of_lt (by omega), hoffset]

theorem live_of_mem_pages (hp : Placed k.toHandover) {p : UInt64} (h : p ∈ k.pages) :
    Live k.toHandover p.toNat := by
  simp only [LoadedKernel.pages, List.mem_append, List.mem_map, List.mem_range] at h
  rcases h with ⟨i, hi, rfl⟩ | ⟨i, hi, rfl⟩
  · left
    rw [toNat_page hi hp.kernel_below]
    exact ⟨by omega, by omega⟩
  · right
    rw [toNat_page hi hp.stack_below]
    exact ⟨by omega, by omega⟩

theorem EntryState.LiveMapped.pagesMapped (h : s.LiveMapped k mmu) (hp : Placed k.toHandover) :
    s.pagesMapped k mmu = true := by
  refine List.all_eq_true.mpr fun p hmem => ?_
  exact decide_eq_true (h p (live_of_mem_pages hp hmem))

end Mapped

/-! ## Where a reachable state stands -/

/-- What the checks look at is the same. -/
structure EntryState.Agrees (s c : EntryState) : Prop where
  mem : s.mem = c.mem
  cr3 : s.cr3 = c.cr3
  gdtr : s.gdtr = c.gdtr
  idtr : s.idtr = c.idtr
  csSel : s.csSel = c.csSel
  old : s.old = c.old
  idtLoaded : s.idtLoaded = c.idtLoaded

theorem agrees_of_setup {s c : EntryState} (h : s.setup = c.setup) : s.Agrees c where
  mem := EntryState.congr_setup EntryState.mem (fun _ => rfl) h
  cr3 := EntryState.congr_setup EntryState.cr3 (fun _ => rfl) h
  gdtr := EntryState.congr_setup EntryState.gdtr (fun _ => rfl) h
  idtr := EntryState.congr_setup EntryState.idtr (fun _ => rfl) h
  csSel := EntryState.congr_setup EntryState.csSel (fun _ => rfl) h
  old := EntryState.congr_setup EntryState.old (fun _ => rfl) h
  idtLoaded := EntryState.congr_setup EntryState.idtLoaded (fun _ => rfl) h

/-- The main program is before the operations `rest`, or a handler has interrupted it there. -/
inductive Stands (k : LoadedKernel) (s₀ : EntryState) (done rest : List EntryOp) (s : EntryState) :
    Prop
  | main (hcode : done ++ rest = entryCode) (hagrees : s.Agrees (s₀.after k done))
      (hat : AtCode rest s.code) (hsaved : s.saved = []) : Stands k s₀ done rest s
  | handler {code body : List EntryOp} {interrupts : Bool} (hcode : done ++ rest = entryCode)
      (hagrees : s.Agrees (s₀.after k done)) (hat : AtCode rest code)
      (hsaved : s.saved = [(code, interrupts, (s₀.after k done).cs)])
      (hoff : s.hw.interrupts = false) (hbody : s.code = body ++ [.op .iretq])
      (hin : ∀ op ∈ body, op.inHandler = true) : Stands k s₀ done rest s

section Stands

variable {k : LoadedKernel} {s₀ s : EntryState} {done rest tail code body : List EntryOp}

theorem Stands.whole (h : Stands k s₀ done rest s) : done ++ rest = entryCode := by
  cases h with
  | main hcode => exact hcode
  | handler hcode => exact hcode

theorem Stands.agrees (h : Stands k s₀ done rest s) : s.Agrees (s₀.after k done) := by
  cases h with
  | main hcode hagrees => exact hagrees
  | handler hcode hagrees => exact hagrees

/-- A state that is nowhere has left the kernel, and takes no step. -/
theorem EntryInv.stands (h : EntryInv k s₀ s) :
    (∃ done rest, Stands k s₀ done rest s) ∨ ∀ e, entryStep k e s = none := by
  cases h with
  | main hcode hat hsaved hsetup =>
      exact Or.inl ⟨_, _, .main hcode (agrees_of_setup hsetup) hat hsaved⟩
  | handler hcode hat hsaved hoff hbody hin hsetup =>
      have hagrees := agrees_of_setup hsetup
      exact Or.inl ⟨_, _, .handler hcode ⟨hagrees.mem, hagrees.cr3, hagrees.gdtr, hagrees.idtr,
        hagrees.csSel, hagrees.old, hagrees.idtLoaded⟩ hat hsaved hoff hbody hin⟩
  | left hcode hoff =>
      refine Or.inr fun e => ?_
      cases e with
      | op =>
          have hnone : s.stepOp k = none := by
            unfold EntryState.stepOp
            rw [hcode]
          simp only [entryStep, hnone, ite_self]
      | irq src => simp only [entryStep, hoff, Bool.false_eq_true, if_false]

/-- Only the check of a wait puts an operation in front of the code. -/
theorem AtCode.head_iff {op : EntryOp} (h : AtCode rest code) (hhlt : op ≠ .op .hlt)
    (hwait : ∀ t, op ≠ .op (.waitTicks t)) :
    (∃ tail, code = op :: tail) ↔ ∃ tail, rest = op :: tail := by
  cases h with
  | here => exact Iff.rfl
  | hlt hrest =>
      refine iff_of_false ?_ ?_
      · rintro ⟨tail, heq⟩
        exact hhlt (List.cons.inj heq).1.symm
      · rintro ⟨tail, heq⟩
        exact hwait _ (List.cons.inj (hrest.symm.trans heq)).1.symm

/-- The next operation of a handler. -/
theorem handler_head {op : EntryOp} (hbody : s.code = body ++ [.op .iretq])
    (hin : ∀ op ∈ body, op.inHandler = true) (hcode : s.code = op :: tail) :
    op = .op .iretq ∨ op.inHandler = true := by
  cases body with
  | nil => exact Or.inl (List.cons.inj (hcode.symm.trans hbody)).1
  | cons op' body =>
      obtain rfl := (List.cons.inj (hcode.symm.trans hbody)).1
      exact Or.inr (hin op (by simp))

theorem Stands.between_iff (h : Stands k s₀ done rest s) :
    s.BetweenStores ↔ ∃ tail, rest = .restoreWord :: tail := by
  unfold EntryState.BetweenStores
  simp only [List.head?_eq_some_iff]
  cases h with
  | main hcode hagrees hat hsaved =>
      rw [← hat.head_iff (by simp) (by simp)]
      simp only [hsaved, List.not_mem_nil, false_and, exists_false, or_false]
  | handler hcode hagrees hat hsaved hoff hbody hin =>
      have hnot : ∀ tail, s.code ≠ .restoreWord :: tail := by
        intro tail heq
        rcases handler_head hbody hin heq with hop | hop <;> cases hop
      rw [← hat.head_iff (by simp) (by simp)]
      simp only [hsaved, List.mem_singleton, hnot, exists_false, false_or, exists_eq_left]

/-- An operation that no handler has is the main program's. -/
theorem Stands.of_code {op : EntryOp} (h : Stands k s₀ done rest s) (hcode : s.code = op :: tail)
    (hhandler : op.inHandler = false) (hiretq : op ≠ .op .iretq) (hhlt : op ≠ .op .hlt)
    (hwait : ∀ t, op ≠ .op (.waitTicks t)) : ∃ tail, done ++ op :: tail = entryCode := by
  cases h with
  | main hall hagrees hat hsaved =>
      obtain ⟨tail', rfl⟩ := (hat.head_iff hhlt hwait).mp ⟨tail, hcode⟩
      exact ⟨tail', hall⟩
  | handler hall hagrees hat hsaved hoff hbody hin =>
      rcases handler_head hbody hin hcode with hop | hop
      · exact absurd hop hiretq
      · rw [hhandler] at hop
        cases hop

end Stands

/-! ## The boot GDT -/

/-- The code and the data descriptor of the boot GDT are in the table in use. -/
structure GdtReady (k : LoadedKernel) (c : EntryState) : Prop where
  gdtr : c.gdtr = ⟨23, k.stackPhys + k.bootGdt⟩
  code : c.mem.load64 (k.stackPhys + k.bootGdt + 8) = 0x00AF9A000000FFFF
  data : c.mem.load64 (k.stackPhys + k.bootGdt + 16) = 0x00AF92000000FFFF

section Gdt

variable {k : LoadedKernel} (hp : Placed k.toHandover) (hk : k.Ok) (hlocals : k.LocalsApart)
include hp hk

omit hk in
/-- Where the locals are. -/
theorem toNat_local (off : UInt64) (hfit : off.toNat ≤ 4 * 4096) :
    (k.stackPhys + off).toNat = k.stackPhys.toNat + off.toNat := by
  have hbelow := hp.stack_below
  exact toNat_add_of_lt (by omega)

theorem toNat_bootGdt {i : UInt64} (hi : i.toNat ≤ 24) :
    (k.stackPhys + k.bootGdt + i).toNat = k.stackPhys.toNat + k.bootGdt.toNat + i.toNat := by
  have hbelow := hp.stack_below
  have hfit := hk.bootGdt_fits.2
  rw [toNat_add_of_lt, toNat_local hp _ (by omega)]
  rw [toNat_local hp _ (by omega)]
  omega

/-- A descriptor of the table, byte by byte. -/
theorem inBlock_bootGdt {i x : UInt64} (hi : i.toNat + 8 ≤ 24)
    (hx : InBlock (k.stackPhys + k.bootGdt + i) 8 x) :
    k.stackPhys.toNat + k.bootGdt.toNat ≤ x.toNat ∧
      x.toNat < k.stackPhys.toNat + k.bootGdt.toNat + 24 := by
  have hbelow := hp.stack_below
  have hfit := hk.bootGdt_fits.2
  have hbase := toNat_bootGdt hp hk (i := i) (by omega)
  rw [inBlock_iff (by omega)] at hx
  omega

include hlocals

/-- The table is filled before its pointer, which lies elsewhere. -/
theorem gdtReady_loadBootGdt (c : EntryState) : GdtReady k (c.loadBootGdt k) := by
  have hbelow := hp.stack_below
  have hfit := hk.bootGdt_fits.2
  have hfit' := hk.bootGdtr_fits.2
  have hpointer := hlocals.bootGdtr
  have hpointer' := toNat_local hp k.bootGdtr (by omega)
  have hzero := toNat_bootGdt hp hk (i := 0) (by decide)
  have height := toNat_bootGdt hp hk (i := 8) (by decide)
  have hsixteen := toNat_bootGdt hp hk (i := 16) (by decide)
  have h8 : (8 : UInt64).toNat = 8 := rfl
  have h16 : (16 : UInt64).toNat = 16 := rfl
  have hkeep : ∀ (i : UInt64) (m' : Memory), i.toNat + 8 ≤ 24 →
      (m'.storeFields (k.stackPhys + k.bootGdtr)
        [⟨0, 2, 23⟩, ⟨2, 8, (k.stackPhys + k.bootGdt).toNat⟩]).load64
          (k.stackPhys + k.bootGdt + i) = m'.load64 (k.stackPhys + k.bootGdt + i) := by
    intro i m' hi
    refine load64_congr fun x hx => ?_
    refine storeFields_of_not_inBlock (show 10 ≤ 2 ^ 64 by decide) (by simp) (fun hin => ?_) m'
    have hx' := inBlock_bootGdt hp hk hi hx
    rw [inBlock_iff (by omega)] at hin
    omega
  refine ⟨c.loadBootGdt_gdtr k, ?_, ?_⟩
  · refine (hkeep 8 _ (by decide)).trans ?_
    rw [load64_store64_of_apart (by omega) (by omega) (by omega), load64_store64_same]
  · refine (hkeep 16 _ (by decide)).trans ?_
    rw [load64_store64_same]

variable (hd : RangesDisjoint k.toHandover)
include hd

/-- No operation but the touch test writes to the table. -/
theorem GdtReady.exec {c : EntryState} (h : GdtReady k c) {op : EntryOp} (hflip : op ≠ .flipWord)
    (hrestore : op ≠ .restoreWord) : GdtReady k (c.exec k op) := by
  have hfit := hk.bootGdt_fits.2
  -- Neither the descriptor table of the interrupts nor its pointer shares bytes with it.
  have hgate : ∀ (c : EntryState) (vector : UInt8) (isr : Isr) (typeAttr : UInt8) (i : UInt64),
      i.toNat + 8 ≤ 24 → (c.installGate k vector isr typeAttr).mem.load64
        (k.stackPhys + k.bootGdt + i) = c.mem.load64 (k.stackPhys + k.bootGdt + i) := by
    intro c vector isr typeAttr i hi
    refine load64_congr fun x hx => ?_
    have hx' := inBlock_bootGdt hp hk hi hx
    have hfit' := hk.idtPointer_fits.2
    have hpointer := hlocals.idtPointer
    have hpointer' := toNat_local hp k.idtPointer (by omega)
    have hbelow := hp.stack_below
    refine (storeFields_of_not_inBlock (show 10 ≤ 2 ^ 64 by decide) (by simp) (fun hin => ?_)
      _).trans (idtSetGate_of_not_inBlock fun hin => ?_)
    · rw [inBlock_iff (by omega)] at hin
      omega
    · exact hd.kernel_stack _ (inKernelImage_of_inBlock_idt hp hk hin) ⟨by omega, by omega⟩
  have hsame : ∀ {t : EntryState}, t.gdtr = c.gdtr → (∀ i : UInt64, i.toNat + 8 ≤ 24 →
      t.mem.load64 (k.stackPhys + k.bootGdt + i) = c.mem.load64 (k.stackPhys + k.bootGdt + i)) →
        GdtReady k t := fun hgdtr hmem =>
    ⟨hgdtr.trans h.gdtr, (hmem 8 (by decide)).trans h.code, (hmem 16 (by decide)).trans h.data⟩
  cases op with
  | op o =>
      cases o with
      | io i =>
          cases i with
          | idtSetGate vector timer typeAttr =>
              exact hsame rfl (hgate _ vector (stub timer) typeAttr)
          | _ => exact hsame rfl fun _ _ => rfl
      | _ => exact hsame rfl fun _ _ => rfl
  | installGate vector isr typeAttr => exact hsame rfl (hgate c vector isr typeAttr)
  | loadBootGdt => exact gdtReady_loadBootGdt hp hk hlocals c
  | idtClearAll =>
      have hclear : ∀ i : UInt64, i.toNat + 8 ≤ 24 → (Kernel.idtClearAll c.mem k.idt).load64
          (k.stackPhys + k.bootGdt + i) = c.mem.load64 (k.stackPhys + k.bootGdt + i) := by
        intro i hi
        refine load64_congr fun x hx => ?_
        have hx' := inBlock_bootGdt hp hk hi hx
        refine idtClearAll_of_not_inBlock fun hin => ?_
        exact hd.kernel_stack _ (inKernelImage_of_inBlock_idt hp hk hin) ⟨by omega, by omega⟩
      generalize hmem : Kernel.idtClearAll c.mem k.idt = cleared at hclear
      have hexec : c.exec k .idtClearAll = { c with mem := cleared } := by
        rw [← hmem]
        rfl
      rw [hexec]
      exact hsame rfl hclear
  | flipWord => exact absurd rfl hflip
  | restoreWord => exact absurd rfl hrestore
  | _ => exact hsame rfl fun _ _ => rfl

theorem GdtReady.after {c : EntryState} (h : GdtReady k c) {ops : List EntryOp}
    (hflip : EntryOp.flipWord ∉ ops) (hrestore : EntryOp.restoreWord ∉ ops) :
    GdtReady k (c.after k ops) := by
  induction ops generalizing c with
  | nil => exact h
  | cons op ops ih =>
      rw [List.mem_cons, not_or] at hflip hrestore
      exact ih (h.exec hp hk hlocals hd (Ne.symm hflip.1) (Ne.symm hrestore.1)) hflip.2 hrestore.2

end Gdt

/-! ## Behind the first `lidt` -/

/-- The program up to the cleared table of the interrupts. -/
def toCleared : List EntryOp := (stage1Finish ++ bootSegments) ++ [.op (.io .cli), .idtClearAll]

theorem entryCode_cleared :
    ∃ behind, entryCode = toCleared ++ behind ∧ behind.all EntryOp.afterClear = true := by
  refine ⟨stage2.tail ++ (kernelEntry.map .op ++ stage5), ?_, by decide +kernel⟩
  simp only [entryCode, toCleared, stage2, List.append_assoc, List.cons_append, List.nil_append,
    List.tail_cons]

section Loaded

variable {k : LoadedKernel}

/-- Only a call of `idtSetGate` comes with the `lidt` behind it. -/
theorem flags_gateCall {op : EntryOp} (h : op.gateCall k = none) (f : Bool × Bool) :
    (op.flags f).2 = f.2 := by
  cases op with
  | op o =>
      cases o with
      | io i =>
          cases i with
          | idtSetGate vector timer typeAttr => cases h
          | _ => rfl
      | _ => rfl
  | installGate vector isr typeAttr => cases h
  | _ => rfl

/-- A table that has been loaded has a gate. -/
theorem gateCalls_ne_nil {c : EntryState} {ops : List EntryOp}
    (h : (c.after k ops).idtLoaded = true) :
    c.idtLoaded = true ∨ ops.filterMap (EntryOp.gateCall k) ≠ [] := by
  induction ops generalizing c with
  | nil => exact Or.inl h
  | cons op ops ih =>
      rw [List.filterMap_cons]
      cases hop : op.gateCall k with
      | some call => exact Or.inr (List.cons_ne_nil _ _)
      | none =>
          refine (ih h).imp_left fun hloaded => ?_
          have hflags := congrArg Prod.snd (flags_exec k c op)
          rw [flags_gateCall hop] at hflags
          exact hflags.symm.trans hloaded

theorem gateCall_cs {op : EntryOp} {call : GateCall} (h : op.gateCall k = some call) :
    call.cs = 8 := by
  cases op with
  | op o =>
      cases o with
      | io i =>
          cases i with
          | idtSetGate vector timer typeAttr =>
              cases h
              rfl
          | _ => cases h
      | _ => cases h
  | installGate vector isr typeAttr =>
      cases h
      rfl
  | _ => cases h

/-- Only `lretq` changes CS. -/
theorem cs_after {c : EntryState} (hcs : c.cs = 8) (ops : List EntryOp) :
    (c.after k ops).cs = 8 := by
  induction ops generalizing c with
  | nil => exact hcs
  | cons op ops ih =>
      refine ih ?_
      cases op with
      | op o =>
          cases o with
          | io i => cases i <;> exact hcs
          | _ => exact hcs
      | flipWord =>
          obtain ⟨m, old, h⟩ := c.exec_flipWord k
          rw [h]
          exact hcs
      | restoreWord =>
          obtain ⟨m, h⟩ := c.exec_restoreWord k
          rw [h]
          exact hcs
      | reloadCs => rfl
      | _ => exact hcs

/-- Where the table of the interrupts is loaded. -/
theorem done_of_loaded {fw : Firmware} {P : Paging} {done rest : List EntryOp}
    (hcode : done ++ rest = entryCode)
    (hloaded : ((fw.enter P).after k done).idtLoaded = true) :
    ∃ mid, done = toCleared ++ mid ∧ mid.all EntryOp.afterClear = true ∧
      mid.filterMap (EntryOp.gateCall k) ≠ [] := by
  have hnone : toCleared.filterMap (EntryOp.gateCall k) = [] := rfl
  have hcalls := (gateCalls_ne_nil hloaded).resolve_left Bool.false_ne_true
  obtain ⟨behind, hsplit, hbehind⟩ := entryCode_cleared
  rw [hsplit] at hcode
  rcases List.append_eq_append_iff.mp hcode with ⟨ahead, hahead, -⟩ | ⟨mid, rfl, hmid⟩
  · rw [hahead, List.filterMap_append, List.append_eq_nil_iff] at hnone
    exact absurd hnone.1 hcalls
  · rw [List.filterMap_append, hnone, List.nil_append] at hcalls
    rw [hmid, List.all_append, Bool.and_eq_true] at hbehind
    exact ⟨mid, rfl, hbehind.1, hcalls⟩

variable (fw : Firmware) {P : Paging} (hp : Placed k.toHandover) (hk : k.Ok)
  (hlocals : k.LocalsApart) (hd : RangesDisjoint k.toHandover)
include hp hk hlocals hd

/-- Behind the `lgdt` the table stays in place. -/
theorem gdtReady_after {mid rest : List EntryOp}
    (hcode : (stage1Finish ++ .loadBootGdt :: mid) ++ rest = entryCode) :
    GdtReady k ((fw.enter P).after k (stage1Finish ++ .loadBootGdt :: mid)) := by
  generalize hbehind : EntryOp.reloadCs :: (print "STAGE 2: begin\n" ++ [.readCs]) ++
    (.op (.io .cli) :: (stage2 ++ (kernelEntry.map .op ++ stage5))) = behind
  have hsplit : entryCode = stage1Finish ++ .loadBootGdt :: behind := by
    rw [← hbehind]
    simp only [entryCode, bootSegments, List.append_assoc, List.cons_append]
  have hfree : EntryOp.flipWord ∉ behind ∧ EntryOp.restoreWord ∉ behind := by
    rw [← hbehind]
    decide +kernel
  rw [hsplit, List.append_assoc, List.append_cancel_left_eq, List.cons_append] at hcode
  obtain rfl := (List.cons.inj hcode).2
  simp only [List.mem_append, not_or] at hfree
  rw [EntryState.after_append, EntryState.after_cons]
  exact GdtReady.after hp hk hlocals hd
    (gdtReady_loadBootGdt hp hk hlocals ((fw.enter P).after k stage1Finish)) hfree.1.1 hfree.2.1

/-- What the program has set up where its table is loaded. -/
theorem ready_of_loaded {done rest : List EntryOp} (hcode : done ++ rest = entryCode)
    (hloaded : ((fw.enter P).after k done).idtLoaded = true) :
    GdtReady k ((fw.enter P).after k done) ∧ ((fw.enter P).after k done).cs = 8 ∧
      ((fw.enter P).after k done).idtr = ⟨4095, k.idt⟩ ∧
        ∀ v isr g, ((fw.enter P).after k done).stubOf k v = some (isr, g) → g.selector = 8 := by
  obtain ⟨mid, rfl, hafter, hcalls⟩ := done_of_loaded hcode hloaded
  have htables := (setting_idtClearAll fw P hp hk).tables.after hp hk hd hafter
  rw [List.nil_append] at htables
  have hcleared : (((fw.enter P).after k (stage1Finish ++ bootSegments)).exec k
      (.op (.io .cli))).exec k .idtClearAll = (fw.enter P).after k toCleared := by
    rw [toCleared, EntryState.after_append]
    rfl
  rw [hcleared, ← EntryState.after_append] at htables
  refine ⟨?_, ?_, (htables.loaded hcalls).2, ?_⟩
  · have hdone : toCleared ++ mid = stage1Finish ++ .loadBootGdt :: (.reloadCs ::
        (print "STAGE 2: begin\n" ++ [.readCs]) ++ ([.op (.io .cli), .idtClearAll] ++ mid)) := by
      simp only [toCleared, bootSegments, List.append_assoc, List.cons_append]
    rw [hdone] at hcode ⊢
    exact gdtReady_after fw hp hk hlocals hd hcode
  · rw [toCleared, List.append_assoc, EntryState.after_append]
    refine cs_after ?_ _
    rw [EntryState.after_append, EntryState.after_bootSegments]
  · intro v isr g hstub
    obtain ⟨hgate, hpresent, -⟩ := EntryState.stubOf_eq_some.mp hstub
    rw [htables.gate? hcalls] at hgate
    obtain rfl := Option.some.inj hgate
    obtain ⟨call, hcall, heq⟩ := descriptorOf_present hpresent
    obtain ⟨op, -, hop⟩ := List.mem_filterMap.mp hcall
    rw [heq]
    exact gateCall_cs hop

end Loaded

/-! ## The checks do not fail -/

section Usable

variable {k : LoadedKernel} {mmu : EntryState → Mmu} {s c : EntryState}

theorem GdtReady.congr (h : GdtReady k c) (hagrees : s.Agrees c) : GdtReady k s :=
  ⟨hagrees.gdtr.trans h.gdtr, hagrees.mem ▸ h.code, hagrees.mem ▸ h.data⟩

theorem EntryState.Agrees.stubOf (h : s.Agrees c) (v : UInt8) : s.stubOf k v = c.stubOf k v := by
  unfold EntryState.stubOf
  rw [h.mem, h.idtr]

/-- The two selectors of the boot GDT can be loaded. -/
theorem GdtReady.loads (h : GdtReady k s) (hlive : s.LiveMapped k mmu) (hp : Placed k.toHandover)
    (hk : k.Ok) : s.loadsCode mmu 8 = true ∧ s.loadsData mmu = true := by
  have hbelow := hp.stack_below
  have hfit := hk.bootGdt_fits.2
  have hmapped : ∀ i : UInt64, i.toNat + 8 ≤ 24 →
      mmu s (k.stackPhys + k.bootGdt + i) = some ⟨k.stackPhys + k.bootGdt + i, true⟩ ∧
        mmu s (k.stackPhys + k.bootGdt + i + 7) =
          some ⟨k.stackPhys + k.bootGdt + i + 7, true⟩ := by
    intro i hi
    have hbase := toNat_bootGdt hp hk (i := i) (by omega)
    have h7 : (7 : UInt64).toNat = 7 := rfl
    have hlast : (k.stackPhys + k.bootGdt + i + 7).toNat =
        (k.stackPhys + k.bootGdt + i).toNat + 7 := by
      rw [toNat_add_of_lt (by omega), h7]
    exact ⟨hlive _ (Or.inr ⟨by omega, by omega⟩), hlive _ (Or.inr ⟨by omega, by omega⟩)⟩
  obtain ⟨hcode, hcode'⟩ := hmapped 8 (by decide)
  obtain ⟨hdata, hdata'⟩ := hmapped 16 (by decide)
  have h8 : (8 : UInt16).toUInt64 = 8 := by decide
  have h16 : (0x10 : UInt16).toUInt64 = 16 := by decide
  have hlimit : (8 : UInt16).toNat + 7 ≤ (23 : UInt16).toNat := by decide
  have hlimit' : (0x10 : UInt16).toNat + 7 ≤ (23 : UInt16).toNat := by decide
  have hbits : isCode64 0x00AF9A000000FFFF = true := by decide
  have hbits' : isWritableData 0x00AF92000000FFFF = true := by decide
  constructor
  · unfold EntryState.loadsCode
    rw [h.gdtr, readSegment_identity h8 (by decide) (by decide) hlimit hcode hcode', h.code,
      Option.any_some, hbits]
  · unfold EntryState.loadsData
    rw [h.gdtr, readSegment_identity h16 (by decide) (by decide) hlimit' hdata hdata', h.data,
      Option.any_some, hbits']

/-- A gate of the kernel can be used. -/
theorem GdtReady.gateUsable (h : GdtReady k s) (hlive : s.LiveMapped k mmu)
    (hp : Placed k.toHandover) (hk : k.Ok) (hidtr : s.idtr = ⟨4095, k.idt⟩) {vector : UInt8}
    (hselector : ∀ isr g, s.stubOf k vector = some (isr, g) → g.selector = 8) :
    s.gateUsable k mmu vector = true := by
  have hentry : ∀ x, InBlock (gateAddr k.idt vector) 16 x → mmu s x = some ⟨x, true⟩ :=
    fun x hx => hlive x (Or.inl (inKernelImage_of_inBlock_idt hp hk (inBlock_table hx)))
  have hfirst := hentry (gateAddr k.idt vector) (by
    have hin := inBlock_add (a := gateAddr k.idt vector) (n := 16) (i := 0) (by decide) (by decide)
    rwa [show UInt64.ofNat 0 = 0 from rfl, UInt64.add_zero] at hin)
  have hlast := hentry (gateAddr k.idt vector + 15)
    (inBlock_add (n := 16) (i := 15) (by decide) (by decide))
  unfold EntryState.gateUsable
  rw [hidtr]
  cases hstub : s.stubOf k vector with
  | none => rfl
  | some found =>
      obtain ⟨isr, g⟩ := found
      simp only [hfirst, hlast, hselector isr g hstub, (h.loads hlive hp hk).1, decide_true,
        Bool.and_self]

end Usable

section Live

variable {k : LoadedKernel} (fw : Firmware) {m : Memory} {P : Paging} (hp : Placed k.toHandover)
  (hk : k.Ok) (hd : RangesDisjoint k.toHandover) (hc : ConventionalOk k.toHandover m)
  (hb : MapBelow k.toHandover m) (hbuild : buildPaging k.toHandover m = .ok P)
include hp hk hd hc hb hbuild

/-- Image and stack are mapped wherever the program stands. -/
theorem Stands.liveMapped {mmu : EntryState → Mmu} (hmmu : KeepsTranslations k mmu)
    {done rest : List EntryOp} {s : EntryState} (h : Stands k (fw.enter P) done rest s) :
    s.LiveMapped k mmu := by
  intro v hv
  have hlive := buildPaging_keepsLive hp hc hb hbuild v hv
  obtain ⟨hroot, hmemory⟩ := after_memory fw hp hk hd hc hb hbuild h.whole
  rw [← h.agrees.cr3] at hroot
  rw [← h.agrees.mem, ← h.agrees.old] at hmemory
  rcases hmemory with ⟨hother, hsame⟩ | ⟨hrestore, hflip⟩
  · have hnot : ¬ s.BetweenStores := by
      rw [h.between_iff]
      rintro ⟨tail, hrest⟩
      exact hother tail hrest
    rw [hmmu.walks s v hv hnot, hroot, ← hlive]
    exact translateAddr_congr hp hc hb hbuild
      (fun x hkernel hstack => hsame x (Foreign.unwritten hp hk ⟨hkernel, hstack⟩)) v
  · obtain ⟨flipped, old, hfirst, hsecond⟩ := flipMemory_restoreMemory hp hd hc hb hbuild
    obtain ⟨rfl, rfl⟩ := Prod.mk.inj (Option.some.inj (hfirst.symm.trans hflip))
    rw [← hroot] at hsecond
    rw [hmmu.caches s v P.mem hv (h.between_iff.mpr hrestore) hsecond, hroot, hlive]

omit hp hk hd hc hb hbuild in
/-- An exception finds the table loaded. -/
theorem loaded_at_exception {op : EntryOp} (hop : op ∈ [EntryOp.int3, .probe])
    {done tail : List EntryOp} (hcode : done ++ op :: tail = entryCode) :
    ((fw.enter P).after k done).idtLoaded = true := by
  let before (op : EntryOp) : List EntryOp := entryCode.takeWhile (· ≠ op)
  let behind (op : EntryOp) : List EntryOp := (entryCode.dropWhile (· ≠ op)).tail
  have hplaces : ∀ op ∈ [EntryOp.int3, .probe], entryCode = before op ++ op :: behind op ∧
      op ∉ before op ∧ op ∉ behind op ∧
        ∀ b, ((before op).foldl EntryOp.flags (b, false)).2 = true := by
    decide +kernel
  obtain ⟨hsplit, hbefore, hbehind, hflags⟩ := hplaces op hop
  obtain ⟨rfl, -⟩ := place_once hsplit hbefore hbehind hcode
  have hloaded := congrArg Prod.snd (flags_after k (fw.enter P) (before op))
  exact hloaded.trans (hflags _)

omit hp hk hd hc hb hbuild in
theorem Stands.loaded_of_exception {op : EntryOp} (hop : op ∈ [EntryOp.int3, .probe])
    {done rest code : List EntryOp} {s : EntryState} (h : Stands k (fw.enter P) done rest s)
    (hcode : s.code = op :: code) : s.idtLoaded = true := by
  have hplace : ∃ tail, done ++ op :: tail = entryCode := by
    simp only [List.mem_cons, List.not_mem_nil, or_false] at hop
    rcases hop with rfl | rfl <;> exact h.of_code hcode rfl (by simp) (by simp) (by simp)
  obtain ⟨tail, hall⟩ := hplace
  rw [h.agrees.idtLoaded]
  exact loaded_at_exception fw hop hall

omit hc hb hbuild in
/-- A handler runs only behind the first `lidt`. -/
theorem busy_loaded {events : List EntryEvent} {s : EntryState}
    (hrun : runs (entryStep k) events (fw.enter P) = some s) :
    EntryInv k (fw.enter P) s ∧ (s.saved ≠ [] → s.idtLoaded = true) := by
  have hsafe := @safe_entryCode k fw P hp hk hd
  refine runs_invariant (fun _ s => EntryInv k (fw.enter P) s ∧ (s.saved ≠ [] → s.idtLoaded = true))
    ⟨(mainAt_enter fw).steady.1, fun h => absurd rfl h⟩ ?_ hrun
  rintro - e s s' ⟨hinv, hbusy⟩ hstep
  refine ⟨hinv.step hsafe hstep, fun hsaved' => ?_⟩
  refine entryStep_idtLoaded e ?_ hstep
  by_cases hsaved : s.saved = []
  · obtain ⟨done, rest, hstands⟩ := hinv.stands.resolve_right fun hnone => by
      rw [hnone e] at hstep
      cases hstep
    cases e with
    | op =>
        simp only [entryStep] at hstep
        split at hstep
        · cases hstep
        rcases stepOp_delivers hsaved hstep with hnone | ⟨code, hcode, -⟩ | ⟨code, hcode, -⟩
        · exact absurd hnone hsaved'
        · exact hstands.loaded_of_exception fw (by simp) hcode
        · exact hstands.loaded_of_exception fw (by simp) hcode
    | irq src =>
        refine Bool.of_not_eq_false fun hunloaded => ?_
        simp only [entryStep, hunloaded, Bool.false_eq_true, if_false] at hstep
        split at hstep
        · obtain ⟨vector, -, rfl⟩ := Option.map_eq_some_iff.mp hstep
          exact hsaved' rfl
        · cases hstep
  · exact hbusy hsaved

variable {mmu : EntryState → Mmu} (hlocals : k.LocalsApart)
include hlocals

omit hc hb hbuild in
/-- With the table of the interrupts loaded, all gates lead to the code segment. -/
theorem Stands.ready {done rest : List EntryOp} {s : EntryState}
    (h : Stands k (fw.enter P) done rest s) (hlive : s.LiveMapped k mmu)
    (hloaded : s.idtLoaded = true) :
    GdtReady k s ∧ ((fw.enter P).after k done).cs = 8 ∧ ∀ v, s.gateUsable k mmu v = true := by
  rw [h.agrees.idtLoaded] at hloaded
  obtain ⟨hgdt, hcs, hidtr, hselector⟩ := ready_of_loaded fw hp hk hlocals hd h.whole hloaded
  have hgdt' := hgdt.congr h.agrees
  refine ⟨hgdt', hcs, fun v => hgdt'.gateUsable hlive hp hk (h.agrees.idtr.trans hidtr) ?_⟩
  intro isr g hstub
  rw [h.agrees.stubOf] at hstub
  exact hselector v isr g hstub

omit hc hb hbuild in
/-- `lretq` follows the `lgdt`. -/
theorem Stands.gdtReady {done rest code : List EntryOp} {s : EntryState}
    (h : Stands k (fw.enter P) done rest s) (hcode : s.code = .reloadCs :: code) :
    GdtReady k s := by
  obtain ⟨tail, hall⟩ := h.of_code hcode rfl (by simp) (by simp) (by simp)
  have hsplit : entryCode = (stage1Finish ++ [.loadBootGdt]) ++ .reloadCs ::
      (print "STAGE 2: begin\n" ++ [.readCs] ++
        (.op (.io .cli) :: (stage2 ++ (kernelEntry.map .op ++ stage5)))) := by
    simp only [entryCode, bootSegments, List.append_assoc, List.cons_append, List.nil_append]
  obtain ⟨rfl, -⟩ := place_once hsplit (by decide +kernel) (by decide +kernel) hall
  exact (gdtReady_after fw hp hk hlocals hd h.whole).congr h.agrees

omit hc hb hbuild in
/-- The descriptors that a step reads are in place. -/
theorem Stands.segmentsUsable {done rest : List EntryOp} {s : EntryState}
    (h : Stands k (fw.enter P) done rest s) (hlive : s.LiveMapped k mmu)
    (hbusy : s.saved ≠ [] → s.idtLoaded = true) (e : EntryEvent) :
    s.segmentsUsable k mmu e = true := by
  have hready := fun hloaded => h.ready fw hp hk hd hlocals hlive hloaded
  cases e with
  | irq src =>
      unfold EntryState.segmentsUsable
      simp only
      cases hv : s.deliverable src with
      | none => rfl
      | some vector =>
          cases hloaded : s.idtLoaded with
          | false => rfl
          | true => exact (hready hloaded).2.2 vector
  | op =>
      unfold EntryState.segmentsUsable
      simp only
      split
      · rename_i code _ hcode
        have hgdt := h.gdtReady fw hp hk hd hlocals hcode
        obtain ⟨hcode, hdata⟩ := hgdt.loads hlive hp hk
        rw [hcode, hdata]
        rfl
      · rename_i hcode
        have hloaded := h.loaded_of_exception fw (List.mem_cons_self) hcode
        exact (hready hloaded).2.2 _
      · rename_i hcode
        have hloaded := h.loaded_of_exception fw (List.mem_cons_of_mem _ List.mem_cons_self) hcode
        rw [(hready hloaded).2.2, Bool.or_true]
      · -- The handler returns to the code segment that it has interrupted.
        rename_i cs _ hcode hsaved
        have hloaded := hbusy (by rw [hsaved]; exact List.cons_ne_nil _ _)
        obtain ⟨hgdt, hcs, -⟩ := hready hloaded
        cases h with
        | main hall hagrees hat hnone =>
            rw [hnone] at hsaved
            cases hsaved
        | handler hall hagrees hat hframe hoff hbody hin =>
            obtain ⟨hframe, -⟩ := List.cons.inj (hsaved.symm.trans hframe)
            obtain rfl := ((Prod.mk.inj (Prod.mk.inj hframe).2).2).trans hcs
            obtain ⟨hcode, hdata⟩ := hgdt.loads hlive hp hk
            rw [hcode, hdata]
            rfl
      · rfl

/-- **The checks of the processor do not fail.**  In every reachable state the checked machine takes
the same steps. -/
theorem checkedStep_eq (hmmu : KeepsTranslations k mmu) {events : List EntryEvent} {s : EntryState}
    (hrun : runs (entryStep k) events (fw.enter P) = some s) (e : EntryEvent) :
    checkedStep k mmu e s = entryStep k e s := by
  obtain ⟨hinv, hbusy⟩ := busy_loaded fw hp hk hd hrun
  unfold checkedStep
  rcases hinv.stands with ⟨done, rest, hstands⟩ | hnone
  · have hlive := hstands.liveMapped fw hp hk hd hc hb hbuild hmmu
    rw [hlive.pagesMapped hp, hstands.segmentsUsable fw hp hk hd hlocals hlive hbusy e]
    simp only [Bool.and_self, if_true, Option.map_id']
  · rw [hnone e]
    rfl

end Live

end Kernel
end OsBook
