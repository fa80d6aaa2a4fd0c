import OsBook.Kernel.EntryRuns

/-!
# The two windows of `kernel_entry`

Interrupts are enabled between a `sti` and the next `cli`, once in Stage 3 and
once in Stage 4, and before the first `cli` if the firmware left them enabled.
This file runs the main program alone through its segments and records what
each window finds: the registers, the gates in memory and what the interrupt
controllers are programmed to deliver (`entry_window`).
-/

namespace OsBook
namespace Kernel

open Machine Memory

/-! ## Blocks of the image and of the stack -/

section Blocks

variable {k : LoadedKernel} (hp : Placed k.toHandover) {off x : UInt64} {n : Nat}
include hp

theorem inStackRange_of_inBlock (hfit : off.toNat + n ≤ 4 * 4096)
    (hx : InBlock (k.stackPhys + off) n x) : InStackRange k.toHandover x.toNat := by
  have hbelow := hp.stack_below
  have hbase : (k.stackPhys + off).toNat = k.stackPhys.toNat + off.toNat :=
    toNat_add_of_lt (by omega)
  rw [inBlock_iff (by omega)] at hx
  unfold InStackRange
  omega

theorem inKernelImage_of_inBlock (hfit : off.toNat + n ≤ k.kernelPages.toNat * 4096)
    (hx : InBlock (k.kernelPhys + off) n x) : InKernelImage k.toHandover x.toNat := by
  have hbelow := hp.kernel_below
  have hbase : (k.kernelPhys + off).toNat = k.kernelPhys.toNat + off.toNat :=
    toNat_add_of_lt (by omega)
  rw [inBlock_iff (by omega)] at hx
  unfold InKernelImage
  omega

/-- The table is part of the image. -/
theorem inKernelImage_of_inBlock_idt (hk : k.Ok) (hx : InBlock k.idt sizeofIdt x) :
    InKernelImage k.toHandover x.toNat :=
  inKernelImage_of_inBlock hp hk.gIdt_fits hx

end Blocks

/-! ## The tables of the kernel -/

/-- The descriptor in the table after some calls. -/
def descriptorOf (calls : List GateCall) (v : UInt8) : GateDescriptor :=
  match lastCall calls v with
  | some c => c.descriptor
  | none => ⟨0, 0, 0, 0, 0⟩

theorem descriptorOf_concat (calls : List GateCall) (c : GateCall) (v : UInt8) :
    descriptorOf (calls ++ [c]) v = if c.vector = v then c.descriptor else descriptorOf calls v := by
  unfold descriptorOf
  rw [lastCall_concat]
  by_cases hv : c.vector = v
  · rw [if_pos hv, if_pos hv]
  · rw [if_neg hv, if_neg hv]

/-- Bytes that are neither in the image nor on the stack. -/
def Foreign (h : Handover) (x : UInt64) : Prop :=
  ¬ InKernelImage h x.toNat ∧ ¬ InStackRange h x.toNat

/-- The kernel's own tables, once its IDT has been cleared: what `CR3`, `GDTR` and, after the
first call, `IDTR` designate.  Memory has only changed in the image and on the stack. -/
structure Tables (k : LoadedKernel) (m : Memory) (cr3 : UInt64) (calls : List GateCall)
    (c : EntryState) : Prop where
  cr3 : c.cr3 = cr3
  gdtr : c.gdtr = ⟨23, k.stackPhys + k.bootGdt⟩
  csSel : c.csSel = 8
  gates : ∀ v, readGate c.mem (gateAddr k.idt v) = descriptorOf calls v
  loaded : calls ≠ [] → c.idtLoaded = true ∧ c.idtr = ⟨4095, k.idt⟩
  foreign : ∀ x, Foreign k.toHandover x → c.mem x = m x

section Tables

variable {k : LoadedKernel} {m : Memory} {cr3 : UInt64} {calls : List GateCall} {c : EntryState}

/-- The call of `idtSetGate` that an operation makes. -/
def EntryOp.gateCall (k : LoadedKernel) : EntryOp → Option GateCall
  | .installGate vector isr typeAttr => some ⟨vector, k.handler isr, 8, typeAttr⟩
  | .op (.io (.idtSetGate vector timer typeAttr)) =>
      some ⟨vector, k.handler (stub timer), 8, typeAttr⟩
  | _ => none

/-- The operations after the table has been cleared. -/
def EntryOp.afterClear : EntryOp → Bool
  | .flipWord => false
  | .restoreWord => false
  | .loadBootGdt => false
  | .readCs => false
  | .idtClearAll => false
  | _ => true

/-- One gate. -/
theorem Tables.installGate (hp : Placed k.toHandover) (hk : k.Ok) (hd : RangesDisjoint k.toHandover)
    (h : Tables k m cr3 calls c) (vector : UInt8) (isr : Isr) (typeAttr : UInt8) :
    Tables k m cr3 (calls ++ [⟨vector, k.handler isr, 8, typeAttr⟩])
      (c.installGate k vector isr typeAttr) := by
  have htable : ∀ x, InBlock k.idt sizeofIdt x → InKernelImage k.toHandover x.toNat :=
    fun x hx => inKernelImage_of_inBlock_idt hp hk hx
  have hpointer : ∀ x, ¬ InStackRange k.toHandover x.toNat → ∀ m' : Memory,
      (idtLoad m' (k.stackPhys + k.idtPointer) k.idt (UInt16.ofNat (sizeofIdt - 1))).1 x = m' x := by
    intro x hx m'
    refine storeFields_of_not_inBlock (show 10 ≤ 2 ^ 64 by decide) (by simp) (fun hin => ?_) m'
    exact hx (inStackRange_of_inBlock hp hk.idtPointer_fits.2 hin)
  refine ⟨h.cr3, h.gdtr, h.csSel, fun v => ?_, fun _ => ⟨rfl, ?_⟩, fun x hx => ?_⟩
  · -- The pointer on the stack is not part of the table.
    have hread : readGate (c.installGate k vector isr typeAttr).mem (gateAddr k.idt v) =
        readGate (idtSetGate c.mem k.idt vector (k.handler isr) c.csSel typeAttr)
          (gateAddr k.idt v) :=
      readGate_congr fun x hx => hpointer x (hd.kernel_stack _ (htable x (inBlock_table hx))) _
    rw [hread, readGate_idtSetGate, descriptorOf_concat, h.csSel, h.gates]
    rfl
  · exact idtLoad_idtr _ _ _ _
  · refine (hpointer x hx.2 _).trans ?_
    rw [idtSetGate_of_not_inBlock fun hin => hx.1 (htable x hin)]
    exact h.foreign x hx

/-- What the tables do not depend on. -/
theorem Tables.congr {t : EntryState} (h : Tables k m cr3 calls c) (hmem : t.mem = c.mem)
    (hcr3 : t.cr3 = c.cr3) (hgdtr : t.gdtr = c.gdtr) (hsel : t.csSel = c.csSel)
    (hidtr : t.idtr = c.idtr) (hloaded : t.idtLoaded = c.idtLoaded) : Tables k m cr3 calls t := by
  refine ⟨hcr3.trans h.cr3, hgdtr.trans h.gdtr, hsel.trans h.csSel, ?_, ?_, ?_⟩
  · rw [hmem]
    exact h.gates
  · rw [hidtr, hloaded]
    exact h.loaded
  · rw [hmem]
    exact h.foreign

/-- One operation after the table has been cleared. -/
theorem Tables.exec (hp : Placed k.toHandover) (hk : k.Ok) (hd : RangesDisjoint k.toHandover)
    (h : Tables k m cr3 calls c) {op : EntryOp} (hop : op.afterClear = true) :
    Tables k m cr3 (calls ++ (op.gateCall k).toList) (c.exec k op) := by
  have hplain : Tables k m cr3 (calls ++ []) c := by
    rw [List.append_nil]
    exact h
  cases op with
  | op o =>
      cases o with
      | io i =>
          cases i with
          | idtSetGate vector timer typeAttr =>
              have hio := h.congr (t := { c with hw := c.hw.io (.idtSetGate vector timer typeAttr) })
                rfl rfl rfl rfl rfl rfl
              exact hio.installGate hp hk hd vector (stub timer) typeAttr
          | _ => exact hplain.congr rfl rfl rfl rfl rfl rfl
      | _ => exact hplain.congr rfl rfl rfl rfl rfl rfl
  | installGate vector isr typeAttr => exact h.installGate hp hk hd vector isr typeAttr
  | flipWord => cases hop
  | restoreWord => cases hop
  | loadBootGdt => cases hop
  | readCs => cases hop
  | idtClearAll => cases hop
  | _ => exact hplain.congr rfl rfl rfl rfl rfl rfl

/-- Several operations. -/
theorem Tables.after (hp : Placed k.toHandover) (hk : k.Ok) (hd : RangesDisjoint k.toHandover)
    (h : Tables k m cr3 calls c) {ops : List EntryOp} (hops : ops.all EntryOp.afterClear = true) :
    Tables k m cr3 (calls ++ ops.filterMap (EntryOp.gateCall k)) (c.after k ops) := by
  induction ops generalizing calls c with
  | nil =>
      rw [List.filterMap_nil, List.append_nil]
      exact h
  | cons op ops ih =>
      rw [List.all_cons, Bool.and_eq_true] at hops
      have hnext := ih (h.exec hp hk hd hops.1) hops.2
      rw [List.append_assoc] at hnext
      have hcalls : (op :: ops).filterMap (EntryOp.gateCall k) =
          (op.gateCall k).toList ++ ops.filterMap (EntryOp.gateCall k) := by
        rw [List.filterMap_cons]
        cases op.gateCall k <;> rfl
      rw [hcalls]
      exact hnext

end Tables

/-! ## Devices -/

section Devices

variable (k : LoadedKernel) (c : EntryState)

/-- What an operation of the timer stages programs. -/
def ProgrammedLapic.io (l : ProgrammedLapic) : Io → ProgrammedLapic
  | .lapicMmioWrite reg value => l.write reg value
  | _ => l

theorem EntryState.after_lapic (ops : List Io) :
    (c.after k (ops.map fun i => .op (.io i))).lapic = ops.foldl ProgrammedLapic.io c.lapic := by
  induction ops generalizing c with
  | nil => rfl
  | cons i ops ih =>
      have hio : (c.exec k (.op (.io i))).lapic = c.lapic.io i := by
        cases i <;> rfl
      rw [List.map_cons, after_cons, ih, hio, List.foldl_cons]

theorem lapic_stage3Setup (l : ProgrammedLapic) : stage3Setup.foldl ProgrammedLapic.io l = l := by
  rfl

theorem lapic_stage4Setup (l : ProgrammedLapic) :
    stage4Setup.foldl ProgrammedLapic.io l = ⟨some 0x1FF, some 0x20022⟩ := by
  rfl

end Devices

/-! ## Segments before the first window -/

section Early

variable (k : LoadedKernel) (c : EntryState)

/-- The end of Stage 1 changes memory, the saved word and the log. -/
theorem EntryState.after_stage1Finish : ∃ m old log,
    c.after k stage1Finish = { c with mem := m, old := old, hw := { c.hw with log := log } } := by
  rw [stage1Finish, after_append, after_print, after_cons, after_cons, after_print]
  obtain ⟨m, old, hm⟩ := exec_flipWord k { c with hw := c.hw.print "STAGE 1: touch memory\n".toList }
  rw [hm]
  obtain ⟨m', hm'⟩ := exec_restoreWord k
    { c with hw := c.hw.print "STAGE 1: touch memory\n".toList, mem := m, old := old }
  rw [hm']
  exact ⟨m', old, _, rfl⟩

theorem EntryState.after_bootSegments : c.after k bootSegments =
    { c.loadBootGdt k with
      cs := 8, csSel := 8, hw := c.hw.print "STAGE 2: begin\n".toList } := by
  rw [bootSegments, after_cons, after_cons, after_append, after_print]
  rfl

/-- The register is what was stored in its operand. -/
theorem lgdt_storeFields (m : Memory) (p base : UInt64) (limit : UInt16) :
    lgdt (m.storeFields p [⟨0, 2, limit.toNat⟩, ⟨2, 8, base.toNat⟩]) p = ⟨limit, base⟩ := by
  have hload := idtLoad_idtr m p base limit
  simp only [idtLoad, lidt, Idtr.mk.injEq] at hload
  rw [lgdt, hload.1, hload.2]

/-- The boot GDT is the table in use, and is stored on the stack. -/
theorem EntryState.loadBootGdt_gdtr : (c.loadBootGdt k).gdtr = ⟨23, k.stackPhys + k.bootGdt⟩ :=
  lgdt_storeFields _ (k.stackPhys + k.bootGdtr) (k.stackPhys + k.bootGdt) 23

theorem EntryState.loadBootGdt_mem (hp : Placed k.toHandover) (hk : k.Ok) {x : UInt64}
    (hx : ¬ InStackRange k.toHandover x.toNat) : (c.loadBootGdt k).mem x = c.mem x := by
  have hgdt : ∀ i : UInt64, i.toNat + 8 ≤ 24 → ¬ InBlock (k.stackPhys + k.bootGdt + i) 8 x := by
    intro i hi hin
    have hfit := hk.bootGdt_fits.2
    rw [UInt64.add_assoc] at hin
    refine hx (inStackRange_of_inBlock hp ?_ hin)
    rw [toNat_add_of_lt (by omega)]
    omega
  have hfirst := hgdt 0 (by decide)
  rw [UInt64.add_zero] at hfirst
  refine (storeFields_of_not_inBlock (show 10 ≤ 2 ^ 64 by decide) (by simp) (fun hin => ?_) _).trans
    ?_
  · exact hx (inStackRange_of_inBlock hp hk.bootGdtr_fits.2 hin)
  · rw [store64_of_not_inBlock (hgdt 16 (by decide)), store64_of_not_inBlock (hgdt 8 (by decide)),
      store64_of_not_inBlock hfirst]

end Early

/-! ## The windows -/

/-- The gates of Stages 2 and 3. -/
def LoadedKernel.pitGates (k : LoadedKernel) : List GateCall :=
  [⟨kVectorBreakpoint, k.handler .breakpoint, 8, kIdtTypeTrap64⟩,
   ⟨kVectorIRQ0, k.handler .irq32, 8, kIdtTypeInt64⟩]

/-- The gates of Stages 2, 3 and 4. -/
def LoadedKernel.lapicGates (k : LoadedKernel) : List GateCall :=
  k.pitGates ++ [⟨kVectorLapicTimer, k.handler .lapicTimer, 8, kIdtTypeInt64⟩]

/-- What interrupt delivery finds while the kernel has enabled interrupts. -/
inductive EntryWindow (k : LoadedKernel) (m : Memory) (cr3 : UInt64) (c : EntryState) : Prop
  | pit (htables : Tables k m cr3 k.pitGates c) (hpic1 : c.hw.pic1 = ⟨0x20, 0xFE, 0⟩)
      (hpic2 : c.hw.pic2 = ⟨0x28, 0xFF, 0⟩) (hlapic : c.lapic = ⟨none, none⟩)
  | lapic (htables : Tables k m cr3 k.lapicGates c) (hpic1 : c.hw.pic1 = ⟨0x20, 0xFF, 0⟩)
      (hpic2 : c.hw.pic2 = ⟨0x28, 0xFF, 0⟩) (hlapic : c.lapic = ⟨some 0x1FF, some 0x20022⟩)

theorem EntryWindow.loaded {k : LoadedKernel} {m : Memory} {cr3 : UInt64} {c : EntryState}
    (h : EntryWindow k m cr3 c) : c.idtLoaded = true := by
  cases h with
  | pit htables => exact (htables.loaded (List.cons_ne_nil _ _)).1
  | lapic htables => exact (htables.loaded (List.cons_ne_nil _ _)).1

/-- An operation that raises an exception or never ends. -/
def EntryOp.excepts : EntryOp → Bool
  | .int3 => true
  | .probe => true
  | .haltLoop => true
  | _ => false

section Program

variable {k : LoadedKernel} (fw : Firmware) (P : Paging)

/-- Before the operations `rest` interrupts are enabled only in the windows, or if the firmware
left them enabled and the kernel has no table of its own; never at an exception; and the table is
loaded at every `sti`. -/
structure Position (k : LoadedKernel) (fw : Firmware) (m : Memory) (cr3 : UInt64)
    (rest : List EntryOp) (c : EntryState) : Prop where
  enabled : c.hw.interrupts = true →
    c.idtLoaded = false ∧ fw.hw.interrupts = true ∨ EntryWindow k m cr3 c
  masked : ∀ op tail, rest = op :: tail → op.excepts = true → c.hw.interrupts = false
  loaded : ∀ tail, rest = .op .sti :: tail → c.idtLoaded = true

/-- The memory at the end of Stage 1. -/
def LoadedKernel.stage1Memory (k : LoadedKernel) (fw : Firmware) (P : Paging) : Memory :=
  ((fw.enter P).after k stage1Finish).mem

variable {fw P} {m : Memory} {cr3 : UInt64} {rest ops : List EntryOp} {c : EntryState}

theorem position_of_off (h : c.hw.interrupts = false)
    (hsti : ∀ tail, rest = .op .sti :: tail → c.idtLoaded = true) : Position k fw m cr3 rest c where
  enabled := fun hon => absurd (h.symm.trans hon) Bool.false_ne_true
  masked := fun _ _ _ _ => h
  loaded := hsti

/-- Operations other than `sti` do not enable interrupts. -/
theorem after_off (hops : ops.all (· ≠ .op .sti) = true) (hc : c.hw.interrupts = false) :
    (c.after k ops).hw.interrupts = false := by
  induction ops generalizing c with
  | nil => exact hc
  | cons op ops ih =>
      rw [List.all_cons, Bool.and_eq_true] at hops
      exact ih hops.2 (EntryState.exec_interrupts k (of_decide_eq_true hops.1) hc)

theorem along_quiet (hops : ops.all (· ≠ .op .sti) = true) (hc : c.hw.interrupts = false) :
    Along k (Position k fw m cr3) rest ops c := by
  induction ops generalizing c with
  | nil => trivial
  | cons op ops ih =>
      rw [List.all_cons, Bool.and_eq_true] at hops
      have hop := of_decide_eq_true hops.1
      refine ⟨position_of_off hc fun tail h => ?_, ih hops.2 (EntryState.exec_interrupts k hop hc)⟩
      exact absurd (List.cons.inj h).1 hop

theorem all_io_ne_sti (ops : List Io) :
    (ops.map fun i => EntryOp.op (.io i)).all (· ≠ .op .sti) = true := by
  simp

theorem all_io_afterClear (ops : List Io) :
    (ops.map fun i => EntryOp.op (.io i)).all EntryOp.afterClear = true := by
  simp [EntryOp.afterClear]

/-- The operations of the main program before its first `cli`. -/
def EntryOp.early : EntryOp → Bool
  | .op (.io (.writeChar _)) => true
  | .flipWord => true
  | .restoreWord => true
  | .loadBootGdt => true
  | .reloadCs => true
  | .readCs => true
  | _ => false

theorem exec_early {op : EntryOp} (hop : op.early = true) (c : EntryState) :
    (c.exec k op).idtLoaded = c.idtLoaded ∧ (c.exec k op).hw.interrupts = c.hw.interrupts := by
  cases op with
  | op o =>
      cases o with
      | io i =>
          cases i with
          | writeChar x => exact ⟨rfl, rfl⟩
          | _ => cases hop
      | _ => cases hop
  | flipWord =>
      obtain ⟨m, old, h⟩ := c.exec_flipWord k
      rw [h]
      exact ⟨rfl, rfl⟩
  | restoreWord =>
      obtain ⟨m, h⟩ := c.exec_restoreWord k
      rw [h]
      exact ⟨rfl, rfl⟩
  | loadBootGdt => exact ⟨rfl, rfl⟩
  | reloadCs => exact ⟨rfl, rfl⟩
  | readCs => exact ⟨rfl, rfl⟩
  | _ => cases hop

/-- Up to the first `cli`, interrupts are as the firmware left them. -/
theorem along_early (hops : ops.all EntryOp.early = true) (hloaded : c.idtLoaded = false)
    (hc : c.hw.interrupts = fw.hw.interrupts) :
    Along k (Position k fw m cr3) rest ops c ∧ (c.after k ops).idtLoaded = false ∧
      (c.after k ops).hw.interrupts = fw.hw.interrupts := by
  refine Along.of_invariant
    (fun c => c.idtLoaded = false ∧ c.hw.interrupts = fw.hw.interrupts) ?_ ?_ ⟨hloaded, hc⟩
  · intro op hop tail c h
    have hearly := List.all_eq_true.mp hops op hop
    refine ⟨fun hon => Or.inl ⟨h.1, h.2.symm.trans hon⟩, ?_, ?_⟩
    · rintro o t ⟨rfl, rfl⟩ hexcepts
      cases op with
      | int3 => cases hearly
      | probe => cases hearly
      | haltLoop => cases hearly
      | _ => cases hexcepts
    · rintro t ⟨rfl, rfl⟩
      cases hearly
  · intro op hop c h
    obtain ⟨hload, hint⟩ := exec_early (k := k) (List.all_eq_true.mp hops op hop) c
    exact ⟨hload.trans h.1, hint.trans h.2⟩

/-- What the kernel has set up while its interrupts are disabled. -/
structure Setting (k : LoadedKernel) (m : Memory) (cr3 : UInt64) (calls : List GateCall)
    (lapic : ProgrammedLapic) (c : EntryState) : Prop where
  tables : Tables k m cr3 calls c
  off : c.hw.interrupts = false
  lapic : c.lapic = lapic

/-- Stage 2 starts from a cleared table. -/
theorem setting_cleared (hp : Placed k.toHandover) (hk : k.Ok) (c : EntryState) :
    Setting k c.mem c.cr3 [] c.lapic
      (((c.after k bootSegments).exec k (.op (.io .cli))).exec k .idtClearAll) := by
  have hgdtr := c.loadBootGdt_gdtr k
  have hmem := fun x hx => c.loadBootGdt_mem k hp hk (x := x) hx
  have hcr3 : (c.loadBootGdt k).cr3 = c.cr3 := rfl
  have hlapic : (c.loadBootGdt k).lapic = c.lapic := rfl
  rw [EntryState.after_bootSegments]
  generalize c.loadBootGdt k = b at hgdtr hmem hcr3 hlapic ⊢
  have hgates : ∀ v, readGate (idtClearAll b.mem k.idt) (gateAddr k.idt v) = descriptorOf [] v :=
    readGate_idtClearAll b.mem k.idt
  have hforeign : ∀ x, Foreign k.toHandover x → idtClearAll b.mem k.idt x = c.mem x := by
    intro x hx
    rw [idtClearAll_of_not_inBlock fun hin => hx.1 (inKernelImage_of_inBlock_idt hp hk hin)]
    exact hmem x hx.2
  generalize hclear : idtClearAll b.mem k.idt = cleared at hgates hforeign
  simp only [EntryState.exec, EntryState.io, Hw.io, hclear]
  exact ⟨⟨hcr3, hgdtr, rfl, hgates, fun h => absurd rfl h, hforeign⟩, rfl, hlapic⟩

theorem Setting.after (hp : Placed k.toHandover) (hk : k.Ok) (hd : RangesDisjoint k.toHandover)
    {calls : List GateCall} {lapic : ProgrammedLapic} (h : Setting k m cr3 calls lapic c)
    (ops : List Io) :
    Setting k m cr3
      (calls ++ (ops.map fun i => EntryOp.op (.io i)).filterMap (EntryOp.gateCall k))
      (ops.foldl ProgrammedLapic.io lapic) (c.after k (ops.map fun i => .op (.io i))) := by
  refine ⟨h.tables.after hp hk hd (all_io_afterClear ops), ?_, ?_⟩
  · exact after_off (all_io_ne_sti ops) h.off
  · rw [EntryState.after_lapic, h.lapic]

/-- Stage 2 installs the gate of `int3`. -/
theorem Setting.stage2 (hp : Placed k.toHandover) (hk : k.Ok) (hd : RangesDisjoint k.toHandover)
    {lapic : ProgrammedLapic} (h : Setting k m cr3 [] lapic c) :
    Setting k m cr3 [⟨kVectorBreakpoint, k.handler .breakpoint, 8, kIdtTypeTrap64⟩] lapic
      (c.after k stage2.tail) := by
  have hclear : Kernel.stage2.tail.all EntryOp.afterClear = true := by decide +kernel
  have hquiet : Kernel.stage2.tail.all (· ≠ .op .sti) = true := by decide +kernel
  refine ⟨h.tables.after hp hk hd hclear, after_off hquiet h.off, ?_⟩
  rw [Kernel.stage2, List.tail_cons, EntryState.after_cons, EntryState.after_append,
    EntryState.after_append, EntryState.after_cons, EntryState.after_print,
    EntryState.after_print, EntryState.after_print]
  exact h.lapic

/-- Stages 3 and 4 as operations of `kernel_entry`. -/
theorem kernelEntry_eq : kernelEntry.map EntryOp.op =
    stage3Setup.map (fun i => .op (.io i)) ++
      (.op .sti :: .op (.waitTicks .pit) :: .op (.io .cli) ::
        (stage4Setup.map (fun i => .op (.io i)) ++
          (.op .sti :: .op (.waitTicks .lapic) :: .op (.io .cli) ::
            stage4Finish.map (fun i => .op (.io i))))) := by
  simp only [kernelEntry, tickWindow, List.map_append, List.map_cons, List.map_map,
    Function.comp_def]

/-- A window opens with `sti` and waits for ticks. -/
theorem along_window {t : Timer} {tail : List EntryOp} (hoff : c.hw.interrupts = false)
    (hwindow : EntryWindow k m cr3 (c.exec k (.op .sti)))
    (htail : Along k (Position k fw m cr3) rest tail
      ((c.exec k (.op .sti)).exec k (.op (.io .cli)))) :
    Along k (Position k fw m cr3) rest
      (.op .sti :: .op (.waitTicks t) :: .op (.io .cli) :: tail) c := by
  have hopen : ∀ op tail', op = .op (.waitTicks t) ∨ op = .op (.io .cli) →
      Position k fw m cr3 (op :: tail') (c.exec k (.op .sti)) := by
    rintro op tail' hop
    refine ⟨fun _ => Or.inr hwindow, ?_, ?_⟩
    · rintro o t' ⟨rfl, rfl⟩ hexcepts
      rcases hop with rfl | rfl <;> cases hexcepts
    · rintro t' ⟨rfl, rfl⟩
      rcases hop with h | h <;> cases h
  exact ⟨position_of_off hoff fun _ _ => hwindow.loaded, hopen _ _ (Or.inl rfl),
    hopen _ _ (Or.inr rfl), htail⟩

/-- The gate that Stage 3 installs, and that of Stage 4. -/
theorem gateCalls_stage3Setup : (stage3Setup.map fun i => EntryOp.op (.io i)).filterMap
    (EntryOp.gateCall k) = [⟨kVectorIRQ0, k.handler .irq32, 8, kIdtTypeInt64⟩] := by
  rfl

theorem gateCalls_stage4Setup : (stage4Setup.map fun i => EntryOp.op (.io i)).filterMap
    (EntryOp.gateCall k) = [⟨kVectorLapicTimer, k.handler .lapicTimer, 8, kIdtTypeInt64⟩] := by
  rfl

theorem Tables.sti {calls : List GateCall} (h : Tables k m cr3 calls c) :
    Tables k m cr3 calls (c.exec k (.op .sti)) :=
  h.congr rfl rfl rfl rfl rfl rfl

/-- The state behind a window. -/
theorem Setting.close {calls : List GateCall} {lapic : ProgrammedLapic}
    (h : Setting k m cr3 calls lapic c) :
    Setting k m cr3 calls lapic ((c.exec k (.op .sti)).exec k (.op (.io .cli))) :=
  ⟨h.tables.congr rfl rfl rfl rfl rfl rfl, rfl, h.lapic⟩

/-- The devices at the window of Stage 3. -/
theorem Setting.pitWindow (hp : Placed k.toHandover) (hk : k.Ok) (hd : RangesDisjoint k.toHandover)
    (h : Setting k m cr3 [⟨kVectorBreakpoint, k.handler .breakpoint, 8, kIdtTypeTrap64⟩]
      ⟨none, none⟩ c) :
    Setting k m cr3 k.pitGates ⟨none, none⟩ (c.after k (stage3Setup.map fun i => .op (.io i))) ∧
      (c.after k (stage3Setup.map fun i => .op (.io i))).hw.pic1 = ⟨0x20, 0xFE, 0⟩ ∧
      (c.after k (stage3Setup.map fun i => .op (.io i))).hw.pic2 = ⟨0x28, 0xFF, 0⟩ := by
  have hsetting := h.after hp hk hd stage3Setup
  rw [gateCalls_stage3Setup, lapic_stage3Setup] at hsetting
  have hhw := EntryState.after_hw k stage3Setup c
  rw [runIo_stage3Setup] at hhw
  generalize c.after k (stage3Setup.map fun i => .op (.io i)) = d at hsetting hhw ⊢
  exact ⟨hsetting, congrArg Hw.pic1 hhw, congrArg Hw.pic2 hhw⟩

/-- The devices at the window of Stage 4. -/
theorem Setting.lapicWindow (hp : Placed k.toHandover) (hk : k.Ok)
    (hd : RangesDisjoint k.toHandover) {lapic : ProgrammedLapic}
    (h : Setting k m cr3 k.pitGates lapic c) (hpic1 : c.hw.pic1 = ⟨0x20, 0xFE, 0⟩)
    (hpic2 : c.hw.pic2 = ⟨0x28, 0xFF, 0⟩) :
    Setting k m cr3 k.lapicGates ⟨some 0x1FF, some 0x20022⟩
        (c.after k (stage4Setup.map fun i => .op (.io i))) ∧
      (c.after k (stage4Setup.map fun i => .op (.io i))).hw.pic1 = ⟨0x20, 0xFF, 0⟩ ∧
      (c.after k (stage4Setup.map fun i => .op (.io i))).hw.pic2 = ⟨0x28, 0xFF, 0⟩ := by
  have hsetting := h.after hp hk hd stage4Setup
  rw [gateCalls_stage4Setup, lapic_stage4Setup] at hsetting
  have hhw := EntryState.after_hw k stage4Setup c
  rw [runIo_stage4Setup, hpic1, hpic2] at hhw
  generalize c.after k (stage4Setup.map fun i => .op (.io i)) = d at hsetting hhw ⊢
  exact ⟨hsetting, congrArg Hw.pic1 hhw, congrArg Hw.pic2 hhw⟩

/-- From one window to the next, the devices being as they were before the first. -/
theorem Setting.reopen (hp : Placed k.toHandover) (hk : k.Ok) (hd : RangesDisjoint k.toHandover)
    {lapic : ProgrammedLapic} (h : Setting k m cr3 k.pitGates lapic c)
    (hpic1 : c.hw.pic1 = ⟨0x20, 0xFE, 0⟩) (hpic2 : c.hw.pic2 = ⟨0x28, 0xFF, 0⟩) {d : EntryState}
    (hd' : ((c.exec k (.op .sti)).exec k (.op (.io .cli))).after k
      (stage4Setup.map fun i => .op (.io i)) = d) :
    Setting k m cr3 k.lapicGates ⟨some 0x1FF, some 0x20022⟩ d ∧ d.hw.pic1 = ⟨0x20, 0xFF, 0⟩ ∧
      d.hw.pic2 = ⟨0x28, 0xFF, 0⟩ := by
  subst hd'
  exact h.close.lapicWindow hp hk hd hpic1 hpic2

/-- Stages 3 to 5, from the table of Stage 2. -/
theorem along_stages (hp : Placed k.toHandover) (hk : k.Ok) (hd : RangesDisjoint k.toHandover)
    (h : Setting k m cr3 [⟨kVectorBreakpoint, k.handler .breakpoint, 8, kIdtTypeTrap64⟩]
      ⟨none, none⟩ c) :
    Along k (Position k fw m cr3) [] (kernelEntry.map EntryOp.op ++ stage5) c := by
  obtain ⟨hsetting, hpic1, hpic2⟩ := h.pitWindow hp hk hd
  rw [kernelEntry_eq]
  simp only [List.append_assoc, List.cons_append]
  refine Along.append (along_quiet (all_io_ne_sti _) h.off) ?_
  generalize c.after k (stage3Setup.map fun i => .op (.io i)) = d at hsetting hpic1 hpic2 ⊢
  refine along_window hsetting.off (.pit hsetting.tables.sti hpic1 hpic2 hsetting.lapic) ?_
  refine Along.append (along_quiet (all_io_ne_sti _) rfl) ?_
  generalize he : EntryState.after k _ (stage4Setup.map fun i => .op (.io i)) = e
  obtain ⟨hlapic, hpic1, hpic2⟩ := hsetting.reopen hp hk hd hpic1 hpic2 he
  refine along_window hlapic.off (.lapic hlapic.tables.sti hpic1 hpic2 hlapic.lapic) ?_
  have hlast : ((stage4Finish.map fun i => EntryOp.op (.io i)) ++ stage5).all (· ≠ .op .sti) =
      true := by
    decide +kernel
  exact along_quiet hlast rfl

variable (fw P)

/-- The table is empty when Stage 2 starts to fill it. -/
theorem setting_idtClearAll (hp : Placed k.toHandover) (hk : k.Ok) :
    Setting k (k.stage1Memory fw P) P.pml4Phys [] ⟨none, none⟩
      ((((fw.enter P).after k (stage1Finish ++ bootSegments)).exec k (.op (.io .cli))).exec k
        .idtClearAll) := by
  obtain ⟨m, old, log, hfinish⟩ := (fw.enter P).after_stage1Finish k
  have hmemory : k.stage1Memory fw P = m := congrArg EntryState.mem hfinish
  have hcleared := setting_cleared hp hk ((fw.enter P).after k stage1Finish)
  rw [← EntryState.after_append, hfinish] at hcleared
  rw [hmemory]
  exact hcleared

/-- The table that Stage 2 leaves behind. -/
theorem setting_stage2 (hp : Placed k.toHandover) (hk : k.Ok) (hd : RangesDisjoint k.toHandover) :
    Setting k (k.stage1Memory fw P) P.pml4Phys
      [⟨kVectorBreakpoint, k.handler .breakpoint, 8, kIdtTypeTrap64⟩] ⟨none, none⟩
      ((((fw.enter P).after k (stage1Finish ++ bootSegments)).exec k (.op (.io .cli))).after k
        stage2) := by
  have hstage2 := (setting_idtClearAll fw P hp hk).stage2 hp hk hd
  have hcons : EntryOp.idtClearAll :: stage2.tail = stage2 := rfl
  rwa [← EntryState.after_cons, hcons] at hstage2

/-- **Where interrupts are enabled in the main program.** -/
theorem along_entryCode (hp : Placed k.toHandover) (hk : k.Ok) (hd : RangesDisjoint k.toHandover) :
    Along k (Position k fw (k.stage1Memory fw P) P.pml4Phys) [] entryCode (fw.enter P) := by
  have hearly : (stage1Finish ++ bootSegments).all EntryOp.early = true := by decide +kernel
  have hquiet : stage2.all (· ≠ .op .sti) = true := by decide +kernel
  have hstage2 := setting_stage2 fw P hp hk hd
  rw [entryCode, ← List.append_assoc]
  obtain ⟨hsegments, hloaded, hflag⟩ := along_early (c := fw.enter P) hearly rfl rfl
  refine Along.append hsegments ?_
  generalize (fw.enter P).after k (stage1Finish ++ bootSegments) = d at hstage2 hloaded hflag ⊢
  refine ⟨⟨fun hon => Or.inl ⟨hloaded, hflag.symm.trans hon⟩, ?_, ?_⟩,
    Along.append (along_quiet hquiet rfl) (along_stages hp hk hd hstage2)⟩
  · rintro op tail ⟨rfl, rfl⟩ hexcepts
    cases hexcepts
  · rintro tail ⟨⟩

/-- The same at every point of the main program. -/
theorem position_entryCode (hp : Placed k.toHandover) (hk : k.Ok) (hd : RangesDisjoint k.toHandover)
    {done : List EntryOp} (hcode : done ++ rest = entryCode) :
    Position k fw (k.stage1Memory fw P) P.pml4Phys rest ((fw.enter P).after k done) := by
  have halong := along_entryCode fw P hp hk hd
  cases rest with
  | cons op tail =>
      have hbefore := halong.before hcode
      rwa [List.append_nil] at hbefore
  | nil =>
      -- The last operation leaves the state as it is, and has interrupts disabled.
      have hlast : entryCode.getLast? = some .haltLoop := by decide +kernel
      obtain ⟨init, hinit⟩ := List.getLast?_eq_some_iff.mp hlast
      rw [List.append_nil] at hcode
      have hbefore := halong.before hinit.symm
      rw [hcode, hinit, EntryState.after_concat]
      exact position_of_off (hbefore.masked _ _ rfl rfl) (by rintro t ⟨⟩)

end Program

/-! ## Deliveries in a window -/

section Deliveries

variable {k : LoadedKernel} {m : Memory} {cr3 : UInt64} {c : EntryState}

/-- Different stubs start at different addresses. -/
theorem LoadedKernel.Ok.handlerAt_handler (hk : k.Ok) (isr : Isr) :
    k.handlerAt (k.handler isr) = some isr := by
  have hne : ∀ i j, i ≠ j → k.handler i ≠ k.handler j := by
    intro i j hij heq
    exact hij (hk.isr_distinct i j ((UInt64.add_right_inj k.kernelPhys).mp heq))
  cases isr <;> simp [handlerAt, hne]

/-- The processor finds the descriptor of the last call. -/
theorem Tables.gate? {calls : List GateCall} (h : Tables k m cr3 calls c) (hne : calls ≠ [])
    (v : UInt8) : c.idtr.gate? c.mem v = some (descriptorOf calls v) := by
  rw [(h.loaded hne).2, gate?_full, h.gates]

/-- Only `IRQ0` is unmasked. -/
theorem deliverable_irq0 (line : Fin 8) : Pic.deliverable ⟨0x20, 0xFE, 0⟩ line =
    if line = 0 then some kVectorIRQ0 else none := by
  revert line
  decide

theorem deliverable_masked (base : UInt8) (line : Fin 8) :
    Pic.deliverable ⟨base, 0xFF, 0⟩ line = none := by
  have hmask : ∀ line : Fin 8, (0xFF : UInt8).toNat.testBit line = true := by decide
  exact if_pos (hmask line)

/-- What a window may deliver, and the gate behind the vector. -/
inductive Delivery (k : LoadedKernel) (c : EntryState) : InterruptSource → UInt8 → Prop
  | irq0 (hgate : c.idtr.gate? c.mem kVectorIRQ0 =
      some ⟨k.handler .irq32, 8, 0, kIdtTypeInt64, 0⟩) : Delivery k c (.pic1 0) kVectorIRQ0
  | lapicTimer (hgate : c.idtr.gate? c.mem kVectorLapicTimer =
      some ⟨k.handler .lapicTimer, 8, 0, kIdtTypeInt64, 0⟩) :
      Delivery k c .lapicTimer kVectorLapicTimer
  | spurious (hgate : c.idtr.gate? c.mem 0xFF = some ⟨0, 0, 0, 0, 0⟩)
      (hsvr : c.lapic.svr = some 0x1FF) : Delivery k c .spurious 0xFF

theorem EntryWindow.delivery (h : EntryWindow k m cr3 c) {src : InterruptSource} {v : UInt8}
    (hv : c.deliverable src = some v) : Delivery k c src v := by
  cases h with
  | pit htables hpic1 hpic2 hlapic =>
      have hgate := htables.gate? (List.cons_ne_nil _ _)
      cases src with
      | pic1 line =>
          rw [EntryState.deliverable, hpic1, deliverable_irq0] at hv
          split at hv
          · rename_i hline
            obtain rfl := Option.some.inj hv
            exact hline ▸ .irq0 (hgate kVectorIRQ0)
          · cases hv
      | pic2 line =>
          rw [EntryState.deliverable, hpic2, deliverable_masked] at hv
          cases hv
      | lapicTimer =>
          rw [EntryState.deliverable, hlapic] at hv
          cases hv
      | spurious =>
          rw [EntryState.deliverable, hlapic] at hv
          cases hv
  | lapic htables hpic1 hpic2 hlapic =>
      have hgate := htables.gate? (List.cons_ne_nil _ _)
      cases src with
      | pic1 line =>
          rw [EntryState.deliverable, hpic1, deliverable_masked] at hv
          cases hv
      | pic2 line =>
          rw [EntryState.deliverable, hpic2, deliverable_masked] at hv
          cases hv
      | lapicTimer =>
          rw [EntryState.deliverable, hlapic] at hv
          obtain rfl := Option.some.inj hv
          exact .lapicTimer (hgate kVectorLapicTimer)
      | spurious =>
          rw [EntryState.deliverable, hlapic] at hv
          obtain rfl := Option.some.inj hv
          exact .spurious (hgate 0xFF) (congrArg ProgrammedLapic.svr hlapic)

/-- A stub is found behind a present gate that leads to it. -/
theorem EntryState.stubOf_eq_some {v : UInt8} {isr : Isr} {g : GateDescriptor} :
    c.stubOf k v = some (isr, g) ↔
      c.idtr.gate? c.mem v = some g ∧ g.Present ∧ k.handlerAt g.offset = some isr := by
  unfold stubOf
  simp only [Option.bind_eq_bind, Option.bind_eq_some_iff, Option.ite_none_right_eq_some,
    Option.some.injEq, Prod.mk.injEq]
  constructor
  · rintro ⟨g', hgate, isr', hisr, hpresent, rfl, rfl⟩
    exact ⟨hgate, hpresent, hisr⟩
  · rintro ⟨hgate, hpresent, hisr⟩
    exact ⟨g, hgate, isr, hisr, hpresent, rfl, rfl⟩

/-- A delivery that finds a stub goes through an interrupt gate. -/
theorem Delivery.typeAttr {src : InterruptSource} {v : UInt8} (h : Delivery k c src v) {isr : Isr}
    {g : GateDescriptor} (hstub : c.stubOf k v = some (isr, g)) : g.typeAttr &&& 1 = 0 := by
  obtain ⟨hfound, hpresent, -⟩ := EntryState.stubOf_eq_some.mp hstub
  have heven : kIdtTypeInt64 &&& 1 = 0 := by decide
  cases h with
  | irq0 hgate =>
      obtain rfl := Option.some.inj (hgate.symm.trans hfound)
      exact heven
  | lapicTimer hgate =>
      obtain rfl := Option.some.inj (hgate.symm.trans hfound)
      exact heven
  | spurious hgate =>
      obtain rfl := Option.some.inj (hgate.symm.trans hfound)
      exact absurd rfl hpresent

/-- The handlers do not leave a window. -/
theorem EntryWindow.congr {s : EntryState} (h : EntryWindow k m cr3 c) (hs : s.setup = c.setup) :
    EntryWindow k m cr3 s := by
  have htables : ∀ {calls}, Tables k m cr3 calls c → Tables k m cr3 calls s := fun h =>
    h.congr (EntryState.congr_setup EntryState.mem (fun _ => rfl) hs)
      (EntryState.congr_setup EntryState.cr3 (fun _ => rfl) hs)
      (EntryState.congr_setup EntryState.gdtr (fun _ => rfl) hs)
      (EntryState.congr_setup EntryState.csSel (fun _ => rfl) hs)
      (EntryState.congr_setup EntryState.idtr (fun _ => rfl) hs)
      (EntryState.congr_setup EntryState.idtLoaded (fun _ => rfl) hs)
  have hpic1 := EntryState.congr_setup (fun s => s.hw.pic1) (fun _ => rfl) hs
  have hpic2 := EntryState.congr_setup (fun s => s.hw.pic2) (fun _ => rfl) hs
  have hlapic := EntryState.congr_setup EntryState.lapic (fun _ => rfl) hs
  cases h with
  | pit ht h1 h2 hl => exact .pit (htables ht) (hpic1.trans h1) (hpic2.trans h2) (hlapic.trans hl)
  | lapic ht h1 h2 hl =>
      exact .lapic (htables ht) (hpic1.trans h1) (hpic2.trans h2) (hlapic.trans hl)

end Deliveries

/-! ## Reachable states -/

section Reachable

variable {k : LoadedKernel} {fw : Firmware} {P : Paging} (hp : Placed k.toHandover) (hk : k.Ok)
  (hd : RangesDisjoint k.toHandover)
include hp hk hd

/-- The main program only lets exceptions through while interrupts are disabled. -/
theorem safe_entryCode (done rest : List EntryOp) (hcode : done ++ rest = entryCode) :
    Safe k rest ((fw.enter P).after k done) := by
  have hpos := position_entryCode fw P hp hk hd hcode
  constructor
  · intro hon hloaded src v hv isr g hstub
    rcases hpos.enabled hon with ⟨hnot, -⟩ | hwindow
    · rw [hloaded] at hnot
      cases hnot
    · exact (hwindow.delivery hv).typeAttr hstub
  · intro hon tail
    have hnot : ∀ op, op.excepts = true → rest ≠ op :: tail := by
      intro op hop hrest
      rw [hpos.masked op tail hrest hop] at hon
      cases hon
    exact ⟨hnot _ rfl, hnot _ rfl, hnot _ rfl⟩

theorem entryInv_run {events : List EntryEvent} {s : EntryState}
    (hrun : runs (entryStep k) events (fw.enter P) = some s) : EntryInv k (fw.enter P) s := by
  have hstart : EntryInv k (fw.enter P) (fw.enter P) :=
    .main (List.nil_append entryCode) .here rfl rfl
  exact hstart.run (safe_entryCode hp hk hd) hrun

/-- **Where interrupts are enabled.**  In every reachable state they are as the firmware left
them, before the kernel has a table, or the state is in one of the two windows. -/
theorem entry_window {events : List EntryEvent} {s : EntryState}
    (hrun : runs (entryStep k) events (fw.enter P) = some s) (hon : s.hw.interrupts = true) :
    s.idtLoaded = false ∧ fw.hw.interrupts = true ∨
      EntryWindow k (k.stage1Memory fw P) P.pml4Phys s := by
  cases entryInv_run hp hk hd hrun with
  | main hcode hat hsaved hsetup =>
      have hpos := position_entryCode fw P hp hk hd hcode
      rw [EntryState.congr_setup (fun s => s.hw.interrupts) (fun _ => rfl) hsetup] at hon
      rw [EntryState.congr_setup EntryState.idtLoaded (fun _ => rfl) hsetup]
      exact (hpos.enabled hon).imp id fun h => h.congr hsetup
  | handler hcode hat hsaved hoff hbody hin hsetup =>
      rw [hoff] at hon
      cases hon
  | left hcode hoff =>
      rw [hoff] at hon
      cases hon

end Reachable

end Kernel
end OsBook
