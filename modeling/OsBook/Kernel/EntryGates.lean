import OsBook.Kernel.EntryLog

/-!
# What `kernel_entry` finds when it is interrupted

Behind Stage 1 the two stores of the touch test do not fault, each exception
finds its gate, and an interrupt finds a handler only while the program waits
for it (`gates_entryCode`).
-/

namespace OsBook
namespace Kernel

open Machine

/-! ## Where interrupts are enabled -/

/-- The interrupt flag and `idtLoaded` behind an operation. -/
def EntryOp.flags : Bool × Bool → EntryOp → Bool × Bool
  | f, .op .sti => (true, f.2)
  | f, .op (.io .cli) => (false, f.2)
  | f, .op (.io (.idtSetGate ..)) => (f.1, true)
  | f, .installGate .. => (f.1, true)
  | f, _ => f

theorem flags_exec (k : LoadedKernel) (c : EntryState) (op : EntryOp) :
    ((c.exec k op).hw.interrupts, (c.exec k op).idtLoaded) =
      EntryOp.flags (c.hw.interrupts, c.idtLoaded) op := by
  cases op with
  | op o =>
      cases o with
      | io i =>
          cases i with
          | outb port value =>
              have hflag : (c.hw.outb port value).interrupts = c.hw.interrupts := by
                unfold Hw.outb
                repeat' split
                all_goals rfl
              exact congrArg (·, c.idtLoaded) hflag
          | _ => rfl
      | _ => rfl
  | flipWord =>
      obtain ⟨m, old, h⟩ := c.exec_flipWord k
      rw [h]
      rfl
  | restoreWord =>
      obtain ⟨m, h⟩ := c.exec_restoreWord k
      rw [h]
      rfl
  | _ => rfl

theorem flags_after (k : LoadedKernel) (c : EntryState) (ops : List EntryOp) :
    ((c.after k ops).hw.interrupts, (c.after k ops).idtLoaded) =
      ops.foldl EntryOp.flags (c.hw.interrupts, c.idtLoaded) := by
  induction ops generalizing c with
  | nil => rfl
  | cons op ops ih => rw [EntryState.after_cons, ih, flags_exec, List.foldl_cons]

/-- Both flags are set only where `P` holds of the operations that are left. -/
def FlagsOnly (P : List EntryOp → Bool) : Bool × Bool → List EntryOp → Bool
  | f, [] => !(f.1 && f.2) || P []
  | f, op :: ops => (!(f.1 && f.2) || P (op :: ops)) && FlagsOnly P (op.flags f) ops

theorem FlagsOnly.place {P : List EntryOp → Bool} {f : Bool × Bool} {done rest : List EntryOp}
    (h : FlagsOnly P f (done ++ rest) = true) (hset : done.foldl EntryOp.flags f = (true, true)) :
    P rest = true := by
  induction done generalizing f with
  | nil =>
      obtain rfl : f = (true, true) := hset
      cases rest with
      | nil => simpa [FlagsOnly] using h
      | cons op rest =>
          simp only [List.nil_append, FlagsOnly, Bool.and_eq_true] at h
          simpa using h.1
  | cons op done ih =>
      rw [List.cons_append, FlagsOnly, Bool.and_eq_true] at h
      exact ih h.2 hset

/-- Once the kernel has a table, interrupts are enabled only between a `sti` and the next `cli`. -/
theorem enabled_place {k : LoadedKernel} {fw : Firmware} {P : Paging} {done rest : List EntryOp}
    (hcode : done ++ rest = entryCode) (hon : ((fw.enter P).after k done).hw.interrupts = true)
    (hloaded : ((fw.enter P).after k done).idtLoaded = true) :
    ∃ t, rest = .op (.waitTicks t) :: .op (.io .cli) :: behindWindow t ∨
      rest = .op (.io .cli) :: behindWindow t := by
  let places (rest : List EntryOp) : Bool :=
    rest == (windowOf .pit).drop 1 || rest == (windowOf .pit).drop 2 ||
      rest == (windowOf .lapic).drop 1 || rest == (windowOf .lapic).drop 2
  have hall : ∀ b, FlagsOnly places (b, false) entryCode = true := by
    intro b
    cases b <;> decide +kernel
  have hflags := flags_after k (fw.enter P) done
  rw [hon, hloaded] at hflags
  have hplace := FlagsOnly.place (hcode ▸ hall fw.hw.interrupts) hflags.symm
  simp only [places, Bool.or_eq_true, beq_iff_eq] at hplace
  rcases hplace with ((h | h) | h) | h
  · exact ⟨.pit, Or.inl h⟩
  · exact ⟨.pit, Or.inr h⟩
  · exact ⟨.lapic, Or.inl h⟩
  · exact ⟨.lapic, Or.inr h⟩

/-! ## The gates of the program -/

/-- `kernel_entry` from the `sti` of Stage 4 to the probe. -/
def fromStage4Window : List EntryOp :=
  .op .sti :: .op (.waitTicks .lapic) :: .op (.io .cli) ::
    ((stage4Finish.map fun i => .op (.io i)) ++ (print "STAGE 5: begin\n" ++
      (.installGate kVectorPageFault .pageFault kIdtTypeTrap64 ::
        (print "STAGE 5: pf gate\n" ++ print "STAGE 5: probe\n"))))

theorem entryCode_probe : entryCode = (toStage4Window ++ fromStage4Window) ++
    .probe :: (print "STAGE 5: done\n" ++ [.haltLoop]) := by
  rw [entryCode_window .lapic]
  simp only [toWindow, windowOf, behindWindow, fromStage4Window, stage5, List.append_assoc,
    List.cons_append]

instance (h : Handover) (p : UInt64) : Decidable (MappedPage h p) :=
  inferInstanceAs (Decidable (p.toNat % 4096 = 0 ∧
    ((h.kernelPhys.toNat ≤ p.toNat ∧ p.toNat < h.kernelPhys.toNat + h.kernelPages.toNat * 4096) ∨
      (h.stackPhys.toNat ≤ p.toNat ∧ p.toNat < h.stackPhys.toNat + 4 * 4096) ∨
        p = h.mmapPhys ∨ p = lapicMmioPhys)))

/-- The page of the probe is none of those that Stage 1 maps. -/
def Handover.probeFaults (h : Handover) : Bool := !decide (MappedPage h kProbeUnmappedVa)

section Gates

variable {k : LoadedKernel} (fw : Firmware) {m : Memory} {P : Paging} (hp : Placed k.toHandover)
  (hk : k.Ok) (hd : RangesDisjoint k.toHandover)
include hp hk hd

/-- What the probe finds. -/
theorem tables_probe :
    Tables k (k.stage1Memory fw P) P.pml4Phys
      (k.lapicGates ++ [⟨kVectorPageFault, k.handler .pageFault, 8, kIdtTypeTrap64⟩])
      ((fw.enter P).after k (toStage4Window ++ fromStage4Window)) := by
  have hclear : fromStage4Window.all EntryOp.afterClear = true := by decide +kernel
  have hcalls : fromStage4Window.filterMap (EntryOp.gateCall k) =
      [⟨kVectorPageFault, k.handler .pageFault, 8, kIdtTypeTrap64⟩] := rfl
  obtain ⟨hsetting, -, -⟩ := setting_stage4 (P := P) fw hp hk hd
  have htables := hsetting.tables.after hp hk hd hclear
  rw [hcalls] at htables
  rw [EntryState.after_append]
  exact htables

omit hp hd in
/-- The window of the first timer lets through only its ticks. -/
theorem pitWindow_irq {b : EntryState}
    (hsetting : Setting k (k.stage1Memory fw P) P.pml4Phys k.pitGates ⟨none, none⟩ b)
    (hpic1 : b.hw.pic1 = ⟨0x20, 0xFE, 0⟩) (hpic2 : b.hw.pic2 = ⟨0x28, 0xFF, 0⟩)
    {src : InterruptSource} {vector : UInt8} {isr : Isr} {g : GateDescriptor}
    (hv : (b.exec k (.op .sti)).deliverable src = some vector)
    (hstub : (b.exec k (.op .sti)).stubOf k vector = some (isr, g)) :
    src = Timer.pit.source ∧ isr = stub .pit := by
  have hnone : (b.exec k (.op .sti)).lapic = ⟨none, none⟩ := hsetting.lapic
  have hwindow : EntryWindow k (k.stage1Memory fw P) P.pml4Phys (b.exec k (.op .sti)) :=
    .pit hsetting.tables.sti hpic1 hpic2 hsetting.lapic
  obtain ⟨hfound, hpresent, hoffset⟩ := EntryState.stubOf_eq_some.mp hstub
  cases hwindow.delivery hv with
  | irq0 hgate =>
      obtain rfl := Option.some.inj (hgate.symm.trans hfound)
      exact ⟨rfl, Option.some.inj (hoffset.symm.trans (hk.handlerAt_handler .irq32))⟩
  | lapicTimer hgate =>
      rw [EntryState.deliverable, hnone] at hv
      cases hv
  | spurious hgate hsvr =>
      rw [hnone] at hsvr
      cases hsvr

omit hp hd in
/-- The window of the second timer lets through only its ticks: the spurious vector has no gate. -/
theorem lapicWindow_irq {b : EntryState}
    (hsetting : Setting k (k.stage1Memory fw P) P.pml4Phys k.lapicGates ⟨some 0x1FF, some 0x20022⟩
      b)
    (hpic1 : b.hw.pic1 = ⟨0x20, 0xFF, 0⟩) (hpic2 : b.hw.pic2 = ⟨0x28, 0xFF, 0⟩)
    {src : InterruptSource} {vector : UInt8} {isr : Isr} {g : GateDescriptor}
    (hv : (b.exec k (.op .sti)).deliverable src = some vector)
    (hstub : (b.exec k (.op .sti)).stubOf k vector = some (isr, g)) :
    src = Timer.lapic.source ∧ isr = stub .lapic := by
  have hspurious : ¬ (⟨0, 0, 0, 0, 0⟩ : GateDescriptor).Present := fun h => h rfl
  have hmask : (b.exec k (.op .sti)).hw.pic1 = ⟨0x20, 0xFF, 0⟩ := hpic1
  have hwindow : EntryWindow k (k.stage1Memory fw P) P.pml4Phys (b.exec k (.op .sti)) :=
    .lapic hsetting.tables.sti hpic1 hpic2 hsetting.lapic
  obtain ⟨hfound, hpresent, hoffset⟩ := EntryState.stubOf_eq_some.mp hstub
  cases hwindow.delivery hv with
  | irq0 hgate =>
      rw [EntryState.deliverable, hmask, deliverable_masked] at hv
      cases hv
  | lapicTimer hgate =>
      obtain rfl := Option.some.inj (hgate.symm.trans hfound)
      exact ⟨rfl, Option.some.inj (hoffset.symm.trans (hk.handlerAt_handler .lapicTimer))⟩
  | spurious hgate hsvr =>
      obtain rfl := Option.some.inj (hgate.symm.trans hfound)
      exact absurd hpresent hspurious

/-- The window of a timer lets through only its ticks. -/
theorem window_irq (t : Timer) {src : InterruptSource} {vector : UInt8} {isr : Isr}
    {g : GateDescriptor}
    (hv : (((fw.enter P).after k (toWindow t)).exec k (.op .sti)).deliverable src = some vector)
    (hstub : (((fw.enter P).after k (toWindow t)).exec k (.op .sti)).stubOf k vector =
      some (isr, g)) : src = t.source ∧ isr = stub t := by
  cases t with
  | pit =>
      obtain ⟨hsetting, hpic1, hpic2⟩ := setting_stage3 (P := P) fw hp hk hd
      exact pitWindow_irq fw hk hsetting hpic1 hpic2 hv hstub
  | lapic =>
      obtain ⟨hsetting, hpic1, hpic2⟩ := setting_stage4 (P := P) fw hp hk hd
      exact lapicWindow_irq fw hk hsetting hpic1 hpic2 hv hstub

variable (hc : ConventionalOk k.toHandover m) (hb : MapBelow k.toHandover m)
  (hbuild : buildPaging k.toHandover m = .ok P)
include hc hb hbuild

omit hk in
/-- Tables that differ from those of Stage 1 only in the image and on the stack translate as they
do. -/
theorem Tables.translate {calls : List GateCall} {c : EntryState}
    (h : Tables k (k.stage1Memory fw P) P.pml4Phys calls c) (v : UInt64) :
    translateAddr c.mem c.cr3 v = translateAddr P.mem P.pml4Phys v := by
  rw [stage1Memory_eq hp hd hc hb hbuild] at h
  rw [h.cr3]
  exact translateAddr_congr hp hc hb hbuild
    (fun x hkernel hstack => h.foreign x ⟨hkernel, hstack⟩) v

omit hk hd in
/-- The probe faults exactly if its page is not mapped. -/
theorem translate_probe :
    (translateAddr P.mem P.pml4Phys kProbeUnmappedVa).isNone = k.toHandover.probeFaults := by
  have hnumber : pageNumber kProbeUnmappedVa = 0xABC00 := by decide
  have hvalue : kProbeUnmappedVa.toNat = 0xABC00000 := rfl
  unfold Handover.probeFaults
  rw [Bool.eq_iff_iff, Option.isNone_iff_eq_none, Bool.not_eq_true', decide_eq_false_iff_not,
    Option.eq_none_iff_forall_ne_some]
  constructor
  · intro hnone hpage
    refine hnone _ ((translateAddr_buildPaging hp hc hb hbuild _ _).mpr
      ⟨kProbeUnmappedVa, hpage, Or.inl ?_, rfl⟩)
    rw [hnumber, hvalue]
  · intro hpage t ht
    obtain ⟨p, hmapped, hp', -⟩ := (translateAddr_buildPaging hp hc hb hbuild _ t).mp ht
    have haligned := hmapped.1
    obtain rfl : p = kProbeUnmappedVa := by
      apply UInt64.toNat_inj.mp
      rw [hnumber] at hp'
      rw [hvalue]
      omega
    exact hpage hmapped

omit hk in
/-- The stores of the touch test do not fault. -/
theorem touch_entryCode (done : List EntryOp) :
    (∀ tail, done ++ .flipWord :: tail = entryCode →
      (flipMemory ((fw.enter P).after k done).mem ((fw.enter P).after k done).cr3
        (k.mmapPhys + upperHalf)).isSome = true) ∧
      ∀ tail, done ++ .restoreWord :: tail = entryCode →
        (restoreMemory ((fw.enter P).after k done).mem ((fw.enter P).after k done).cr3
          (k.mmapPhys + upperHalf) ((fw.enter P).after k done).old).isSome = true := by
  obtain ⟨flipped, old, hflip, hrestore⟩ := flipMemory_restoreMemory hp hd hc hb hbuild
  have hsplit : entryCode = print "STAGE 1: touch memory\n" ++ .flipWord :: .restoreWord ::
      (print "STAGE 1: paging done\n" ++ (bootSegments ++ (.op (.io .cli) :: (stage2 ++
        (kernelEntry.map .op ++ stage5))))) := by
    simp only [entryCode, stage1Finish, List.append_assoc, List.cons_append]
  have hmemory : ((fw.enter P).after k (print "STAGE 1: touch memory\n")).flipWord k =
      some { (fw.enter P).after k (print "STAGE 1: touch memory\n") with
        mem := flipped, old := old } := by
    rw [EntryState.after_print]
    simp only [EntryState.flipWord, Firmware.enter, hflip, Option.map_some]
  constructor
  · intro tail hcode
    obtain ⟨rfl, -⟩ := place_once hsplit (by decide +kernel) (by decide +kernel) hcode
    rw [EntryState.after_print]
    exact Option.isSome_iff_exists.mpr ⟨_, hflip⟩
  · intro tail hcode
    rw [← List.singleton_append, ← List.append_assoc] at hsplit
    obtain ⟨rfl, -⟩ := place_once hsplit (by decide +kernel) (by decide +kernel) hcode
    have hexec : ∀ s : EntryState, s.exec k .flipWord = (s.flipWord k).getD s := fun _ => rfl
    rw [EntryState.after_concat, hexec, hmemory, Option.getD_some, EntryState.after_print]
    exact Option.isSome_iff_exists.mpr ⟨_, hrestore⟩

/-- **Where exceptions and interrupts lead.** -/
theorem gates_entryCode : Gates k (fw.enter P) k.toHandover.probeFaults where
  flip := fun done => (touch_entryCode fw hp hd hc hb hbuild done).1
  restore := fun done => (touch_entryCode fw hp hd hc hb hbuild done).2
  halt := by
    intro done hcode
    refine Bool.eq_false_of_not_eq_true fun hon => ?_
    exact ((safe_entryCode hp hk hd done _ hcode).masked hon []).2.2 rfl
  int3 := by
    intro done tail hcode
    have hsplit : entryCode = ((stage1Finish ++ bootSegments) ++ (.op (.io .cli) :: toInt3)) ++
        .int3 :: (print "STAGE 2: done\n" ++ (kernelEntry.map .op ++ stage5)) := by
      simp only [entryCode, stage2, toInt3, List.append_assoc, List.cons_append]
    have hbefore : EntryOp.int3 ∉ (stage1Finish ++ bootSegments) ++ (.op (.io .cli) :: toInt3) := by
      decide +kernel
    have hbehind : EntryOp.int3 ∉ print "STAGE 2: done\n" ++ (kernelEntry.map .op ++ stage5) := by
      decide +kernel
    obtain ⟨rfl, -⟩ := place_once hsplit hbefore hbehind hcode
    exact ⟨_, stubOf_int3 fw hp hk hd⟩
  probe := by
    intro done tail hcode
    have hbefore : EntryOp.probe ∉ toStage4Window ++ fromStage4Window := by decide +kernel
    have hbehind : EntryOp.probe ∉ print "STAGE 5: done\n" ++ [.haltLoop] := by decide +kernel
    obtain ⟨rfl, -⟩ := place_once entryCode_probe hbefore hbehind hcode
    have hpresent : kIdtTypeTrap64 &&& 0x80 ≠ 0 := by decide
    have htables := tables_probe fw hp hk hd (P := P)
    rw [htables.translate fw hp hd hc hb hbuild]
    exact ⟨translate_probe hp hc hb hbuild, _, htables.stubOf hk (by simp) rfl hpresent⟩
  irq := by
    intro done rest hcode hon hloaded src vector isr g hv hstub
    obtain ⟨t, hplace⟩ := enabled_place hcode hon hloaded
    have hat : (fw.enter P).after k done =
        ((fw.enter P).after k (toWindow t)).exec k (.op .sti) := by
      rcases hplace with rfl | rfl
      · obtain ⟨rfl, -⟩ := place_waitTicks hcode
        exact EntryState.after_concat ..
      · rw [place_close hcode, EntryState.after_concat, EntryState.after_concat]
        rfl
    rw [hat] at hv hstub
    obtain ⟨hsource, hisr⟩ := window_irq fw hp hk hd t hv hstub
    exact ⟨t, hsource, hisr, hplace⟩

end Gates

end Kernel
end OsBook
