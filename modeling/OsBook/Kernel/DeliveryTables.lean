import OsBook.Kernel.VectorHandling

/-!
# Interrupt delivery and the mapped pages

To deliver an interrupt the processor reads the IDT through `IDTR` and the GDT
through `GDTR`, pushes to the stack and fetches the handler.  After the `CR3`
load all of these must be mapped.  The kernel disables interrupts only in Stage
2, so between the `CR3` load and that `cli` the flag is as the firmware has left
it, and so are `IDTR` and, at first, `GDTR` (`delivery_backed_iff`).
-/

namespace OsBook
namespace Kernel

open Machine

/-! ## What a delivery needs -/

/-- The page tables in `CR3` map the byte to itself, writable. -/
def EntryState.Mapped (s : EntryState) (x : UInt64) : Prop :=
  translateAddr s.mem s.cr3 x = some ⟨x, true⟩

/-- The descriptor that a selector names in the table of `GDTR`. -/
def EntryState.descriptorAddr (s : EntryState) (selector : UInt16) : UInt64 :=
  s.gdtr.base + (selector &&& 0xFFF8).toUInt64

/-- Everything that a delivery reads or writes is mapped. -/
structure Backed (k : LoadedKernel) (s : EntryState) : Prop where
  /-- The kernel has executed its `lidt`. -/
  loaded : s.idtLoaded = true
  idt : ∀ x, InBlock s.idtr.base (s.idtr.limit.toNat + 1) x → s.Mapped x
  /-- The code segment of a present gate lies within the limit of the GDT. -/
  selector : ∀ v g, s.idtr.gate? s.mem v = some g → g.Present →
    (g.selector &&& 0xFFF8).toNat + 7 ≤ s.gdtr.limit.toNat
  gdt : ∀ v g, s.idtr.gate? s.mem v = some g → g.Present →
    ∀ x, InBlock (s.descriptorAddr g.selector) 8 x → s.Mapped x
  /-- A present gate leads into the image. -/
  handler : ∀ v g, s.idtr.gate? s.mem v = some g → g.Present →
    InKernelImage k.toHandover g.offset.toNat
  image : ∀ x : UInt64, InKernelImage k.toHandover x.toNat → s.Mapped x
  /-- The stack below RSP. -/
  stack : ∀ x, InBlock (k.stackPhys + (k.rsp - UInt64.ofNat k.handlerStack)) k.handlerStack x →
    s.Mapped x

/-! ## Gates of the windows -/

section Gates

variable {k : LoadedKernel}

/-- A present gate after some calls comes from one of them. -/
theorem descriptorOf_present {calls : List GateCall} {v : UInt8}
    (h : (descriptorOf calls v).Present) :
    ∃ c ∈ calls, descriptorOf calls v = c.descriptor := by
  unfold descriptorOf at h ⊢
  cases hlast : lastCall calls v with
  | none =>
      rw [hlast] at h
      exact absurd rfl h
  | some c =>
      refine ⟨c, ?_, rfl⟩
      exact List.mem_reverse.mp (List.mem_of_find?_eq_some hlast)

theorem handler_inKernelImage (hp : Placed k.toHandover) (hk : k.Ok) (isr : Isr) :
    InKernelImage k.toHandover (k.handler isr).toNat := by
  have hfits := hk.isr_fits isr
  have hbelow := hp.kernel_below
  have hsum : (k.handler isr).toNat = k.kernelPhys.toNat + (k.isr isr).toNat :=
    toNat_add_of_lt (by omega)
  unfold InKernelImage
  omega

/-- The calls of Stages 2 to 4 use the code segment of the boot GDT and lead into the image. -/
theorem mem_lapicGates {c : GateCall} (hc : c ∈ k.lapicGates) :
    c.cs = 8 ∧ ∃ isr, c.handlerVirt = k.handler isr := by
  simp only [LoadedKernel.lapicGates, LoadedKernel.pitGates, List.cons_append, List.nil_append,
    List.mem_cons, List.not_mem_nil, or_false] at hc
  rcases hc with rfl | rfl | rfl
  · exact ⟨rfl, .breakpoint, rfl⟩
  · exact ⟨rfl, .irq32, rfl⟩
  · exact ⟨rfl, .lapicTimer, rfl⟩

/-- What a present gate of a window holds. -/
theorem Tables.present_gate {m : Memory} {cr3 : UInt64} {calls : List GateCall} {s : EntryState}
    (h : Tables k m cr3 calls s) (hne : calls ≠ []) (hsub : ∀ c ∈ calls, c ∈ k.lapicGates)
    {v : UInt8} {g : GateDescriptor} (hgate : s.idtr.gate? s.mem v = some g) (hg : g.Present) :
    g.selector = 8 ∧ ∃ isr, g.offset = k.handler isr := by
  rw [h.gate? hne] at hgate
  obtain rfl := Option.some.inj hgate
  obtain ⟨c, hc, heq⟩ := descriptorOf_present hg
  rw [heq]
  exact mem_lapicGates (hsub c hc)

end Gates

/-! ## The windows are backed -/

section Backed

variable {k : LoadedKernel} {m : Memory} {P : Paging} {s : EntryState}
  (hp : Placed k.toHandover) (hk : k.Ok) (hc : ConventionalOk k.toHandover m)
  (hb : MapBelow k.toHandover m) (hbuild : buildPaging k.toHandover m = .ok P)
include hp hk hc hb hbuild

omit hk in
/-- Kernel and stack stay mapped, as the tables lie outside of them. -/
theorem Tables.mapped {calls : List GateCall} (h : Tables k P.mem P.pml4Phys calls s) {x : UInt64}
    (hx : Live k.toHandover x.toNat) : s.Mapped x := by
  unfold EntryState.Mapped
  rw [h.cr3, translateAddr_congr hp hc hb hbuild fun x hkernel hstack => h.foreign x ⟨hkernel, hstack⟩]
  exact buildPaging_keepsLive hp hc hb hbuild x hx

theorem Tables.backed {calls : List GateCall} (h : Tables k P.mem P.pml4Phys calls s)
    (hne : calls ≠ []) (hsub : ∀ c ∈ calls, c ∈ k.lapicGates) : Backed k s := by
  obtain ⟨hloaded, hidtr⟩ := h.loaded hne
  have hmapped : ∀ {x : UInt64}, Live k.toHandover x.toNat → s.Mapped x :=
    fun hx => h.mapped hp hc hb hbuild hx
  refine ⟨hloaded, ?_, ?_, ?_, ?_, fun x hx => hmapped (Or.inl hx), ?_⟩
  · intro x hx
    rw [hidtr] at hx
    exact hmapped (Or.inl (inKernelImage_of_inBlock_idt hp hk hx))
  · intro v g hgate hg
    rw [(h.present_gate hne hsub hgate hg).1, h.gdtr]
    show (8 &&& 0xFFF8 : UInt16).toNat + 7 ≤ (23 : UInt16).toNat
    decide
  · intro v g hgate hg x hx
    have height : (8 &&& 0xFFF8 : UInt16).toUInt64 = 8 := by decide
    rw [EntryState.descriptorAddr, (h.present_gate hne hsub hgate hg).1, h.gdtr, height,
      UInt64.add_assoc] at hx
    have hfits := hk.bootGdt_fits.2
    have hoff : (k.bootGdt + 8).toNat = k.bootGdt.toNat + 8 := toNat_add_of_lt (by
      have h8 : (8 : UInt64).toNat = 8 := rfl
      omega)
    exact hmapped (Or.inr (inStackRange_of_inBlock hp (by omega) hx))
  · intro v g hgate hg
    obtain ⟨isr, hoffset⟩ := (h.present_gate hne hsub hgate hg).2
    rw [hoffset]
    exact handler_inKernelImage hp hk isr
  · intro x hx
    obtain ⟨hroom, hfits⟩ := hk.rsp_fits
    have hstack : (UInt64.ofNat k.handlerStack).toNat = k.handlerStack := by
      rw [UInt64.toNat_ofNat']
      omega
    have hoff : (k.rsp - UInt64.ofNat k.handlerStack).toNat = k.rsp.toNat - k.handlerStack := by
      rw [UInt64.toNat_sub_of_le _ _ (by rw [UInt64.le_iff_toNat_le]; omega), hstack]
    exact hmapped (Or.inr (inStackRange_of_inBlock hp (by omega) hx))

theorem EntryWindow.backed (h : EntryWindow k P.mem P.pml4Phys s) : Backed k s := by
  cases h with
  | pit htables =>
      refine htables.backed hp hk hc hb hbuild (List.cons_ne_nil _ _) fun c hc => ?_
      exact List.mem_append_left _ hc
  | lapic htables => exact htables.backed hp hk hc hb hbuild (List.cons_ne_nil _ _) fun c hc => hc

end Backed

/-- **When every delivery is backed by mapped tables.**  In all runs, under every schedule of
interrupts, every reachable state with interrupts enabled has the IDT, the GDT, the handlers and
the stack mapped, exactly if the firmware has left interrupts disabled. -/
theorem delivery_backed_iff {k : LoadedKernel} {fw : Firmware} {m : Memory} {P : Paging}
    (hp : Placed k.toHandover) (hk : k.Ok) (hd : RangesDisjoint k.toHandover)
    (hc : ConventionalOk k.toHandover m) (hb : MapBelow k.toHandover m)
    (hbuild : buildPaging k.toHandover m = .ok P) :
    (∀ s, Reaches (entryStep k) (fw.enter P) s → s.hw.interrupts = true → Backed k s) ↔
      fw.hw.interrupts = false := by
  constructor
  · intro hall
    by_contra hon
    -- The state at the `CR3` load itself.
    have hbacked := hall (fw.enter P) (.refl _) (Bool.eq_true_of_not_eq_false hon)
    exact Bool.false_ne_true hbacked.loaded
  · rintro hoff s ⟨events, hrun⟩ hon
    rcases entry_window hp hk hd hrun hon with ⟨-, hleft⟩ | hwindow
    · rw [hoff] at hleft
      cases hleft
    · rw [stage1Memory_eq hp hd hc hb hbuild] at hwindow
      exact hwindow.backed hp hk hc hb hbuild

/-- Under firmware that has disabled interrupts, the small kernel is safe. -/
theorem delivery_backed_iff_idle : ∃ P, buildPaging smallKernel.toHandover (fun _ => 0) = .ok P ∧
    ∀ s, Reaches (entryStep smallKernel) (idleFirmware.enter P) s → s.hw.interrupts = true →
      Backed smallKernel s := by
  obtain ⟨P, hbuild⟩ := smallKernel_buildPaging
  exact ⟨P, hbuild, (delivery_backed_iff smallKernel_placed smallKernel_ok
    smallKernel_rangesDisjoint (conventionalOk_cleared _) smallKernel_mapBelow hbuild).mpr rfl⟩

/-- Firmware that has left interrupts enabled, with its tables at 48 MiB. -/
def busyFirmware : Firmware :=
  ⟨⟨0x37, 0x3000000⟩, ⟨0xFFF, 0x3001000⟩, 0x38, { idleHw with interrupts := true }⟩

/-- The small kernel does not map the firmware's IDT. -/
theorem busyFirmware_idt_unmapped {P : Paging}
    (hbuild : buildPaging smallKernel.toHandover (fun _ => 0) = .ok P) :
    translateAddr P.mem P.pml4Phys busyFirmware.idtr.base = none := by
  rw [Option.eq_none_iff_forall_ne_some]
  intro t ht
  obtain ⟨p, hpage, hnumber, -⟩ := (translateAddr_buildPaging smallKernel_placed
    (conventionalOk_cleared _) smallKernel_mapBelow hbuild _ t).mp ht
  have hbase : pageNumber busyFirmware.idtr.base = 0x3001 := by decide
  have hk : smallKernel.kernelPhys.toNat = 0x100000 := rfl
  have hn : smallKernel.kernelPages.toNat = 2 := rfl
  have hs : smallKernel.stackPhys.toNat = 0x200000 := rfl
  have hm : smallKernel.mmapPhys.toNat = 0x1000000 := rfl
  have hl : lapicMmioPhys.toNat = 0xFEE00000 := rfl
  rw [hbase] at hnumber
  rcases hpage.2 with hin | hin | rfl | rfl
  · simp only [InKernelImage, hk, hn] at hin
    omega
  · simp only [InStackRange, hs] at hin
    omega
  · omega
  · omega

/-- An interrupt right behind the `CR3` load looks for its gate in a page that is not mapped. -/
theorem not_delivery_backed : ¬ ∀ (k : LoadedKernel) (fw : Firmware) (m : Memory) (P : Paging)
    (s : EntryState), Placed k.toHandover → k.Ok → RangesDisjoint k.toHandover →
    ConventionalOk k.toHandover m → MapBelow k.toHandover m →
    buildPaging k.toHandover m = .ok P → Reaches (entryStep k) (fw.enter P) s →
    s.hw.interrupts = true → Backed k s := by
  intro hall
  obtain ⟨P, hbuild⟩ := smallKernel_buildPaging
  have hbacked := hall smallKernel busyFirmware _ P _ smallKernel_placed smallKernel_ok
    smallKernel_rangesDisjoint (conventionalOk_cleared _) smallKernel_mapBelow hbuild (.refl _) rfl
  have hin : InBlock busyFirmware.idtr.base 0x1000 busyFirmware.idtr.base := by decide
  have hmapped := hbacked.idt busyFirmware.idtr.base hin
  rw [EntryState.Mapped] at hmapped
  have hunmapped := busyFirmware_idt_unmapped hbuild
  exact Option.some_ne_none _ (hmapped.symm.trans hunmapped)

end Kernel
end OsBook
