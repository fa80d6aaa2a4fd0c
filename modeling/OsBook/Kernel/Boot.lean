import OsBook.Kernel.KernelEntry
import OsBook.Kernel.PoolSize

/-!
# From the firmware to the last loop

The loader and the kernel together: a machine whose firmware serves `efi_main`
as far as the kernel needs it (`Supported`) boots to the end.  Stage 1 cannot
fail there, so the serial log is at every moment a part of the expected lines,
it is all of them when the kernel halts, and unless an interrupt leaves the
kernel it can still halt (`boot_log`).

Both programs write through the driver of `Common.Serial`, and each of them
initialises it.  Under every fair timing of the UART the lines of the two leave
one after the other; only the last newline of the loader can get lost
(`boot_line`).
-/

namespace OsBook
namespace Kernel

open Machine

/-! ## Stage 1 on a handover of the loader -/

section Pool

variable {h : Handover} {m : Memory} {probeSize : Nat}

/-- The map that was filled in lies in the buffer. -/
theorem LoaderHandover.mmap_inBuffer (hl : LoaderHandover h probeSize) {x : Nat}
    (hx : InMmapBuffer h x) : InBuffer h probeSize x := by
  have hused := hl.used_le
  unfold InMmapBuffer at hx
  unfold InBuffer mmapBufferPages
  omega

theorem LoaderHandover.rangesDisjoint (hl : LoaderHandover h probeSize) : RangesDisjoint h where
  kernel_stack := hl.pages.kernel_stack
  live_mmap := by
    intro x hlive hmmap
    have hbuffer := hl.mmap_inBuffer hmmap
    rcases hlive with hkernel | hstack
    · exact hl.pages.kernel_buffer x hkernel hbuffer
    · exact hl.pages.stack_buffer x hstack hbuffer

/-- Stage 1 does what it would do if the first 130 pages of the buffer were all memory. -/
theorem LoaderHandover.pool_buildPaging (hl : LoaderHandover h probeSize)
    (hfound : FoundCovers h m probeSize) (hpages : h.kernelPages.toNat ≤ 16384) {e : AllocEnv}
    (he : prepare h m = .ok e) {limit : UInt64}
    (hlimit : limit.toNat = h.mmapPhys.toNat + 130 * 4096) :
    ∃ root s m₁ st,
      logged (allocPage (e.below limit)) (initialAlloc (e.below limit), []) m =
        .ok (root, s, m₁) ∧ root ≠ 0 ∧
      mapCalls (logged (allocPage (e.below limit))) root (layoutCalls h) ⟨s, m₁⟩ = .ok st ∧
      buildPaging h m = .ok ⟨root, st.mem⟩ := by
  have hp := hl.placed
  have hmmap := prepare_mmapPhys_lt hp he
  have hcard := card_layoutSlots_le hpages
  have hend := hl.poolEnd_le hfound
  have hscratchEnd : e.scratchEnd = scratchEndOf h (scan h m) := by
    obtain ⟨-, -, rfl⟩ := prepare_eq_ok he
    rfl
  have ok := hl.pool_ok he hlimit
  have hmb := hp.mmap_below
  have src := allocPage_pageSource ok (by
    rw [AllocEnv.below_scratchEnd, hlimit]
    exact ⟨by omega, by simp⟩)
  obtain ⟨root, s, m₁, st, hroot, hne, hrun, -⟩ := pool_run (m := m) (S := layoutSlots h)
    (layoutCalls h) ok src ((hl.pool_room he hlimit).of_le (by omega))
    (fun c hc => isFrame_of_mem_layoutCalls hp hmmap hc)
    (fun c hc l hlt => mem_layoutSlots hp hmmap hc hlt)
  refine ⟨root, s, m₁, st, hroot, hne, hrun, ?_⟩
  -- The kernel's allocator does what the allocator of the pool does.
  have hsim : Simulates id (logged (allocPage (e.below limit))) (logged (allocPage e)) := by
    refine (below_simulates ?_).logged
    rw [UInt64.le_iff_toNat_le, hscratchEnd, hlimit]
    exact hend
  have hroot' := hsim _ m root s m₁ hroot hne
  have hrun' := mapCalls_simulates hsim hrun
  rw [BuildState.map_id, BuildState.map_id] at hrun'
  exact (buildPaging_of_logged hp he hroot' hne hrun').1

/-- With a map of at least one descriptor, Stage 1 builds its tables. -/
theorem LoaderHandover.exists_buildPaging (hl : LoaderHandover h probeSize)
    (hfound : FoundCovers h m probeSize) (hpages : h.kernelPages.toNat ≤ 16384)
    (hmap : ¬ (h.descSize = 0 ∨ h.mmapSizeUsed < h.descSize)) :
    ∃ P, buildPaging h m = .ok P := by
  obtain ⟨e, he⟩ : ∃ e, prepare h m = .ok e := by
    unfold prepare
    rw [if_neg hmap]
    exact ⟨_, rfl⟩
  obtain ⟨limit, hlimit⟩ := hl.exists_poolEnd
  obtain ⟨root, -, -, st, -, -, -, hbuild⟩ := hl.pool_buildPaging hfound hpages he hlimit
  exact ⟨_, hbuild⟩

end Pool

/-! ## The machine -/

/-- The kernel of a blob, entered by the loader: its symbols lie in the blob, and its frame below
the stack pointer that the loader has installed. -/
structure LoadedKernel.EnteredBy (k : LoadedKernel) (blob : Loader.KernelBlob)
    (jump : Loader.Jump) : Prop where
  handover : k.toHandover = jump.handover
  gIdt_fits : k.gIdt.toNat + sizeofIdt ≤ blob.bytes.length
  isr_fits : ∀ isr, (k.isr isr).toNat < blob.bytes.length
  isr_distinct : ∀ i j, k.isr i = k.isr j → i = j
  irqCount_fits : ∀ t, (k.irqCount t).toNat + 8 ≤ blob.bytes.length
  bootGdt_fits : k.rsp.toNat ≤ k.bootGdt.toNat ∧
    k.stackPhys.toNat + k.bootGdt.toNat + 24 ≤ jump.rsp.toNat
  bootGdtr_fits : k.rsp.toNat ≤ k.bootGdtr.toNat ∧
    k.stackPhys.toNat + k.bootGdtr.toNat + 10 ≤ jump.rsp.toNat
  idtPointer_fits : k.rsp.toNat ≤ k.idtPointer.toNat ∧
    k.stackPhys.toNat + k.idtPointer.toNat + 10 ≤ jump.rsp.toNat
  rsp_fits : k.handlerStack ≤ k.rsp.toNat ∧ k.stackPhys.toNat + k.rsp.toNat ≤ jump.rsp.toNat

/-- The lines of a boot that does not fail. -/
def expectedOutput (faults : Bool) : List Char :=
  "HELLO INIT\n".toList ++ "STAGE 1: build paging\n".toList ++
    (entryLines faults).flatMap String.toList

theorem bootLog_ok {k : LoadedKernel} {m : Memory} {P : Paging}
    (hbuild : buildPaging k.toHandover m = .ok P) :
    bootLog k m = expectedOutput k.toHandover.probeFaults := by
  have hlines : outcomeLog k m = (entryLines k.toHandover.probeFaults).flatMap String.toList := by
    simp only [outcomeLog, hbuild]
  exact congrArg ("HELLO INIT\n".toList ++ "STAGE 1: build paging\n".toList ++ ·) hlines

section Boot

variable {σ : Type} (bs : Loader.BootServices σ) (view : σ → Loader.MapView)
  (blob : Loader.KernelBlob) (s₀ : σ) (m₀ : Memory)

/-- What the loader and the kernel need of the firmware. -/
structure Supported : Prop where
  services : Loader.BootServicesOk bs view
  handoff : Loader.SafeHandoff bs view blob s₀ m₀
  /-- The three requests were served with pages that lie apart, the stack below 4 GiB. -/
  pages : LoaderPages (Loader.efiMain bs blob s₀ m₀).handover
    (Loader.mapProbe bs blob s₀ m₀).mmapSize.toNat
  stack_low : (Loader.efiMain bs blob s₀ m₀).handover.stackPhys.toNat + 4 * 4096 < 2 ^ 32
  /-- The kernel has at most 64 MiB. -/
  blob_le : blob.bytes.length ≤ 16384 * 4096
  /-- The map has a descriptor. -/
  desc : (Loader.mapAtFill bs view blob s₀ m₀).descSize ≠ 0 ∧
    (Loader.mapAtFill bs view blob s₀ m₀).descSize.toNat ≤
      (Loader.mapAtFill bs view blob s₀ m₀).bytes.length
  found : FoundCovers (Loader.efiMain bs blob s₀ m₀).handover (Loader.efiMain bs blob s₀ m₀).mem
    (Loader.mapProbe bs blob s₀ m₀).mmapSize.toNat
  conventional : ConventionalOk (Loader.efiMain bs blob s₀ m₀).handover
    (Loader.efiMain bs blob s₀ m₀).mem
  below : MapBelow (Loader.efiMain bs blob s₀ m₀).handover (Loader.efiMain bs blob s₀ m₀).mem

end Boot

/-- The pages of the kernel hold the blob, and no page more than that. -/
theorem kernelPagesOf_spec (blob : Loader.KernelBlob) :
    blob.bytes.length ≤ (Loader.kernelPagesOf blob).toNat * 4096 ∧
      (Loader.kernelPagesOf blob).toNat ≤ max 1 ((blob.bytes.length + 4095) / 4096) := by
  have hlen := blob.len_eq
  have hlt := blob.len.toNat_lt
  have hpage : (4096 : UInt64).toNat = 4096 := rfl
  have hround : (4095 : UInt64).toNat = 4095 := rfl
  have hceil : ((blob.len.toUInt64 + 4095) / 4096).toNat = (blob.bytes.length + 4095) / 4096 := by
    rw [UInt64.toNat_div, toNat_add_of_lt (by rw [UInt32.toNat_toUInt64, hround]; omega),
      UInt32.toNat_toUInt64, hpage, hround, hlen]
  unfold Loader.kernelPagesOf
  simp only
  split
  · rename_i hzero
    have hone : (1 : UInt64).toNat = 1 := rfl
    rw [eq_zero_iff_toNat, hceil] at hzero
    rw [hone]
    omega
  · rw [hceil]
    omega

section Boot

variable {σ : Type} {bs : Loader.BootServices σ} {view : σ → Loader.MapView}
  {blob : Loader.KernelBlob} {s₀ : σ} {m₀ : Memory} {k : LoadedKernel}

theorem Supported.loaderHandover (h : Supported bs view blob s₀ m₀) :
    LoaderHandover (Loader.efiMain bs blob s₀ m₀).handover
      (Loader.mapProbe bs blob s₀ m₀).mmapSize.toNat :=
  efiMain_loaderHandover h.services h.handoff h.pages

/-- The loader installs the top of the stack. -/
theorem Supported.rsp (h : Supported bs view blob s₀ m₀) :
    (Loader.efiMain bs blob s₀ m₀).rsp.toNat =
      (Loader.efiMain bs blob s₀ m₀).handover.stackPhys.toNat + 4 * 4096 := by
  have hlow := h.stack_low
  have htop := Loader.toNat_stackTopOf h.pages.stack_aligned (by omega)
  show (Loader.stackTopOf (Loader.efiMain bs blob s₀ m₀).handover.stackPhys).toNat = _
  rw [htop]
  omega

/-- The kernel that the loader enters is laid out as its code assumes. -/
theorem LoadedKernel.EnteredBy.ok (h : Supported bs view blob s₀ m₀)
    (hk : k.EnteredBy blob (Loader.efiMain bs blob s₀ m₀)) : k.Ok := by
  have hpages : blob.bytes.length ≤ k.kernelPages.toNat * 4096 := by
    rw [hk.handover]
    exact (kernelPagesOf_spec blob).1
  have hstack : (Loader.efiMain bs blob s₀ m₀).rsp.toNat = k.stackPhys.toNat + 4 * 4096 := by
    rw [hk.handover]
    exact h.rsp
  have hgdt := hk.bootGdt_fits
  have hgdtr := hk.bootGdtr_fits
  have hidtr := hk.idtPointer_fits
  have hrsp := hk.rsp_fits
  rw [hstack] at hgdt hgdtr hidtr hrsp
  constructor
  · exact hk.gIdt_fits.trans hpages
  · exact fun isr => (hk.isr_fits isr).trans_le hpages
  · exact hk.isr_distinct
  · exact fun t => (hk.irqCount_fits t).trans hpages
  · omega
  · omega
  · omega
  · omega

/-- The kernel has at most 16384 pages. -/
theorem Supported.kernelPages_le (h : Supported bs view blob s₀ m₀) :
    (Loader.efiMain bs blob s₀ m₀).handover.kernelPages.toNat ≤ 16384 := by
  have hpages := (kernelPagesOf_spec blob).2
  have hblob := h.blob_le
  show (Loader.kernelPagesOf blob).toNat ≤ 16384
  omega

/-- Stage 1 does not fail. -/
theorem Supported.exists_buildPaging (h : Supported bs view blob s₀ m₀) :
    ∃ P, buildPaging (Loader.efiMain bs blob s₀ m₀).handover (Loader.efiMain bs blob s₀ m₀).mem =
      .ok P := by
  obtain ⟨hpos, hfits⟩ := h.desc
  refine h.loaderHandover.exists_buildPaging h.found h.kernelPages_le ?_
  rw [UInt64.lt_iff_toNat_lt, h.handoff.size, h.handoff.desc]
  rintro (hzero | hlt)
  · exact hpos hzero
  · exact absurd hfits (Nat.not_le.mpr hlt)

/-- The kernel prints a part of the expected lines, and all of them before it halts. -/
theorem Supported.logged (h : Supported bs view blob s₀ m₀)
    (hk : k.EnteredBy blob (Loader.efiMain bs blob s₀ m₀)) {fw : Firmware}
    {events : List EntryEvent} {s : BootState}
    (hticks : ∀ t : Timer, events.count (.irq t.source) < 2 ^ 64)
    (hrun : runs (bootStep k fw (Loader.efiMain bs blob s₀ m₀).mem) events (bootStart fw) =
      some s) :
    s.hw.log <+: fw.hw.log ++ expectedOutput k.toHandover.probeFaults ∧
      (s.Halted → s.hw.log = fw.hw.log ++ expectedOutput k.toHandover.probeFaults) := by
  obtain ⟨P, hbuild⟩ := h.exists_buildPaging
  have hl := h.loaderHandover
  have hc := h.conventional
  have hb := h.below
  rw [← hk.handover] at hbuild hl hc hb
  have hlines : bootLog k (Loader.efiMain bs blob s₀ m₀).mem =
      expectedOutput k.toHandover.probeFaults := bootLog_ok hbuild
  rw [← hlines]
  exact (bootInv_run hrun).logged
    (printsLines_entryStep hl.placed (hk.ok h) hl.rangesDisjoint hc hb) hticks

/-- **From the firmware to the last loop.**  On a supported machine the serial log is at every
moment a part of the expected lines.  When the kernel halts it is all of them; and from every
reachable state it can halt, unless an interrupt has left it. -/
theorem boot_log (h : Supported bs view blob s₀ m₀)
    (hk : k.EnteredBy blob (Loader.efiMain bs blob s₀ m₀)) (fw : Firmware)
    {events : List EntryEvent} {s : BootState}
    (hticks : ∀ t : Timer, events.count (.irq t.source) < 2 ^ 64)
    (hrun : runs (bootStep k fw (Loader.efiMain bs blob s₀ m₀).mem) events (bootStart fw) =
      some s) :
    s.hw.log <+: fw.hw.log ++ expectedOutput k.toHandover.probeFaults ∧
      (s.Halted → s.hw.log = fw.hw.log ++ expectedOutput k.toHandover.probeFaults) ∧
      (¬ s.HasLeft → ∃ s', Reaches (bootStep k fw (Loader.efiMain bs blob s₀ m₀).mem) s s' ∧
        s'.Halted) := by
  obtain ⟨hpart, hall⟩ := h.logged hk hticks hrun
  have hl := h.loaderHandover
  have hc := h.conventional
  have hb := h.below
  rw [← hk.handover] at hl hc hb
  exact ⟨hpart, hall,
    (bootInv_run hrun).halts hl.placed (hk.ok h) hl.rangesDisjoint hc hb⟩

end Boot

/-! ## The serial line -/

/-- The bytes of a text of ASCII characters. -/
def asciiBytes (text : List Char) : List UInt8 := text.map fun c => UInt8.ofNat c.toNat

/-- The lines of `efi_main`. -/
def efiMainText : List UInt8 := asciiBytes (Loader.efiMainLines.flatMap String.toList)

/-- The calls of the serial driver in one boot, behind the first initialisation: the lines of the
loader, the initialisation by the kernel, and what the kernel writes. -/
def bootCalls (jump : Loader.Jump) (text : List UInt8) : List Serial.Call :=
  (asciiBytes jump.log).map .writeChar ++ .init115200 :: text.map .writeChar

/-- All lines of the loader arrive, except that the newline of the last one can get lost. -/
theorem delivered_bootCalls {jump : Loader.Jump} {base text line : List UInt8}
    (hlog : asciiBytes jump.log = efiMainText)
    (h : Serial.Delivered base (bootCalls jump text) line) :
    ∃ loader, (loader = efiMainText ∨ loader ++ [10] = efiMainText) ∧
      line = base ++ (loader ++ text) := by
  have hlast : ∃ front, front ++ [10] = efiMainText := ⟨efiMainText.dropLast, by decide +kernel⟩
  obtain ⟨front, hfront⟩ := hlast
  rw [bootCalls, hlog, List.append_cons] at h
  obtain ⟨t, ht, rfl⟩ := h.append_writes
  rcases ht.of_init with hkept | ⟨c, hdropped⟩
  · obtain rfl := hkept.of_writes
    exact ⟨efiMainText, Or.inl rfl, List.append_assoc _ _ _⟩
  · have htext := hdropped.of_writes
    rw [← hfront, ← List.append_assoc] at htext
    obtain ⟨rfl, -⟩ := List.append_inj' htext rfl
    exact ⟨front, Or.inr hfront, List.append_assoc _ _ _⟩

section Line

variable {σ : Type} {bs : Loader.BootServices σ} {view : σ → Loader.MapView}
  {blob : Loader.KernelBlob} {s₀ : σ} {m₀ : Memory} {k : LoadedKernel}

/-- All calls of a boot return, and their characters arrive. -/
theorem exists_line (u₀ : Uart) (text : List UInt8) {schedule : Nat → Serial.Event}
    (hfair : Fair schedule) :
    ∃ n base loader,
      (follow Serial.step schedule
        (Serial.start u₀ (bootCalls (Loader.efiMain bs blob s₀ m₀) text)) n).code = [] ∧
      base <+: u₀.accepted ∧ Serial.sent u₀ <+: base ∧
      (loader = efiMainText ∨ loader ++ [10] = efiMainText) ∧
      (follow Serial.step schedule
        (Serial.start u₀ (bootCalls (Loader.efiMain bs blob s₀ m₀) text)) n).uart.line =
        base ++ (loader ++ text) := by
  have happroach :=
    Serial.approaches_done u₀ (bootCalls (Loader.efiMain bs blob s₀ m₀) text)
  have hphase := Serial.phase_start u₀ (bootCalls (Loader.efiMain bs blob s₀ m₀) text)
  obtain ⟨n, hdone, hidle⟩ := eventually_of_fair happroach hfair hphase
  obtain ⟨base, hle, hsent, hdelivered⟩ :=
    (follow_keeps happroach.keeps hphase schedule n).line hdone hidle
  obtain ⟨loader, hloader, hline⟩ := delivered_bootCalls rfl hdelivered
  exact ⟨n, base, loader, hdone, hle, hsent, hloader, hline⟩

/-- **The serial line of a boot.**  Whatever the firmware answers the loader, whatever the kernel
writes and however the transmitter is timed, all calls of the driver return, and the line carries
the lines of the loader, of which only the last newline can get lost to the second initialisation,
and then all that the kernel has written.  On a supported machine that is, when the kernel halts,
the expected lines. -/
theorem boot_line (u₀ : Uart) (text : List UInt8) {schedule : Nat → Serial.Event}
    (hfair : Fair schedule) :
    (∃ n base loader,
      (follow Serial.step schedule
        (Serial.start u₀ (bootCalls (Loader.efiMain bs blob s₀ m₀) text)) n).code = [] ∧
      base <+: u₀.accepted ∧ Serial.sent u₀ <+: base ∧
      (loader = efiMainText ∨ loader ++ [10] = efiMainText) ∧
      (follow Serial.step schedule
        (Serial.start u₀ (bootCalls (Loader.efiMain bs blob s₀ m₀) text)) n).uart.line =
        base ++ (loader ++ text)) ∧
      ∀ (fw : Firmware) (events : List EntryEvent) (s : BootState), fw.hw.log = [] →
        Supported bs view blob s₀ m₀ → k.EnteredBy blob (Loader.efiMain bs blob s₀ m₀) →
        (∀ t : Timer, events.count (.irq t.source) < 2 ^ 64) →
        runs (bootStep k fw (Loader.efiMain bs blob s₀ m₀).mem) events (bootStart fw) = some s →
        s.Halted → text = asciiBytes s.hw.log →
        text = asciiBytes (expectedOutput k.toHandover.probeFaults) := by
  refine ⟨exists_line u₀ text hfair, ?_⟩
  intro fw events s hlog h hk hticks hrun hhalted htext
  rw [htext, (h.logged hk hticks hrun).2 hhalted, hlog, List.nil_append]

end Line

/-! ## A small boot -/

theorem writeBytes_cleared {bytes : List UInt8} (hbytes : ∀ b ∈ bytes, b = 0) (a : UInt64) :
    Memory.writeBytes (fun _ => 0) a bytes = fun _ => 0 := by
  induction bytes generalizing a with
  | nil => rfl
  | cons b bytes ih =>
      obtain rfl : b = 0 := hbytes b (by simp)
      rw [Memory.writeBytes]
      simp only [ite_self]
      exact ih (fun c hc => hbytes c (by simp [hc])) _

/-- Two pages of zeros. -/
def smallBlob : Loader.KernelBlob := ⟨List.replicate 0x2000 0, 0x2000, List.length_replicate.symm⟩

/-- The jump on firmware whose map keeps its size. -/
def smallJump : Loader.Jump :=
  Loader.efiMain Loader.steadyPlan.bootServices smallBlob 0 fun _ => 0

/-- The small kernel, where this firmware puts it. -/
def bootedKernel : LoadedKernel := { smallKernel with toHandover := smallJump.handover }

section Small

open Loader

theorem steadyPlan_getMemoryMap (n : Nat) (m : Memory) (size buffer key desc : UInt64) :
    steadyPlan.bootServices.getMemoryMap n m size buffer key desc =
      if size < 384 ∨ buffer = 0 then ⟨0x8000000000000005, 384, key, 48, m, n⟩
      else
        ⟨efiSuccess, 384, UInt64.ofNat n, 48, m.writeBytes buffer (List.replicate 384 0), n⟩ := by
  have hview : steadyPlan.view n = ⟨List.replicate 384 0, 48, UInt64.ofNat n⟩ :=
    congrArg (fun k => MapView.mk (List.replicate k 0) 48 (UInt64.ofNat n))
      (show 48 * 8 = 384 from rfl)
  have hlength : UInt64.ofNat (List.replicate 384 (0 : UInt8)).length = 384 := by
    rw [List.length_replicate]
    rfl
  simp only [Plan.bootServices, hview, hlength]

theorem small_stackAlloc : stackAlloc steadyPlan.bootServices smallBlob 0 (fun _ => 0) =
    ⟨efiSuccess, 0x200000, fun _ => 0, 2⟩ := by
  have hcopy : Memory.writeBytes (fun _ => 0) 0x100000 smallBlob.bytes = fun _ => 0 :=
    writeBytes_cleared (fun b hb => List.eq_of_mem_replicate hb) _
  have hcopied : kernelCopied steadyPlan.bootServices smallBlob 0 (fun _ => 0) = fun _ => 0 :=
    (kernelCopied_eq _ _ _ _).trans hcopy
  unfold stackAlloc
  rw [hcopied]
  rfl

theorem small_mapProbe : mapProbe steadyPlan.bootServices smallBlob 0 (fun _ => 0) =
    ⟨0x8000000000000005, 384, 0, 48, fun _ => 0, 2⟩ := by
  unfold mapProbe
  rw [small_stackAlloc, steadyPlan_getMemoryMap, if_pos (Or.inl (by decide))]

theorem small_mapFill : mapFill steadyPlan.bootServices smallBlob 0 (fun _ => 0) =
    ⟨efiSuccess, 384, 3, 48, fun _ => 0, 3⟩ := by
  have hbuffer : bufferAlloc steadyPlan.bootServices smallBlob 0 (fun _ => 0) =
      ⟨efiSuccess, 0x300000, fun _ => 0, 3⟩ := by
    unfold bufferAlloc
    rw [small_mapProbe]
    rfl
  unfold mapFill
  rw [hbuffer, small_mapProbe, steadyPlan_getMemoryMap, if_neg (by decide),
    writeBytes_cleared fun b hb => List.eq_of_mem_replicate hb]
  rfl

theorem smallJump_handover : smallJump.handover = ⟨0x300000, 384, 48, 0x100000, 2, 0x200000⟩ := by
  have hbuffer : (bufferAlloc steadyPlan.bootServices smallBlob 0 fun _ => 0).memory = 0x300000 := by
    unfold bufferAlloc
    rw [small_mapProbe]
    rfl
  simp only [smallJump, efiMain, hbuffer, small_mapFill, small_stackAlloc]
  rfl

theorem smallJump_mem : smallJump.mem = fun _ => 0 := by
  unfold smallJump efiMain exitCall
  rw [small_mapFill]
  rfl

theorem small_safeHandoff :
    SafeHandoff steadyPlan.bootServices steadyPlan.view smallBlob 0 fun _ => 0 := by
  have hview : mapAtFill steadyPlan.bootServices steadyPlan.view smallBlob 0 (fun _ => 0) =
      steadyPlan.view 3 := Plan.mapAtFill_eq _ _ _ _
  have hlength : (steadyPlan.view 3).bytes.length = 384 := Plan.length_view _ _
  have hhandover := smallJump_handover
  unfold smallJump at hhandover
  constructor
  · exact steadyPlan.pagesGranted ..
  · rw [small_mapFill]
  · rw [hview]
    intro i hi
    rw [small_mapFill]
    exact (List.getElem_replicate _).symm
  · unfold exitCall
    rw [small_mapFill]
    rfl
  · rw [small_mapFill, hview]
    rfl
  · rw [hhandover, hview, hlength]
    rfl
  · rw [hhandover, hview]
    rfl
  · rw [hhandover, small_mapProbe]
    decide

theorem small_loaderPages : LoaderPages smallJump.handover 384 := by
  have hkernel : (0x100000 : UInt64).toNat = 0x100000 := rfl
  have hpages : (2 : UInt64).toNat = 2 := rfl
  have hstack : (0x200000 : UInt64).toNat = 0x200000 := rfl
  have hmmap : (0x300000 : UInt64).toNat = 0x300000 := rfl
  have hbuffer : mmapBufferPages 384 = 130 := rfl
  rw [smallJump_handover]
  constructor
  all_goals
    simp only [InKernelImage, InStackRange, InBuffer, hkernel, hpages, hstack, hmmap, hbuffer]
  all_goals omega

theorem small_supported :
    Supported steadyPlan.bootServices steadyPlan.view smallBlob 0 fun _ => 0 where
  services := steadyPlan.bootServicesOk
  handoff := small_safeHandoff
  pages := by
    rw [small_mapProbe]
    exact small_loaderPages
  stack_low := by
    show smallJump.handover.stackPhys.toNat + 4 * 4096 < 2 ^ 32
    rw [smallJump_handover]
    decide
  blob_le := by
    show (List.replicate 0x2000 _).length ≤ _
    rw [List.length_replicate]
    decide
  desc := by
    rw [Plan.mapAtFill_eq, Plan.length_view]
    decide
  found := by
    rw [small_mapProbe]
    show FoundCovers smallJump.handover smallJump.mem _
    rw [smallJump_mem]
    intro i _ hholds
    rw [descriptor_cleared] at hholds
    exact absurd hholds.1 (by decide)
  conventional := by
    show ConventionalOk smallJump.handover smallJump.mem
    rw [smallJump_mem]
    exact conventionalOk_cleared _
  below := by
    show MapBelow smallJump.handover smallJump.mem
    rw [smallJump_mem]
    exact ⟨endsBelow_cleared _ _ _, endsBelow_cleared _ _ _⟩

theorem bootedKernel_enteredBy : bootedKernel.EnteredBy smallBlob smallJump := by
  have hlength : smallBlob.bytes.length = 0x2000 := List.length_replicate
  have hstack : bootedKernel.stackPhys = 0x200000 :=
    congrArg Handover.stackPhys smallJump_handover
  have hrsp : smallJump.rsp = 0x204000 := by
    unfold smallJump efiMain
    rw [small_stackAlloc]
    decide
  constructor
  · rfl
  · rw [hlength]
    decide
  · intro isr
    rw [hlength]
    cases isr <;> decide
  · exact smallKernel_ok.isr_distinct
  · intro t
    rw [hlength]
    cases t <;> decide
  · rw [hstack, hrsp]
    decide
  · rw [hstack, hrsp]
    decide
  · rw [hstack, hrsp]
    decide
  · rw [hstack, hrsp]
    decide

/-- On an idle UART that is timed in turn, the lines of the loader and the kernel arrive. -/
theorem boot_line_idle :
    ∃ n loader, (loader = efiMainText ∨ loader ++ [10] = efiMainText) ∧
      (follow Serial.step Serial.inTurn
        (Serial.start Serial.idleUart
          (bootCalls smallJump (asciiBytes (expectedOutput true)))) n).uart.line =
        loader ++ asciiBytes (expectedOutput true) := by
  obtain ⟨⟨n, base, loader, -, hbase, -, hloader, hline⟩, -⟩ :=
    @boot_line _ steadyPlan.bootServices steadyPlan.view smallBlob 0 (fun _ => 0) bootedKernel
      Serial.idleUart (asciiBytes (expectedOutput true)) _ Serial.inTurn_fair
  obtain rfl : base = [] := List.prefix_nil.mp hbase
  exact ⟨n, loader, hloader, hline⟩

/-- The small machine prints expected lines only, and it can halt. -/
theorem boot_log_small :
    ∃ s, Reaches (bootStep bootedKernel idleFirmware fun _ => 0) (bootStart idleFirmware) s ∧
      s.Halted := by
  have hrun : runs (bootStep bootedKernel idleFirmware smallJump.mem) [] (bootStart idleFirmware) =
      some (bootStart idleFirmware) := rfl
  have hboot := boot_log small_supported bootedKernel_enteredBy idleFirmware (by simp) hrun
  have hmem : (efiMain steadyPlan.bootServices smallBlob 0 fun _ => 0).mem = fun _ => 0 :=
    smallJump_mem
  rw [hmem] at hboot
  exact hboot.2.2 id

end Small

end Kernel
end OsBook
