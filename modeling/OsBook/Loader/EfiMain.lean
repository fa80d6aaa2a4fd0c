import OsBook.Kernel.Handover

/-!
# The UEFI loader

`efi_main` allocates pages for the kernel, the stack and the memory map, copies
the kernel, fetches the map, leaves boot services and jumps to the kernel.  The
firmware is a parameter: its services are functions of a hidden state, and
`BootServicesOk` lists what UEFI promises about them.

The status of every call is dropped, so the loader always jumps.  The jump is a
safe handoff exactly when the firmware grants all three requests, the buffer not
at address `0`, the map has not outgrown the size probed before the buffer was
allocated, and its key is still good when boot services are left
(`efiMain_safeHandoff_iff`).
-/

namespace OsBook
namespace Loader

open Machine

/-! ## Boot services -/

abbrev EfiStatus := UInt64

def efiSuccess : EfiStatus := 0

/-- `AllocateType::ANY_PAGES`. -/
def anyPages : UInt32 := 0

/-- `MemoryType::LOADER_CODE`. -/
def loaderCode : UInt32 := 1

/-- `MemoryType::LOADER_DATA`. -/
def loaderData : UInt32 := 2

/-- The result of `AllocatePages`: the status, the out-parameter `*Memory` after
the call, and the memory and firmware left behind. -/
structure AllocResult (σ : Type) where
  status : EfiStatus
  memory : UInt64
  mem : Memory
  fw : σ

/-- The result of `GetMemoryMap`, with its out-parameters after the call. -/
structure MapResult (σ : Type) where
  status : EfiStatus
  mmapSize : UInt64
  mapKey : UInt64
  descSize : UInt64
  mem : Memory
  fw : σ

/-- The result of `ExitBootServices`. -/
structure ExitResult (σ : Type) where
  status : EfiStatus
  mem : Memory
  fw : σ

/-- The services the loader calls.  Out-parameters are passed with the value
the variable holds before the call. -/
structure BootServices (σ : Type) where
  allocatePages : σ → Memory → (allocateType memoryType : UInt32) → (pages memory : UInt64) →
    AllocResult σ
  getMemoryMap : σ → Memory → (mmapSize buffer mapKey descSize : UInt64) → MapResult σ
  exitBootServices : σ → Memory → (mapKey : UInt64) → ExitResult σ

/-- The memory map the firmware would report: its descriptors as bytes, their
size, and the key that `ExitBootServices` expects. -/
structure MapView where
  bytes : List UInt8
  descSize : UInt64
  key : UInt64

/-- What UEFI promises about the services.  `AllocatePages` may fail, and every service may change
the map in any way. -/
structure BootServicesOk {σ : Type} (bs : BootServices σ) (view : σ → MapView) : Prop where
  /-- A map is not empty, and it fits in memory next to the loader's spare pages. -/
  map_nonempty : ∀ s, 0 < (view s).bytes.length
  map_fits : ∀ s, (view s).bytes.length + 2 ^ 20 ≤ 2 ^ 64
  /-- Without a buffer there is no map. -/
  null : ∀ s m size key desc, (bs.getMemoryMap s m size 0 key desc).status ≠ efiSuccess
  /-- A buffer that is too small is reported with the size needed, and nothing
  is written to it. -/
  too_small : ∀ s m size buffer key desc, size.toNat < (view s).bytes.length →
    (bs.getMemoryMap s m size buffer key desc).status ≠ efiSuccess ∧
      (bs.getMemoryMap s m size buffer key desc).mmapSize.toNat = (view s).bytes.length ∧
      (bs.getMemoryMap s m size buffer key desc).mem = m
  /-- A large enough buffer receives the current map and its key. -/
  filled : ∀ s m size buffer key desc, (view s).bytes.length ≤ size.toNat → buffer ≠ 0 →
    (bs.getMemoryMap s m size buffer key desc).status = efiSuccess ∧
      (bs.getMemoryMap s m size buffer key desc).mmapSize.toNat = (view s).bytes.length ∧
      (bs.getMemoryMap s m size buffer key desc).mapKey = (view s).key ∧
      (bs.getMemoryMap s m size buffer key desc).descSize = (view s).descSize ∧
      (bs.getMemoryMap s m size buffer key desc).mem.HoldsBytes buffer (view s).bytes
  /-- Boot services are not left with a stale key. -/
  stale : ∀ s m key,
    (bs.exitBootServices s m key).status = efiSuccess → key = (view s).key

/-! ## The loader -/

/-- The kernel embedded in the loader; its length is an `unsigned long`, which
has 32 bits on this target. -/
structure KernelBlob where
  bytes : List UInt8
  len : UInt32
  len_eq : len.toNat = bytes.length

/-- `MMAP_SCRATCH_EXTRA_PAGES`. -/
def mmapScratchExtraPages : UInt64 := 128

/-- The pages for the kernel blob. -/
def kernelPagesOf (blob : KernelBlob) : UInt64 :=
  let kernelPages := (blob.len.toUInt64 + 4095) / 4096
  if kernelPages = 0 then 1 else kernelPages

/-- The mask `~0xFul`: the complement is taken in 32 bits and then widened. -/
def stackTopMask : UInt64 := (~~~(0xF : UInt32)).toUInt64

/-- The stack pointer the loader installs. -/
def stackTopOf (stackPhys : UInt64) : UInt64 :=
  let stackTop := stackPhys + Kernel.stackPages * 4096
  stackTop &&& stackTopMask

/-- The pages for the memory map, from the probed size. -/
def mmapPagesOf (mmapSize : UInt64) : UInt64 :=
  let mmapPages := (mmapSize + 4096 - 1) / 4096
  let mmapPages := if mmapPages < 2 then 2 else mmapPages
  mmapPages + mmapScratchExtraPages

/-- `for (i = 0; i < kernel_blob_len; ++i) dst[i] = kernel_blob[i]`, from index `i`. -/
def copyLoop (blob : KernelBlob) (dst : UInt64) : (fuel : Nat) → (i : UInt32) → Memory → Option Memory
  | 0, _, _ => none
  | fuel + 1, i, m =>
      if i < blob.len then
        copyLoop blob dst fuel (i + 1)
          (fun x => if x = dst + i.toUInt64 then blob.bytes.getD i.toNat 0 else m x)
      else some m

/-- The lines written to the serial port, whatever the services answer. -/
def efiMainLines : List String :=
  ["UEFI: init\n", "UEFI: alloc kernel pages\n", "UEFI: kernel pages allocated\n",
    "UEFI: alloc stack pages\n", "UEFI: stack pages allocated\n", "UEFI: getMemoryMap(size)\n",
    "UEFI: getMemoryMap(size) done\n", "UEFI: alloc mmap pages\n", "UEFI: mmap buffer allocated\n",
    "UEFI: getMemoryMap(fill)\n", "UEFI: ExitBootServices\n", "UEFI: jump kernel\n"]

section Calls

variable {σ : Type} (bs : BootServices σ) (blob : KernelBlob) (s : σ) (m : Memory)

/-- The request for the kernel pages. -/
def kernelAlloc : AllocResult σ :=
  bs.allocatePages s m anyPages loaderCode (kernelPagesOf blob) 0

/-- Memory after the copy of the kernel.  The fuel is enough, see `copyLoop_zero`. -/
def kernelCopied : Memory :=
  let kernel := kernelAlloc bs blob s m
  (copyLoop blob kernel.memory (blob.len.toNat + 1) 0 kernel.mem).getD kernel.mem

/-- The request for the stack. -/
def stackAlloc : AllocResult σ :=
  let kernel := kernelAlloc bs blob s m
  bs.allocatePages kernel.fw (kernelCopied bs blob s m) anyPages loaderData Kernel.stackPages 0

/-- The probe for the size of the map. -/
def mapProbe : MapResult σ :=
  let stack := stackAlloc bs blob s m
  bs.getMemoryMap stack.fw stack.mem 0 0 0 0

/-- The request for the map buffer. -/
def bufferAlloc : AllocResult σ :=
  let probe := mapProbe bs blob s m
  bs.allocatePages probe.fw probe.mem anyPages loaderData (mmapPagesOf probe.mmapSize) 0

/-- The call that fills the buffer, still with the probed size. -/
def mapFill : MapResult σ :=
  let probe := mapProbe bs blob s m
  let buffer := bufferAlloc bs blob s m
  bs.getMemoryMap buffer.fw buffer.mem probe.mmapSize buffer.memory probe.mapKey probe.descSize

/-- The exit from boot services, with the key the fill call left behind. -/
def exitCall : ExitResult σ :=
  let fill := mapFill bs blob s m
  bs.exitBootServices fill.fw fill.mem fill.mapKey

/-- The machine at the jump to `kernel_entry`. -/
structure Jump where
  entry : UInt64
  rsp : UInt64
  handover : Kernel.Handover
  mem : Memory
  log : List Char

/-- `efi_main`, up to the jump.  No status is looked at. -/
def efiMain : Jump :=
  let kernel := kernelAlloc bs blob s m
  let stack := stackAlloc bs blob s m
  let buffer := bufferAlloc bs blob s m
  let fill := mapFill bs blob s m
  let exit := exitCall bs blob s m
  { entry := kernel.memory
    rsp := stackTopOf stack.memory
    handover := {
      mmapPhys := buffer.memory
      mmapSizeUsed := fill.mmapSize
      descSize := fill.descSize
      kernelPhys := kernel.memory
      kernelPages := kernelPagesOf blob
      stackPhys := stack.memory }
    mem := exit.mem
    log := efiMainLines.flatMap String.toList }

theorem efiMain_mmapSizeUsed :
    (efiMain bs blob s m).handover.mmapSizeUsed = (mapFill bs blob s m).mmapSize := rfl

end Calls

/-! ## The copy of the kernel -/

/-- The loop ends, with the bytes written in order. -/
theorem copyLoop_eq (blob : KernelBlob) (dst : UInt64) :
    ∀ left fuel i m, i.toNat + left = blob.len.toNat → left < fuel →
      copyLoop blob dst fuel i m =
        some (m.writeBytes (dst + i.toUInt64) (blob.bytes.drop i.toNat)) := by
  intro left
  induction left with
  | zero =>
      intro fuel i m hi hfuel
      obtain ⟨fuel, rfl⟩ := Nat.exists_eq_succ_of_ne_zero (by omega : fuel ≠ 0)
      have hlen := blob.len_eq
      have hend : ¬ i < blob.len := by
        rw [UInt32.lt_iff_toNat_lt]
        omega
      rw [copyLoop, if_neg hend, List.drop_eq_nil_of_le (by omega)]
      rfl
  | succ left ih =>
      intro fuel i m hi hfuel
      obtain ⟨fuel, rfl⟩ := Nat.exists_eq_succ_of_ne_zero (by omega : fuel ≠ 0)
      have hlen := blob.len_eq
      have hlt := blob.len.toNat_lt
      have hmore : i < blob.len := by
        rw [UInt32.lt_iff_toNat_lt]
        omega
      have hnext : (i + 1).toNat = i.toNat + 1 := by
        have hone : (1 : UInt32).toNat = 1 := rfl
        rw [UInt32.toNat_add, hone]
        omega
      have haddr : dst + (i + 1).toUInt64 = dst + i.toUInt64 + 1 := by
        have hwide : (i + 1).toUInt64 = i.toUInt64 + 1 := by
          have hone : (1 : UInt64).toNat = 1 := rfl
          apply UInt64.toNat_inj.mp
          rw [UInt64.toNat_add, UInt32.toNat_toUInt64, UInt32.toNat_toUInt64, hnext, hone]
          omega
        rw [hwide, UInt64.add_assoc]
      have hbyte : i.toNat < blob.bytes.length := by omega
      rw [copyLoop, if_pos hmore, ih fuel (i + 1) _ (by omega) (by omega), haddr, hnext,
        List.drop_eq_getElem_cons hbyte, List.getD_eq_getElem _ _ hbyte]
      rfl

/-- The whole loop writes the blob. -/
theorem copyLoop_zero (blob : KernelBlob) (dst : UInt64) (m : Memory) :
    copyLoop blob dst (blob.len.toNat + 1) 0 m = some (m.writeBytes dst blob.bytes) := by
  have hrun := copyLoop_eq blob dst blob.len.toNat (blob.len.toNat + 1) 0 m (Nat.zero_add _)
    (Nat.lt_succ_self _)
  have hstart : dst + (0 : UInt32).toUInt64 = dst := UInt64.add_zero dst
  rw [hstart] at hrun
  exact hrun

theorem kernelCopied_eq {σ : Type} (bs : BootServices σ) (blob : KernelBlob) (s : σ) (m : Memory) :
    kernelCopied bs blob s m =
      (kernelAlloc bs blob s m).mem.writeBytes (kernelAlloc bs blob s m).memory blob.bytes := by
  simp only [kernelCopied, copyLoop_zero, Option.getD_some]

/-! ## Safe handoffs -/

section Handoff

variable {σ : Type} (bs : BootServices σ) (view : σ → MapView) (blob : KernelBlob) (s : σ)
  (m : Memory)

/-- The three requests for pages succeed. -/
structure PagesGranted : Prop where
  kernel : (kernelAlloc bs blob s m).status = efiSuccess
  stack : (stackAlloc bs blob s m).status = efiSuccess
  buffer : (bufferAlloc bs blob s m).status = efiSuccess

/-- The map when the buffer is filled. -/
def mapAtFill : MapView := view (bufferAlloc bs blob s m).fw

/-- The map when its size is probed. -/
def mapAtProbe : MapView := view (stackAlloc bs blob s m).fw

/-- The map when boot services are left. -/
def mapAtExit : MapView := view (mapFill bs blob s m).fw

/-- What the loader takes for granted of the firmware that it runs on. -/
structure ServedAsAssumed : Prop where
  granted : PagesGranted bs blob s m
  /-- The buffer does not lie at address `0`. -/
  buffer_ne : (bufferAlloc bs blob s m).memory ≠ 0
  /-- The map does not grow between the probe and the fill call. -/
  no_growth : (mapAtFill bs view blob s m).bytes.length ≤ (mapAtProbe bs view blob s m).bytes.length
  /-- The map keeps its key between the fill call and the exit. -/
  key_kept : (mapAtExit bs view blob s m).key = (mapAtFill bs view blob s m).key
  /-- The firmware does not refuse to leave with the key of its current map. -/
  not_refused : (bs.exitBootServices (mapFill bs blob s m).fw (mapFill bs blob s m).mem
    (mapAtExit bs view blob s m).key).status = efiSuccess

/-- The jump to the kernel is backed by the calls before it. -/
structure SafeHandoff : Prop where
  granted : PagesGranted bs blob s m
  /-- The second `GetMemoryMap` filled the buffer with the map. -/
  filled : (mapFill bs blob s m).status = efiSuccess
  holds_map : (mapFill bs blob s m).mem.HoldsBytes (efiMain bs blob s m).handover.mmapPhys
    (mapAtFill bs view blob s m).bytes
  /-- Boot services were left with the key of that call. -/
  exited : (exitCall bs blob s m).status = efiSuccess
  key : (mapFill bs blob s m).mapKey = (mapAtFill bs view blob s m).key
  /-- The size and descriptor size passed on describe that map. -/
  size : (efiMain bs blob s m).handover.mmapSizeUsed.toNat =
    (mapAtFill bs view blob s m).bytes.length
  desc : (efiMain bs blob s m).handover.descSize = (mapAtFill bs view blob s m).descSize
  /-- The map fits in the pages allocated for it. -/
  fits : (efiMain bs blob s m).handover.mmapSizeUsed.toNat ≤
    (mmapPagesOf (mapProbe bs blob s m).mmapSize).toNat * 4096

end Handoff

/-- At least two pages for the map, and the spare ones. -/
theorem toNat_mmapPagesOf {mmapSize : UInt64} (h : mmapSize.toNat + 2 ^ 20 ≤ 2 ^ 64) :
    (mmapPagesOf mmapSize).toNat = max ((mmapSize.toNat + 4095) / 4096) 2 + 128 := by
  have hone : (1 : UInt64).toNat = 1 := rfl
  have htwo : (2 : UInt64).toNat = 2 := rfl
  have hpage : (4096 : UInt64).toNat = 4096 := rfl
  have hextra : mmapScratchExtraPages.toNat = 128 := rfl
  have hceil : ((mmapSize + 4096 - 1) / 4096).toNat = (mmapSize.toNat + 4095) / 4096 := by
    rw [UInt64.toNat_div, UInt64.toNat_sub, UInt64.toNat_add, hone, hpage]
    omega
  unfold mmapPagesOf
  simp only [UInt64.lt_iff_toNat_lt, hceil, htwo]
  split
  · rw [UInt64.toNat_add, htwo, hextra]
    omega
  · rw [UInt64.toNat_add, hceil, hextra]
    omega

/-- The buffer holds at least the probed size. -/
theorem le_mmapPagesOf {mmapSize : UInt64} (h : mmapSize.toNat + 2 ^ 20 ≤ 2 ^ 64) :
    mmapSize.toNat ≤ (mmapPagesOf mmapSize).toNat * 4096 := by
  rw [toNat_mmapPagesOf h]
  omega

section Contract

variable {σ : Type} {bs : BootServices σ} {view : σ → MapView} {blob : KernelBlob} {s : σ}
  {m : Memory}

/-- The probe passes size `0`, so it always reports the size of the map. -/
theorem BootServicesOk.mapProbe_size (ok : BootServicesOk bs view) :
    (mapProbe bs blob s m).mmapSize.toNat = (mapAtProbe bs view blob s m).bytes.length :=
  (ok.too_small _ _ 0 0 0 0 (ok.map_nonempty _)).2.1

/-- The fill call succeeds exactly when there is a buffer and the map has not outgrown the probe. -/
theorem BootServicesOk.mapFill_status (ok : BootServicesOk bs view) :
    (mapFill bs blob s m).status = efiSuccess ↔
      (bufferAlloc bs blob s m).memory ≠ 0 ∧
        (mapAtFill bs view blob s m).bytes.length ≤
          (mapAtProbe bs view blob s m).bytes.length := by
  have hprobe : (mapProbe bs blob s m).mmapSize.toNat = _ := ok.mapProbe_size
  constructor
  · intro hfill
    refine ⟨fun hnull => ?_, ?_⟩
    · unfold mapFill at hfill
      simp only [hnull] at hfill
      exact ok.null _ _ _ _ _ hfill
    · by_contra hlt
      refine (ok.too_small (bufferAlloc bs blob s m).fw _ _ _ _ _ ?_).1 hfill
      rw [hprobe]
      exact Nat.lt_of_not_le hlt
  · rintro ⟨hne, hle⟩
    rw [← hprobe] at hle
    exact (ok.filled _ _ _ _ _ _ hle hne).1

/-- Whenever the fill call succeeds, it leaves the map and its key behind. -/
theorem BootServicesOk.mapFill_filled (ok : BootServicesOk bs view)
    (hfill : (mapFill bs blob s m).status = efiSuccess) :
    (mapFill bs blob s m).mmapSize.toNat = (mapAtFill bs view blob s m).bytes.length ∧
      (mapFill bs blob s m).mapKey = (mapAtFill bs view blob s m).key ∧
      (mapFill bs blob s m).descSize = (mapAtFill bs view blob s m).descSize ∧
      (mapFill bs blob s m).mem.HoldsBytes (bufferAlloc bs blob s m).memory
        (mapAtFill bs view blob s m).bytes := by
  obtain ⟨hne, hle⟩ := ok.mapFill_status.mp hfill
  have hprobe : (mapProbe bs blob s m).mmapSize.toNat = _ := ok.mapProbe_size
  rw [← hprobe] at hle
  exact (ok.filled (bufferAlloc bs blob s m).fw (bufferAlloc bs blob s m).mem _ _
    (mapProbe bs blob s m).mapKey (mapProbe bs blob s m).descSize hle hne).2

/-- A map that has not outgrown the probe fits in the buffer. -/
theorem BootServicesOk.mapFill_fits (ok : BootServicesOk bs view)
    (hfill : (mapFill bs blob s m).status = efiSuccess) :
    (mapFill bs blob s m).mmapSize.toNat ≤
      (mmapPagesOf (mapProbe bs blob s m).mmapSize).toNat * 4096 := by
  have hprobe : (mapProbe bs blob s m).mmapSize.toNat = _ := ok.mapProbe_size
  have hroom := ok.map_fits (stackAlloc bs blob s m).fw
  calc (mapFill bs blob s m).mmapSize.toNat
      = (mapAtFill bs view blob s m).bytes.length := (ok.mapFill_filled hfill).1
    _ ≤ (mapAtProbe bs view blob s m).bytes.length := (ok.mapFill_status.mp hfill).2
    _ = (mapProbe bs blob s m).mmapSize.toNat := hprobe.symm
    _ ≤ _ := le_mmapPagesOf (hprobe.symm ▸ hroom)

/-- After a successful fill call, boot services are left exactly when the key is still that of the
map, and the firmware takes it. -/
theorem BootServicesOk.exitCall_status (ok : BootServicesOk bs view)
    (hfill : (mapFill bs blob s m).status = efiSuccess) :
    (exitCall bs blob s m).status = efiSuccess ↔
      (mapAtExit bs view blob s m).key = (mapAtFill bs view blob s m).key ∧
        (bs.exitBootServices (mapFill bs blob s m).fw (mapFill bs blob s m).mem
          (mapAtExit bs view blob s m).key).status = efiSuccess := by
  have hkey := (ok.mapFill_filled hfill).2.1
  constructor
  · intro hexit
    have hcurrent : (mapFill bs blob s m).mapKey = (mapAtExit bs view blob s m).key :=
      ok.stale _ _ _ hexit
    exact ⟨hcurrent ▸ hkey, hcurrent ▸ hexit⟩
  · rintro ⟨hcurrent, hexit⟩
    rw [hcurrent, ← hkey] at hexit
    exact hexit

/-- The buffer of a safe handoff does not lie at address `0`. -/
theorem SafeHandoff.buffer_ne (ok : BootServicesOk bs view) (hsafe : SafeHandoff bs view blob s m) :
    (bufferAlloc bs blob s m).memory ≠ 0 :=
  (ok.mapFill_status.mp hsafe.filled).1

end Contract

/-- **When the loader hands off safely.**  Against firmware that keeps its contract, the jump is
safe exactly when the firmware does what the loader never checks: it grants the three requests,
with the buffer elsewhere than at address `0`, it does not let the map grow behind the probe, and
it still takes the key of the fill call when boot services are left. -/
theorem efiMain_safeHandoff_iff {σ : Type} {bs : BootServices σ} {view : σ → MapView}
    (ok : BootServicesOk bs view) (blob : KernelBlob) (s : σ) (m : Memory) :
    SafeHandoff bs view blob s m ↔ ServedAsAssumed bs view blob s m := by
  constructor
  · intro hsafe
    obtain ⟨hne, hle⟩ := ok.mapFill_status.mp hsafe.filled
    obtain ⟨hkey, hexit⟩ := (ok.exitCall_status hsafe.filled).mp hsafe.exited
    exact ⟨hsafe.granted, hne, hle, hkey, hexit⟩
  · intro hserved
    have hfill : (mapFill bs blob s m).status = efiSuccess :=
      ok.mapFill_status.mpr ⟨hserved.buffer_ne, hserved.no_growth⟩
    obtain ⟨hused, hkey, hdesc, hholds⟩ := ok.mapFill_filled hfill
    have hexit := (ok.exitCall_status hfill).mpr ⟨hserved.key_kept, hserved.not_refused⟩
    exact ⟨hserved.granted, hfill, hholds, hexit, hkey, hused, hdesc, ok.mapFill_fits hfill⟩

/-! ## A simple firmware -/

/-- How a simple firmware answers: the address of the `n`-th request, and the
number of descriptors in the map after `n` requests. -/
structure Plan where
  address : Nat → UInt64
  address_ne : ∀ n, address n ≠ 0
  entries : Nat → Nat
  entries_pos : ∀ n, 0 < entries n
  entries_le : ∀ n, entries n ≤ 64

namespace Plan

variable (plan : Plan)

/-- The map after `n` requests: 48-byte descriptors, with a key of its own. -/
def view (n : Nat) : MapView :=
  ⟨List.replicate (48 * plan.entries n) 0, 48, UInt64.ofNat n⟩

/-- A firmware that grants every request. -/
def bootServices : BootServices Nat where
  allocatePages := fun n m _ _ _ _ => ⟨efiSuccess, plan.address n, m, n + 1⟩
  getMemoryMap := fun n m size buffer key _ =>
    let needed := UInt64.ofNat (plan.view n).bytes.length
    if size < needed ∨ buffer = 0 then
      ⟨0x8000000000000005, needed, key, 48, m, n⟩
    else
      ⟨efiSuccess, needed, (plan.view n).key, 48, m.writeBytes buffer (plan.view n).bytes, n⟩
  exitBootServices := fun n m key =>
    ⟨if key = (plan.view n).key then efiSuccess else 0x8000000000000002, m, n⟩

theorem length_view (n : Nat) : (plan.view n).bytes.length = 48 * plan.entries n :=
  List.length_replicate

/-- The simple firmware keeps the contract. -/
theorem bootServicesOk : BootServicesOk plan.bootServices plan.view := by
  have hneeded : ∀ n, (UInt64.ofNat (plan.view n).bytes.length).toNat =
      (plan.view n).bytes.length := by
    intro n
    have hle := plan.entries_le n
    rw [UInt64.toNat_ofNat', length_view]
    omega
  constructor
  · intro n
    have hpos := plan.entries_pos n
    rw [length_view]
    omega
  · intro n
    have hle := plan.entries_le n
    rw [length_view]
    omega
  · intro n m size key desc
    simp only [bootServices, or_true, if_true]
    decide
  · -- A buffer that is too small is only told the size it needs.
    intro n m size buffer key desc hlt
    have hsmall : size < UInt64.ofNat (plan.view n).bytes.length := by
      rw [UInt64.lt_iff_toNat_lt, hneeded]
      exact hlt
    simp only [bootServices, hsmall, true_or, if_true]
    exact ⟨by decide, hneeded n, trivial⟩
  · intro n m size buffer key desc hle hbuffer
    have hlarge : ¬ (size < UInt64.ofNat (plan.view n).bytes.length ∨ buffer = 0) := by
      rw [UInt64.lt_iff_toNat_lt, hneeded]
      exact not_or.mpr ⟨Nat.not_lt.mpr hle, hbuffer⟩
    have hlen : (plan.view n).bytes.length ≤ 2 ^ 64 := by
      have := plan.entries_le n
      rw [length_view]
      omega
    simp only [bootServices, hlarge, if_false]
    exact ⟨trivial, hneeded n, trivial, rfl, Memory.holdsBytes_writeBytes hlen⟩
  · intro n m key hexit
    simp only [bootServices] at hexit
    by_contra hstale
    rw [if_neg hstale] at hexit
    exact absurd hexit (by decide)

/-- The simple firmware grants every request. -/
theorem pagesGranted (blob : KernelBlob) (n : Nat) (m : Memory) :
    PagesGranted plan.bootServices blob n m :=
  ⟨rfl, rfl, rfl⟩

@[simp] theorem getMemoryMap_fw (n : Nat) (m : Memory) (size buffer key desc : UInt64) :
    (plan.bootServices.getMemoryMap n m size buffer key desc).fw = n := by
  simp only [bootServices]
  split <;> rfl

/-- The key of the map is taken. -/
theorem exitBootServices_key (n : Nat) (m : Memory) :
    (plan.bootServices.exitBootServices n m (plan.view n).key).status = efiSuccess := by
  simp only [bootServices, if_true]

@[simp] theorem getMemoryMap_mmapSize (n : Nat) (m : Memory) (size buffer key desc : UInt64) :
    (plan.bootServices.getMemoryMap n m size buffer key desc).mmapSize =
      UInt64.ofNat (plan.view n).bytes.length := by
  simp only [bootServices]
  split <;> rfl

/-- The buffer is the third request, made after the probe. -/
theorem mapAtProbe_eq (blob : KernelBlob) (n : Nat) (m : Memory) :
    mapAtProbe plan.bootServices plan.view blob n m = plan.view (n + 2) := rfl

theorem mapAtFill_eq (blob : KernelBlob) (n : Nat) (m : Memory) :
    mapAtFill plan.bootServices plan.view blob n m = plan.view (n + 3) := by
  have hprobe : (mapProbe plan.bootServices blob n m).fw = n + 2 := plan.getMemoryMap_fw ..
  show plan.view ((mapProbe plan.bootServices blob n m).fw + 1) = _
  rw [hprobe]

theorem bufferAlloc_memory (blob : KernelBlob) (n : Nat) (m : Memory) :
    (bufferAlloc plan.bootServices blob n m).memory = plan.address (n + 2) :=
  congrArg plan.address
    (show (mapProbe plan.bootServices blob n m).fw = n + 2 from plan.getMemoryMap_fw ..)

theorem mapFill_mmapSize_le (blob : KernelBlob) (n : Nat) (m : Memory) :
    (mapFill plan.bootServices blob n m).mmapSize.toNat ≤ 48 * 64 := by
  have hentries := plan.entries_le (bufferAlloc plan.bootServices blob n m).fw
  unfold mapFill
  rw [getMemoryMap_mmapSize, UInt64.toNat_ofNat', length_view]
  exact (Nat.mod_le _ _).trans (Nat.mul_le_mul_left 48 hentries)

/-- The fill call leaves the map alone. -/
theorem mapAtExit_eq (blob : KernelBlob) (n : Nat) (m : Memory) :
    mapAtExit plan.bootServices plan.view blob n m =
      mapAtFill plan.bootServices plan.view blob n m :=
  congrArg plan.view (plan.getMemoryMap_fw ..)

end Plan

/-- A kernel of one byte. -/
def oneByteKernel : KernelBlob := ⟨[0xf4], 1, rfl⟩

/-- Firmware that splits a free range on every request, which adds a descriptor. -/
def splittingPlan : Plan where
  address := fun n => 0x100000 * UInt64.ofNat (n % 4 + 1)
  address_ne := by
    intro n
    have hcases : n % 4 = 0 ∨ n % 4 = 1 ∨ n % 4 = 2 ∨ n % 4 = 3 := by omega
    rcases hcases with h | h | h | h <;> rw [h] <;> decide
  entries := fun n => min n 8 + 1
  entries_pos := fun _ => Nat.succ_pos _
  entries_le := fun n => by omega

/-- Firmware whose map keeps its size. -/
def steadyPlan : Plan :=
  { splittingPlan with
    entries := fun _ => 8
    entries_pos := fun _ => by decide
    entries_le := fun _ => by decide }

/-- Against the steady firmware the handoff is safe. -/
theorem efiMain_safeHandoff_steady :
    SafeHandoff steadyPlan.bootServices steadyPlan.view oneByteKernel 0 fun _ => 0 := by
  refine (efiMain_safeHandoff_iff steadyPlan.bootServicesOk oneByteKernel 0 fun _ => 0).mpr
    ⟨steadyPlan.pagesGranted .., steadyPlan.address_ne _, ?_, ?_, ?_⟩
  · rw [Plan.mapAtFill_eq, Plan.mapAtProbe_eq, Plan.length_view, Plan.length_view]
    exact le_refl _
  · rw [Plan.mapAtExit_eq]
  · exact steadyPlan.exitBootServices_key _ _

/-- The handoff is not always safe: when the request for the buffer adds a
descriptor, the map no longer fits the probed size, and the loader jumps with
an empty buffer. -/
theorem not_efiMain_safeHandoff : ¬ ∀ (σ : Type) (bs : BootServices σ) (view : σ → MapView)
    (blob : KernelBlob) (s : σ) (m : Memory), BootServicesOk bs view →
    SafeHandoff bs view blob s m := by
  intro hall
  have hsafe := hall Nat splittingPlan.bootServices splittingPlan.view oneByteKernel 0
    (fun _ => 0) splittingPlan.bootServicesOk
  obtain ⟨-, hle⟩ := splittingPlan.bootServicesOk.mapFill_status.mp hsafe.filled
  rw [Plan.mapAtFill_eq, Plan.mapAtProbe_eq, Plan.length_view, Plan.length_view] at hle
  exact absurd hle (by decide)

/-! ## The stack of the kernel -/

/-- The kernel starts at the top of the stack it was given, and its pushes stay
inside the range that Stage 1 maps and protects. -/
structure StackHandoff (jump : Jump) : Prop where
  aligned : jump.rsp.toNat % 16 = 0
  top : jump.rsp.toNat = jump.handover.stackPhys.toNat + 4 * 4096
  range_end : jump.rsp = jump.handover.stackEnd
  pushes : ∀ n, 0 < n → n ≤ 2048 →
    Kernel.InStackRange jump.handover (jump.rsp - 8 * UInt64.ofNat n).toNat

/-- The mask keeps bits 31:4 only. -/
theorem toNat_and_stackTopMask (x : UInt64) :
    (x &&& stackTopMask).toNat = x.toNat % 2 ^ 32 / 16 * 16 := by
  rw [UInt64.toNat_and]
  show _ &&& (2 ^ 32 - 2 ^ 4) = _
  exact nat_and_fieldMask x.toNat 4 32 (by omega)

/-- The installed stack pointer, for a page-aligned stack. -/
theorem toNat_stackTopOf {stackPhys : UInt64} (haligned : stackPhys.toNat % 4096 = 0)
    (hbelow : stackPhys.toNat < 2 ^ 47) :
    (stackTopOf stackPhys).toNat = (stackPhys.toNat + 4 * 4096) % 2 ^ 32 := by
  have hsize : (Kernel.stackPages * 4096).toNat = 4 * 4096 := rfl
  unfold stackTopOf
  rw [toNat_and_stackTopMask, toNat_add_of_lt (by omega), hsize]
  omega

/-- **When the kernel starts on its own stack.**  For a page-aligned stack below
`2 ^ 47`, exactly when the stack ends below 4 GiB: the mask clears the high half
of every other stack pointer. -/
theorem efiMain_stackHandoff_iff {σ : Type} (bs : BootServices σ) (blob : KernelBlob) (s : σ)
    (m : Memory) (haligned : (stackAlloc bs blob s m).memory.toNat % 4096 = 0)
    (hbelow : (stackAlloc bs blob s m).memory.toNat < 2 ^ 47) :
    StackHandoff (efiMain bs blob s m) ↔
      (stackAlloc bs blob s m).memory.toNat + 4 * 4096 < 2 ^ 32 := by
  have hrsp := toNat_stackTopOf haligned hbelow
  have hphys : (efiMain bs blob s m).handover.stackPhys = (stackAlloc bs blob s m).memory := rfl
  have hstack : (efiMain bs blob s m).rsp = stackTopOf (stackAlloc bs blob s m).memory := rfl
  constructor
  · intro hsafe
    have htop := hsafe.top
    rw [hstack, hphys, hrsp] at htop
    omega
  · intro hlow
    have hend : (efiMain bs blob s m).handover.stackEnd.toNat =
        (stackAlloc bs blob s m).memory.toNat + 4 * 4096 := by
      have hsize : Kernel.Handover.stackSizeBytes.toNat = 4 * 4096 := rfl
      unfold Kernel.Handover.stackEnd
      rw [hphys, toNat_add_of_lt (by omega), hsize]
    refine ⟨?_, ?_, ?_, ?_⟩
    · rw [hstack, hrsp]
      omega
    · rw [hstack, hphys, hrsp]
      omega
    · apply UInt64.toNat_inj.mp
      rw [hstack, hrsp, hend]
      omega
    · intro n hpos hn
      -- The lowest of 2048 pushes is the first word of the range.
      have height : (8 : UInt64).toNat = 8 := rfl
      have hslot : (stackTopOf (stackAlloc bs blob s m).memory - 8 * UInt64.ofNat n).toNat =
          (stackAlloc bs blob s m).memory.toNat + 4 * 4096 - 8 * n := by
        rw [UInt64.toNat_sub, UInt64.toNat_mul, UInt64.toNat_ofNat', height, hrsp]
        omega
      unfold Kernel.InStackRange
      rw [hstack, hphys, hslot]
      omega

/-- Firmware that serves the stack from above 4 GiB. -/
def highPlan : Plan :=
  { steadyPlan with
    address := fun n => if n = 1 then 0x100000000 else 0x100000
    address_ne := fun n => by split <;> decide }

theorem efiMain_stackHandoff_steady :
    StackHandoff (efiMain steadyPlan.bootServices oneByteKernel 0 fun _ => 0) :=
  (efiMain_stackHandoff_iff steadyPlan.bootServices oneByteKernel 0 (fun _ => 0) (by decide)
    (by decide)).mpr (by decide)

/-- The kernel does not always start on its own stack: for a stack at 4 GiB the
installed stack pointer is `0x4000`. -/
theorem not_efiMain_stackHandoff : ¬ ∀ (σ : Type) (bs : BootServices σ) (blob : KernelBlob)
    (s : σ) (m : Memory), (stackAlloc bs blob s m).memory.toNat % 4096 = 0 →
    (stackAlloc bs blob s m).memory.toNat < 2 ^ 47 → StackHandoff (efiMain bs blob s m) := by
  intro hall
  have hsafe := hall Nat highPlan.bootServices oneByteKernel 0 (fun _ => 0) (by decide) (by decide)
  have hrsp : (efiMain highPlan.bootServices oneByteKernel 0 fun _ => 0).rsp = 0x4000 := rfl
  have hphys : (efiMain highPlan.bootServices oneByteKernel 0 fun _ => 0).handover.stackPhys =
      0x100000000 := rfl
  have htop := hsafe.top
  rw [hrsp, hphys] at htop
  exact absurd htop (by decide)

end Loader
end OsBook
