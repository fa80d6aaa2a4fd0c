import OsBook.Loader.EfiMain

/-!
# The copy of the kernel at the jump

`efi_main` copies the kernel before it makes its other requests.  A firmware
leaves the pages that it has granted alone (`KeepsPages`), and only the map goes
to the buffer, so the copy is still there when the kernel is entered
(`efiMain_holdsBytes`).
-/

namespace OsBook
namespace Loader

open Machine

/-- What UEFI promises about the pages that a request has been granted: no later service changes
them, except that `GetMemoryMap` fills the buffer that it is given. -/
structure KeepsPages {σ : Type} (bs : BootServices σ) (owned : σ → UInt64 → Prop) : Prop where
  granted : ∀ s m type kind pages memory x,
    (bs.allocatePages s m type kind pages memory).status = efiSuccess →
      InBlock (bs.allocatePages s m type kind pages memory).memory (pages.toNat * 4096) x →
        owned (bs.allocatePages s m type kind pages memory).fw x
  allocate : ∀ s m type kind pages memory x, owned s x →
    owned (bs.allocatePages s m type kind pages memory).fw x ∧
      (bs.allocatePages s m type kind pages memory).mem x = m x
  map : ∀ s m size buffer key desc x, owned s x →
    owned (bs.getMemoryMap s m size buffer key desc).fw x ∧
      ((bs.getMemoryMap s m size buffer key desc).mem x = m x ∨
        (bs.getMemoryMap s m size buffer key desc).status = efiSuccess ∧
          InBlock buffer (bs.getMemoryMap s m size buffer key desc).mmapSize.toNat x)
  exit : ∀ s m key x, owned s x → (bs.exitBootServices s m key).mem x = m x

/-- The simple firmware writes to the buffers that it is given and nowhere else. -/
theorem Plan.keepsPages (plan : Plan) : KeepsPages plan.bootServices fun _ _ => True where
  granted := fun _ _ _ _ _ _ _ _ _ => trivial
  allocate := fun _ _ _ _ _ _ _ _ => ⟨trivial, rfl⟩
  map := by
    intro n m size buffer key desc x _
    have hentries := plan.entries_le n
    have hlength := plan.length_view n
    refine ⟨trivial, ?_⟩
    simp only [Plan.bootServices]
    split
    · exact Or.inl rfl
    · by_cases hin : InBlock buffer (plan.view n).bytes.length x
      · right
        refine ⟨rfl, ?_⟩
        rwa [UInt64.toNat_ofNat', Nat.mod_eq_of_lt (by omega)]
      · exact Or.inl (Memory.writeBytes_of_not_inBlock (by omega) hin)
  exit := fun _ _ _ _ _ => rfl

section Copy

variable {σ : Type} {bs : BootServices σ} {view : σ → MapView} {owned : σ → UInt64 → Prop}
  {blob : KernelBlob} {s : σ} {m : Memory}

/-- The loop has left the blob in the pages of the kernel. -/
theorem kernelCopied_holdsBytes (bs : BootServices σ) (blob : KernelBlob) (s : σ) (m : Memory) :
    (kernelCopied bs blob s m).HoldsBytes (efiMain bs blob s m).handover.kernelPhys blob.bytes := by
  have hlen := blob.len_eq
  have hlt := blob.len.toNat_lt
  rw [kernelCopied_eq]
  exact Memory.holdsBytes_writeBytes (by omega)

/-- Once granted, a byte outside the map stays as it is up to the jump. -/
theorem efiMain_keeps (ok : BootServicesOk bs view) (hkeeps : KeepsPages bs owned) {x : UInt64}
    (howned : owned (kernelAlloc bs blob s m).fw x)
    (hapart : ¬ InBlock (efiMain bs blob s m).handover.mmapPhys
      (efiMain bs blob s m).handover.mmapSizeUsed.toNat x) :
    (efiMain bs blob s m).mem x = kernelCopied bs blob s m x := by
  obtain ⟨hstack, hstackMem⟩ := hkeeps.allocate (kernelAlloc bs blob s m).fw
    (kernelCopied bs blob s m) anyPages loaderData Kernel.stackPages 0 x howned
  obtain ⟨hprobe, hprobeMem⟩ : owned (mapProbe bs blob s m).fw x ∧
      (mapProbe bs blob s m).mem x = (stackAlloc bs blob s m).mem x := by
    obtain ⟨howned, hsame | ⟨hstatus, -⟩⟩ := hkeeps.map (stackAlloc bs blob s m).fw
      (stackAlloc bs blob s m).mem 0 0 0 0 x hstack
    · exact ⟨howned, hsame⟩
    · -- The probe has no buffer.
      exact absurd hstatus (ok.null _ _ 0 0 0)
  obtain ⟨hbuffer, hbufferMem⟩ := hkeeps.allocate (mapProbe bs blob s m).fw
    (mapProbe bs blob s m).mem anyPages loaderData
    (mmapPagesOf (mapProbe bs blob s m).mmapSize) 0 x hprobe
  obtain ⟨hfill, hfillMem⟩ : owned (mapFill bs blob s m).fw x ∧
      (mapFill bs blob s m).mem x = (bufferAlloc bs blob s m).mem x := by
    obtain ⟨howned, hsame | ⟨-, hin⟩⟩ := hkeeps.map (bufferAlloc bs blob s m).fw
      (bufferAlloc bs blob s m).mem (mapProbe bs blob s m).mmapSize
      (bufferAlloc bs blob s m).memory (mapProbe bs blob s m).mapKey
      (mapProbe bs blob s m).descSize x hbuffer
    · exact ⟨howned, hsame⟩
    · exact absurd hin hapart
  calc (efiMain bs blob s m).mem x
      = (mapFill bs blob s m).mem x := hkeeps.exit _ _ _ x hfill
    _ = (bufferAlloc bs blob s m).mem x := hfillMem
    _ = (mapProbe bs blob s m).mem x := hbufferMem
    _ = (stackAlloc bs blob s m).mem x := hprobeMem
    _ = kernelCopied bs blob s m x := hstackMem

/-- **The copy of the kernel is still there at the jump**, when its pages were granted and the
buffer lies apart from it. -/
theorem efiMain_holdsBytes (ok : BootServicesOk bs view) (hkeeps : KeepsPages bs owned)
    (hgranted : (kernelAlloc bs blob s m).status = efiSuccess)
    (hfits : blob.bytes.length ≤ (kernelPagesOf blob).toNat * 4096)
    (hapart : ∀ x, InBlock (efiMain bs blob s m).handover.kernelPhys blob.bytes.length x →
      ¬ InBlock (efiMain bs blob s m).handover.mmapPhys
        (efiMain bs blob s m).handover.mmapSizeUsed.toNat x) :
    (efiMain bs blob s m).mem.HoldsBytes (efiMain bs blob s m).handover.kernelPhys blob.bytes := by
  intro i hi
  have hlen := blob.len_eq
  have hlt := blob.len.toNat_lt
  have hcopy := kernelCopied_holdsBytes bs blob s m i hi
  have hin : InBlock (efiMain bs blob s m).handover.kernelPhys blob.bytes.length
      ((efiMain bs blob s m).handover.kernelPhys + UInt64.ofNat i) := inBlock_add hi (by omega)
  rw [efiMain_keeps ok hkeeps ?_ (hapart _ hin), hcopy]
  refine hkeeps.granted _ _ _ _ _ _ _ hgranted ?_
  exact hin.mono hfits

end Copy

end Loader
end OsBook
