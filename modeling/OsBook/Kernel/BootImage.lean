import OsBook.Build.KernelImage
import OsBook.Kernel.BootMemory

/-!
# The kernel image in memory

The raw file of the build becomes an array of the loader, the loader copies it
to the pages that it has been granted, and the firmware leaves granted pages
alone (`Loader.KeepsPages`).  The kernel then writes to its descriptor table and to
its two tick counters (`Rewritten`), and to nothing else of its image.  So in
every reachable state the rest of the image is, byte for byte, what the build has
put into the file: the kernel never writes its own code (`boot_image`).
-/

namespace OsBook

namespace Kernel

open Machine Memory

/-- The bytes of the image that the kernel writes: those of `g_idt`, and those of the two tick
counters, which the machine keeps beside memory. -/
def LoadedKernel.Rewritten (k : LoadedKernel) (i : Nat) : Prop :=
  (k.gIdt.toNat ≤ i ∧ i < k.gIdt.toNat + sizeofIdt) ∨
    ∃ t, (k.irqCount t).toNat ≤ i ∧ i < (k.irqCount t).toNat + 8

section Boot

variable {σ : Type} {bs : Loader.BootServices σ} {view : σ → Loader.MapView}
  {blob : Loader.KernelBlob} {s₀ : σ} {m₀ : Memory} {k : LoadedKernel} {owned : σ → UInt64 → Prop}

/-- The blob lies in the pages of the kernel. -/
theorem Supported.image (h : Supported bs view blob s₀ m₀) {i : Nat} (hi : i < blob.bytes.length) :
    ((Loader.efiMain bs blob s₀ m₀).handover.kernelPhys + UInt64.ofNat i).toNat =
        (Loader.efiMain bs blob s₀ m₀).handover.kernelPhys.toNat + i ∧
      InKernelImage (Loader.efiMain bs blob s₀ m₀).handover
        ((Loader.efiMain bs blob s₀ m₀).handover.kernelPhys + UInt64.ofNat i).toNat := by
  have hblob : blob.bytes.length ≤
      (Loader.efiMain bs blob s₀ m₀).handover.kernelPages.toNat * 4096 :=
    (kernelPagesOf_spec blob).1
  have hbelow := h.pages.kernel_below
  have hoffset : (UInt64.ofNat i).toNat = i := by
    rw [UInt64.toNat_ofNat']
    exact Nat.mod_eq_of_lt (by omega)
  have hsum : ((Loader.efiMain bs blob s₀ m₀).handover.kernelPhys + UInt64.ofNat i).toNat =
      (Loader.efiMain bs blob s₀ m₀).handover.kernelPhys.toNat + i := by
    rw [toNat_add_of_lt (by omega), hoffset]
  refine ⟨hsum, ?_⟩
  rw [hsum]
  exact ⟨by omega, by omega⟩

/-- The copy of the kernel is still there at the jump. -/
theorem Supported.holdsBytes (h : Supported bs view blob s₀ m₀)
    (hkeeps : Loader.KeepsPages bs owned) :
    (Loader.efiMain bs blob s₀ m₀).mem.HoldsBytes
      (Loader.efiMain bs blob s₀ m₀).handover.kernelPhys blob.bytes := by
  have hbelow := h.pages.kernel_below
  have hblob : blob.bytes.length ≤
      (Loader.efiMain bs blob s₀ m₀).handover.kernelPages.toNat * 4096 :=
    (kernelPagesOf_spec blob).1
  refine Loader.efiMain_holdsBytes h.services hkeeps h.handoff.granted.kernel hblob ?_
  intro x hkernel hmap
  -- The buffer lies apart from the kernel.
  have hused := h.loaderHandover.used_le
  have hend := h.pages.mmap_below
  unfold mmapBufferPages at hend
  rw [inBlock_iff (by omega)] at hkernel hmap
  have himage : InKernelImage (Loader.efiMain bs blob s₀ m₀).handover x.toNat :=
    ⟨hkernel.1, by omega⟩
  exact h.pages.kernel_buffer _ himage (h.loaderHandover.mmap_inBuffer hmap)

/-- The array of the loader is the padded file. -/
theorem bytes_of_build {elf raw : Fat.Bytes} {memsz room : Nat} {rawPath : String}
    (helf : Build.SingleLoad elf memsz) (hpos : 0 < memsz) (hraw : raw.length ≤ memsz)
    (hexit : (Build.padKernelRaw room rawPath elf raw).exit = .ok ())
    (hblob : Cxx.readFile (Build.genKernelBlob (Build.padKernelRaw room rawPath elf raw).raw) =
      some [.bytes "kernel_blob".toList blob.bytes, .ulong "kernel_blob_len".toList blob.len]) :
    blob.bytes = raw ++ Fat.zeros (memsz - raw.length) ∧ blob.bytes.length = memsz := by
  have hlength : (raw ++ Fat.zeros (memsz - raw.length)).length = memsz := by
    rw [List.length_append, Fat.length_zeros]
    omega
  rw [helf.raw_of_exit hpos hraw hexit, Build.readFile_genKernelBlob
    (List.ne_nil_of_length_pos (hlength.symm ▸ hpos))] at hblob
  obtain ⟨hfirst, -⟩ := List.cons.inj (Option.some.inj hblob)
  have hbytes := (Cxx.Definition.bytes.inj hfirst).2.symm
  exact ⟨hbytes, hbytes ▸ hlength⟩

/-- **The kernel never writes its own code.**  Whatever ELF file of one segment and raw file the
image was built from: on a supported machine, in every reachable state behind the `CR3` load that
has not left the kernel, every byte of the image outside `g_idt` and the two tick counters is that
of the raw file, and zero behind its end. -/
theorem boot_image {elf raw : Fat.Bytes} {memsz room : Nat} {rawPath : String}
    (helf : Build.SingleLoad elf memsz) (hpos : 0 < memsz) (hraw : raw.length ≤ memsz)
    (hexit : (Build.padKernelRaw room rawPath elf raw).exit = .ok ())
    (hblob : Cxx.readFile (Build.genKernelBlob (Build.padKernelRaw room rawPath elf raw).raw) =
      some [.bytes "kernel_blob".toList blob.bytes, .ulong "kernel_blob_len".toList blob.len])
    (h : Supported bs view blob s₀ m₀) (hkeeps : Loader.KeepsPages bs owned)
    (hk : k.EnteredBy blob (Loader.efiMain bs blob s₀ m₀)) (fw : Firmware)
    {events : List EntryEvent} {s : EntryState}
    (hrun : runs (bootStep k fw (Loader.efiMain bs blob s₀ m₀).mem) events (bootStart fw) =
      some (.entry s))
    (hinside : s.crashed = false) {i : Nat} (hi : i < memsz)
    (hconst : ¬ k.Rewritten i) :
    s.mem (k.kernelPhys + UInt64.ofNat i) = raw.getD i 0 := by
  obtain ⟨hbytes, hlength⟩ := bytes_of_build helf hpos hraw hexit hblob
  have hib : i < blob.bytes.length := hlength.symm ▸ hi
  obtain ⟨hsum, himage⟩ := h.image hib
  have hholds := h.holdsBytes hkeeps i hib
  have hstack := h.pages.kernel_stack _ himage
  have hbuffer := h.pages.kernel_buffer _ himage
  have hbelow := h.pages.kernel_below
  rw [← hk.handover] at hsum himage hholds hstack hbuffer hbelow
  have hidt := (hk.ok h).gIdt_fits
  have hunwritten : Unwritten k (k.kernelPhys + UInt64.ofNat i) := by
    refine ⟨fun hin => ?_, hstack⟩
    have hbase : k.idt.toNat = k.kernelPhys.toNat + k.gIdt.toNat :=
      toNat_add_of_lt (by omega)
    rw [inBlock_iff (by omega)] at hin
    exact hconst (Or.inl (by omega))
  rw [boot_unwritten h hk fw hrun hinside hunwritten hbuffer, hholds,
    ← Build.getElem_append_zeros raw (memsz - raw.length) (hbytes ▸ hib)]
  simp only [hbytes]

end Boot

/-! ## A small image -/

/-- The header of an image with one segment of two pages. -/
def smallElf : Fat.Bytes :=
  [0x7f, 0x45, 0x4c, 0x46, 2, 1, 1] ++ Fat.zeros 9 ++ Fat.u16 2 ++ Fat.u16 0x3e ++ Fat.u32 1 ++
    Fat.zeros 8 ++ (Fat.u32 64 ++ Fat.u32 0) ++ Fat.zeros 8 ++ Fat.u32 0 ++ Fat.u16 64 ++
    Fat.u16 56 ++ Fat.u16 1 ++ Fat.zeros 6 ++
    (Fat.u32 1 ++ Fat.u32 7 ++ Fat.zeros 8 ++ Fat.zeros 8 ++ Fat.zeros 8 ++
      (Fat.u32 1 ++ Fat.u32 0) ++ (Fat.u32 0x2000 ++ Fat.u32 0) ++ (Fat.u32 0x1000 ++ Fat.u32 0))

theorem smallElf_singleLoad : Build.SingleLoad smallElf 0x2000 where
  elf64 := by constructor <;> decide
  load := by
    have hcount : Build.phnum smallElf = 1 := by decide
    refine ⟨0, by decide, by decide, fun j hj _ => ?_⟩
    omega

/-- A raw file of one byte is padded to the blob of two pages. -/
theorem smallBlob_padded :
    Build.padKernelRaw 0x2000 "kernel.raw" smallElf [0] = ⟨.ok (), smallBlob.bytes⟩ :=
  smallElf_singleLoad.padKernelRaw (by decide) (by decide)
    (show List.length [0] ≤ 0x2000 by decide) le_rfl _

theorem smallBlob_built :
    Cxx.readFile (Build.genKernelBlob (Build.padKernelRaw 0x2000 "kernel.raw" smallElf [0]).raw) =
      some [.bytes "kernel_blob".toList smallBlob.bytes,
        .ulong "kernel_blob_len".toList smallBlob.len] := by
  have hlength : smallBlob.bytes.length = 0x2000 := List.length_replicate
  have hne : smallBlob.bytes ≠ [] := List.ne_nil_of_length_pos (by rw [hlength]; decide)
  rw [smallBlob_padded, Build.readFile_genKernelBlob hne, hlength]
  rfl

theorem not_rewritten_zero : ¬ bootedKernel.Rewritten 0 := by
  rintro (⟨hle, -⟩ | ⟨t, hle, -⟩)
  · exact absurd hle (by decide)
  · cases t <;> exact absurd hle (by decide)

/-- On the small machine the first byte of the image stays what it was. -/
theorem boot_image_small :
    ∃ s, Reaches (bootStep bootedKernel idleFirmware smallJump.mem) (bootStart idleFirmware)
        (.entry s) ∧ s.mem 0x100000 = 0 := by
  obtain ⟨P, (hbuild : buildPaging bootedKernel.toHandover smallJump.mem = .ok P)⟩ :=
    small_supported.exists_buildPaging
  obtain ⟨hw, events, hrun⟩ := @reaches_entered _ idleFirmware _ _ hbuild
  have hfirst := boot_image smallElf_singleLoad (by decide) (show List.length [0] ≤ 0x2000 by decide)
    (congrArg Build.PadOutcome.exit smallBlob_padded) smallBlob_built small_supported
    Loader.steadyPlan.keepsPages bootedKernel_enteredBy idleFirmware hrun rfl
    (show 0 < 0x2000 by decide) not_rewritten_zero
  have hbase : bootedKernel.kernelPhys = 0x100000 :=
    congrArg Handover.kernelPhys smallJump_handover
  rw [hbase] at hfirst
  exact ⟨_, ⟨events, hrun⟩, hfirst⟩

end Kernel
end OsBook
