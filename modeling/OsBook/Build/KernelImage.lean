import OsBook.Build.PadKernelRaw
import OsBook.Cxx.Reader
import OsBook.Kernel.PagingBuilder
import OsBook.Loader.KernelCopy

/-!
# From the linked kernel to the memory the loader fills

The padded image becomes a C++ table (`gen_kernel_blob.py`), the compiler reads
the table back as an array and a length, and `efi_main` copies the array byte by
byte to the pages it has requested.  Each of the programs computes a length of
its own; `kernelImage_fidelity` says that all of them are the size of the
segment, so that nothing is lost between the linker and memory.
-/

namespace OsBook
namespace Build

open Fat Machine

/-! ## The generated table -/

/-- An upper-case hexadecimal digit. -/
def upperHex (n : Nat) : Char := if n < 10 then Char.ofNat (48 + n) else Char.ofNat (55 + n)

/-- `f"0x{b:02X}"`. -/
def byteLiteral (b : UInt8) : List Char :=
  ['0', 'x', upperHex (b.toNat / 16), upperHex (b.toNat % 16)]

/-- The text written for the `i`-th byte. -/
def writeByte (i : Nat) (b : UInt8) : List Char :=
  (if i % 16 = 0 then "    ".toList else []) ++ byteLiteral b ++ ", ".toList ++
    (if i % 16 = 15 then "\n".toList else [])

/-- The loop of the script, from index `i`. -/
def writeFrom : Nat → Bytes → List Char
  | _, [] => []
  | i, b :: data => writeByte i b ++ writeFrom (i + 1) data

/-- The text `gen_kernel_blob.py` writes for a raw file. -/
def genKernelBlob (data : Bytes) : List Char :=
  "// generated kernel_blob.inc\n".toList ++
    ("static const unsigned char kernel_blob[] = \x7b\n".toList ++
      (writeFrom 0 data ++ ("\n\x7d;\n".toList ++
        ("static const unsigned long kernel_blob_len = ".toList ++
          ((Nat.repr data.length).toList ++ ";\n".toList)))))

open Cxx

/-- The nibbles of a byte, as characters of a literal. -/
theorem upperHex_spec {n : Nat} (hn : n < 16) :
    isWordChar (upperHex n) = true ∧ digitValue (upperHex n) = n := by
  have hall : ∀ n, n < 16 → isWordChar (upperHex n) = true ∧ digitValue (upperHex n) = n := by
    decide
  exact hall n hn

/-- **A byte reads back from its literal.** -/
theorem readByte_byteLiteral (b : UInt8) : readByte (byteLiteral b) = some b := by
  have hb := b.toNat_lt
  obtain ⟨-, hhigh⟩ := upperHex_spec (n := b.toNat / 16) (by omega)
  obtain ⟨-, hlow⟩ := upperHex_spec (n := b.toNat % 16) (by omega)
  have hvalue : literalValue (byteLiteral b) = some b.toNat := by
    simp only [byteLiteral, literalValue, readDigits, hhigh, hlow]
    rw [if_pos (by omega), if_pos (by omega)]
    congr 1
    omega
  simp only [readByte, hvalue, Option.bind_eq_bind, Option.bind_some, hb, if_true]
  exact congrArg some (UInt8.ofNat_toNat)

/-- The tokens of one byte of the table. -/
theorem lexRun_writeByte (i : Nat) (b : UInt8) :
    lexRun .blank (writeByte i b) = ([.word (byteLiteral b), .punct ','], .blank) := by
  have hb := b.toNat_lt
  obtain ⟨hhigh, -⟩ := upperHex_spec (n := b.toNat / 16) (by omega)
  obtain ⟨hlow, -⟩ := upperHex_spec (n := b.toNat % 16) (by omega)
  have hindent : lexRun .blank (if i % 16 = 0 then "    ".toList else []) = ([], .blank) := by
    split
    · decide
    · rfl
  have hbreak : lexRun .blank (if i % 16 = 15 then "\n".toList else []) = ([], .blank) := by
    split
    · decide
    · rfl
  have hzero : isWordChar '0' = true ∧ isWordChar 'x' = true := by decide
  have hliteral : lexRun .blank (byteLiteral b) = ([], .word (byteLiteral b)) :=
    lexRun_blank_word (by simp [byteLiteral, hzero, hhigh, hlow]) (by simp [byteLiteral])
  have hcomma : lexRun (.word (byteLiteral b)) ", ".toList =
      ([.word (byteLiteral b), .punct ','], .blank) := rfl
  unfold writeByte
  simp only [lexRun_append, hindent, hliteral, hcomma, hbreak, List.nil_append, List.append_nil]

/-- The tokens of the whole table, whatever its line breaks. -/
theorem lexRun_writeFrom (i : Nat) (data : Bytes) :
    lexRun .blank (writeFrom i data) = (elementTokens (data.map byteLiteral), .blank) := by
  induction data generalizing i with
  | nil => rfl
  | cons b data ih =>
      rw [writeFrom, lexRun_append, lexRun_writeByte]
      simp only [ih, elementTokens, List.map_cons, List.flatMap_cons]

/-- A decimal number is one word. -/
theorem lexRun_repr (n : Nat) :
    lexRun .blank (Nat.repr n).toList = ([], .word (Nat.toDigits 10 n)) := by
  rw [Nat.toList_repr]
  refine lexRun_blank_word (fun c hc => ?_) Nat.toDigits_ne_nil
  have hdigit := Nat.isDigit_of_mem_toDigits (by decide) (by decide) hc
  simp [isWordChar, Char.isAlphanum, hdigit]

/-- The tokens in front of the elements. -/
def arrayTokens : List Token :=
  staticConstUnsigned ++ [.word "char".toList, .word "kernel_blob".toList, .punct '[', .punct ']',
    .punct '=', .punct '{']

/-- The tokens of the second definition. -/
def lengthTokens (n : Nat) : List Token :=
  staticConstUnsigned ++ [.word "long".toList, .word "kernel_blob_len".toList, .punct '=',
    .word (Nat.toDigits 10 n), .punct ';']

theorem lex_genKernelBlob (data : Bytes) :
    lex (genKernelBlob data) = arrayTokens ++ (elementTokens (data.map byteLiteral) ++
      .punct '}' :: .punct ';' :: lengthTokens data.length) := by
  have hcomment : lexRun .blank "// generated kernel_blob.inc\n".toList = ([], .blank) := by decide
  have harray : lexRun .blank "static const unsigned char kernel_blob[] = \x7b\n".toList =
      (arrayTokens, .blank) := by decide
  have hclose : lexRun .blank "\n\x7d;\n".toList = ([.punct '}', .punct ';'], .blank) := by decide
  have hlen : lexRun .blank "static const unsigned long kernel_blob_len = ".toList =
      (staticConstUnsigned ++ [.word "long".toList, .word "kernel_blob_len".toList, .punct '='],
        .blank) := by decide
  have hend : ∀ text, lexRun (.word text) ";\n".toList = ([.word text, .punct ';'], .blank) :=
    fun _ => rfl
  unfold lex genKernelBlob
  simp only [lexRun_append, hcomment, harray, lexRun_writeFrom, hclose, hlen, lexRun_repr, hend,
    lexClose, List.append_nil, List.nil_append]
  rfl

/-- **The generated text defines exactly the array and its length.** -/
theorem readFile_genKernelBlob {data : Bytes} (hne : data ≠ []) :
    Cxx.readFile (genKernelBlob data) =
      some [.bytes "kernel_blob".toList data,
        .ulong "kernel_blob_len".toList (UInt32.ofNat data.length)] := by
  have hbytes : (data.map byteLiteral).map readByte = data.map some := by
    rw [List.map_map]
    exact List.map_congr_left fun b _ => readByte_byteLiteral b
  have helements := readElements_elementTokens hbytes
    (.punct ';' :: lengthTokens data.length)
  have hlength : literalValue (Nat.toDigits 10 data.length) = some data.length :=
    literalValue_toDigits (List.length_pos_iff.mpr hne)
  have hfirst : readDefinition (arrayTokens ++ (elementTokens (data.map byteLiteral) ++
      .punct '}' :: .punct ';' :: lengthTokens data.length)) =
        some (.bytes "kernel_blob".toList data, lengthTokens data.length) := by
    simp only [arrayTokens, staticConstUnsigned, List.cons_append, List.nil_append, readDefinition,
      ne_eq, not_true_eq_false, if_false, if_true, helements, Option.bind_eq_bind,
      Option.bind_some, hne]
  have hsecond : readDefinition (lengthTokens data.length) =
      some (.ulong "kernel_blob_len".toList (UInt32.ofNat data.length), []) := by
    have htype : "long".toList ≠ "char".toList := by decide
    simp only [lengthTokens, staticConstUnsigned, List.cons_append, List.nil_append, readDefinition,
      ne_eq, not_true_eq_false, if_false, if_true, htype, hlength, Option.bind_eq_bind,
      Option.bind_some]
  have hfuel : 2 ≤ (lex (genKernelBlob data)).length := by
    rw [lex_genKernelBlob, List.length_append, arrayTokens]
    exact Nat.le_add_right_of_le (by decide)
  obtain ⟨fuel, hfuel⟩ := Nat.exists_eq_add_of_le' hfuel
  unfold Cxx.readFile
  rw [hfuel, lex_genKernelBlob]
  exact readDefinitions_step hfirst (readDefinitions_step hsecond (by cases fuel <;> rfl))

/-! ## The pages of the loader -/

/-- The pages of a nonempty blob. -/
theorem toNat_kernelPagesOf {blob : Loader.KernelBlob} (hpos : 0 < blob.len.toNat) :
    (Loader.kernelPagesOf blob).toNat = (blob.len.toNat + 4095) / 4096 := by
  have hlt := blob.len.toNat_lt
  have hceil : ((blob.len.toUInt64 + 4095) / 4096).toNat = (blob.len.toNat + 4095) / 4096 := by
    have hpage : (4096 : UInt64).toNat = 4096 := rfl
    have hround : (4095 : UInt64).toNat = 4095 := rfl
    rw [UInt64.toNat_div, UInt64.toNat_add, UInt32.toNat_toUInt64, hpage, hround]
    omega
  have hne : (blob.len.toUInt64 + 4095) / 4096 ≠ 0 := by
    rw [Ne, eq_zero_iff_toNat, hceil]
    omega
  unfold Loader.kernelPagesOf
  simp only [hne, if_false, hceil]

/-! ## The whole chain -/

/-- The bytes of a padded file: the raw ones, then zeros. -/
theorem getElem_append_zeros (raw : Bytes) (k : Nat) {i : Nat} (hi : i < (raw ++ zeros k).length) :
    (raw ++ zeros k)[i] = raw.getD i 0 := by
  rw [List.getElem_append, List.getD_eq_getElem?_getD]
  split
  · rename_i hlt
    rw [List.getElem?_eq_getElem hlt]
    rfl
  · rename_i hge
    rw [List.getElem?_eq_none (Nat.le_of_not_lt hge)]
    exact List.getElem_replicate ..

/-- The call of Stage 1 that maps the page of offset `i` of the kernel image. -/
def imageCall (h : Kernel.Handover) (i : Nat) : Kernel.MapCall :=
  ⟨h.kernelPhys + UInt64.ofNat (i / 4096) * Kernel.pageSize,
    h.kernelPhys + UInt64.ofNat (i / 4096) * Kernel.pageSize, Kernel.pteWritable⟩

theorem imageCall_mem_layoutCalls {h : Kernel.Handover} {i : Nat}
    (hi : i < h.kernelPages.toNat * 4096) : imageCall h i ∈ Kernel.layoutCalls h := by
  have hkernel : imageCall h i ∈
      Kernel.pageCalls (h.kernelPhys + 0) h.kernelPhys 0 h.kernelPages.toNat := by
    refine List.mem_map.mpr ⟨i / 4096, List.mem_range'_1.mpr ⟨Nat.zero_le _, by omega⟩, ?_⟩
    rw [UInt64.add_zero, imageCall]
  exact List.mem_append_left _ (List.mem_append_left _ hkernel)

/-- **The kernel image survives the build and the load.**  For an image of one segment of
`memsz` bytes at address `0`, for which Python has room, and a raw file that is no longer, the
padded file reads back from the generated text as an array of `memsz` bytes and a length of `memsz`.  Behind the copy loop of
`efi_main` the pages of the kernel hold the raw bytes, followed by zeros, and they still do at the
jump, on firmware that has granted these pages and keeps them.  The pages requested are the fewest
that hold the segment, so that Stage 1 maps every offset of it. -/
theorem kernelImage_fidelity {elf raw : Bytes} {memsz : Nat} (helf : SingleLoad elf memsz)
    (hpos : 0 < memsz) (hlt : memsz < 2 ^ 32) (hraw : raw.length ≤ memsz) {room : Nat}
    (hroom : memsz ≤ room) (rawPath : String) :
    ∃ blob : Loader.KernelBlob,
      (padKernelRaw room rawPath elf raw).exit = .ok () ∧
      Cxx.readFile (genKernelBlob (padKernelRaw room rawPath elf raw).raw) =
        some [.bytes "kernel_blob".toList blob.bytes, .ulong "kernel_blob_len".toList blob.len] ∧
      blob.len.toNat = memsz ∧ blob.bytes.length = memsz ∧
      (∀ (m : Memory) (kernelPhys : UInt64),
        Loader.copyLoop blob kernelPhys (memsz + 1) 0 m =
          some (m.writeBytes kernelPhys blob.bytes) ∧
        ∀ i, i < memsz →
          m.writeBytes kernelPhys blob.bytes (kernelPhys + UInt64.ofNat i) = raw.getD i 0) ∧
      (memsz ≤ (Loader.kernelPagesOf blob).toNat * 4096 ∧
        ∀ k, memsz ≤ k * 4096 → (Loader.kernelPagesOf blob).toNat ≤ k) ∧
      ∀ {σ : Type} (bs : Loader.BootServices σ) (s : σ) (m : Memory) (i : Nat), i < memsz →
        Loader.kernelCopied bs blob s m
            ((Loader.efiMain bs blob s m).handover.kernelPhys + UInt64.ofNat i) = raw.getD i 0 ∧
        (∀ (view : σ → Loader.MapView) (owned : σ → UInt64 → Prop),
          Loader.BootServicesOk bs view → Loader.KeepsPages bs owned →
          (Loader.kernelAlloc bs blob s m).status = Loader.efiSuccess →
          (∀ x, InBlock (Loader.efiMain bs blob s m).handover.kernelPhys memsz x →
            ¬ InBlock (Loader.efiMain bs blob s m).handover.mmapPhys
              (Loader.efiMain bs blob s m).handover.mmapSizeUsed.toNat x) →
          (Loader.efiMain bs blob s m).mem
            ((Loader.efiMain bs blob s m).handover.kernelPhys + UInt64.ofNat i) =
              raw.getD i 0) ∧
        imageCall (Loader.efiMain bs blob s m).handover i ∈
          Kernel.layoutCalls (Loader.efiMain bs blob s m).handover := by
  have hpad := helf.padKernelRaw hpos hlt hraw hroom rawPath
  have hlength : (raw ++ zeros (memsz - raw.length)).length = memsz := by
    rw [List.length_append, length_zeros]
    omega
  have hvalue : (UInt32.ofNat memsz).toNat = memsz := by
    rw [UInt32.toNat_ofNat']
    exact Nat.mod_eq_of_lt hlt
  obtain ⟨blob, hbytes, hlen⟩ : ∃ blob : Loader.KernelBlob,
      blob.bytes = raw ++ zeros (memsz - raw.length) ∧ blob.len = UInt32.ofNat memsz :=
    ⟨⟨_, _, hvalue.trans hlength.symm⟩, rfl, rfl⟩
  have hsize : blob.len.toNat = memsz := hlen ▸ hvalue
  have hblob : blob.bytes.length = memsz := hbytes ▸ hlength
  have hpages := toNat_kernelPagesOf (hsize.symm ▸ hpos)
  rw [hsize] at hpages
  -- The array holds the raw bytes and then zeros.
  have hbyte : ∀ i (hi : i < blob.bytes.length), blob.bytes[i] = raw.getD i 0 := by
    intro i hi
    rw [← getElem_append_zeros raw (memsz - raw.length) (hbytes ▸ hi)]
    simp only [hbytes]
  have hholds : ∀ {mem : Memory} {a : UInt64}, mem.HoldsBytes a blob.bytes →
      ∀ i, i < memsz → mem (a + UInt64.ofNat i) = raw.getD i 0 := fun hmem i hi =>
    (hmem i (hblob.symm ▸ hi)).trans (hbyte i _)
  refine ⟨blob, ?_, ?_, hsize, hblob, ?_, ?_, ?_⟩
  · rw [hpad]
  · rw [hpad, readFile_genKernelBlob (List.ne_nil_of_length_pos (hlength.symm ▸ hpos)), hlength,
      hbytes, hlen]
  · intro m kernelPhys
    exact ⟨hsize ▸ Loader.copyLoop_zero blob kernelPhys m,
      hholds (Memory.holdsBytes_writeBytes (by omega))⟩
  · rw [hpages]
    exact ⟨by omega, fun k hk => by omega⟩
  · intro σ bs s m i hi
    have hkernel : (Loader.efiMain bs blob s m).handover.kernelPages = Loader.kernelPagesOf blob :=
      rfl
    refine ⟨hholds (Loader.kernelCopied_holdsBytes bs blob s m) i hi, ?_, ?_⟩
    · intro view owned hok hkeeps hgranted hapart
      refine hholds (Loader.efiMain_holdsBytes hok hkeeps hgranted ?_ (hblob.symm ▸ hapart)) i hi
      rw [hblob, hpages]
      omega
    · apply imageCall_mem_layoutCalls
      rw [hkernel, hpages]
      omega

/-- The header of an image with one program header, and a segment of 18 bytes. -/
def tinyElf : Bytes :=
  [0x7f, 0x45, 0x4c, 0x46, 2, 1, 1] ++ zeros 9 ++ u16 2 ++ u16 0x3e ++ u32 1 ++ zeros 8 ++
    (u32 64 ++ u32 0) ++ zeros 8 ++ u32 0 ++ u16 64 ++ u16 56 ++ u16 1 ++ zeros 6 ++
    (u32 1 ++ u32 7 ++ zeros 8 ++ zeros 8 ++ zeros 8 ++ (u32 1 ++ u32 0) ++ (u32 18 ++ u32 0) ++
      (u32 0x1000 ++ u32 0))

theorem tinyElf_singleLoad : SingleLoad tinyElf 18 where
  elf64 := by constructor <;> decide
  load := by
    have hcount : phnum tinyElf = 1 := by decide
    refine ⟨0, by decide, by decide, fun j hj _ => ?_⟩
    omega

/-- One halt instruction and 17 bytes of `.bss`, in memory at the jump of the loader. -/
theorem kernelImage_fidelity_tiny : ∃ blob : Loader.KernelBlob,
    Cxx.readFile (genKernelBlob (padKernelRaw 4096 "kernel.raw" tinyElf [0xf4]).raw) =
      some [.bytes "kernel_blob".toList blob.bytes, .ulong "kernel_blob_len".toList blob.len] ∧
    blob.len.toNat = 18 ∧
    (Loader.efiMain Loader.steadyPlan.bootServices blob 0 fun _ => 0xff).mem 0x100000 = 0xf4 ∧
    (Loader.efiMain Loader.steadyPlan.bootServices blob 0 fun _ => 0xff).mem 0x100011 = 0 := by
  obtain ⟨blob, -, hread, hlen, -, -, -, hload⟩ :=
    kernelImage_fidelity tinyElf_singleLoad (by decide) (by decide)
      (show ([0xf4] : Bytes).length ≤ 18 by decide) (show 18 ≤ 4096 by decide) "kernel.raw"
  have hplan : ∀ i x, i < 18 → (0x100000 : UInt64) + UInt64.ofNat i = x →
      (Loader.efiMain Loader.steadyPlan.bootServices blob 0 fun _ => 0xff).mem x =
        ([0xf4] : Bytes).getD i 0 := by
    intro i x hi hx
    have hphys : (Loader.efiMain Loader.steadyPlan.bootServices blob 0 fun _ =>
        0xff).handover.kernelPhys = 0x100000 :=
      (show Loader.steadyPlan.address 0 = 0x100000 by decide)
    have hbyte := (hload Loader.steadyPlan.bootServices 0 (fun _ => 0xff) i hi).2.1 _ _
      Loader.steadyPlan.bootServicesOk Loader.steadyPlan.keepsPages
      (Loader.steadyPlan.pagesGranted blob 0 _).kernel
    rw [hphys, hx] at hbyte
    refine hbyte fun y hkernel hmap => ?_
    -- The buffer lies at 3 MiB.
    have hbuffer : (Loader.efiMain Loader.steadyPlan.bootServices blob 0 fun _ =>
        0xff).handover.mmapPhys = 0x300000 :=
      (Loader.steadyPlan.bufferAlloc_memory blob 0 _).trans (by decide)
    have hused := Loader.steadyPlan.mapFill_mmapSize_le blob 0 fun _ => 0xff
    have hlow : (0x100000 : UInt64).toNat = 0x100000 := rfl
    have hhigh : (0x300000 : UInt64).toNat = 0x300000 := rfl
    rw [hbuffer, Loader.efiMain_mmapSizeUsed, inBlock_iff (by omega)] at hmap
    rw [inBlock_iff (by omega)] at hkernel
    omega
  exact ⟨blob, hread, hlen, hplan 0 _ (by decide) (by decide), hplan 17 _ (by decide) (by decide)⟩

end Build
end OsBook
