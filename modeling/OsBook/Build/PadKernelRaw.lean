import OsBook.Fat.Bytes

/-!
# Padding the kernel image

`pad_kernel_raw.py` reads the program headers of the linked kernel and appends
zeros to the flat image, up to the end of `.bss`.  A Python exception is an
error of the `Except` monad; an offset outside the file makes
`struct.unpack_from` raise.

Python integers do not wrap, so addresses and sizes are natural numbers.  They
meet the machine where they become an offset or the length of an object: more
than `sys.maxsize` raises `OverflowError`, and a padded image longer than the
machine has room for raises `MemoryError`.  Both happen before the raw file is
opened for writing.
-/

namespace OsBook
namespace Build

open Fat

/-- The ways in which the script stops early. -/
inductive PadError where
  | systemExit (message : String)
  | structError
  | indexError
  | overflowError
  | memoryError
deriving DecidableEq, Repr

/-- The little-endian number in the `n` bytes from `off`. -/
def leNumber (b : Bytes) (off : Nat) : Nat → Nat
  | 0 => 0
  | n + 1 => byteAt b off + 256 * leNumber b (off + 1) n

/-- `sys.maxsize`. -/
def sysMaxsize : Nat := 2 ^ 63 - 1

/-- The error of a read at an offset behind the file. -/
def readError (off : Nat) : PadError := if off ≤ sysMaxsize then .structError else .overflowError

/-- `struct.unpack_from` for one number of `n` bytes. -/
def unpackFrom (n : Nat) (b : Bytes) (off : Nat) : Except PadError Nat :=
  if off + n ≤ b.length then .ok (leNumber b off n) else .error (readError off)

def u16At : Bytes → Nat → Except PadError Nat := unpackFrom 2

def u32At : Bytes → Nat → Except PadError Nat := unpackFrom 4

def u64At : Bytes → Nat → Except PadError Nat := unpackFrom 8

/-- `elf[i]`. -/
def itemAt (b : Bytes) (i : Nat) : Except PadError Nat :=
  if i < b.length then .ok (byteAt b i) else .error .indexError

/-- `PT_LOAD`. -/
def ptLoad : Nat := 1

/-- The loop over the program headers from index `i`, with `left` headers to go. -/
def loadEndLoop (elf : Bytes) (ePhoff ePhentsize : Nat) :
    (left i endAddr : Nat) → Except PadError Nat
  | 0, _, endAddr => .ok endAddr
  | left + 1, i, endAddr => do
      let o := ePhoff + i * ePhentsize
      let pType ← u32At elf o
      if pType ≠ ptLoad then loadEndLoop elf ePhoff ePhentsize left (i + 1) endAddr
      else do
        let pVaddr ← u64At elf (o + 16)
        let pMemsz ← u64At elf (o + 40)
        let cand := pVaddr + pMemsz
        loadEndLoop elf ePhoff ePhentsize left (i + 1) (if cand > endAddr then cand else endAddr)

def maxLoadVaddrPlusMemsz (elf : Bytes) : Except PadError Nat := do
  if slice elf 0 4 ≠ [0x7f, 0x45, 0x4c, 0x46] then .error (.systemExit "not an ELF file")
  else do
    let eiClass ← itemAt elf 4
    if eiClass ≠ 2 then .error (.systemExit "expected ELFCLASS64")
    else do
      let ePhoff ← u64At elf 32
      let ePhentsize ← u16At elf 54
      let ePhnum ← u16At elf 56
      if ePhentsize < 56 then .error (.systemExit "bad e_phentsize")
      else do
        let endAddr ← loadEndLoop elf ePhoff ePhentsize ePhnum 0 0
        if endAddr = 0 then .error (.systemExit "no PT_LOAD segments") else .ok endAddr

/-- How the script ends, and the bytes of the raw file afterwards. -/
structure PadOutcome where
  exit : Except PadError Unit
  raw : Bytes

/-- `b"\x00" * n` and the concatenation with `raw`, on a machine with room for objects of at most
`room` bytes. -/
def padBytes (room : Nat) (raw : Bytes) (n : Nat) : Except PadError Bytes :=
  if n > sysMaxsize then .error .overflowError
  else if raw.length + n > room then .error .memoryError
  else .ok (raw ++ zeros n)

/-- `main`, on the contents of its two files. -/
def padKernelRaw (room : Nat) (rawPath : String) (elf raw : Bytes) : PadOutcome :=
  match maxLoadVaddrPlusMemsz elf with
  | .error e => ⟨.error e, raw⟩
  | .ok need =>
      if raw.length > need then
        ⟨.error (.systemExit s!"{rawPath}: {raw.length} bytes > ELF image {need}"), raw⟩
      else if raw.length < need then
        match padBytes room raw (need - raw.length) with
        | .error e => ⟨.error e, raw⟩
        | .ok padded => ⟨.ok (), padded⟩
      else ⟨.ok (), raw⟩

/-! ## ELF64 images -/

def phoff (elf : Bytes) : Nat := leNumber elf 32 8

def phentsize (elf : Bytes) : Nat := leNumber elf 54 2

def phnum (elf : Bytes) : Nat := leNumber elf 56 2

/-- A program header, as far as it is read. -/
structure ProgramHeader where
  type : Nat
  vaddr : Nat
  memsz : Nat
deriving DecidableEq, Repr

/-- The offset of the `i`-th program header. -/
def headerOffset (elf : Bytes) (i : Nat) : Nat := phoff elf + i * phentsize elf

def programHeader (elf : Bytes) (i : Nat) : ProgramHeader where
  type := leNumber elf (headerOffset elf i) 4
  vaddr := leNumber elf (headerOffset elf i + 16) 8
  memsz := leNumber elf (headerOffset elf i + 40) 8

/-- A little-endian ELF64 image with its table of program headers inside the file. -/
structure Elf64 (elf : Bytes) : Prop where
  magic : slice elf 0 4 = [0x7f, 0x45, 0x4c, 0x46]
  class64 : byteAt elf 4 = 2
  header : 64 ≤ elf.length
  phentsize : 56 ≤ phentsize elf
  table : phoff elf + phnum elf * Build.phentsize elf ≤ elf.length

/-- The ends of the loadable segments among the headers `i, ..., i + n - 1`. -/
def loadEnds (elf : Bytes) (i n : Nat) : List Nat :=
  ((List.range' i n).filter fun j => (programHeader elf j).type = ptLoad).map fun j =>
    (programHeader elf j).vaddr + (programHeader elf j).memsz

theorem unpackFrom_of_le {n off : Nat} {b : Bytes} (h : off + n ≤ b.length) :
    unpackFrom n b off = .ok (leNumber b off n) :=
  if_pos h

theorem unpackFrom_of_lt {n off : Nat} {b : Bytes} (h : b.length < off + n) :
    unpackFrom n b off = .error (readError off) :=
  if_neg (Nat.not_le.mpr h)

theorem unpackFrom_cases (n : Nat) (b : Bytes) (off : Nat) :
    unpackFrom n b off = .ok (leNumber b off n) ∨
      unpackFrom n b off = .error (readError off) := by
  rcases Nat.lt_or_ge b.length (off + n) with h | h
  · exact Or.inr (unpackFrom_of_lt h)
  · exact Or.inl (unpackFrom_of_le h)

/-! ## The loop over the headers -/

/-- The fields that the loop reads of a header lie in the file.  Only the type is read of a header
that is not `PT_LOAD`. -/
def HeaderInBounds (elf : Bytes) (i : Nat) : Prop :=
  headerOffset elf i + 4 ≤ elf.length ∧
    ((programHeader elf i).type = ptLoad → headerOffset elf i + 48 ≤ elf.length)

section Loop

variable {elf : Bytes} {i : Nat}

theorem HeaderInBounds.loop_succ (h : HeaderInBounds elf i) (left endAddr : Nat) :
    loadEndLoop elf (phoff elf) (phentsize elf) (left + 1) i endAddr =
      loadEndLoop elf (phoff elf) (phentsize elf) left (i + 1)
        (if (programHeader elf i).type = ptLoad then
          max endAddr ((programHeader elf i).vaddr + (programHeader elf i).memsz) else endAddr) := by
  obtain ⟨hshort, hlong⟩ := h
  have htype : u32At elf (phoff elf + i * phentsize elf) = .ok (programHeader elf i).type :=
    unpackFrom_of_le hshort
  rw [loadEndLoop]
  simp only [htype, bind, Except.bind]
  by_cases hload : (programHeader elf i).type = ptLoad
  · have hend := hlong hload
    unfold headerOffset at hend
    have hvaddr : u64At elf (phoff elf + i * phentsize elf + 16) =
        .ok (programHeader elf i).vaddr := unpackFrom_of_le (by omega)
    have hmemsz : u64At elf (phoff elf + i * phentsize elf + 40) =
        .ok (programHeader elf i).memsz := unpackFrom_of_le (by omega)
    have hmax : (if (programHeader elf i).vaddr + (programHeader elf i).memsz > endAddr then
        (programHeader elf i).vaddr + (programHeader elf i).memsz else endAddr) =
          max endAddr ((programHeader elf i).vaddr + (programHeader elf i).memsz) := by
      split <;> omega
    rw [if_neg (not_not.mpr hload), if_pos hload]
    simp only [hvaddr, hmemsz, hmax]
  · rw [if_pos hload, if_neg hload]

/-- A header that ends behind the file stops the loop, at the first field outside. -/
theorem loadEndLoop_of_not_inBounds (h : ¬ HeaderInBounds elf i) (left endAddr : Nat) :
    ∃ k, k ≤ 40 ∧ loadEndLoop elf (phoff elf) (phentsize elf) (left + 1) i endAddr =
      .error (readError (headerOffset elf i + k)) := by
  rw [loadEndLoop]
  by_cases hshort : headerOffset elf i + 4 ≤ elf.length
  · have hlong : ¬ ((programHeader elf i).type = ptLoad → headerOffset elf i + 48 ≤ elf.length) :=
      fun hlong => h ⟨hshort, hlong⟩
    obtain ⟨hload, hend⟩ := Classical.not_imp.mp hlong
    have htype : u32At elf (phoff elf + i * phentsize elf) = .ok (programHeader elf i).type :=
      unpackFrom_of_le hshort
    have hbehind : elf.length < headerOffset elf i + 40 + 8 := Nat.lt_of_not_le hend
    have hmemsz : u64At elf (phoff elf + i * phentsize elf + 40) =
        .error (readError (headerOffset elf i + 40)) := unpackFrom_of_lt hbehind
    rw [htype, hload]
    -- `p_vaddr` may lie inside or outside.
    rcases unpackFrom_cases 8 elf (phoff elf + i * phentsize elf + 16) with hvaddr | hvaddr
    all_goals change u64At elf (phoff elf + i * phentsize elf + 16) = _ at hvaddr
    · refine ⟨40, le_rfl, ?_⟩
      simp only [hvaddr, hmemsz, bind, Except.bind, ne_eq, not_true_eq_false, if_false]
    · refine ⟨16, by decide, ?_⟩
      simp only [hvaddr, bind, Except.bind, ne_eq, not_true_eq_false, if_false, headerOffset]
  · have htype : u32At elf (phoff elf + i * phentsize elf) =
        .error (readError (headerOffset elf i)) := unpackFrom_of_lt (Nat.lt_of_not_le hshort)
    refine ⟨0, by decide, ?_⟩
    simp only [htype, bind, Except.bind, Nat.add_zero]

/-- On headers inside the file the loop takes the maximum of the ends. -/
theorem loadEndLoop_eq (left : Nat) : ∀ i endAddr,
    (∀ j, i ≤ j → j < i + left → HeaderInBounds elf j) →
      loadEndLoop elf (phoff elf) (phentsize elf) left i endAddr =
        .ok ((loadEnds elf i left).foldl max endAddr) := by
  induction left with
  | zero =>
      intro i endAddr _
      rfl
  | succ left ih =>
      intro i endAddr h
      rw [(h i le_rfl (by omega)).loop_succ, ih _ _ fun j hj hlt => h j (by omega) (by omega),
        loadEnds, loadEnds, List.range'_succ, List.filter_cons]
      by_cases hload : (programHeader elf i).type = ptLoad
      · simp only [hload, decide_true, if_true, List.map_cons, List.foldl_cons]
      · simp only [hload, decide_false, Bool.false_eq_true, if_false]

/-- One header outside the file is enough for the loop to fail, and the error is that of a field of
such a header. -/
theorem loadEndLoop_error (left : Nat) : ∀ i endAddr,
    (∃ j, i ≤ j ∧ j < i + left ∧ ¬ HeaderInBounds elf j) →
      ∃ j k, j < i + left ∧ ¬ HeaderInBounds elf j ∧ k ≤ 40 ∧
        loadEndLoop elf (phoff elf) (phentsize elf) left i endAddr =
          .error (readError (headerOffset elf j + k)) := by
  induction left with
  | zero =>
      rintro i endAddr ⟨j, hj, hlt, -⟩
      omega
  | succ left ih =>
      rintro i endAddr ⟨j, hj, hlt, hout⟩
      by_cases hi : HeaderInBounds elf i
      · have hne : i ≠ j := fun heq => hout (heq ▸ hi)
        obtain ⟨j', k, hlt', hout', hk, hrun⟩ := ih (i + 1)
          (if (programHeader elf i).type = ptLoad then
            max endAddr ((programHeader elf i).vaddr + (programHeader elf i).memsz) else endAddr)
          ⟨j, by omega, by omega, hout⟩
        refine ⟨j', k, by omega, hout', hk, ?_⟩
        rw [hi.loop_succ]
        exact hrun
      · obtain ⟨k, hk, hrun⟩ := loadEndLoop_of_not_inBounds hi left endAddr
        exact ⟨i, k, by omega, hi, hk, hrun⟩

end Loop

/-! ## The image of any file -/

/-- The reads of the script succeed, and so do its checks before the loop. -/
structure Readable (elf : Bytes) : Prop where
  magic : slice elf 0 4 = [0x7f, 0x45, 0x4c, 0x46]
  class64 : byteAt elf 4 = 2
  header : 58 ≤ elf.length
  phentsize : 56 ≤ phentsize elf
  headers : ∀ i, i < phnum elf → HeaderInBounds elf i

theorem readable_of_elf64 {elf : Bytes} (helf : Elf64 elf) : Readable elf := by
  refine ⟨helf.magic, helf.class64, ?_, helf.phentsize, fun i hi => ?_⟩
  · exact le_trans (by decide) helf.header
  · have hsize := helf.phentsize
    have htable := helf.table
    have hle : (i + 1) * phentsize elf ≤ phnum elf * phentsize elf := Nat.mul_le_mul_right _ hi
    rw [Nat.succ_mul] at hle
    unfold HeaderInBounds headerOffset
    omega

/-- With the ELF header in the file, only its contents and the loop decide. -/
theorem maxLoadVaddrPlusMemsz_of_header {elf : Bytes}
    (hmagic : slice elf 0 4 = [0x7f, 0x45, 0x4c, 0x46]) (hclass : byteAt elf 4 = 2)
    (hheader : 58 ≤ elf.length) :
    maxLoadVaddrPlusMemsz elf =
      if phentsize elf < 56 then .error (.systemExit "bad e_phentsize")
      else (loadEndLoop elf (phoff elf) (phentsize elf) (phnum elf) 0 0).bind fun endAddr =>
        if endAddr = 0 then .error (.systemExit "no PT_LOAD segments") else .ok endAddr := by
  have hitem : itemAt elf 4 = .ok 2 := by
    rw [itemAt, if_pos (by omega), hclass]
  have hphoff : u64At elf 32 = .ok (phoff elf) := unpackFrom_of_le (by omega)
  have hphentsize : u16At elf 54 = .ok (phentsize elf) := unpackFrom_of_le (by omega)
  have hphnum : u16At elf 56 = .ok (phnum elf) := unpackFrom_of_le (by omega)
  unfold maxLoadVaddrPlusMemsz
  rw [if_neg (not_not.mpr hmagic)]
  simp only [hitem, hphoff, hphentsize, hphnum, bind, Except.bind, ne_eq, not_true_eq_false,
    if_false]

/-- The script computes the greatest end of a loadable segment. -/
theorem maxLoadVaddrPlusMemsz_eq {elf : Bytes} (helf : Readable elf) :
    maxLoadVaddrPlusMemsz elf =
      if (loadEnds elf 0 (phnum elf)).foldl max 0 = 0 then
        .error (.systemExit "no PT_LOAD segments")
      else .ok ((loadEnds elf 0 (phnum elf)).foldl max 0) := by
  rw [maxLoadVaddrPlusMemsz_of_header helf.magic helf.class64 helf.header,
    if_neg (Nat.not_lt.mpr helf.phentsize),
    loadEndLoop_eq (phnum elf) 0 0 fun i _ hi => helf.headers i (by omega)]
  rfl

/-- The ends of the loadable segments. -/
def loadEndSet (elf : Bytes) : Set Nat :=
  {x | ∃ i, i < phnum elf ∧ (programHeader elf i).type = ptLoad ∧
    x = (programHeader elf i).vaddr + (programHeader elf i).memsz}

theorem mem_loadEnds_iff {elf : Bytes} {x : Nat} :
    x ∈ loadEnds elf 0 (phnum elf) ↔ x ∈ loadEndSet elf := by
  simp only [loadEnds, loadEndSet, List.mem_map, List.mem_filter, List.mem_range'_1,
    Set.mem_ofPred_eq, decide_eq_true_eq, Nat.zero_add, Nat.zero_le, true_and, and_assoc]
  exact exists_congr fun i => and_congr_right fun _ => and_congr_right fun _ => eq_comm

/-- Why no image size is found, with the error of each reason. -/
inductive ElfFails (elf : Bytes) : PadError → Prop where
  | magic (h : slice elf 0 4 ≠ [0x7f, 0x45, 0x4c, 0x46]) :
      ElfFails elf (.systemExit "not an ELF file")
  | noClass (h : elf.length ≤ 4) : ElfFails elf .indexError
  | eiClass (h : byteAt elf 4 ≠ 2) : ElfFails elf (.systemExit "expected ELFCLASS64")
  | header (h : elf.length < 58) : ElfFails elf .structError
  | phentsize (h : phentsize elf < 56) : ElfFails elf (.systemExit "bad e_phentsize")
  | headers (i k : Nat) (hi : i < phnum elf) (hk : k ≤ 40) (h : ¬ HeaderInBounds elf i) :
      ElfFails elf (readError (headerOffset elf i + k))
  | noLoad (h : ∀ x ∈ loadEndSet elf, x = 0) :
      ElfFails elf (.systemExit "no PT_LOAD segments")

/-- In a file too short for the header, one of its three reads fails. -/
theorem maxLoadVaddrPlusMemsz_short {elf : Bytes}
    (hmagic : slice elf 0 4 = [0x7f, 0x45, 0x4c, 0x46]) (hclass : itemAt elf 4 = .ok 2)
    (h : elf.length < 58) : maxLoadVaddrPlusMemsz elf = .error .structError := by
  have hphnum : u16At elf 56 = .error .structError := unpackFrom_of_lt (by omega)
  have hphoff : u64At elf 32 = .ok (phoff elf) ∨ u64At elf 32 = .error .structError :=
    unpackFrom_cases 8 elf 32
  have hphentsize : u16At elf 54 = .ok (phentsize elf) ∨ u16At elf 54 = .error .structError :=
    unpackFrom_cases 2 elf 54
  unfold maxLoadVaddrPlusMemsz
  rw [if_neg (not_not.mpr hmagic)]
  rcases hphoff with hphoff | hphoff <;> rcases hphentsize with hphentsize | hphentsize <;>
    simp only [hclass, hphoff, hphentsize, hphnum, bind, Except.bind, ne_eq, not_true_eq_false,
      if_false]

/-- **The image size of any file.**  Either it is the greatest end of a loadable segment, or the
script stops with the error of a reason that holds. -/
theorem maxLoadVaddrPlusMemsz_cases (elf : Bytes) :
    (∃ e, maxLoadVaddrPlusMemsz elf = .error e ∧ ElfFails elf e) ∨
      ∃ need, maxLoadVaddrPlusMemsz elf = .ok need ∧ Readable elf ∧
        IsGreatest (loadEndSet elf) need := by
  by_cases hmagic : slice elf 0 4 = [0x7f, 0x45, 0x4c, 0x46]
  case neg => exact Or.inl ⟨_, if_pos hmagic, .magic hmagic⟩
  by_cases hlength : elf.length ≤ 4
  case pos =>
    have hitem : itemAt elf 4 = .error .indexError := if_neg (by omega)
    refine Or.inl ⟨_, ?_, .noClass hlength⟩
    rw [maxLoadVaddrPlusMemsz, if_neg (not_not.mpr hmagic), hitem]
    rfl
  have hitem : itemAt elf 4 = .ok (byteAt elf 4) := if_pos (by omega)
  by_cases hclass : byteAt elf 4 = 2
  case neg =>
    refine Or.inl ⟨_, ?_, .eiClass hclass⟩
    rw [maxLoadVaddrPlusMemsz, if_neg (not_not.mpr hmagic), hitem]
    exact if_pos hclass
  rw [hclass] at hitem
  rcases Nat.lt_or_ge elf.length 58 with hheader | hheader
  · exact Or.inl ⟨_, maxLoadVaddrPlusMemsz_short hmagic hitem hheader, .header hheader⟩
  have hrest := maxLoadVaddrPlusMemsz_of_header hmagic hclass hheader
  rcases Nat.lt_or_ge (phentsize elf) 56 with hsize | hsize
  · rw [if_pos hsize] at hrest
    exact Or.inl ⟨_, hrest, .phentsize hsize⟩
  by_cases hheaders : ∀ i, i < phnum elf → HeaderInBounds elf i
  case neg =>
    push Not at hheaders
    obtain ⟨i, hi, hout⟩ := hheaders
    obtain ⟨j, k, hj, hout', hk, hloop⟩ :=
      loadEndLoop_error (phnum elf) 0 0 ⟨i, Nat.zero_le i, by omega, hout⟩
    rw [if_neg (Nat.not_lt.mpr hsize), hloop] at hrest
    exact Or.inl ⟨_, hrest, .headers j k (by omega) hk hout'⟩
  have hreadable : Readable elf := ⟨hmagic, hclass, hheader, hsize, hheaders⟩
  have hmax := maxLoadVaddrPlusMemsz_eq hreadable
  rw [List.foldl_max, Nat.zero_max] at hmax
  cases hends : (loadEnds elf 0 (phnum elf)).max? with
  | none =>
      rw [hends, Option.getD_none, if_pos rfl] at hmax
      refine Or.inl ⟨_, hmax, .noLoad fun x hx => ?_⟩
      rw [← mem_loadEnds_iff, List.max?_eq_none_iff.mp hends] at hx
      cases hx
  | some need =>
      obtain ⟨hmem, hle⟩ := List.max?_eq_some_iff.mp hends
      rw [hends, Option.getD_some] at hmax
      by_cases hzero : need = 0
      · rw [if_pos hzero] at hmax
        refine Or.inl ⟨_, hmax, .noLoad fun x hx => ?_⟩
        have hx' := hle x (mem_loadEnds_iff.mpr hx)
        omega
      · rw [if_neg hzero] at hmax
        exact Or.inr ⟨need, hmax, hreadable, mem_loadEnds_iff.mp hmem,
          fun x hx => hle x (mem_loadEnds_iff.mpr hx)⟩

/-- What is wrong with the contents of the files, with the error of each reason. -/
inductive FileFails (rawPath : String) (elf raw : Bytes) : PadError → Prop where
  | elf {e : PadError} (h : ElfFails elf e) : FileFails rawPath elf raw e
  | tooLong (need : Nat) (hneed : IsGreatest (loadEndSet elf) need) (h : need < raw.length) :
      FileFails rawPath elf raw
        (.systemExit s!"{rawPath}: {raw.length} bytes > ELF image {need}")

/-- Why the script fails: the files, or an image that Python cannot build. -/
inductive PadFails (room : Nat) (rawPath : String) (elf raw : Bytes) : PadError → Prop where
  | files {e : PadError} (h : FileFails rawPath elf raw e) : PadFails room rawPath elf raw e
  | overflow (need : Nat) (hneed : IsGreatest (loadEndSet elf) need)
      (h : raw.length + sysMaxsize < need) : PadFails room rawPath elf raw .overflowError
  | memory (need : Nat) (hneed : IsGreatest (loadEndSet elf) need) (hlt : raw.length < need)
      (h : room < need) : PadFails room rawPath elf raw .memoryError

/-- The raw file is extended by zeros to the greatest end of a loadable segment. -/
structure Padded (elf raw padded : Bytes) : Prop where
  readable : Readable elf
  length : IsGreatest (loadEndSet elf) padded.length
  zeros : ∃ n, padded = raw ++ zeros n

/-- A file that is as long as the image is left alone. -/
theorem padKernelRaw_of_length {elf raw : Bytes} {need : Nat}
    (hneed : maxLoadVaddrPlusMemsz elf = .ok need) (hlength : raw.length = need) (room : Nat)
    (rawPath : String) : padKernelRaw room rawPath elf raw = ⟨.ok (), raw⟩ := by
  unfold padKernelRaw
  simp only [hneed]
  rw [if_neg (by omega), if_neg (by omega)]

theorem padBytes_ok {raw padded : Bytes} {room n : Nat} (h : padBytes room raw n = .ok padded) :
    padded = raw ++ zeros n := by
  unfold padBytes at h
  split at h
  · cases h
  · split at h
    · cases h
    · exact (Except.ok.inj h).symm

/-- A file that is shorter gets what `padBytes` makes of it. -/
theorem padKernelRaw_of_lt {elf raw : Bytes} {need : Nat}
    (hneed : maxLoadVaddrPlusMemsz elf = .ok need) (hlt : raw.length < need) (room : Nat)
    (rawPath : String) : padKernelRaw room rawPath elf raw =
      match padBytes room raw (need - raw.length) with
      | .error e => ⟨.error e, raw⟩
      | .ok padded => ⟨.ok (), padded⟩ := by
  unfold padKernelRaw
  simp only [hneed]
  rw [if_neg (by omega), if_pos hlt]

/-- **Padding is exact, idempotent and atomic.**  For any two files, the script stops with the
error of a reason that holds and leaves the raw file as it is, or it pads the raw file to the end
of the image, and running it again changes nothing. -/
theorem padKernelRaw_exact (room : Nat) (rawPath : String) (elf raw : Bytes) :
    (∃ e, padKernelRaw room rawPath elf raw = ⟨.error e, raw⟩ ∧
        PadFails room rawPath elf raw e) ∨
      ∃ padded, padKernelRaw room rawPath elf raw = ⟨.ok (), padded⟩ ∧ Padded elf raw padded ∧
        padKernelRaw room rawPath elf padded = ⟨.ok (), padded⟩ := by
  rcases maxLoadVaddrPlusMemsz_cases elf with ⟨e, herror, hfails⟩ | ⟨need, hneed, helf, hmax⟩
  · refine Or.inl ⟨e, ?_, .files (.elf hfails)⟩
    unfold padKernelRaw
    simp only [herror]
  rcases Nat.lt_trichotomy raw.length need with hlt | heq | hgt
  · have hrun := padKernelRaw_of_lt hneed hlt room rawPath
    by_cases hover : need - raw.length > sysMaxsize
    · have hbytes : padBytes room raw (need - raw.length) = .error .overflowError := if_pos hover
      rw [hbytes] at hrun
      exact Or.inl ⟨_, hrun, .overflow need hmax (by omega)⟩
    by_cases hroom : raw.length + (need - raw.length) > room
    · have hbytes : padBytes room raw (need - raw.length) = .error .memoryError := by
        rw [padBytes, if_neg hover, if_pos hroom]
      rw [hbytes] at hrun
      exact Or.inl ⟨_, hrun, .memory need hmax hlt (by omega)⟩
    have hbytes : padBytes room raw (need - raw.length) =
        .ok (raw ++ zeros (need - raw.length)) := by
      rw [padBytes, if_neg hover, if_neg hroom]
    have hlength : (raw ++ zeros (need - raw.length)).length = need := by
      rw [List.length_append, length_zeros]
      omega
    rw [hbytes] at hrun
    refine Or.inr ⟨raw ++ zeros (need - raw.length), hrun, ⟨helf, ?_, _, rfl⟩,
      padKernelRaw_of_length hneed hlength room rawPath⟩
    rwa [hlength]
  · have hsame := padKernelRaw_of_length hneed heq room rawPath
    exact Or.inr ⟨raw, hsame, ⟨helf, heq ▸ hmax, 0, (List.append_nil raw).symm⟩, hsame⟩
  · refine Or.inl ⟨_, ?_, .files (.tooLong need hmax hgt)⟩
    unfold padKernelRaw
    simp only [hneed]
    rw [if_pos hgt]

/-! ## One loadable segment -/

/-- An image whose only loadable segment starts at address `0`, as `ld.ld` links it. -/
structure SingleLoad (elf : Bytes) (memsz : Nat) : Prop where
  elf64 : Elf64 elf
  load : ∃ k, k < phnum elf ∧ programHeader elf k = ⟨ptLoad, 0, memsz⟩ ∧
    ∀ j, j < phnum elf → (programHeader elf j).type = ptLoad → j = k

/-- A bound that is attained is the maximum. -/
theorem foldl_max_eq {l : List Nat} {m : Nat} (hle : ∀ x ∈ l, x ≤ m) (hmem : m ∈ l) :
    l.foldl max 0 = m := by
  rw [List.foldl_max, List.max?_eq_some_iff.mpr ⟨hmem, hle⟩, Option.getD_some, Nat.zero_max]

/-- **The image of one segment at address `0` is as long as the segment.** -/
theorem SingleLoad.maxLoad {elf : Bytes} {memsz : Nat} (h : SingleLoad elf memsz)
    (hpos : 0 < memsz) : maxLoadVaddrPlusMemsz elf = .ok memsz := by
  obtain ⟨k, hk, hheader, hunique⟩ := h.load
  have hmax : (loadEnds elf 0 (phnum elf)).foldl max 0 = memsz := by
    apply foldl_max_eq
    · intro x hx
      obtain ⟨j, hj, rfl⟩ := List.mem_map.mp hx
      obtain ⟨hj, htype⟩ := List.mem_filter.mp hj
      obtain rfl := hunique j (by simpa using hj) (of_decide_eq_true htype)
      rw [hheader]
      simp
    · refine List.mem_map.mpr ⟨k, List.mem_filter.mpr ⟨by simpa using hk, ?_⟩, ?_⟩
      · rw [hheader]
        exact decide_eq_true rfl
      · rw [hheader]
        simp
  rw [maxLoadVaddrPlusMemsz_eq (readable_of_elf64 h.elf64), hmax, if_neg (by omega)]

/-- **A raw file no longer than the image is padded to it**, on a machine that has room for the
image. -/
theorem SingleLoad.padKernelRaw {elf raw : Bytes} {memsz room : Nat} (h : SingleLoad elf memsz)
    (hpos : 0 < memsz) (hlt : memsz < 2 ^ 32) (hraw : raw.length ≤ memsz) (hroom : memsz ≤ room)
    (rawPath : String) :
    padKernelRaw room rawPath elf raw = ⟨.ok (), raw ++ zeros (memsz - raw.length)⟩ := by
  rcases Nat.lt_or_eq_of_le hraw with hshort | heq
  · have hbytes : padBytes room raw (memsz - raw.length) =
        .ok (raw ++ zeros (memsz - raw.length)) := by
      unfold padBytes sysMaxsize
      rw [if_neg (by omega), if_neg (by omega)]
    rw [padKernelRaw_of_lt (h.maxLoad hpos) hshort, hbytes]
  · have hzero : memsz - raw.length = 0 := by omega
    rw [padKernelRaw_of_length (h.maxLoad hpos) heq, hzero]
    simp [zeros]

/-- If the script ends well, the raw file has become the image. -/
theorem SingleLoad.raw_of_exit {elf raw : Bytes} {memsz room : Nat} (h : SingleLoad elf memsz)
    (hpos : 0 < memsz) (hraw : raw.length ≤ memsz) {rawPath : String}
    (hexit : (Build.padKernelRaw room rawPath elf raw).exit = .ok ()) :
    (Build.padKernelRaw room rawPath elf raw).raw = raw ++ zeros (memsz - raw.length) := by
  rcases Nat.lt_or_eq_of_le hraw with hshort | heq
  · rw [padKernelRaw_of_lt (h.maxLoad hpos) hshort] at hexit ⊢
    cases hbytes : padBytes room raw (memsz - raw.length) with
    | error e =>
        rw [hbytes] at hexit
        cases hexit
    | ok padded => exact padBytes_ok hbytes
  · have hzero : memsz - raw.length = 0 := by omega
    rw [padKernelRaw_of_length (h.maxLoad hpos) heq, hzero]
    simp [zeros]

/-- The header of an image with one program header, and a segment of `2 ^ 63 + 5` bytes. -/
def hugeElf : Bytes :=
  [0x7f, 0x45, 0x4c, 0x46, 2, 1, 1] ++ zeros 9 ++ u16 2 ++ u16 0x3e ++ u32 1 ++ zeros 8 ++
    (u32 64 ++ u32 0) ++ zeros 8 ++ u32 0 ++ u16 64 ++ u16 56 ++ u16 1 ++ zeros 6 ++
    (u32 1 ++ u32 7 ++ zeros 8 ++ zeros 8 ++ zeros 8 ++ (u32 1 ++ u32 0) ++
      (u32 5 ++ u32 0x80000000) ++ (u32 0x1000 ++ u32 0))

theorem hugeElf_singleLoad : SingleLoad hugeElf (2 ^ 63 + 5) where
  elf64 := by constructor <;> decide
  load := by
    have hcount : phnum hugeElf = 1 := by decide
    refine ⟨0, by decide, by decide, fun j hj _ => ?_⟩
    omega

/-- The contents of the files are not the only reason to fail: a segment of `2 ^ 63 + 5` bytes is
longer than any object of Python. -/
theorem not_padKernelRaw_exact : ¬ ∀ (room : Nat) (rawPath : String) (elf raw : Bytes),
    (∃ e, padKernelRaw room rawPath elf raw = ⟨.error e, raw⟩ ∧ FileFails rawPath elf raw e) ∨
      ∃ padded, padKernelRaw room rawPath elf raw = ⟨.ok (), padded⟩ ∧ Padded elf raw padded ∧
        padKernelRaw room rawPath elf padded = ⟨.ok (), padded⟩ := by
  intro hall
  have hbytes : padBytes 0 [] (2 ^ 63 + 5) = .error .overflowError := if_pos (by decide)
  have hrun : padKernelRaw 0 "kernel.raw" hugeElf [] = ⟨.error .overflowError, []⟩ := by
    rw [padKernelRaw_of_lt (hugeElf_singleLoad.maxLoad (by decide)) (by decide), List.length_nil,
      Nat.sub_zero, hbytes]
  rcases hall 0 "kernel.raw" hugeElf [] with ⟨e, hfail, hreason⟩ | ⟨padded, hpadded, -, -⟩
  · rw [hrun] at hfail
    obtain rfl : PadError.overflowError = e := Except.error.inj (congrArg PadOutcome.exit hfail)
    generalize he : PadError.overflowError = e at hreason
    cases hreason with
    | elf hreason =>
        cases hreason with
        | headers i k hi _ hout =>
            exact hout ((readable_of_elf64 hugeElf_singleLoad.elf64).headers i hi)
        | _ => cases he
    | tooLong => cases he
  · rw [hrun] at hpadded
    cases congrArg PadOutcome.exit hpadded

end Build
end OsBook
