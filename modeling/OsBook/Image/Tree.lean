import OsBook.Image.RoundTrip

/-!
# The directory tree of the image

The volume holds one file in two directories and nothing else: whatever path a
reader asks for, it finds an entry only for `EFI`, `EFI/BOOT` and
`EFI/BOOT/BOOTX64.EFI`, and a file only behind the last one
(`makeFat16Image_tree`).
-/

namespace OsBook
namespace Image

open Fat

/-- The directory has an entry under one name and under no other. -/
def OnlyEntry (dir name₀ : Bytes) (e₀ : DirEntry) : Prop :=
  ∀ name e, findEntry name (dir.length / 32) dir = some e ↔ name = name₀ ∧ e = e₀

/-! ## Directories of one entry -/

theorem findEntry_zeros (name : Bytes) (entries n : Nat) :
    findEntry name entries (zeros n) = none := by
  cases entries with
  | zero => rfl
  | succ entries => rw [findEntry, byteAt_zeros, if_pos rfl]

section OneEntry

variable {name83 : List Char} {attr fstClus size n : Nat}

/-- Behind the entry there are only zeros. -/
theorem drop_makeDirEntry :
    (setSlice (zeros n) 0 32 (makeDirEntry name83 attr fstClus size)).drop 32 = zeros (n - 32) := by
  have hlen := length_makeDirEntry name83 attr fstClus size
  unfold setSlice zeros
  rw [List.take_zero, List.nil_append, List.drop_append_of_le_length hlen.ge, ← hlen,
    List.drop_length, hlen, List.nil_append, List.drop_replicate]

theorem parseEntry_setSlice (hattr : attr < 256) (hclus : fstClus < 65536) (hsize : size < 2 ^ 32)
    (hn : 32 ≤ n) :
    parseEntry (slice (setSlice (zeros n) 0 32 (makeDirEntry name83 attr fstClus size)) 0 32) =
      { name := packName name83, attr := attr, firstCluster := fstClus, size := size } := by
  have hfit : 0 + 32 ≤ (zeros n).length := by
    rw [length_zeros]
    omega
  have hwindow := slice_setSlice_same (length_makeDirEntry name83 attr fstClus size) hfit
  rw [Nat.zero_add] at hwindow
  rw [hwindow, parseEntry_makeDirEntry name83 hattr hclus hsize]

/-- A scan for any other name finds nothing. -/
theorem findEntry_other {name : Bytes} (entries : Nat) (hattr : attr < 256)
    (hclus : fstClus < 65536) (hsize : size < 2 ^ 32) (hn : 32 ≤ n)
    (hname : name ≠ packName name83) :
    findEntry name entries (setSlice (zeros n) 0 32 (makeDirEntry name83 attr fstClus size)) =
      none := by
  cases entries with
  | zero => rfl
  | succ entries =>
      rw [findEntry, parseEntry_setSlice hattr hclus hsize hn, drop_makeDirEntry,
        findEntry_zeros]
      split
      · rfl
      · rw [if_neg fun h => hname h.1.symm]

end OneEntry

/-- A directory in which one name is found and no other. -/
theorem onlyEntry_of {dir name₀ : Bytes} {e₀ : DirEntry}
    (hfound : findEntry name₀ (dir.length / 32) dir = some e₀)
    (hother : ∀ name, name ≠ name₀ → findEntry name (dir.length / 32) dir = none) :
    OnlyEntry dir name₀ e₀ := by
  intro name e
  by_cases hname : name = name₀
  · subst hname
    rw [hfound, Option.some_inj]
    exact ⟨fun h => ⟨rfl, h.symm⟩, fun h => h.2.symm⟩
  · rw [hother name hname]
    simp [hname]

/-! ## Paths -/

section Paths

variable {g : Geometry} {img dir sub name₀ name next : Bytes} {rest : List Bytes} {e₀ e : DirEntry}

theorem OnlyEntry.last (h : OnlyEntry dir name₀ e₀) :
    lookupPath g img dir [name] = some e ↔ [name] = [name₀] ∧ e = e₀ := by
  rw [lookupPath, h name e, List.singleton_inj]

/-- A longer path leads through the entry, if that is a directory. -/
theorem OnlyEntry.through (h : OnlyEntry dir name₀ e₀) (hdir : e₀.isDirectory = true)
    (hsub : readChain g img e₀.firstCluster = some sub) :
    lookupPath g img dir (name :: next :: rest) = some e ↔
      name = name₀ ∧ lookupPath g img sub (next :: rest) = some e := by
  by_cases hname : name = name₀
  · subst hname
    have hfind := (h name e₀).mpr ⟨rfl, rfl⟩
    rw [lookupPath_cons hfind hdir hsub]
    exact ⟨fun hlook => ⟨rfl, hlook⟩, fun hlook => hlook.2⟩
  · refine iff_of_false (fun hlook => ?_) fun hlook => hname hlook.1
    obtain ⟨e₁, hfind, -⟩ := Option.bind_eq_some_iff.mp hlook
    exact hname ((h name e₁).mp hfind).1

/-- No path leads through a file. -/
theorem OnlyEntry.not_through (h : OnlyEntry dir name₀ e₀) (hfile : e₀.isDirectory = false) :
    lookupPath g img dir (name :: next :: rest) ≠ some e := by
  intro hlook
  obtain ⟨e₁, hfind, hrest⟩ := Option.bind_eq_some_iff.mp hlook
  obtain ⟨-, rfl⟩ := (h name e₁).mp hfind
  rw [hfile, if_neg Bool.false_ne_true] at hrest
  cases hrest

end Paths

/-! ## The three entries -/

def efiEntry : DirEntry := { name := efiName, attr := 0x10, firstCluster := 2, size := 0 }

def bootEntry : DirEntry := { name := bootName, attr := 0x10, firstCluster := 3, size := 0 }

def fileEntry (efiData : Bytes) : DirEntry :=
  { name := bootFileName, attr := 0x20, firstCluster := 4, size := efiData.length }

theorem rootDir_onlyEntry : OnlyEntry rootDir efiName efiEntry :=
  onlyEntry_of findEntry_rootDir fun _ hname =>
    findEntry_other _ (by decide) (by decide) (by decide) (by decide) hname

theorem efiDir_onlyEntry : OnlyEntry efiDir bootName bootEntry :=
  onlyEntry_of findEntry_efiDir fun _ hname =>
    findEntry_other _ (by decide) (by decide) (by decide) (by decide) hname

theorem bootDir_onlyEntry {efiData : Bytes} (hsize : efiData.length < 2 ^ 32) :
    OnlyEntry (bootDir efiData) bootFileName (fileEntry efiData) :=
  onlyEntry_of (findEntry_bootDir hsize) fun _ hname =>
    findEntry_other _ (by decide) (by decide) hsize (by decide) hname

/-- The entries of the volume, by path. -/
def HasEntry (efiData : Bytes) (path : List Bytes) (e : DirEntry) : Prop :=
  path = [efiName] ∧ e = efiEntry ∨ path = [efiName, bootName] ∧ e = bootEntry ∨
    path = bootPath ∧ e = fileEntry efiData

/-- The last directory holds the file, and nothing lies behind it. -/
theorem lookupPath_bootDir {efiData img : Bytes} (hsize : efiData.length < 2 ^ 32)
    {path : List Bytes} {e : DirEntry} :
    lookupPath volume img (bootDir efiData) path = some e ↔
      path = [bootFileName] ∧ e = fileEntry efiData := by
  have honly := bootDir_onlyEntry hsize
  match path with
  | [] => simp [lookupPath]
  | [name] => exact honly.last
  | name :: next :: rest =>
      have hfile : (fileEntry efiData).isDirectory = false := by
        simp [DirEntry.isDirectory, fileEntry]
      simp [honly.not_through hfile]

section Tree

variable {efiData img : Bytes} (h : ImageOf efiData img) (hsize : efiData.length < 2 ^ 32)
include h hsize

theorem ImageOf.lookupPath_efiDir {path : List Bytes} {e : DirEntry} :
    lookupPath volume img efiDir path = some e ↔
      path = [bootName] ∧ e = bootEntry ∨
        path = [bootName, bootFileName] ∧ e = fileEntry efiData := by
  match path with
  | [] => simp [lookupPath]
  | [name] =>
      rw [efiDir_onlyEntry.last]
      simp
  | name :: next :: rest =>
      rw [efiDir_onlyEntry.through rfl h.readChain_bootDir, lookupPath_bootDir hsize]
      simp [and_assoc]

/-- A reader finds exactly these entries. -/
theorem ImageOf.lookupPath_iff {path : List Bytes} {e : DirEntry} :
    lookupPath volume img rootDir path = some e ↔ HasEntry efiData path e := by
  unfold HasEntry bootPath
  match path with
  | [] => simp [lookupPath]
  | [name] =>
      rw [rootDir_onlyEntry.last]
      simp
  | name :: next :: rest =>
      rw [rootDir_onlyEntry.through rfl h.readChain_efiDir, h.lookupPath_efiDir hsize]
      simp only [List.cons.injEq, reduceCtorEq, and_false, false_and, false_or, and_or_left,
        and_assoc]

end Tree

/-- **The volume holds one file.**  In every image that is written a reader finds, by any path,
exactly the three entries, and it reads a file exactly by the path of the boot file. -/
theorem makeFat16Image_tree {efiData img : Bytes} (h : makeFat16Image efiData = .ok img) :
    (∀ path e, lookupPath (readGeometry img) img (slice img (readGeometry img).rootStart
      ((readGeometry img).rootEntries * 32)) path = some e ↔ HasEntry efiData path e) ∧
    ∀ path data, readFile img path = some data ↔ path = bootPath ∧ data = efiData := by
  have hfit : efiData.length ≤ fileCapacity := by
    by_contra hlong
    obtain ⟨e, hmake⟩ := makeFat16Image_error (Nat.lt_of_not_le hlong)
    rw [hmake] at h
    cases h
  have hsize : efiData.length < 2 ^ 32 := by
    unfold fileCapacity at hfit
    omega
  obtain ⟨img', hmake, himage⟩ := makeFat16Image_ok hfit
  obtain rfl : img' = img := Except.ok.inj (hmake.symm.trans h)
  have hroot : slice img' volume.rootStart (volume.rootEntries * 32) = rootDir := himage.root
  have hlookup : ∀ path e, lookupPath volume img' (slice img' volume.rootStart
      (volume.rootEntries * 32)) path = some e ↔ HasEntry efiData path e := by
    intro path e
    rw [hroot]
    exact himage.lookupPath_iff hsize
  rw [himage.geometry]
  refine ⟨hlookup, fun path data => ⟨fun hread => ?_, ?_⟩⟩
  · -- A file is read from an entry that is not a directory, and only the last one is not.
    have hpath : path = bootPath := by
      unfold readFile at hread
      rw [himage.geometry] at hread
      simp only at hread
      split at hread
      · cases hread
      · obtain ⟨e, hlook, hread⟩ := Option.bind_eq_some_iff.mp hread
        rcases (hlookup path e).mp hlook with ⟨-, rfl⟩ | ⟨-, rfl⟩ | ⟨hpath, -⟩
        · cases hread
        · cases hread
        · exact hpath
    subst hpath
    rw [himage.readFile_bootPath hfit] at hread
    exact ⟨rfl, (Option.some.inj hread).symm⟩
  · rintro ⟨rfl, rfl⟩
    exact himage.readFile_bootPath hfit

/-- The file of three clusters is read from its path, and there is none of its name in the root
directory. -/
theorem makeFat16Image_tree_small :
    ∃ img, makeFat16Image (List.replicate 1300 0x4D) = .ok img ∧
      readFile img bootPath = some (List.replicate 1300 0x4D) ∧
      readFile img [bootFileName] ≠ some (List.replicate 1300 0x4D) := by
  have hfit : (List.replicate 1300 (0x4D : UInt8)).length ≤ fileCapacity := by
    rw [List.length_replicate]
    decide
  obtain ⟨img, hmake, -⟩ := makeFat16Image_ok hfit
  have hread := (makeFat16Image_tree hmake).2
  refine ⟨img, hmake, (hread _ _).mpr ⟨rfl, rfl⟩, fun hroot => ?_⟩
  exact absurd ((hread _ _).mp hroot).1 (by decide)

end Image
end OsBook
