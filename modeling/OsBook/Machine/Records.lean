import OsBook.Machine.Memory

/-!
# Packed records in memory

A packed record is a list of fields, each a number stored at an offset from the
start of the record.  When the fields do not overlap, the order of the stores
does not matter: every field reads back what was stored in it, and nothing
outside the record changes.  Offsets are added to the base address as machine
words, so a record may also lie across the wrap at `2 ^ 64`.
-/

namespace OsBook
namespace Machine

/-- A byte at a given distance from the base. -/
theorem inBlock_offset {a x : UInt64} {i n : Nat} (h : i + n ≤ 2 ^ 64) :
    InBlock (a + UInt64.ofNat i) n x ↔ i ≤ (x - a).toNat ∧ (x - a).toNat < i + n := by
  unfold InBlock
  rw [UInt64.toNat_sub, UInt64.toNat_sub, UInt64.toNat_add, UInt64.toNat_ofNat']
  have ha := a.toNat_lt
  have hx := x.toNat_lt
  omega

namespace Memory

/-- A store at one offset is not seen by a load at another one. -/
theorem load_store_offset {m : Memory} {a : UInt64} {i n j k v : Nat} (hi : i + n ≤ 2 ^ 64)
    (hj : j + k ≤ 2 ^ 64) (h : i + n ≤ j ∨ j + k ≤ i) :
    (m.store (a + UInt64.ofNat i) n v).load (a + UInt64.ofNat j) k =
      m.load (a + UInt64.ofNat j) k := by
  apply load_congr (by omega)
  intro x hx
  apply store_of_not_inBlock
  rw [inBlock_offset hi]
  rw [inBlock_offset hj] at hx
  omega

/-- One byte, read as a number. -/
@[simp] theorem load_one (m : Memory) (a : UInt64) : m.load a 1 = (m a).toNat := by
  simp [load]

end Memory

/-- A field of a packed record: `width` bytes at `offset`, and the number they hold. -/
structure PackedField where
  offset : Nat
  width : Nat
  value : Nat
deriving DecidableEq, Repr

/-- The bytes of two fields do not overlap. -/
def PackedField.Apart (f g : PackedField) : Prop :=
  f.offset + f.width ≤ g.offset ∨ g.offset + g.width ≤ f.offset

namespace Memory

/-- Store the fields of the record at `a`, in order. -/
def storeFields (m : Memory) (a : UInt64) : List PackedField → Memory
  | [] => m
  | f :: fs => storeFields (m.store (a + UInt64.ofNat f.offset) f.width f.value) a fs

variable {a x : UInt64} {size : Nat} {fs : List PackedField}

/-- Fields that stay inside the record change nothing outside it. -/
theorem storeFields_of_not_inBlock (hsize : size ≤ 2 ^ 64)
    (hfit : ∀ f ∈ fs, f.offset + f.width ≤ size) (hx : ¬ InBlock a size x) (m : Memory) :
    m.storeFields a fs x = m x := by
  induction fs generalizing m with
  | nil => rfl
  | cons f fs ih =>
      have hf := hfit f List.mem_cons_self
      rw [storeFields, ih fun g hg => hfit g (List.mem_cons_of_mem f hg)]
      apply store_of_not_inBlock
      rw [inBlock_offset (by omega)]
      unfold InBlock at hx
      omega

/-- Fields apart from the bytes that are read. -/
theorem load_storeFields_of_apart (hsize : size ≤ 2 ^ 64)
    (hfit : ∀ f ∈ fs, f.offset + f.width ≤ size) {i n v : Nat} (hn : i + n ≤ size)
    (h : ∀ f ∈ fs, PackedField.Apart ⟨i, n, v⟩ f) (m : Memory) :
    (m.storeFields a fs).load (a + UInt64.ofNat i) n = m.load (a + UInt64.ofNat i) n := by
  induction fs generalizing m with
  | nil => rfl
  | cons f fs ih =>
      have hf := hfit f List.mem_cons_self
      have hapart := h f List.mem_cons_self
      rw [storeFields, ih (fun g hg => hfit g (List.mem_cons_of_mem f hg))
        fun g hg => h g (List.mem_cons_of_mem f hg)]
      exact load_store_offset (by omega) (by omega) hapart.symm

/-- **Reading a field back.** -/
theorem load_storeFields (hsize : size ≤ 2 ^ 64) (hfit : ∀ f ∈ fs, f.offset + f.width ≤ size)
    (hapart : fs.Pairwise PackedField.Apart) {f : PackedField} (hf : f ∈ fs) (m : Memory) :
    (m.storeFields a fs).load (a + UInt64.ofNat f.offset) f.width =
      f.value % 256 ^ f.width := by
  induction fs generalizing m with
  | nil => cases hf
  | cons g fs ih =>
      obtain ⟨hg, hrest⟩ := List.pairwise_cons.mp hapart
      have hfit' : ∀ f ∈ fs, f.offset + f.width ≤ size :=
        fun e he => hfit e (List.mem_cons_of_mem g he)
      have hgfit := hfit g List.mem_cons_self
      rw [storeFields]
      rcases List.mem_cons.mp hf with rfl | hf
      · rw [load_storeFields_of_apart (v := f.value) hsize hfit' hgfit fun e he => hg e he]
        exact load_store_same (by omega)
      · exact ih hfit' hrest hf _

end Memory

end Machine
end OsBook
