import OsBook.Machine.Records

/-!
# The interrupt descriptor table as the processor reads it

A 64-bit IDT entry has sixteen bytes; the handler's address is split over three
of its fields.  `Idtr` is the table register, loaded from a ten-byte operand.
The processor uses an entry only if the table's limit covers it.
-/

namespace OsBook
namespace Machine

open Memory

/-- What the processor reads in an IDT entry. -/
@[ext] structure GateDescriptor where
  offset : UInt64
  selector : UInt16
  ist : UInt8
  typeAttr : UInt8
  reserved : UInt32
deriving DecidableEq, Repr

/-- The present bit. -/
def GateDescriptor.Present (g : GateDescriptor) : Prop := g.typeAttr &&& 0x80 ≠ 0

instance (g : GateDescriptor) : Decidable g.Present :=
  inferInstanceAs (Decidable (g.typeAttr &&& 0x80 ≠ 0))

/-- Decode the sixteen bytes at `a`. -/
def readGate (m : Memory) (a : UInt64) : GateDescriptor where
  offset := UInt64.ofNat (m.load a 2 + 2 ^ 16 * m.load (a + 6) 2 + 2 ^ 32 * m.load (a + 8) 4)
  selector := m.load16 (a + 2)
  ist := m (a + 4)
  typeAttr := m (a + 5)
  reserved := m.load32 (a + 12)

/-- The table register. -/
structure Idtr where
  limit : UInt16
  base : UInt64
deriving DecidableEq, Repr

/-- Load the table register from the operand at `p`. -/
def lidt (m : Memory) (p : UInt64) : Idtr := ⟨m.load16 p, m.load64 (p + 2)⟩

/-- The address of a vector's entry in the table at `base`. -/
def gateAddr (base : UInt64) (vector : UInt8) : UInt64 := base + UInt64.ofNat (16 * vector.toNat)

/-- The entry that the processor uses for a vector. -/
def Idtr.gate? (idtr : Idtr) (m : Memory) (vector : UInt8) : Option GateDescriptor :=
  if 16 * vector.toNat + 15 ≤ idtr.limit.toNat then some (readGate m (gateAddr idtr.base vector))
  else none

/-- Decoding only looks at the entry. -/
theorem readGate_congr {m m' : Memory} {a : UInt64} (h : ∀ x, InBlock a 16 x → m' x = m x) :
    readGate m' a = readGate m a := by
  have hload : ∀ i n, i + n ≤ 16 →
      m'.load (a + UInt64.ofNat i) n = m.load (a + UInt64.ofNat i) n := by
    intro i n hin
    apply load_congr (by omega)
    intro x hx
    rw [inBlock_offset (by omega)] at hx
    exact h x (Nat.lt_of_lt_of_le hx.2 hin)
  have hbyte : ∀ i, i + 1 ≤ 16 → m' (a + UInt64.ofNat i) = m (a + UInt64.ofNat i) := by
    intro i hi
    apply UInt8.toNat_inj.mp
    rw [← load_one, ← load_one, hload i 1 hi]
  have hzero := hload 0 2 (by omega)
  simp only [UInt64.reduceOfNat, UInt64.add_zero] at hzero
  ext1
  · simp only [readGate, hzero, show (6 : UInt64) = UInt64.ofNat 6 by rfl,
      show (8 : UInt64) = UInt64.ofNat 8 by rfl, hload 6 2 (by omega), hload 8 4 (by omega)]
  · exact congrArg UInt16.ofNat (hload 2 2 (by omega))
  · exact hbyte 4 (by omega)
  · exact hbyte 5 (by omega)
  · exact congrArg UInt32.ofNat (hload 12 4 (by omega))

/-- The bytes of a vector's entry, as distances from the base of the table. -/
theorem inBlock_gateAddr {base x : UInt64} {vector : UInt8} :
    InBlock (gateAddr base vector) 16 x ↔
      16 * vector.toNat ≤ (x - base).toNat ∧ (x - base).toNat < 16 * vector.toNat + 16 := by
  have hvector := vector.toNat_lt
  exact inBlock_offset (by omega)

/-- The entries of different vectors do not overlap. -/
theorem not_inBlock_gateAddr {base x : UInt64} {u v : UInt8} (hne : u ≠ v)
    (hx : InBlock (gateAddr base v) 16 x) : ¬ InBlock (gateAddr base u) 16 x := by
  have hnat : u.toNat ≠ v.toNat := fun h => hne (UInt8.toNat_inj.mp h)
  rw [inBlock_gateAddr] at hx ⊢
  omega

/-- Every entry lies in the first 4096 bytes. -/
theorem inBlock_table {base x : UInt64} {vector : UInt8}
    (hx : InBlock (gateAddr base vector) 16 x) : InBlock base 4096 x := by
  have hvector := vector.toNat_lt
  rw [inBlock_gateAddr] at hx
  unfold InBlock
  omega

/-- A full-size table covers every vector. -/
theorem gate?_full (m : Memory) (base : UInt64) (vector : UInt8) :
    Idtr.gate? ⟨4095, base⟩ m vector = some (readGate m (gateAddr base vector)) := by
  have hvector := vector.toNat_lt
  have hlimit : (4095 : UInt16).toNat = 4095 := rfl
  exact if_pos (by rw [hlimit]; omega)

end Machine
end OsBook
