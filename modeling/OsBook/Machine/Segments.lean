import OsBook.Machine.PageTables

/-!
# Segment descriptors in long mode

A far transfer names its code segment by a selector.  The processor reads the
eight bytes of the descriptor from the table that GDTR designates, at a virtual
address, and faults if the selector is null or beyond the limit, if the bytes are
not mapped, or if the descriptor is not that of a 64-bit code segment of ring 0.
A data segment is loaded in the same way.  The accessed bit that a load sets is
left out.
-/

namespace OsBook
namespace Machine

/-- What the processor does to a virtual address, with what it keeps in its TLB. -/
abbrev Mmu := UInt64 → Option Translated

/-- The eight bytes at a virtual address, if they are mapped side by side. -/
def loadThrough (mmu : Mmu) (m : Memory) (v : UInt64) : Option UInt64 := do
  let first ← mmu v
  let last ← mmu (v + 7)
  if last.addr = first.addr + 7 then some (m.load64 first.addr) else none

/-- The descriptor that a selector of ring 0 names in the table at `base`. -/
def readSegment (mmu : Mmu) (m : Memory) (base : UInt64) (limit selector : UInt16) :
    Option UInt64 :=
  if selector ≠ 0 ∧ selector &&& 7 = 0 ∧ selector.toNat + 7 ≤ limit.toNat then
    loadThrough mmu m (base + selector.toUInt64)
  else none

/-- Present, ring 0, code, with the long-mode bit set and the default-size bit clear. -/
def isCode64 (descriptor : UInt64) : Bool :=
  descriptor &&& 0x0060F80000000000 == 0x0020980000000000

/-- Present, ring 0, data, writable. -/
def isWritableData (descriptor : UInt64) : Bool :=
  descriptor &&& 0x0000FA0000000000 == 0x0000920000000000

section Identity

variable {mmu : Mmu} {m : Memory} {v base : UInt64} {limit selector : UInt16}

/-- Bytes that are mapped to themselves are read as they are. -/
theorem loadThrough_identity {w w' : Bool} (hfirst : mmu v = some ⟨v, w⟩)
    (hlast : mmu (v + 7) = some ⟨v + 7, w'⟩) : loadThrough mmu m v = some (m.load64 v) := by
  unfold loadThrough
  rw [hfirst, hlast]
  exact if_pos rfl

theorem readSegment_identity {off : UInt64} {w w' : Bool} (hoff : selector.toUInt64 = off)
    (hnull : selector ≠ 0) (hring : selector &&& 7 = 0)
    (hlimit : selector.toNat + 7 ≤ limit.toNat) (hfirst : mmu (base + off) = some ⟨base + off, w⟩)
    (hlast : mmu (base + off + 7) = some ⟨base + off + 7, w'⟩) :
    readSegment mmu m base limit selector = some (m.load64 (base + off)) := by
  unfold readSegment
  rw [if_pos ⟨hnull, hring, hlimit⟩, hoff]
  exact loadThrough_identity hfirst hlast

end Identity

end Machine
end OsBook
