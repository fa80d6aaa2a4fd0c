import OsBook.Machine.Fairness

/-!
# The transmitter of a 16550

Characters pass from the holding queue (a FIFO of 16, or one register) through
the shift register to the line.  The processor writes registers and reads the
line status; the transmitter moves characters on in its own time.

What has been accepted, in order, is on the line, in the shift register or in
the queue (`accepted`): the transmitter never changes it, a write to an empty
queue appends to it, and clearing the queue drops the queue's part.
-/

namespace OsBook
namespace Machine

structure Uart where
  ier : UInt8
  lcr : UInt8
  dll : UInt8
  dlm : UInt8
  /-- The FIFOs are enabled. -/
  fifo : Bool
  holding : List UInt8
  shift : Option UInt8
  /-- The characters sent, the latest one at the end. -/
  line : List UInt8
deriving DecidableEq, Repr

namespace Uart

/-- The divisor latch is accessed in place of the data and interrupt registers. -/
def dlab (u : Uart) : Bool := u.lcr &&& 0x80 ≠ 0

/-- A character for the transmitter: a full FIFO refuses it, a full register is overwritten. -/
def transmit (u : Uart) (c : UInt8) : Uart :=
  if u.fifo then
    if u.holding.length < 16 then { u with holding := u.holding ++ [c] } else u
  else { u with holding := [c] }

/-- The FIFO control register.  A change of mode clears the queue, and so does bit 2. -/
def control (u : Uart) (value : UInt8) : Uart :=
  let on : Bool := value &&& 1 ≠ 0
  let clear : Bool := on != u.fifo || (on && value &&& 4 ≠ 0)
  { u with fifo := on, holding := if clear then [] else u.holding }

/-- A write to the register at an offset. -/
def write (u : Uart) (offset : UInt16) (value : UInt8) : Uart :=
  if offset = 0 then if u.dlab then { u with dll := value } else u.transmit value
  else if offset = 1 then if u.dlab then { u with dlm := value } else { u with ier := value }
  else if offset = 2 then u.control value
  else if offset = 3 then { u with lcr := value }
  else u

/-- The transmitter's bits of the line status register. -/
def lineStatus (u : Uart) : UInt8 :=
  if u.holding.isEmpty then if u.shift.isNone then 0x60 else 0x20 else 0

/-- The divisor of the clock. -/
def divisor (u : Uart) : Nat := u.dlm.toNat * 256 + u.dll.toNat

/-- Bits in a second: a bit lasts 16 cycles of the divided clock. -/
def baud (u : Uart) (clock : Nat) : Nat := clock / (16 * u.divisor)

/-- The next character enters the shift register. -/
def load (u : Uart) : Option Uart :=
  match u.shift, u.holding with
  | none, c :: rest => some { u with shift := some c, holding := rest }
  | _, _ => none

/-- The shift register has been sent. -/
def shiftOut (u : Uart) : Option Uart :=
  u.shift.map fun c => { u with shift := none, line := u.line ++ [c] }

/-- All characters that the transmitter has taken. -/
def accepted (u : Uart) : List UInt8 := u.line ++ u.shift.toList ++ u.holding

/-- Everything has been sent. -/
def Idle (u : Uart) : Prop := u.holding = [] ∧ u.shift = none

/-- How far the transmitter is from being idle. -/
def backlog (u : Uart) : Nat := 2 * u.holding.length + u.shift.toList.length

/-! ## The transmitter -/

/-- What the transmitter leaves alone. -/
structure Sent (u u' : Uart) : Prop where
  ier : u'.ier = u.ier
  lcr : u'.lcr = u.lcr
  dll : u'.dll = u.dll
  dlm : u'.dlm = u.dlm
  fifo : u'.fifo = u.fifo
  accepted : u'.accepted = u.accepted
  holding : u'.holding <:+ u.holding
  line : u.line <+: u'.line
  backlog : u'.backlog + 1 = u.backlog

section Transmitter

variable {u u' : Uart}

theorem load_sent (h : u.load = some u') : Sent u u' := by
  unfold load at h
  split at h
  · rename_i c rest hshift hholding
    obtain rfl := Option.some.inj h
    refine ⟨rfl, rfl, rfl, rfl, rfl, ?_, ?_, List.prefix_refl _, ?_⟩
    · simp [Uart.accepted, hshift, hholding]
    · rw [hholding]
      exact List.suffix_cons c rest
    · simp [Uart.backlog, hshift, hholding]
      omega
  · cases h

theorem shiftOut_sent (h : u.shiftOut = some u') : Sent u u' := by
  obtain ⟨c, hshift, rfl⟩ := Option.map_eq_some_iff.mp h
  refine ⟨rfl, rfl, rfl, rfl, rfl, ?_, List.suffix_refl _, List.prefix_append _ _, ?_⟩
  · simp [Uart.accepted, hshift]
  · simp [Uart.backlog, hshift]

/-- A transmitter that is not idle can move. -/
theorem exists_sent (h : ¬ u.Idle) : (∃ u', u.load = some u') ∨ ∃ u', u.shiftOut = some u' := by
  cases hshift : u.shift with
  | some c =>
      right
      exact ⟨_, by rw [shiftOut, hshift]; rfl⟩
  | none =>
      left
      cases hholding : u.holding with
      | nil => exact absurd ⟨hholding, hshift⟩ h
      | cons c rest => exact ⟨_, by rw [load, hshift, hholding]⟩

/-! ## Writes -/

/-- A character written to an empty queue is taken. -/
theorem accepted_write {c : UInt8} (hdlab : u.dlab = false) (hholding : u.holding = []) :
    u.write 0 c = { u with holding := [c] } ∧ (u.write 0 c).accepted = u.accepted ++ [c] := by
  have hwrite : u.write 0 c = { u with holding := [c] } := by
    simp only [write, if_true, hdlab, Bool.false_eq_true, if_false, transmit, hholding,
      List.length_nil, List.nil_append]
    split <;> simp
  refine ⟨hwrite, ?_⟩
  rw [hwrite]
  simp [Uart.accepted, hholding]

/-- A write adds at most one character. -/
theorem backlog_write (u : Uart) (offset : UInt16) (value : UInt8) :
    (u.write offset value).backlog ≤ u.backlog + 2 := by
  have htransmit : (u.transmit value).backlog ≤ u.backlog + 2 := by
    unfold transmit
    split
    · split
      · simp only [backlog, List.length_append, List.length_singleton]
        omega
      · exact Nat.le_add_right _ _
    · simp only [backlog, List.length_singleton]
      omega
  have hcontrol : (u.control value).backlog ≤ u.backlog + 2 := by
    simp only [control, backlog]
    split
    · simp only [List.length_nil]
      omega
    · omega
  have hsame : u.backlog ≤ u.backlog + 2 := Nat.le_add_right _ _
  unfold write
  split
  · split
    · exact hsame
    · exact htransmit
  split
  · split <;> exact hsame
  split
  · exact hcontrol
  split <;> exact hsame

/-- Bit 5 of the line status: the queue is empty. -/
theorem lineStatus_empty : u.lineStatus &&& 0x20 = 0 ↔ u.holding ≠ [] := by
  unfold lineStatus
  cases u.holding with
  | nil =>
      simp only [List.isEmpty_nil, if_true, ne_eq, not_true_eq_false, iff_false]
      split <;> decide
  | cons c rest => simp

end Transmitter

end Uart

end Machine
end OsBook
