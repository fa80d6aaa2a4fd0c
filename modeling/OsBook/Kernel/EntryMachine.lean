import OsBook.Kernel.Idt
import OsBook.Kernel.InterruptEntry
import OsBook.Kernel.TimerStages
import OsBook.Kernel.TouchTest

/-!
# `kernel_entry` from the `CR3` load to its last `hlt`

The program of `kernel_entry` after Stage 1, on a machine with memory, the
registers that designate the paging, descriptor and interrupt tables, and the
devices of the timer stages.  Stages 3 and 4 are the operations of
`Kernel.TimerStages`; here a gate is stored in memory and found again through
`IDTR`, and every source of the interrupt controllers may interrupt the program
whenever the interrupt flag is set.

Symbols are link addresses, so the linker decides where the table, the counters
and the stubs are in the image, and the compiler decides where the locals of
`kernel_entry` are on the stack.

Left out are

* pushes: they go to the stack, below RSP, and a stub restores every register;
* the data segments, and the checks of a segment descriptor by `lretq`, by
  delivery and by `iretq`, which read it through GDTR;
* the translation of fetches, of the stack and of the tables: the program itself
  translates only the accesses of the touch test and the probe, and between the
  two stores of the touch test the other pages are in the TLB or lost;
* the accessed and dirty bits that a walk of the page tables sets, and the
  accessed bit of a segment descriptor;
* what an interrupt does before the kernel has a table of its own: it enters
  firmware code.

The tick counters are kept beside memory.  `Kernel.CheckedEntry` puts the second
item back, and the third for the image and the stack.
-/

namespace OsBook
namespace Kernel

open Machine

/-! ## The loaded kernel -/

/-- The arguments of `kernel_entry`, the link addresses of its symbols, and the distances of its
locals from the start of the stack. -/
structure LoadedKernel extends Handover where
  gIdt : UInt64
  isr : Isr → UInt64
  /-- `g_timer_irq_count` and `g_lapic_irq_count`. -/
  irqCount : Timer → UInt64
  bootGdt : UInt64
  bootGdtr : UInt64
  idtPointer : UInt64
  /-- The lowest RSP of the main program. -/
  rsp : UInt64
  /-- The stack below RSP that delivery and the longest handler need. -/
  handlerStack : Nat

namespace LoadedKernel

/-- `kLinear` of a stub. -/
def handler (k : LoadedKernel) (isr : Isr) : UInt64 := k.kernelPhys + k.isr isr

/-- `idtTable(kernelPhys)`. -/
def idt (k : LoadedKernel) : UInt64 := idtTable k.kernelPhys k.gIdt

/-- The stub that starts at an address. -/
def handlerAt (k : LoadedKernel) (offset : UInt64) : Option Isr :=
  [Isr.breakpoint, .irq32, .lapicTimer, .pageFault].find? fun isr => k.handler isr = offset

/-- The symbols lie in the image, and the locals on the stack, at or above RSP. -/
structure Ok (k : LoadedKernel) : Prop where
  gIdt_fits : k.gIdt.toNat + sizeofIdt ≤ k.kernelPages.toNat * 4096
  isr_fits : ∀ isr, (k.isr isr).toNat < k.kernelPages.toNat * 4096
  isr_distinct : ∀ i j, k.isr i = k.isr j → i = j
  irqCount_fits : ∀ t, (k.irqCount t).toNat + 8 ≤ k.kernelPages.toNat * 4096
  bootGdt_fits : k.rsp.toNat ≤ k.bootGdt.toNat ∧ k.bootGdt.toNat + 24 ≤ 4 * 4096
  bootGdtr_fits : k.rsp.toNat ≤ k.bootGdtr.toNat ∧ k.bootGdtr.toNat + 10 ≤ 4 * 4096
  idtPointer_fits : k.rsp.toNat ≤ k.idtPointer.toNat ∧ k.idtPointer.toNat + 10 ≤ 4 * 4096
  rsp_fits : k.handlerStack ≤ k.rsp.toNat ∧ k.rsp.toNat ≤ 4 * 4096

end LoadedKernel

/-! ## The machine -/

/-- The register of the descriptor table. -/
structure Gdtr where
  limit : UInt16
  base : UInt64
deriving DecidableEq, Repr

/-- Load the register from the operand at `p`. -/
def lgdt (m : Memory) (p : UInt64) : Gdtr := ⟨m.load16 p, m.load64 (p + 2)⟩

/-- The registers of the local APIC that this code has programmed. -/
structure ProgrammedLapic where
  svr : Option UInt32
  lvtTimer : Option UInt32
deriving DecidableEq, Repr

def ProgrammedLapic.write (l : ProgrammedLapic) (reg value : UInt32) : ProgrammedLapic :=
  if reg = kLapicRegSvr then { l with svr := some value }
  else if reg = kLapicRegLvtTimer then { l with lvtTimer := some value }
  else l

/-- The operations of `kernel_entry` and of the four handlers. -/
inductive EntryOp where
  /-- The operations of the timer stages. -/
  | op (o : Op)
  /-- `old = *testPtr; *testPtr = old ^ 0xa5a5a5a5a5a5a5a5`. -/
  | flipWord
  /-- `(void)*testPtr; *testPtr = old`. -/
  | restoreWord
  /-- Fill in `bootGdt` and its pointer, and load the register. -/
  | loadBootGdt
  /-- `lretq` to the next instruction. -/
  | reloadCs
  /-- `csSel = CS`. -/
  | readCs
  | idtClearAll
  /-- `idtSetGate` and `idtLoad`. -/
  | installGate (vector : UInt8) (isr : Isr) (typeAttr : UInt8)
  | int3
  /-- `movb (%rax), %al` on the page that is not mapped. -/
  | probe
  /-- The two lines of `page_fault_dispatch` about CR2. -/
  | reportCr2
  /-- `frame[1] += kPfProbeInsnLen`. -/
  | skipProbe
  /-- `for (;;) { cli; hlt }`. -/
  | haltLoop
deriving DecidableEq, Repr

structure EntryState where
  mem : Memory
  cr3 : UInt64
  gdtr : Gdtr
  idtr : Idtr
  cs : UInt16
  hw : Hw
  lapic : ProgrammedLapic
  /-- The kernel has executed `lidt`. -/
  idtLoaded : Bool
  csSel : UInt16
  old : UInt64
  cr2 : UInt64
  /-- What is left of the running code. -/
  code : List EntryOp
  /-- What is left of the interrupted code, its interrupt flag and its code segment. -/
  saved : List (List EntryOp × Bool × UInt16)
  halted : Bool
  /-- An interrupt or a fault has left the code of the kernel. -/
  crashed : Bool

/-! ## The code -/

/-- Send a text to the serial port. -/
def print (text : String) : List EntryOp := (write text.toList).map fun i => .op (.io i)

def kVectorBreakpoint : UInt8 := 3

def kVectorPageFault : UInt8 := 14

def kIdtTypeTrap64 : UInt8 := 0x8F

def kProbeUnmappedVa : UInt64 := 0xABC00000

/-- The stub of a timer's vector. -/
def stub : Timer → Isr
  | .pit => .irq32
  | .lapic => .lapicTimer

/-- What the dispatcher of a stub does, and the return. -/
def isrOps : Isr → List EntryOp
  | .breakpoint => print "STAGE 2: #BP dispatcher\n" ++ [.op .iretq]
  | .irq32 => (handler .pit).map .op
  | .lapicTimer => (handler .lapic).map .op
  | .pageFault => print "STAGE 5: #PF dispatch\n" ++ [.reportCr2, .skipProbe, .op .iretq]

/-- From the `CR3` load to the end of Stage 1. -/
def stage1Finish : List EntryOp :=
  print "STAGE 1: touch memory\n" ++ (.flipWord :: .restoreWord ::
    print "STAGE 1: paging done\n")

/-- From the boot GDT to the `cli` of Stage 2. -/
def bootSegments : List EntryOp :=
  .loadBootGdt :: .reloadCs :: (print "STAGE 2: begin\n" ++ [.readCs])

/-- Stage 2 after its `cli`. -/
def stage2 : List EntryOp :=
  .idtClearAll :: .installGate kVectorBreakpoint .breakpoint kIdtTypeTrap64 ::
    (print "STAGE 2: install idt\n" ++ (print "STAGE 2: int3\n" ++ (.int3 ::
      print "STAGE 2: done\n")))

def stage5 : List EntryOp :=
  print "STAGE 5: begin\n" ++ (.installGate kVectorPageFault .pageFault kIdtTypeTrap64 ::
    (print "STAGE 5: pf gate\n" ++ (print "STAGE 5: probe\n" ++ (.probe ::
      (print "STAGE 5: done\n" ++ [.haltLoop])))))

/-- `kernel_entry` after the `CR3` load. -/
def entryCode : List EntryOp :=
  stage1Finish ++ (bootSegments ++ (.op (.io .cli) :: (stage2 ++
    (kernelEntry.map .op ++ stage5))))

/-! ## Execution -/

/-- The memory after the first store of the touch test, and `old`, unless an access faults. -/
def flipMemory (m : Memory) (cr3 testPtr : UInt64) : Option (Memory × UInt64) := do
  let old ← loadVirtual m cr3 testPtr
  let flipped ← storeVirtual m cr3 testPtr (old ^^^ 0xa5a5a5a5a5a5a5a5)
  some (flipped, old)

def restoreMemory (m : Memory) (cr3 testPtr old : UInt64) : Option Memory := do
  let _ ← loadVirtual m cr3 testPtr
  storeVirtual m cr3 testPtr old

section Execution

variable (k : LoadedKernel)

namespace EntryState

/-- Control has left the kernel. -/
def leave (s : EntryState) : EntryState :=
  { s with
    hw := { s.hw with interrupts := false }
    code := []
    saved := []
    halted := true
    crashed := true }

def flipWord (s : EntryState) : Option EntryState :=
  (flipMemory s.mem s.cr3 (k.mmapPhys + upperHalf)).map fun (m, old) =>
    { s with mem := m, old := old }

def restoreWord (s : EntryState) : Option EntryState :=
  (restoreMemory s.mem s.cr3 (k.mmapPhys + upperHalf) s.old).map fun m => { s with mem := m }

/-- The null, code and data descriptors, then the packed pointer. -/
def loadBootGdt (s : EntryState) : EntryState :=
  let gdt := k.stackPhys + k.bootGdt
  let m := ((s.mem.store64 gdt 0).store64 (gdt + 8) 0x00AF9A000000FFFF).store64 (gdt + 16)
    0x00AF92000000FFFF
  let m := m.storeFields (k.stackPhys + k.bootGdtr) [⟨0, 2, 23⟩, ⟨2, 8, gdt.toNat⟩]
  { s with mem := m, gdtr := lgdt m (k.stackPhys + k.bootGdtr) }

def installGate (vector : UInt8) (isr : Isr) (typeAttr : UInt8) (s : EntryState) : EntryState :=
  let m := idtSetGate s.mem k.idt vector (k.handler isr) s.csSel typeAttr
  let (m, idtr) := idtLoad m (k.stackPhys + k.idtPointer) k.idt (UInt16.ofNat (sizeofIdt - 1))
  { s with mem := m, idtr := idtr, idtLoaded := true }

/-- The operations of the timer stages, with the gates in memory. -/
def io (s : EntryState) (i : Io) : EntryState :=
  let t := { s with hw := s.hw.io i }
  match i with
  | .idtSetGate vector timer typeAttr => t.installGate k vector (stub timer) typeAttr
  | .lapicMmioWrite reg value => { t with lapic := t.lapic.write reg value }
  | _ => t

/-- What an operation does apart from the flow of control. -/
def exec (s : EntryState) : EntryOp → EntryState
  | .op (.io i) => s.io k i
  | .op .sti => { s with hw := { s.hw with interrupts := true } }
  | .flipWord => (s.flipWord k).getD s
  | .restoreWord => (s.restoreWord k).getD s
  | .loadBootGdt => s.loadBootGdt k
  | .reloadCs => { s with cs := 8 }
  | .readCs => { s with csSel := s.cs }
  | .idtClearAll => { s with mem := Kernel.idtClearAll s.mem k.idt }
  | .installGate vector isr typeAttr => s.installGate k vector isr typeAttr
  | _ => s

/-- The stub behind the gate of a vector, if the gate is present and leads to one. -/
def stubOf (s : EntryState) (vector : UInt8) : Option (Isr × GateDescriptor) := do
  let g ← s.idtr.gate? s.mem vector
  let isr ← k.handlerAt g.offset
  if g.Present then some (isr, g) else none

/-- Delivery through the gate of a vector; an interrupt gate clears the interrupt flag. -/
def deliver (s : EntryState) (vector : UInt8) : EntryState :=
  match s.stubOf k vector with
  | none => s.leave
  | some (isr, g) =>
      { s with
        hw := { s.hw with interrupts := g.typeAttr &&& 1 = 1 && s.hw.interrupts }
        cs := g.selector
        code := isrOps isr
        saved := (s.code, s.hw.interrupts, s.cs) :: s.saved
        halted := false }

/-- One operation. -/
def stepOp (s : EntryState) : Option EntryState :=
  match s.code with
  | [] => none
  | .op .hlt :: code => some { s with code := code, halted := true }
  | .op (.waitTicks t) :: code =>
      if s.hw.irqCount t < 3 then some { s with code := .op .hlt :: .op (.waitTicks t) :: code }
      else some { s with code := code }
  | .op (.countTick t) :: code =>
      let n := s.hw.irqCount t + 1
      some { s with
        hw := { s.hw with irqCount := Function.update s.hw.irqCount t n }
        code := (if n ≤ 3 then (write (tickLine t n)).map fun i => .op (.io i) else []) ++ code }
  | .op .iretq :: _ =>
      match s.saved with
      | [] => none
      | (code, interrupts, cs) :: saved =>
          some { s with
            hw := { s.hw with interrupts := interrupts }, cs := cs, code := code, saved := saved }
  -- A fault finds no table of the kernel yet.
  | .flipWord :: code =>
      some ((s.flipWord k).elim s.leave fun s => { s with code := code })
  | .restoreWord :: code =>
      some ((s.restoreWord k).elim s.leave fun s => { s with code := code })
  | .int3 :: code => some (deliver k { s with code := code } kVectorBreakpoint)
  | .probe :: code =>
      match translateAddr s.mem s.cr3 kProbeUnmappedVa with
      | some _ => some { s with code := code }
      -- The saved RIP is that of the faulting instruction.
      | none => some (deliver k { s with cr2 := kProbeUnmappedVa } kVectorPageFault)
  | .reportCr2 :: code =>
      some { s with
        code := (if s.cr2 = kProbeUnmappedVa then print "STAGE 5: cr2 ok\n"
          else print "STAGE 5: cr2 bad\n") ++ code }
  | .skipProbe :: code =>
      match s.saved with
      | (.probe :: rest, interrupts, cs) :: saved =>
          some { s with code := code, saved := (rest, interrupts, cs) :: saved }
      | _ => some { s with code := code }
  | .haltLoop :: _ => some { s with hw := { s.hw with interrupts := false }, halted := true }
  | op :: code => some { s.exec k op with code := code }

end EntryState

/-! ## Interrupts -/

/-- What the interrupt controllers may deliver. -/
inductive InterruptSource where
  | pic1 (line : Fin 8)
  | pic2 (line : Fin 8)
  | lapicTimer
  | spurious
deriving DecidableEq, Repr

/-- The vector of a line, unless it is masked. -/
def Pic.deliverable (p : Pic) (line : Fin 8) : Option UInt8 :=
  if p.mask.toNat.testBit line then none else some (p.base + UInt8.ofNat line)

/-- The vector that a source delivers, if this code has programmed it to. -/
def EntryState.deliverable (s : EntryState) : InterruptSource → Option UInt8
  | .pic1 line => s.hw.pic1.deliverable line
  | .pic2 line => s.hw.pic2.deliverable line
  | .lapicTimer => s.lapic.lvtTimer.bind fun w =>
      if w &&& kLvtMasked = 0 then some w.toUInt8 else none
  | .spurious => s.lapic.svr.bind fun w => if w &&& 0x100 = 0 then none else some w.toUInt8

/-- The processor does an operation, or an interrupt is delivered. -/
inductive EntryEvent where
  | op
  | irq (src : InterruptSource)
deriving DecidableEq, Repr

def entryStep : EntryEvent → EntryState → Option EntryState
  | .op, s => if s.halted then none else s.stepOp k
  | .irq src, s =>
      if s.hw.interrupts then
        (s.deliverable src).map fun vector => if s.idtLoaded then s.deliver k vector else s.leave
      else none

/-- What the firmware leaves in the registers and the devices. -/
structure Firmware where
  gdtr : Gdtr
  idtr : Idtr
  cs : UInt16
  hw : Hw

/-- The state after the `CR3` load. -/
def Firmware.enter (fw : Firmware) (P : Paging) : EntryState where
  mem := P.mem
  cr3 := P.pml4Phys
  gdtr := fw.gdtr
  idtr := fw.idtr
  cs := fw.cs
  hw := fw.hw
  lapic := ⟨none, none⟩
  idtLoaded := false
  csSel := 0
  old := 0
  cr2 := 0
  code := entryCode
  saved := []
  halted := false
  crashed := false

end Execution

end Kernel
end OsBook
