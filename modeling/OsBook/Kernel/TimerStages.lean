import Mathlib.Logic.Function.Basic
import OsBook.Machine.Runs

/-!
# Stages 3 and 4: two timers and one serial port

The main program of the two stages and the two timer handlers, as lists of
operations on the devices they share: the serial port, the interrupt controller,
the local APIC, the IDT and the tick counters.  Between any two operations a
timer may be delivered if the hardware allows it.  A handler runs through the
stub of its vector, which restores every register, so a delivery only saves what
is left to do and the interrupt flag.

The rate of the timers is left out: their ticks arrive at any time.  So is the
interrupt shadow of `sti`, and the wait of the serial port before a character.
-/

namespace OsBook
namespace Kernel

open Machine

/-- The two sources of ticks. -/
inductive Timer where
  | pit
  | lapic
deriving DecidableEq, Repr

/-! ## Devices -/

/-- An 8259 interrupt controller. -/
structure Pic where
  base : UInt8
  mask : UInt8
  /-- Initialisation words that the data port still expects. -/
  initWords : Nat
deriving DecidableEq, Repr

/-- A write to the command port: `ICW1` starts an initialisation and clears the mask; other
commands, such as the end of interrupt, leave both alone. -/
def Pic.command (p : Pic) (value : UInt8) : Pic :=
  if value &&& 0x10 = 0 then p else { p with mask := 0, initWords := 3 }

/-- A write to the data port: the vector base, two more initialisation words, or the mask. -/
def Pic.data (p : Pic) (value : UInt8) : Pic :=
  match p.initWords with
  | 0 => { p with mask := value }
  | 3 => { p with base := value &&& 0xF8, initWords := 2 }
  | n + 1 => { p with initWords := n }

/-- The registers of the local APIC that the kernel writes. -/
structure Lapic where
  svr : UInt32
  timerDiv : UInt32
  lvtTimer : UInt32
  timerInit : UInt32
deriving DecidableEq, Repr

def kLapicRegSvr : UInt32 := 0xF0

def kLapicRegEoi : UInt32 := 0xB0

def kLapicRegVer : UInt32 := 0x30

def kLapicRegLvtTimer : UInt32 := 0x320

def kLapicRegTimerInit : UInt32 := 0x380

def kLapicRegTimerDiv : UInt32 := 0x3E0

def Lapic.write (l : Lapic) (reg value : UInt32) : Lapic :=
  if reg = kLapicRegSvr then { l with svr := value }
  else if reg = kLapicRegTimerDiv then { l with timerDiv := value }
  else if reg = kLapicRegLvtTimer then { l with lvtTimer := value }
  else if reg = kLapicRegTimerInit then { l with timerInit := value }
  else l

/-- Everything the main program and the handlers share. -/
structure Hw where
  interrupts : Bool
  pic1 : Pic
  pic2 : Pic
  lapic : Lapic
  /-- The handler and the type of a vector's gate, if a timer handler is installed. -/
  idt : UInt8 → Option (Timer × UInt8)
  irqCount : Timer → UInt64
  /-- The characters sent to the serial port. -/
  log : List Char

namespace Hw

def outb (hw : Hw) (port : UInt16) (value : UInt8) : Hw :=
  if port = 0x20 then { hw with pic1 := hw.pic1.command value }
  else if port = 0x21 then { hw with pic1 := hw.pic1.data value }
  else if port = 0xA0 then { hw with pic2 := hw.pic2.command value }
  else if port = 0xA1 then { hw with pic2 := hw.pic2.data value }
  else hw

/-- A tick of this timer would reach the processor: `IRQ0` is unmasked, or the local timer is
armed and its entry is unmasked. -/
def enabled (hw : Hw) : Timer → Bool
  | .pit => hw.pic1.mask &&& 1 = 0
  | .lapic => hw.lapic.timerInit ≠ 0 && hw.lapic.lvtTimer &&& 0x10000 = 0

/-- The vector of a timer: line 0 of the first controller, or the one in the timer's entry. -/
def vector (hw : Hw) : Timer → UInt8
  | .pit => hw.pic1.base
  | .lapic => hw.lapic.lvtTimer.toUInt8

end Hw

/-! ## Operations -/

/-- The operations that neither branch nor wait. -/
inductive Io where
  | writeChar (c : Char)
  | outb (port : UInt16) (value : UInt8)
  | lapicMmioRead (reg : UInt32)
  | lapicMmioWrite (reg value : UInt32)
  | idtSetGate (vector : UInt8) (handler : Timer) (typeAttr : UInt8)
  | resetCount (t : Timer)
  | cli
deriving DecidableEq, Repr

def Hw.io (hw : Hw) : Io → Hw
  | .writeChar c => { hw with log := hw.log ++ [c] }
  | .outb port value => hw.outb port value
  | .lapicMmioRead _ => hw
  | .lapicMmioWrite reg value => { hw with lapic := hw.lapic.write reg value }
  | .idtSetGate vector handler typeAttr =>
      { hw with idt := Function.update hw.idt vector (some (handler, typeAttr)) }
  | .resetCount t => { hw with irqCount := Function.update hw.irqCount t 0 }
  | .cli => { hw with interrupts := false }

inductive Op where
  | io (i : Io)
  | sti
  | hlt
  /-- `while (count < 3) hlt`. -/
  | waitTicks (t : Timer)
  /-- `n = ++count; if (n <= 3) write the tick's line`. -/
  | countTick (t : Timer)
  | iretq
deriving DecidableEq, Repr

/-! ## The kernel's code -/

/-- Consecutive characters. -/
def write (text : List Char) : List Io := text.map .writeChar

def writeStage3Begin : List Io := write "STAGE 3: begin\n".toList

def writeStage3PicOk : List Io := write "STAGE 3: pic ok\n".toList

def writeStage3PitOk : List Io := write "STAGE 3: pit ok\n".toList

def writeStage3Sti : List Io := write "STAGE 3: sti\n".toList

def writeStage3Done : List Io := write "STAGE 3: done\n".toList

def writeStage4Begin : List Io := write "STAGE 4: begin\n".toList

def writeStage4PicMasked : List Io := write "STAGE 4: pic mask\n".toList

def writeStage4LapicMmio : List Io := write "STAGE 4: lapic mmio\n".toList

def writeStage4Svr : List Io := write "STAGE 4: svr\n".toList

def writeStage4TimerArm : List Io := write "STAGE 4: timer\n".toList

def writeStage4Sti : List Io := write "STAGE 4: sti\n".toList

def writeStage4Done : List Io := write "STAGE 4: done\n".toList

def writeStage3IrqTick (digit : Char) : List Char := "STAGE 3: irq ".toList ++ [digit, '\n']

def writeStage4IrqTick (digit : Char) : List Char := "STAGE 4: irq ".toList ++ [digit, '\n']

/-- The line for the `n`-th tick of a timer. -/
def tickLine (t : Timer) (n : UInt64) : List Char :=
  let digit := Char.ofNat ('0'.toNat + n.toNat)
  match t with
  | .pit => writeStage3IrqTick digit
  | .lapic => writeStage4IrqTick digit

/-- Remap both controllers to vectors `0x20` and `0x28`, and mask all lines but `IRQ0`. -/
def picRemapAndMask : List Io :=
  [.outb 0x20 0x11, .outb 0xA0 0x11, .outb 0x21 0x20, .outb 0xA1 0x28, .outb 0x21 4,
   .outb 0xA1 2, .outb 0x21 1, .outb 0xA1 1, .outb 0x21 0xFE, .outb 0xA1 0xFF]

def picMaskAll : List Io := [.outb 0x21 0xFF, .outb 0xA1 0xFF]

def pitSetFrequency (hz : Nat) : List Io :=
  let divisor := 1193182 / hz
  let divisor := if divisor > 0xFFFF then 0xFFFF else divisor
  let divisor := if divisor < 2 then 2 else divisor
  [.outb 0x43 0x36, .outb 0x40 (UInt8.ofNat (divisor &&& 0xFF)),
   .outb 0x40 (UInt8.ofNat (divisor >>> 8))]

def kIdtTypeInt64 : UInt8 := 0x8E

def kVectorIRQ0 : UInt8 := 32

def kVectorLapicTimer : UInt8 := 34

def kLvtTimerPeriodic : UInt32 := (1 : UInt32) <<< 17

def kLvtMasked : UInt32 := (1 : UInt32) <<< 16

def kLapicTimerDivide16 : UInt32 := 3

def kLapicInitCount : UInt32 := 0x80000

/-- From the start of Stage 3 to its `sti`. -/
def stage3Setup : List Io :=
  writeStage3Begin ++ (picRemapAndMask ++ (writeStage3PicOk ++ (pitSetFrequency 100 ++
    (writeStage3PitOk ++ (.idtSetGate kVectorIRQ0 .pit kIdtTypeInt64 :: (writeStage3Sti ++
      [.resetCount .pit]))))))

/-- From the `cli` of Stage 3 to the `sti` of Stage 4. -/
def stage4Setup : List Io :=
  writeStage3Done ++ (writeStage4Begin ++ (picMaskAll ++ (writeStage4PicMasked ++
    (.lapicMmioRead kLapicRegVer :: (writeStage4LapicMmio ++
      (.lapicMmioWrite kLapicRegSvr 0x1FF :: (writeStage4Svr ++
        (.lapicMmioWrite kLapicRegTimerDiv kLapicTimerDivide16 ::
          .lapicMmioWrite kLapicRegLvtTimer (kVectorLapicTimer.toUInt32 ||| kLvtTimerPeriodic) ::
          .lapicMmioWrite kLapicRegTimerInit kLapicInitCount :: (writeStage4TimerArm ++
            (.idtSetGate kVectorLapicTimer .lapic kIdtTypeInt64 :: (writeStage4Sti ++
              [.resetCount .lapic])))))))))))

/-- From the `cli` of Stage 4 to its end. -/
def stage4Finish : List Io :=
  .lapicMmioWrite kLapicRegLvtTimer kLvtMasked :: writeStage4Done

/-- Enable interrupts, wait for three ticks, and disable interrupts. -/
def tickWindow (t : Timer) (rest : List Op) : List Op :=
  .sti :: .waitTicks t :: .io .cli :: rest

/-- Stages 3 and 4 of `kernel_entry`. -/
def kernelEntry : List Op :=
  stage3Setup.map .io ++ tickWindow .pit (stage4Setup.map .io ++
    tickWindow .lapic (stage4Finish.map .io))

/-- `timer_irq_dispatch` and `lapic_timer_dispatch`: the end of interrupt, then the count. -/
def acknowledge : Timer → Io
  | .pit => .outb 0x20 0x20
  | .lapic => .lapicMmioWrite kLapicRegEoi 0

def dispatch (t : Timer) : List Op := [.io (acknowledge t), .countTick t]

/-- The handler of a timer's vector. -/
def handler (t : Timer) : List Op := dispatch t ++ [.iretq]

/-! ## Execution -/

structure State where
  hw : Hw
  /-- What is left of the running code. -/
  code : List Op
  /-- What is left of the interrupted code, and its interrupt flag. -/
  saved : List (List Op × Bool)
  halted : Bool
  /-- A tick was delivered to a vector without a handler. -/
  crashed : Bool

/-- One operation. -/
def stepOp (s : State) : Option State :=
  match s.code with
  | [] => none
  | .io i :: code => some { s with hw := s.hw.io i, code := code }
  | .sti :: code => some { s with hw := { s.hw with interrupts := true }, code := code }
  | .hlt :: code => some { s with code := code, halted := true }
  | .waitTicks t :: code =>
      -- The test and `hlt` are two steps: a tick may come between them.
      if s.hw.irqCount t < 3 then some { s with code := .hlt :: .waitTicks t :: code }
      else some { s with code := code }
  | .countTick t :: code =>
      let n := s.hw.irqCount t + 1
      some { s with
        hw := { s.hw with irqCount := Function.update s.hw.irqCount t n }
        code := (if n ≤ 3 then (write (tickLine t n)).map .io else []) ++ code }
  | .iretq :: _ =>
      match s.saved with
      | [] => none
      | (code, interrupts) :: saved =>
          some { s with hw := { s.hw with interrupts := interrupts }, code := code, saved := saved }

/-- Delivery through the gate of a vector; an interrupt gate clears the interrupt flag. -/
def deliver (s : State) (vector : UInt8) : State :=
  match s.hw.idt vector with
  | none => { s with code := [], saved := [], halted := true, crashed := true }
  | some (t, typeAttr) =>
      { s with
        hw := { s.hw with interrupts := typeAttr &&& 1 = 1 && s.hw.interrupts }
        code := handler t
        saved := (s.code, s.hw.interrupts) :: s.saved
        halted := false }

/-- The processor does an operation, or a timer's tick is delivered. -/
inductive Event where
  | op
  | tick (t : Timer)
deriving DecidableEq, Repr

def step : Event → State → Option State
  | .op, s => if s.halted then none else stepOp s
  | .tick t, s =>
      if s.hw.interrupts && s.hw.enabled t then some (deliver s (s.hw.vector t)) else none

/-- The start of Stage 3. -/
def start (hw : Hw) : State where
  hw := hw
  code := kernelEntry
  saved := []
  halted := false
  crashed := false

/-- Stage 4 is over. -/
def State.Completed (s : State) : Prop := s.code = [] ∧ s.saved = [] ∧ s.crashed = false

/-- The documented lines from `STAGE 3: begin` to `STAGE 4: done`. -/
def readmeLines : List String :=
  ["STAGE 3: begin", "STAGE 3: pic ok", "STAGE 3: pit ok", "STAGE 3: sti", "STAGE 3: irq 1",
   "STAGE 3: irq 2", "STAGE 3: irq 3", "STAGE 3: done", "STAGE 4: begin", "STAGE 4: pic mask",
   "STAGE 4: lapic mmio", "STAGE 4: svr", "STAGE 4: timer", "STAGE 4: sti", "STAGE 4: irq 1",
   "STAGE 4: irq 2", "STAGE 4: irq 3", "STAGE 4: done"]

/-- The documented log. -/
def readmeLog : List Char := readmeLines.flatMap fun line => line.toList ++ ['\n']

end Kernel
end OsBook
