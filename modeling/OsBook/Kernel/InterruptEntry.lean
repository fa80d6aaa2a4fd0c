import OsBook.Machine.Cpu

/-!
# The interrupt stubs

The four stubs save the fifteen general registers, call a compiled dispatcher
and return with `iretq` after putting the kernel's data selector into the frame.
A page fault has an error code below the frame; its stub passes the dispatcher a
pointer to it, and the dispatcher moves the saved RIP past the faulting
instruction.

The stack contents at every point are a list of words: the frame of delivery,
then the saved registers, then the alignment slot and the return address.  What
the stubs rely on is that a dispatcher keeps these words, apart from `frame[1]`
(`DispatchersOk`); since every general register is saved, nothing is needed of
the registers a dispatcher may change.
-/

namespace OsBook
namespace Kernel

open Machine Memory

/-- The compiled functions called by the stubs. -/
inductive Dispatcher where
  | breakpointDispatch
  | timerIrqDispatch
  | lapicTimerDispatch
  | pageFaultDispatch
deriving DecidableEq, Repr

/-! ## The listings -/

/-- `isr_breakpoint` (vector 3). -/
def isrBreakpoint : List (Insn Dispatcher) :=
  [.pushq .rax, .pushq .rcx, .pushq .rdx, .pushq .rbx, .pushq .rbp, .pushq .rsi, .pushq .rdi,
   .pushq .r8, .pushq .r9, .pushq .r10, .pushq .r11, .pushq .r12, .pushq .r13, .pushq .r14,
   .pushq .r15, .subqRsp 8, .call .breakpointDispatch, .addqRsp 8, .popq .r15,
   .popq .r14, .popq .r13, .popq .r12, .popq .r11, .popq .r10, .popq .r9, .popq .r8,
   .popq .rdi, .popq .rsi, .popq .rbp, .popq .rbx, .popq .rdx, .popq .rcx, .popq .rax,
   .movwRsp 0x10 32, .iretq]

/-- `isr_irq32` (vector 32). -/
def isrIrq32 : List (Insn Dispatcher) :=
  [.pushq .rax, .pushq .rcx, .pushq .rdx, .pushq .rbx, .pushq .rbp, .pushq .rsi, .pushq .rdi,
   .pushq .r8, .pushq .r9, .pushq .r10, .pushq .r11, .pushq .r12, .pushq .r13, .pushq .r14,
   .pushq .r15, .subqRsp 8, .call .timerIrqDispatch, .addqRsp 8, .popq .r15,
   .popq .r14, .popq .r13, .popq .r12, .popq .r11, .popq .r10, .popq .r9, .popq .r8,
   .popq .rdi, .popq .rsi, .popq .rbp, .popq .rbx, .popq .rdx, .popq .rcx, .popq .rax,
   .movwRsp 0x10 32, .iretq]

/-- `isr_lapic_timer` (vector 34). -/
def isrLapicTimer : List (Insn Dispatcher) :=
  [.pushq .rax, .pushq .rcx, .pushq .rdx, .pushq .rbx, .pushq .rbp, .pushq .rsi, .pushq .rdi,
   .pushq .r8, .pushq .r9, .pushq .r10, .pushq .r11, .pushq .r12, .pushq .r13, .pushq .r14,
   .pushq .r15, .subqRsp 8, .call .lapicTimerDispatch, .addqRsp 8, .popq .r15,
   .popq .r14, .popq .r13, .popq .r12, .popq .r11, .popq .r10, .popq .r9, .popq .r8,
   .popq .rdi, .popq .rsi, .popq .rbp, .popq .rbx, .popq .rdx, .popq .rcx, .popq .rax,
   .movwRsp 0x10 32, .iretq]

/-- `isr_page_fault` (vector 14): the error code is passed to the dispatcher and dropped
before the return. -/
def isrPageFault : List (Insn Dispatcher) :=
  [.pushq .rax, .pushq .rcx, .pushq .rdx, .pushq .rbx, .pushq .rbp, .pushq .rsi, .pushq .rdi,
   .pushq .r8, .pushq .r9, .pushq .r10, .pushq .r11, .pushq .r12, .pushq .r13, .pushq .r14,
   .pushq .r15, .subqRsp 8, .leaqRsp 128 .rdi, .call .pageFaultDispatch, .addqRsp 8,
   .popq .r15, .popq .r14, .popq .r13, .popq .r12, .popq .r11, .popq .r10, .popq .r9,
   .popq .r8, .popq .rdi, .popq .rsi, .popq .rbp, .popq .rbx, .popq .rdx, .popq .rcx,
   .popq .rax, .addqRsp 8, .movwRsp 0x10 32, .iretq]

/-- The stubs. -/
inductive Isr where
  | breakpoint
  | irq32
  | lapicTimer
  | pageFault
deriving DecidableEq, Repr

def Isr.code : Isr → List (Insn Dispatcher)
  | breakpoint => isrBreakpoint
  | irq32 => isrIrq32
  | lapicTimer => isrLapicTimer
  | pageFault => isrPageFault

/-- Only a page fault pushes an error code. -/
def Isr.errorCode (isr : Isr) (err : UInt64) : Option UInt64 :=
  match isr with
  | pageFault => some err
  | _ => none

/-! ## The dispatchers -/

def kPfProbeInsnLen : UInt64 := 2

/-- `page_fault_dispatch` on the memory of its caller: `frame[1] += kPfProbeInsnLen`. -/
def pageFaultDispatch (frame : UInt64) (mem : Memory) : Memory :=
  mem.store64 (frame + 8) (mem.load64 (frame + 8) + kPfProbeInsnLen)

/-- What a dispatcher writes to the stack of its caller. -/
def callerEffect : Dispatcher → Cpu → Memory
  | .pageFaultDispatch, s => pageFaultDispatch (s.regs .rdi) s.mem
  | _, s => s.mem

/-- The bytes in use above the return address of a dispatcher: the alignment slot, fifteen
registers, and the frame of delivery with an error code. -/
def callerStack : Nat := 8 * (1 + 15 + 6)

/-- `frame[0]` and `frame[1]` are part of the caller's stack. -/
def FrameArgument : Dispatcher → Cpu → Prop
  | .pageFaultDispatch, s => (s.regs .rdi - (s.rsp + 8)).toNat + 16 ≤ callerStack
  | _, _ => True

/-- The compiled dispatchers return with RSP as at the call, and write to the stack of their
caller only what the source writes there. -/
structure DispatchersOk (env : Dispatcher → Cpu → Cpu) : Prop where
  rsp : ∀ f s, FrameArgument f s → (env f s).rsp = s.rsp + 8
  stack : ∀ f s, FrameArgument f s → ∀ x, InBlock (s.rsp + 8) callerStack x →
    (env f s).mem x = callerEffect f s x

/-- The same for the first `n` bytes of the caller's stack. -/
structure DispatchersKeep (n : Nat) (env : Dispatcher → Cpu → Cpu) : Prop where
  rsp : ∀ f s, FrameArgument f s → (env f s).rsp = s.rsp + 8
  stack : ∀ f s, FrameArgument f s → ∀ x, InBlock (s.rsp + 8) n x →
    (env f s).mem x = callerEffect f s x

theorem DispatchersOk.keep {env : Dispatcher → Cpu → Cpu} (h : DispatchersOk env) :
    DispatchersKeep callerStack env :=
  ⟨h.rsp, h.stack⟩

/-- Delivery, the stub, and the return to the interrupted code. -/
def interrupt (env : Dispatcher → Cpu → Cpu) (ret : UInt64) (isr : Isr) (g : Gate) (err : UInt64)
    (s : Cpu) : Cpu :=
  run env ret isr.code (s.deliver g (isr.errorCode err))

/-! ## Symbolic execution of a stub -/

/-- The registers in the order in which they are saved. -/
def savedRegs : List Reg :=
  [.rax, .rcx, .rdx, .rbx, .rbp, .rsi, .rdi, .r8, .r9, .r10, .r11, .r12, .r13, .r14, .r15]

theorem mem_savedRegs (r : Reg) : r ∈ savedRegs.reverse := by
  cases r <;> decide

section Stubs

variable (env : Dispatcher → Cpu → Cpu) (ret : UInt64)

/-- The start of a stub: the frame is followed by the saved registers and the alignment
slot. -/
theorem run_save {frame : List UInt64} {s : Cpu} (h : Words s.mem s.rsp frame)
    (hlen : 8 * (16 + frame.length) ≤ 2 ^ 64) :
    (run env ret (savedRegs.map .pushq ++ [.subqRsp 8]) s).regs = s.regs ∧
      (run env ret (savedRegs.map .pushq ++ [.subqRsp 8]) s).rsp = s.rsp - 128 ∧
      ∃ pad, Words (run env ret (savedRegs.map .pushq ++ [.subqRsp 8]) s).mem (s.rsp - 128)
        (pad :: (savedRegs.reverse.map s.regs ++ frame)) := by
  have hcount : savedRegs.length = 15 := rfl
  obtain ⟨hregs, hwords⟩ := run_pushq env ret savedRegs h (by omega)
  have hpushed := run_pushq_rsp env ret savedRegs s
  rw [run_append]
  generalize run env ret (savedRegs.map .pushq) s = t at hregs hwords hpushed
  have hsub : run env ret [.subqRsp 8] t = { t with rsp := t.rsp - 8 } := rfl
  have hrsp : t.rsp - 8 = s.rsp - 128 := by
    rw [hpushed, sub_sub_eq]
    rfl
  have hpad : Words t.mem (t.rsp - 8)
      (t.mem.load64 (t.rsp - 8) :: (savedRegs.reverse.map s.regs ++ frame)) := by
    refine ⟨rfl, ?_⟩
    rw [UInt64.sub_add_cancel]
    exact hwords
  rw [hsub]
  rw [hrsp] at hpad
  exact ⟨hregs, hrsp, _, hpad⟩

/-- A call keeps the words of the caller's stack, up to the effect on `frame[1]`. -/
theorem call_words {n : Nat} (henv : DispatchersKeep n env) {f : Dispatcher} {s : Cpu}
    {ws : List UInt64} (harg : FrameArgument f (s.push ret)) (hlen : 8 * ws.length ≤ n)
    (hn : n ≤ 2 ^ 64) (h : Words (callerEffect f (s.push ret)) s.rsp ws) :
    (exec env ret s (.call f)).rsp = s.rsp ∧ Words (exec env ret s (.call f)).mem s.rsp ws := by
  have htop : (s.push ret).rsp + 8 = s.rsp := UInt64.sub_add_cancel s.rsp 8
  refine ⟨(henv.rsp f _ harg).trans htop, ?_⟩
  apply h.congr (by omega)
  intro x hx
  apply henv.stack f _ harg
  rw [htop]
  exact InBlock.mono hx hlen

/-- The end of a stub: the saved registers come back, and memory is only read. -/
theorem run_restore {pad : UInt64} {f : Reg → UInt64} {frame : List UInt64} {s : Cpu}
    (h : Words s.mem s.rsp (pad :: (savedRegs.reverse.map f ++ frame))) :
    (run env ret (.addqRsp 8 :: savedRegs.reverse.map .popq) s).regs = f ∧
      (run env ret (.addqRsp 8 :: savedRegs.reverse.map .popq) s).mem = s.mem ∧
      (run env ret (.addqRsp 8 :: savedRegs.reverse.map .popq) s).rsp = s.rsp + 128 := by
  rw [run_cons]
  obtain ⟨hregs, -⟩ := run_popq env ret savedRegs.reverse f
    (s := exec env ret s (.addqRsp 8)) h.tail
  obtain ⟨hmem, hrsp⟩ := run_popq_frame env ret savedRegs.reverse (exec env ret s (.addqRsp 8))
  refine ⟨funext fun r => ?_, hmem, hrsp.trans (UInt64.add_assoc s.rsp 8 _)⟩
  rw [hregs r, if_pos (mem_savedRegs r)]

/-- The interrupted code continues at `rip`, with everything else as it was, apart from the
stack selector. -/
structure Resumed (s : Cpu) (rip : UInt64) (s' : Cpu) : Prop where
  regs : s'.regs = s.regs
  rip : s'.rip = rip
  cs : s'.cs = s.cs
  rflags : s'.rflags = s.rflags
  rsp : s'.rsp = s.rsp
  ss : s'.ss = 0x10

/-- The return through a frame that follows other words. -/
theorem resumed_of_frame {s t : Cpu} {rip base : UInt64} {above : List UInt64}
    (us : List UInt64) (hregs : t.regs = s.regs)
    (hrsp : t.rsp = base + UInt64.ofNat (8 * us.length))
    (h : Words t.mem base
      (us ++ ([rip, s.cs.toUInt64, s.rflags, s.rsp, s.ss.toUInt64] ++ above)))
    (hlen : 8 * (us.length + (5 + above.length)) ≤ 2 ^ 64) :
    Resumed s rip (run env ret [.movwRsp 0x10 32, .iretq] t) ∧
      Words (run env ret [.movwRsp 0x10 32, .iretq] t).mem base
        (us ++ ([rip, s.cs.toUInt64, s.rflags, s.rsp, 0x10] ++ above)) := by
  have hframe := Words.take _ (Words.drop us h)
  rw [← hrsp] at hframe
  rw [run_movw_iretq 0x10 hframe]
  refine ⟨⟨hregs, rfl, UInt16.toUInt16_toUInt64 s.cs, rfl, rfl, rfl⟩, ?_⟩
  -- The selector is the fifth word of the frame.
  have hsplit : ∀ w, us ++ ([rip, s.cs.toUInt64, s.rflags, s.rsp, w] ++ above) =
      (us ++ [rip, s.cs.toUInt64, s.rflags, s.rsp]) ++ w :: above := by
    intro w
    simp
  have haddr : t.rsp + 32 =
      base + UInt64.ofNat (8 * (us ++ [rip, s.cs.toUInt64, s.rflags, s.rsp]).length) := by
    rw [hrsp, List.length_append, Nat.mul_add, UInt64.ofNat_add, ← UInt64.add_assoc]
    rfl
  rw [hsplit] at h ⊢
  show Words (t.mem.store16 (t.rsp + 32) 0x10) base _
  rw [haddr]
  apply Words.store16 _ h
  simp only [List.length_append, List.length_cons, List.length_nil]
  omega

/-- The common form of the stubs without an error code. -/
def plainStub (f : Dispatcher) : List (Insn Dispatcher) :=
  (savedRegs.map .pushq ++ [.subqRsp 8]) ++
    (.call f :: ((.addqRsp 8 :: savedRegs.reverse.map .popq) ++ [.movwRsp 0x10 32, .iretq]))

/-- The words that delivery and a stub leave below the interrupted stack: the registers, the
error code, and the frame with its new stack selector. -/
def spilled (s : Cpu) (errorCode : Option UInt64) (rip : UInt64) : List UInt64 :=
  (savedRegs.reverse.map s.regs ++ errorCode.toList) ++
    [rip, s.cs.toUInt64, s.rflags, s.rsp, 0x10]

@[simp] theorem length_spilled (s : Cpu) (errorCode : Option UInt64) (rip : UInt64) :
    (spilled s errorCode rip).length = 20 + errorCode.toList.length := by
  have hcount : savedRegs.length = 15 := rfl
  simp only [spilled, List.length_append, List.length_map, List.length_reverse, hcount,
    List.length_cons, List.length_nil]
  omega

/-- Where these words start. -/
def spillBase (s : Cpu) (errorCode : Option UInt64) : UInt64 :=
  (s.rsp &&& ~~~0xf) - UInt64.ofNat (8 * (20 + errorCode.toList.length))

/-- The frame of delivery lies behind the fifteen registers. -/
theorem deliver_rsp_sub (g : Gate) (errorCode : Option UInt64) (s : Cpu) :
    (s.deliver g errorCode).rsp - 120 = spillBase s errorCode := by
  have hlen : 8 * (20 + errorCode.toList.length) = 8 * (5 + errorCode.toList.length) + 120 := by
    omega
  rw [deliver_rsp, sub_sub_eq, spillBase, hlen, UInt64.ofNat_add]
  rfl

/-- A stub has returned, and these are the words it has left on the stack. -/
structure Returned (s : Cpu) (errorCode : Option UInt64) (rip : UInt64) (above : List UInt64)
    (s' : Cpu) : Prop where
  resumed : Resumed s rip s'
  stack : Words s'.mem (spillBase s errorCode) (spilled s errorCode rip ++ above)

variable {n : Nat} {above : List UInt64}

/-- The stubs without an error code, for a dispatcher that takes no argument. -/
theorem returned_plain (henv : DispatchersKeep n env) (f : Dispatcher)
    (harg : ∀ t, FrameArgument f t) (heffect : ∀ t, callerEffect f t = t.mem) (g : Gate)
    {s : Cpu} (habove : Words s.mem (s.rsp &&& ~~~0xf) above)
    (hlen : 8 * (21 + above.length) ≤ n) (hn : n + 8 ≤ 2 ^ 64) :
    Returned s none s.rip above (run env ret (plainStub f) (s.deliver g none)) := by
  have hframe := words_deliver g none habove (by omega)
  have hbase := deliver_rsp_sub g none s
  have hregs₀ : (s.deliver g none).regs = s.regs := rfl
  generalize s.deliver g none = t₀ at hframe hbase hregs₀
  -- Save, call, restore, return: the frame is followed through the four parts.
  have hcount : savedRegs.length = 15 := rfl
  obtain ⟨hregs₁, hrsp₁, pad, hsaved⟩ := run_save env ret hframe
    (by simp only [List.length_append, List.length_cons, Option.toList, List.length_nil]; omega)
  rw [plainStub, run_append, run_cons, run_append]
  generalize run env ret (savedRegs.map .pushq ++ [.subqRsp 8]) t₀ = t₁ at hregs₁ hrsp₁ hsaved
  rw [← hrsp₁, hregs₀] at hsaved
  have hlen₁ : (pad :: (savedRegs.reverse.map s.regs ++ (Option.toList none ++
      ([s.rip, s.cs.toUInt64, s.rflags, s.rsp, s.ss.toUInt64] ++ above)))).length =
        21 + above.length := by
    simp only [List.length_append, List.length_cons, List.length_map, List.length_reverse, hcount,
      Option.toList, List.length_nil]
    omega
  have heffect₁ := words_push hsaved ret (by omega)
  rw [← heffect (t₁.push ret)] at heffect₁
  obtain ⟨hrsp₂, hcall⟩ := call_words env ret henv (harg _) (by omega) (by omega) heffect₁
  rw [← hrsp₂] at hcall
  obtain ⟨hregs₃, hmem₃, hrsp₃⟩ := run_restore env ret hcall
  have hstack := hcall.tail
  have hbase₃ : (exec env ret t₁ (.call f)).rsp + 8 = spillBase s none := by
    rw [hrsp₂, hrsp₁, ← hbase, show (128 : UInt64) = 120 + 8 by rfl, ← sub_sub_eq,
      UInt64.sub_add_cancel]
  have hend₃ : (exec env ret t₁ (.call f)).rsp + 128 = spillBase s none +
      UInt64.ofNat (8 * (savedRegs.reverse.map s.regs ++ Option.toList none).length) := by
    rw [← hbase₃, UInt64.add_assoc]
    rfl
  rw [hbase₃, ← hmem₃] at hstack
  obtain ⟨hresumed, hwords⟩ := resumed_of_frame env ret
    (savedRegs.reverse.map s.regs ++ Option.toList none) hregs₃ (hrsp₃.trans hend₃)
    (by rw [List.append_assoc]; exact hstack)
    (by
      simp only [List.length_append, List.length_map, List.length_reverse, hcount, Option.toList,
        List.length_nil]
      omega)
  refine ⟨hresumed, ?_⟩
  rw [spilled, List.append_assoc]
  exact hwords

/-- What the page-fault stub has prepared when it calls its dispatcher. -/
theorem pageFault_entry (g : Gate) (err : UInt64) {s : Cpu}
    (habove : Words s.mem (s.rsp &&& ~~~0xf) above) (hroom : 8 * (22 + above.length) ≤ 2 ^ 64) :
    ∃ t pad, callEntry env ret isrPageFault (s.deliver g (some err)) = some (t.push ret) ∧
      run env ret isrPageFault (s.deliver g (some err)) =
        run env ret ((.addqRsp 8 :: savedRegs.reverse.map .popq) ++
          [.addqRsp 8, .movwRsp 0x10 32, .iretq]) (exec env ret t (.call .pageFaultDispatch)) ∧
      t.regs .rdi = t.rsp + 128 ∧ t.rsp + 8 = spillBase s (some err) ∧
      Words t.mem t.rsp (pad :: (savedRegs.reverse.map s.regs ++
        (err :: ([s.rip, s.cs.toUInt64, s.rflags, s.rsp, s.ss.toUInt64] ++ above)))) := by
  have hframe := words_deliver g (some err) habove (by omega)
  have hbase := deliver_rsp_sub g (some err) s
  have hregs₀ : (s.deliver g (some err)).regs = s.regs := rfl
  generalize s.deliver g (some err) = t₀ at hframe hbase hregs₀
  obtain ⟨-, hrsp, pad, hsaved⟩ := run_save env ret hframe
    (by simp only [List.length_append, List.length_cons, Option.toList, List.length_nil]; omega)
  rw [hregs₀, ← hrsp] at hsaved
  have hcode : isrPageFault = savedRegs.map .pushq ++ (.subqRsp 8 :: .leaqRsp 128 .rdi ::
      .call .pageFaultDispatch :: ((.addqRsp 8 :: savedRegs.reverse.map .popq) ++
        [.addqRsp 8, .movwRsp 0x10 32, .iretq])) := rfl
  rw [run_append] at hsaved hrsp
  rw [hcode, callEntry_pushq, run_append, run_cons, run_cons, run_cons]
  generalize run env ret (savedRegs.map .pushq) t₀ = t₁ at hsaved hrsp
  -- `leaq` changes only `rdi`, which has been saved.
  have hlea : ∀ u : Cpu, (exec env ret u (.leaqRsp 128 .rdi)).regs .rdi = u.rsp + 128 := by
    intro u
    simp [exec]
  have hspill : (run env ret [.subqRsp 8] t₁).rsp + 8 = spillBase s (some err) := by
    rw [hrsp, ← hbase, show (128 : UInt64) = 120 + 8 by rfl, ← sub_sub_eq, UInt64.sub_add_cancel]
  exact ⟨exec env ret (exec env ret t₁ (.subqRsp 8)) (.leaqRsp 128 .rdi), pad, rfl, rfl,
    hlea _, hspill, hsaved⟩

/-- The page-fault dispatcher overwrites the word behind the error code, which is the saved RIP. -/
theorem words_pageFaultDispatch {t : Cpu} {pad err rip : UInt64} {values rest : List UInt64}
    (hlen : values.length = 15) (hrdi : (t.push ret).regs .rdi = t.rsp + 128)
    (hentered : Words (t.push ret).mem t.rsp (pad :: (values ++ (err :: rip :: rest))))
    (hroom : 8 * (pad :: (values ++ (err :: rip :: rest))).length ≤ 2 ^ 64) :
    Words (callerEffect .pageFaultDispatch (t.push ret)) t.rsp
      (pad :: (values ++ (err :: (rip + 2) :: rest))) := by
  have haddr : t.rsp + 128 + 8 = t.rsp + UInt64.ofNat (8 * (pad :: (values ++ [err])).length) := by
    rw [List.length_cons, List.length_append, hlen]
    exact UInt64.add_assoc t.rsp 128 8
  have hsplit : ∀ r, pad :: (values ++ (err :: r :: rest)) = (pad :: (values ++ [err])) ++
      (r :: rest) := by
    intro r
    simp
  rw [hsplit] at hentered hroom ⊢
  have hrip : (t.push ret).mem.load64 (t.rsp + 128 + 8) = rip := by
    rw [haddr]
    exact (Words.drop _ hentered).head
  show Words ((t.push ret).mem.store64 ((t.push ret).regs .rdi + 8)
    ((t.push ret).mem.load64 ((t.push ret).regs .rdi + 8) + 2)) t.rsp _
  rw [hrdi, hrip, haddr]
  exact Words.store _ hentered (rip + 2) (by omega)

/-- The stub with an error code: the saved RIP has been advanced. -/
theorem returned_pageFault (henv : DispatchersKeep n env) (g : Gate) (err : UInt64) {s : Cpu}
    (habove : Words s.mem (s.rsp &&& ~~~0xf) above) (hlen : 8 * (22 + above.length) ≤ n)
    (hn : n + 8 ≤ 2 ^ 64) :
    Returned s (some err) (s.rip + 2) above (run env ret isrPageFault (s.deliver g (some err))) ∧
      ∃ e, callEntry env ret isrPageFault (s.deliver g (some err)) = some e ∧
        e.mem.load64 (e.regs .rdi) = err ∧ e.mem.load64 (e.regs .rdi + 8) = s.rip := by
  obtain ⟨t, pad, hentry, hrun, hrdi, hbase, hsaved⟩ :=
    pageFault_entry env ret g err habove (by omega)
  have hcount : savedRegs.length = 15 := rfl
  have hlen₁ : ∀ rip, (pad :: (savedRegs.reverse.map s.regs ++ (err :: ([rip,
      s.cs.toUInt64, s.rflags, s.rsp, s.ss.toUInt64] ++ above)))).length = 22 + above.length := by
    intro rip
    simp only [List.length_append, List.length_cons, List.length_map, List.length_reverse, hcount,
      List.length_nil]
    omega
  have hentered := words_push hsaved ret (by rw [hlen₁]; omega)
  -- The frame argument points behind the sixteen words of the stub.
  have hframe : Words (t.push ret).mem (t.rsp + 128) (err :: ([s.rip, s.cs.toUInt64, s.rflags,
      s.rsp, s.ss.toUInt64] ++ above)) :=
    Words.drop (pad :: savedRegs.reverse.map s.regs) hentered
  have hrdi' : (t.push ret).regs .rdi = t.rsp + 128 := hrdi
  have hrip : (t.push ret).mem.load64 (t.rsp + 128 + 8) = s.rip := hframe.tail.head
  refine ⟨?_, t.push ret, hentry, ?_, ?_⟩
  · have harg : FrameArgument .pageFaultDispatch (t.push ret) := by
      show ((t.push ret).regs .rdi - (t.rsp - 8 + 8)).toNat + 16 ≤ callerStack
      rw [hrdi', UInt64.sub_add_cancel, UInt64.add_comm, UInt64.add_sub_cancel]
      decide
    have hroom : 8 * (22 + above.length) ≤ 2 ^ 64 := by omega
    rw [← hlen₁ s.rip] at hroom
    have hstore : Words (callerEffect .pageFaultDispatch (t.push ret)) t.rsp
        (pad :: (savedRegs.reverse.map s.regs ++ (err :: ([s.rip + 2, s.cs.toUInt64, s.rflags,
          s.rsp, s.ss.toUInt64] ++ above)))) :=
      words_pageFaultDispatch ret (by simp [hcount]) hrdi' hentered hroom
    obtain ⟨hrsp₂, hcall⟩ := call_words env ret henv harg (by rw [hlen₁]; omega) (by omega) hstore
    rw [← hrsp₂] at hcall
    obtain ⟨hregs₃, hmem₃, hrsp₃⟩ := run_restore env ret hcall
    have hstack := hcall.tail
    rw [hrsp₂, hbase, ← hmem₃] at hstack
    rw [hrun, run_append, run_cons]
    generalize run env ret (.addqRsp 8 :: savedRegs.reverse.map .popq)
      (exec env ret t (.call .pageFaultDispatch)) = u at hregs₃ hrsp₃ hstack
    have hend : (exec env ret u (.addqRsp 8)).rsp = spillBase s (some err) +
        UInt64.ofNat (8 * (savedRegs.reverse.map s.regs ++ Option.toList (some err)).length) := by
      show u.rsp + 8 = _
      rw [hrsp₃, hrsp₂, ← hbase, UInt64.add_assoc, UInt64.add_assoc]
      rfl
    obtain ⟨hresumed, hwords⟩ := resumed_of_frame env ret (t := exec env ret u (.addqRsp 8))
      (savedRegs.reverse.map s.regs ++ Option.toList (some err)) hregs₃ hend
      (by rw [List.append_assoc]; exact hstack)
      (by
        simp only [List.length_append, List.length_map, List.length_reverse, hcount,
          Option.toList, List.length_cons, List.length_nil]
        omega)
    refine ⟨hresumed, ?_⟩
    rw [spilled, List.append_assoc]
    exact hwords
  · rw [hrdi']
    exact hframe.head
  · rw [hrdi']
    exact hrip

end Stubs

/-- Where the interrupted code continues. -/
def Isr.resumeAt : Isr → (rip : UInt64) → UInt64
  | pageFault, rip => rip + 2
  | _, rip => rip

/-- Every stub returns with its words on the stack. -/
theorem interrupt_returned {env : Dispatcher → Cpu → Cpu} {n : Nat} {above : List UInt64}
    (henv : DispatchersKeep n env) (ret : UInt64) (isr : Isr) (g : Gate) (err : UInt64) {s : Cpu}
    (habove : Words s.mem (s.rsp &&& ~~~0xf) above) (hlen : 8 * (22 + above.length) ≤ n)
    (hn : n + 8 ≤ 2 ^ 64) :
    Returned s (isr.errorCode err) (isr.resumeAt s.rip) above (interrupt env ret isr g err s) := by
  -- The three plain stubs differ in their dispatcher only.
  have hplain := fun f harg heffect => returned_plain env ret henv f harg heffect g habove
    (by omega) hn
  cases isr with
  | breakpoint => exact hplain .breakpointDispatch (fun _ => trivial) fun _ => rfl
  | irq32 => exact hplain .timerIrqDispatch (fun _ => trivial) fun _ => rfl
  | lapicTimer => exact hplain .lapicTimerDispatch (fun _ => trivial) fun _ => rfl
  | pageFault => exact (returned_pageFault env ret henv g err habove hlen hn).1

/-- **Interrupt transparency.**  From every interrupted state, each stub returns to the
interrupted code with all registers as they were; a page fault resumes two bytes later, and
its dispatcher has seen the error code and the saved RIP. -/
theorem interrupt_resumes {env : Dispatcher → Cpu → Cpu} (henv : DispatchersOk env)
    (ret : UInt64) (isr : Isr) (g : Gate) (err : UInt64) (s : Cpu) :
    Resumed s (isr.resumeAt s.rip) (interrupt env ret isr g err s) ∧
      (isr = .pageFault →
        ∃ e, callEntry env ret isr.code (s.deliver g (isr.errorCode err)) = some e ∧
          e.mem.load64 (e.regs .rdi) = err ∧ e.mem.load64 (e.regs .rdi + 8) = s.rip) := by
  have hnone : Words s.mem (s.rsp &&& ~~~0xf) [] := trivial
  refine ⟨(interrupt_returned henv.keep ret isr g err hnone (by decide) (by decide)).resumed, ?_⟩
  rintro rfl
  exact (returned_pageFault env ret henv.keep g err hnone (by decide) (by decide)).2

/-- Dispatchers that clobber every register System V allows them to. -/
def clobberingDispatchers (f : Dispatcher) (s : Cpu) : Cpu :=
  { s with
    regs := fun r =>
      if r ∈ [Reg.rax, .rcx, .rdx, .rsi, .rdi, .r8, .r9, .r10, .r11] then 0 else s.regs r
    rsp := s.rsp + 8
    mem := callerEffect f s }

/-- A page fault with an odd stack pointer. -/
theorem interrupt_resumes_unaligned :
    Resumed ⟨fun _ => 7, 0x200003, 0x100040, 0x202, 0x08, 0x30, fun _ => 0⟩ 0x100042
      (interrupt clobberingDispatchers 0x100300 .pageFault ⟨0x100200, 0x08, 0x8F⟩ 0
        ⟨fun _ => 7, 0x200003, 0x100040, 0x202, 0x08, 0x30, fun _ => 0⟩) := by
  have henv : DispatchersOk clobberingDispatchers :=
    ⟨fun _ _ _ => rfl, fun _ _ _ _ _ => rfl⟩
  exact (interrupt_resumes henv 0x100300 .pageFault ⟨0x100200, 0x08, 0x8F⟩ 0
    ⟨fun _ => 7, 0x200003, 0x100040, 0x202, 0x08, 0x30, fun _ => 0⟩).1

end Kernel
end OsBook
