import Mathlib.Logic.Function.Basic
import OsBook.Machine.Stack

/-!
# Interrupt delivery and straight-line stack code

The part of an x86-64 processor that an interrupt stub touches: the fifteen
general registers, RSP, RIP, RFLAGS, two selectors and memory.  A stub is a list
of instructions that run one after the other; it may call compiled code, which
is a parameter.

Left out are the arithmetic flags set by `sub` and `add`, since nothing reads
them before `iretq` reloads RFLAGS, and descriptor checks.
-/

namespace OsBook
namespace Machine

/-- The general registers other than RSP. -/
inductive Reg where
  | rax | rcx | rdx | rbx | rbp | rsi | rdi
  | r8 | r9 | r10 | r11 | r12 | r13 | r14 | r15
deriving DecidableEq, Repr

structure Cpu where
  regs : Reg → UInt64
  rsp : UInt64
  rip : UInt64
  rflags : UInt64
  cs : UInt16
  ss : UInt16
  mem : Memory

/-- What delivery uses of an IDT gate. -/
structure Gate where
  offset : UInt64
  selector : UInt16
  typeAttr : UInt8
deriving DecidableEq, Repr

/-- RFLAGS in the handler: TF, NT, RF and VM are cleared, and IF too unless the gate is a
trap gate. -/
def Gate.handlerFlags (g : Gate) (rflags : UInt64) : UInt64 :=
  if g.typeAttr &&& 1 = 1 then rflags &&& ~~~0x34100 else rflags &&& ~~~0x34300

namespace Cpu

def push (s : Cpu) (w : UInt64) : Cpu :=
  { s with rsp := s.rsp - 8, mem := s.mem.store64 (s.rsp - 8) w }

/-- Delivery through a gate, on the current stack. -/
def deliver (g : Gate) (errorCode : Option UInt64) (s : Cpu) : Cpu :=
  let t : Cpu := { s with rsp := s.rsp &&& ~~~0xf }
  let t := t.push s.ss.toUInt64
  let t := t.push s.rsp
  let t := t.push s.rflags
  let t := t.push s.cs.toUInt64
  let t := t.push s.rip
  let t := match errorCode with
    | none => t
    | some e => t.push e
  { t with rip := g.offset, cs := g.selector, rflags := g.handlerFlags s.rflags }

end Cpu

/-- The instructions of the stubs; `α` names the functions they call. -/
inductive Insn (α : Type) where
  | pushq (r : Reg)
  | popq (r : Reg)
  | subqRsp (n : UInt64)
  | addqRsp (n : UInt64)
  | leaqRsp (disp : UInt64) (dst : Reg)
  | call (f : α)
  | movwRsp (imm : UInt16) (disp : UInt64)
  | iretq
deriving DecidableEq, Repr

section Exec

variable {α : Type} (env : α → Cpu → Cpu) (ret : UInt64)

/-- One instruction.  A callee runs from the state in which the return address has been
pushed to the state after its `ret`. -/
def exec (s : Cpu) : Insn α → Cpu
  | .pushq r => s.push (s.regs r)
  | .popq r =>
      { s with regs := Function.update s.regs r (s.mem.load64 s.rsp), rsp := s.rsp + 8 }
  | .subqRsp n => { s with rsp := s.rsp - n }
  | .addqRsp n => { s with rsp := s.rsp + n }
  | .leaqRsp disp dst => { s with regs := Function.update s.regs dst (s.rsp + disp) }
  | .call f => env f (s.push ret)
  | .movwRsp imm disp => { s with mem := s.mem.store16 (s.rsp + disp) imm }
  | .iretq =>
      { s with
        rip := s.mem.load64 s.rsp
        cs := s.mem.load16 (s.rsp + 8)
        rflags := s.mem.load64 (s.rsp + 16)
        rsp := s.mem.load64 (s.rsp + 24)
        ss := s.mem.load16 (s.rsp + 32) }

/-- The instructions of a list in order. -/
def run (code : List (Insn α)) (s : Cpu) : Cpu := code.foldl (exec env ret) s

/-- The state in which the first call of a list enters its callee. -/
def callEntry : List (Insn α) → Cpu → Option Cpu
  | [], _ => none
  | .call _ :: _, s => some (s.push ret)
  | i :: code, s => callEntry code (exec env ret s i)

variable {env ret}

theorem run_append (code code' : List (Insn α)) (s : Cpu) :
    run env ret (code ++ code') s = run env ret code' (run env ret code s) :=
  List.foldl_append

theorem run_cons (i : Insn α) (code : List (Insn α)) (s : Cpu) :
    run env ret (i :: code) s = run env ret code (exec env ret s i) := rfl

open Memory

/-- A push keeps the words that are already there. -/
theorem words_push {s : Cpu} {ws : List UInt64} (h : Words s.mem s.rsp ws) (w : UInt64)
    (hlen : 8 * ws.length + 8 ≤ 2 ^ 64) : Words (s.push w).mem s.rsp ws := by
  have hpushed := (h.push w hlen).tail
  rwa [UInt64.sub_add_cancel] at hpushed

variable (env ret)

/-- Pushing registers puts their values in front of the stack, the last one first. -/
theorem run_pushq (rs : List Reg) {s : Cpu} {ws : List UInt64} (h : Words s.mem s.rsp ws)
    (hlen : 8 * (rs.length + ws.length) ≤ 2 ^ 64) :
    (run env ret (rs.map Insn.pushq) s).regs = s.regs ∧
      Words (run env ret (rs.map Insn.pushq) s).mem (run env ret (rs.map Insn.pushq) s).rsp
        (rs.reverse.map s.regs ++ ws) := by
  induction rs generalizing s ws with
  | nil => exact ⟨rfl, h⟩
  | cons r rs ih =>
      rw [List.length_cons] at hlen
      have hpush : Words (s.push (s.regs r)).mem (s.push (s.regs r)).rsp (s.regs r :: ws) :=
        h.push (s.regs r) (by omega)
      obtain ⟨hregs, hwords⟩ := ih hpush (by rw [List.length_cons]; omega)
      rw [List.map_cons, run_cons]
      refine ⟨hregs, ?_⟩
      rw [List.reverse_cons, List.map_append, List.append_assoc]
      exact hwords

/-- Pushing registers moves RSP down. -/
theorem run_pushq_rsp (rs : List Reg) (s : Cpu) :
    (run env ret (rs.map Insn.pushq) s).rsp = s.rsp - UInt64.ofNat (8 * rs.length) := by
  induction rs generalizing s with
  | nil => exact (UInt64.sub_zero s.rsp).symm
  | cons r rs ih =>
      have hrsp : (exec env ret s (Insn.pushq r)).rsp = s.rsp - 8 := rfl
      have hlen : UInt64.ofNat (8 * (rs.length + 1)) = 8 + UInt64.ofNat (8 * rs.length) := by
        rw [Nat.mul_succ, UInt64.ofNat_add, UInt64.add_comm]
        rfl
      rw [List.map_cons, run_cons, ih, hrsp, List.length_cons, hlen, sub_sub_eq]

/-- Pops only read memory, and move RSP up. -/
theorem run_popq_frame (rs : List Reg) (s : Cpu) :
    (run env ret (rs.map Insn.popq) s).mem = s.mem ∧
      (run env ret (rs.map Insn.popq) s).rsp = s.rsp + UInt64.ofNat (8 * rs.length) := by
  induction rs generalizing s with
  | nil => exact ⟨rfl, (UInt64.add_zero s.rsp).symm⟩
  | cons r rs ih =>
      obtain ⟨hmem, hrsp⟩ := ih (exec env ret s (Insn.popq r))
      rw [List.map_cons, run_cons, List.length_cons, Memory.add_ofNat_succ]
      exact ⟨hmem, hrsp⟩

/-- Popping registers takes their values from the front of the stack. -/
theorem run_popq (rs : List Reg) (f : Reg → UInt64) {s : Cpu} {ws : List UInt64}
    (h : Words s.mem s.rsp (rs.map f ++ ws)) :
    (∀ r, (run env ret (rs.map Insn.popq) s).regs r = if r ∈ rs then f r else s.regs r) ∧
      Words (run env ret (rs.map Insn.popq) s).mem (run env ret (rs.map Insn.popq) s).rsp ws := by
  induction rs generalizing s with
  | nil => exact ⟨fun r => (if_neg List.not_mem_nil).symm, h⟩
  | cons r rs ih =>
      rw [List.map_cons, run_cons]
      obtain ⟨hregs, hwords⟩ := ih (s := exec env ret s (Insn.popq r)) h.tail
      refine ⟨fun q => (hregs q).trans ?_, hwords⟩
      have hpop : (exec env ret s (Insn.popq r)).regs = Function.update s.regs r (f r) := by
        rw [exec, h.head]
      rw [hpop, Function.update_apply]
      by_cases hq : q = r
      · subst hq
        simp
      · simp [hq]

variable {env ret}

/-- Pushes call nobody. -/
theorem callEntry_pushq (rs : List Reg) (code : List (Insn α)) (s : Cpu) :
    callEntry env ret (rs.map Insn.pushq ++ code) s =
      callEntry env ret code (run env ret (rs.map Insn.pushq) s) := by
  induction rs generalizing s with
  | nil => rfl
  | cons r rs ih => exact ih (exec env ret s (Insn.pushq r))

/-- Returning through a five-word frame whose stack selector has just been replaced. -/
theorem run_movw_iretq {s : Cpu} {rip cs rflags rsp ss : UInt64} (imm : UInt16)
    (h : Words s.mem s.rsp [rip, cs, rflags, rsp, ss]) :
    run env ret [Insn.movwRsp imm 32, Insn.iretq] s =
      { s with
        mem := s.mem.store16 (s.rsp + 32) imm
        rip := rip
        cs := cs.toUInt16
        rflags := rflags
        rsp := rsp
        ss := imm } := by
  have hss := load16_store16_same s.mem (s.rsp + 32) imm
  -- The store hits the fifth word only.
  have hframe : Words (s.mem.store16 (s.rsp + 32) imm) s.rsp [rip, cs, rflags, rsp] :=
    Words.store16_end (Words.take [rip, cs, rflags, rsp] h) imm
      (show 8 * 4 + 2 ≤ 2 ^ 64 by decide)
  show exec env ret { s with mem := s.mem.store16 (s.rsp + 32) imm } Insn.iretq = _
  generalize s.mem.store16 (s.rsp + 32) imm = m at hss hframe
  have hrip : m.load64 s.rsp = rip := hframe.head
  have hcs : m.load64 (s.rsp + 8) = cs := hframe.tail.head
  have hrflags : m.load64 (s.rsp + 16) = rflags := by
    rw [show (16 : UInt64) = 8 + 8 by rfl, ← UInt64.add_assoc]
    exact hframe.tail.tail.head
  have hrsp : m.load64 (s.rsp + 24) = rsp := by
    rw [show (24 : UInt64) = 8 + 8 + 8 by rfl, ← UInt64.add_assoc, ← UInt64.add_assoc]
    exact hframe.tail.tail.tail.head
  rw [exec]
  simp only [load16_eq m (s.rsp + 8), hrip, hcs, hrflags, hrsp, hss]

end Exec

/-- Delivery leaves RSP five words below the aligned one, or six with an error code. -/
theorem deliver_rsp (g : Gate) (errorCode : Option UInt64) (s : Cpu) :
    (s.deliver g errorCode).rsp =
      (s.rsp &&& ~~~0xf) - UInt64.ofNat (8 * (5 + errorCode.toList.length)) := by
  cases errorCode with
  | none =>
      show (s.rsp &&& ~~~0xf) - 8 - 8 - 8 - 8 - 8 = _
      simp only [sub_sub_eq]
      rfl
  | some e =>
      show (s.rsp &&& ~~~0xf) - 8 - 8 - 8 - 8 - 8 - 8 = _
      simp only [sub_sub_eq]
      rfl

/-- The frame that delivery leaves on the stack, in front of the words that are there. -/
theorem words_deliver (g : Gate) (errorCode : Option UInt64) {s : Cpu} {above : List UInt64}
    (h : Memory.Words s.mem (s.rsp &&& ~~~0xf) above) (hlen : 8 * (above.length + 6) ≤ 2 ^ 64) :
    Memory.Words (s.deliver g errorCode).mem (s.deliver g errorCode).rsp
      (errorCode.toList ++ ([s.rip, s.cs.toUInt64, s.rflags, s.rsp, s.ss.toUInt64] ++ above)) := by
  have hss := h.push s.ss.toUInt64 (by omega)
  have hrsp := hss.push s.rsp (by rw [List.length_cons]; omega)
  have hrflags := hrsp.push s.rflags (by simp only [List.length_cons]; omega)
  have hcs := hrflags.push s.cs.toUInt64 (by simp only [List.length_cons]; omega)
  have hrip := hcs.push s.rip (by simp only [List.length_cons]; omega)
  cases errorCode with
  | none => exact hrip
  | some e => exact hrip.push e (by simp only [List.length_cons]; omega)

end Machine
end OsBook
