import OsBook.Kernel.InterruptEntry
import OsBook.Machine.Records

/-!
# The interrupted stack

Every gate has IST 0, so delivery and the stub push onto the stack that was
interrupted.  Two parts of the System V contract depend on how far they push:
RSP must be a multiple of sixteen when a dispatcher is called, and the 128 bytes
below the interrupted RSP belong to the interrupted function.
-/

namespace OsBook
namespace Kernel

open Machine Memory

section Alignment

variable (env : Dispatcher → Cpu → Cpu) (ret : UInt64)

/-- The call of a plain stub. -/
theorem callEntry_plainStub (f : Dispatcher) (t : Cpu) :
    callEntry env ret (plainStub f) t =
      some ((run env ret (savedRegs.map .pushq ++ [.subqRsp 8]) t).push ret) := by
  rw [plainStub, List.append_assoc, callEntry_pushq, run_append]
  rfl

/-- RSP at the call: the frame, fifteen registers and the alignment slot lie between it and
the aligned stack pointer. -/
theorem callEntry_rsp (isr : Isr) (g : Gate) (err : UInt64) (s : Cpu) :
    ∃ e, callEntry env ret isr.code (s.deliver g (isr.errorCode err)) = some e ∧
      e.rsp + 8 = (s.rsp &&& ~~~0xf) -
        UInt64.ofNat (8 * (21 + (isr.errorCode err).toList.length)) := by
  have hplain : ∀ f, ∃ e, callEntry env ret (plainStub f) (s.deliver g none) = some e ∧
      e.rsp + 8 = (s.rsp &&& ~~~0xf) - 168 := by
    intro f
    have hnone : Words (s.deliver g none).mem (s.deliver g none).rsp [] := trivial
    obtain ⟨-, hrsp, -⟩ := run_save env ret hnone (by decide)
    refine ⟨_, callEntry_plainStub env ret f _, ?_⟩
    show (run env ret _ _).rsp - 8 + 8 = _
    rw [UInt64.sub_add_cancel, hrsp, deliver_rsp, sub_sub_eq]
    rfl
  cases isr with
  | breakpoint => exact hplain .breakpointDispatch
  | irq32 => exact hplain .timerIrqDispatch
  | lapicTimer => exact hplain .lapicTimerDispatch
  | pageFault =>
      have hnone : Words s.mem (s.rsp &&& ~~~0xf) [] := trivial
      obtain ⟨t, pad, hentry, -, -, hbase, -⟩ := pageFault_entry env ret g err hnone (by decide)
      refine ⟨t.push ret, hentry, ?_⟩
      show t.rsp - 8 + 8 = _
      rw [UInt64.sub_add_cancel, ← UInt64.add_sub_cancel t.rsp 8, hbase, spillBase, sub_sub_eq]
      rfl

/-- **Stack alignment at the dispatcher call.**  Only the stub whose frame has an error code
calls its dispatcher with an aligned stack: for the others the eight bytes that the stub
subtracts are the wrong parity. -/
theorem call_aligned_iff (isr : Isr) (g : Gate) (err : UInt64) (s : Cpu) :
    ∃ e, callEntry env ret isr.code (s.deliver g (isr.errorCode err)) = some e ∧
      ((e.rsp + 8).toNat % 16 = 0 ↔ isr = .pageFault) := by
  obtain ⟨e, hentry, hrsp⟩ := callEntry_rsp env ret isr g err s
  refine ⟨e, hentry, ?_⟩
  have haligned := toNat_and_not_f s.rsp
  have hlt := s.rsp.toNat_lt
  rw [hrsp, UInt64.toNat_sub, UInt64.toNat_ofNat', haligned]
  cases isr with
  | pageFault =>
      have hlen : (Isr.errorCode .pageFault err).toList.length = 1 := rfl
      rw [hlen]
      exact iff_of_true (by omega) rfl
  | breakpoint | irq32 | lapicTimer =>
      have hlen : (Option.toList (none : Option UInt64)).length = 0 := rfl
      simp only [Isr.errorCode, hlen]
      exact iff_of_false (by omega) (by decide)

end Alignment

/-- The breakpoint that Stage 2 raises, with an aligned stack pointer. -/
theorem breakpoint_misaligned :
    ¬ ∃ e, callEntry clobberingDispatchers 0x100300 Isr.breakpoint.code
      (Cpu.deliver ⟨0x100200, 0x08, 0x8F⟩ (Isr.breakpoint.errorCode 0)
        ⟨fun _ => 7, 0x200000, 0x100040, 0x202, 0x08, 0x10, fun _ => 0⟩) = some e ∧
      (e.rsp + 8).toNat % 16 = 0 := by
  have hentry : (callEntry clobberingDispatchers 0x100300 Isr.breakpoint.code
      (Cpu.deliver ⟨0x100200, 0x08, 0x8F⟩ (Isr.breakpoint.errorCode 0)
        ⟨fun _ => 7, 0x200000, 0x100040, 0x202, 0x08, 0x10, fun _ => 0⟩)).map
          (fun e => (e.rsp + 8).toNat % 16) = some 8 := rfl
  rintro ⟨e, he, hzero⟩
  rw [he, Option.map_some, hzero] at hentry
  cases hentry

/-! ## The red zone -/

/-- The bytes below RSP that an interrupted function may use. -/
def redZone : UInt64 := 128

/-- The red zone already holds the words that delivery and the stub leave there: from the
aligned stack pointer downwards the new stack selector, RSP, RFLAGS, CS, RIP, the error code
if there is one, and the registers. -/
def RedZoneHolds (isr : Isr) (err : UInt64) (s : Cpu) : Prop :=
  ∀ x, InBlock (s.rsp - redZone) 128 x →
    InBlock (spillBase s (isr.errorCode err)) (8 * (20 + (isr.errorCode err).toList.length)) x →
    s.mem x = wordsByte (spilled s (isr.errorCode err) (isr.resumeAt s.rip))
      (x - spillBase s (isr.errorCode err)).toNat

theorem length_errorCode (isr : Isr) (err : UInt64) : (isr.errorCode err).toList.length ≤ 1 := by
  cases isr <;> simp [Isr.errorCode]

/-- The red zone starts a few words above the lowest word of the stub. -/
theorem redZone_sub_spillBase {s : Cpu} {errorCode : Option UInt64}
    (hcode : errorCode.toList.length ≤ 1) :
    (s.rsp - redZone - spillBase s errorCode).toNat =
      s.rsp.toNat % 16 + 8 * (20 + errorCode.toList.length) - 128 := by
  have haligned := toNat_and_not_f s.rsp
  have hred : redZone.toNat = 128 := rfl
  have hrsp := s.rsp.toNat_lt
  rw [spillBase, UInt64.toNat_sub, UInt64.toNat_sub, UInt64.toNat_sub, hred, UInt64.toNat_ofNat',
    haligned]
  omega

/-- The distance of a live byte from the lowest word of the stub. -/
theorem sub_spillBase {s : Cpu} {errorCode : Option UInt64} {n : Nat} {x : UInt64}
    (hcode : errorCode.toList.length ≤ 1) (hn : callerStack + 16 + 8 * n + 8 ≤ 2 ^ 64)
    (hx : InBlock (s.rsp - redZone) (128 + 8 * n) x) :
    (x - spillBase s errorCode).toNat = (x - (s.rsp - redZone)).toNat +
      (s.rsp.toNat % 16 + 8 * (20 + errorCode.toList.length) - 128) := by
  have hsplit : x - spillBase s errorCode =
      (x - (s.rsp - redZone)) + (s.rsp - redZone - spillBase s errorCode) := by
    rw [UInt64.sub_eq_iff_eq_add, UInt64.add_assoc, UInt64.sub_add_cancel, UInt64.sub_add_cancel]
  have hstart := redZone_sub_spillBase (s := s) hcode
  have hstack : callerStack = 176 := rfl
  unfold InBlock at hx
  rw [hsplit, toNat_add_of_lt (by omega), hstart]

/-- The words of the stub end at the aligned stack pointer. -/
theorem spillBase_add (s : Cpu) (errorCode : Option UInt64) :
    spillBase s errorCode + UInt64.ofNat (8 * (20 + errorCode.toList.length)) =
      s.rsp &&& ~~~0xf := by
  rw [spillBase, UInt64.sub_add_cancel]

/-- **The interrupted stack.**  Each stub keeps all bytes from the red zone upwards exactly if
the red zone already holds the words that are pushed into it. -/
theorem interrupt_keeps_live_iff {env : Dispatcher → Cpu → Cpu} {n : Nat}
    (henv : DispatchersKeep (callerStack + 16 + 8 * n) env)
    (hn : callerStack + 16 + 8 * n + 8 ≤ 2 ^ 64) (ret : UInt64) (isr : Isr) (g : Gate)
    (err : UInt64) (s : Cpu) :
    (∀ x, InBlock (s.rsp - redZone) (128 + 8 * n) x →
      (interrupt env ret isr g err s).mem x = s.mem x) ↔ RedZoneHolds isr err s := by
  have hcode := length_errorCode isr err
  have habove := words_wordsAt s.mem (s.rsp &&& ~~~0xf) (n + 2)
  have hroom : 8 * (22 + (s.mem.wordsAt (s.rsp &&& ~~~0xf) (n + 2)).length) ≤
      callerStack + 16 + 8 * n := by
    have hstack : callerStack = 176 := rfl
    rw [length_wordsAt, hstack]
    omega
  have hstack := (interrupt_returned henv ret isr g err habove hroom hn).stack
  unfold RedZoneHolds
  generalize (interrupt env ret isr g err s).mem = m at hstack
  generalize isr.errorCode err = code at hcode hstack
  have hstackLen : callerStack = 176 := rfl
  have hlen := length_spilled s code (isr.resumeAt s.rip)
  have hspilled : ∀ x, InBlock (spillBase s code) (8 * (20 + code.toList.length)) x →
      m x = wordsByte (spilled s code (isr.resumeAt s.rip)) (x - spillBase s code).toNat := by
    intro x hx
    rw [← hlen] at hx
    exact (hstack.take).byte hx (by omega)
  have hkept : ∀ x, InBlock (s.rsp &&& ~~~0xf) (8 * (n + 2)) x → m x = s.mem x := by
    intro x hx
    have hdrop := Words.drop _ hstack
    rw [hlen, spillBase_add] at hdrop
    rw [hdrop.byte (by rwa [length_wordsAt]) (by rw [length_wordsAt]; omega),
      habove.byte (by rwa [length_wordsAt]) (by rw [length_wordsAt]; omega)]
  constructor
  · intro h x hred hspill
    rw [← hspilled x hspill]
    exact (h x (hred.mono (by omega))).symm
  · intro h x hx
    have hoff := sub_spillBase hcode hn hx
    unfold InBlock at hx
    by_cases hspill : InBlock (spillBase s code) (8 * (20 + code.toList.length)) x
    · -- A word of the stub: below RSP, so in the red zone.
      have hred : InBlock (s.rsp - redZone) 128 x := by
        unfold InBlock at hspill ⊢
        omega
      rw [hspilled x hspill, h x hred hspill]
    · apply hkept
      rw [← spillBase_add s code, inBlock_offset (by omega)]
      unfold InBlock at hspill
      omega

theorem clobberingDispatchers_keep (n : Nat) : DispatchersKeep n clobberingDispatchers :=
  ⟨fun _ _ _ => rfl, fun _ _ _ _ _ => rfl⟩

/-- A timer tick, with four words of the interrupted function above its stack pointer. -/
theorem interrupt_keeps_live_iff_irq32 :
    (∀ x, InBlock (0x200000 - redZone) (128 + 8 * 4) x →
      (interrupt clobberingDispatchers 0x100300 .irq32 ⟨0x100200, 0x08, 0x8E⟩ 0
        ⟨fun _ => 7, 0x200000, 0x100040, 0x202, 0x08, 0x10, fun _ => 0⟩).mem x = 0) ↔
      RedZoneHolds .irq32 0 ⟨fun _ => 7, 0x200000, 0x100040, 0x202, 0x08, 0x10, fun _ => 0⟩ :=
  interrupt_keeps_live_iff (clobberingDispatchers_keep _) (by decide) 0x100300 .irq32
    ⟨0x100200, 0x08, 0x8E⟩ 0 ⟨fun _ => 7, 0x200000, 0x100040, 0x202, 0x08, 0x10, fun _ => 0⟩

/-- A timer tick in a leaf function whose red zone is all zero: the word below RSP becomes the
stack selector. -/
theorem irq32_clobbers_redZone :
    DispatchersKeep (callerStack + 16 + 8 * 4) clobberingDispatchers ∧
      ¬ ∀ x, InBlock (0x200000 - redZone) (128 + 8 * 4) x →
        (interrupt clobberingDispatchers 0x100300 .irq32 ⟨0x100200, 0x08, 0x8E⟩ 0
          ⟨fun _ => 7, 0x200000, 0x100040, 0x202, 0x08, 0x10, fun _ => 0⟩).mem x = 0 := by
  refine ⟨clobberingDispatchers_keep _, fun h => ?_⟩
  have hselector : (interrupt clobberingDispatchers 0x100300 .irq32 ⟨0x100200, 0x08, 0x8E⟩ 0
      ⟨fun _ => 7, 0x200000, 0x100040, 0x202, 0x08, 0x10, fun _ => 0⟩).mem 0x1FFFF8 = 0x10 := by
    decide +kernel
  have hkept := h 0x1FFFF8 (by decide)
  rw [hselector] at hkept
  exact absurd hkept (by decide)

end Kernel
end OsBook
