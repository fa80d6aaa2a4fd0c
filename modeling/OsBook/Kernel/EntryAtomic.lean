import OsBook.Kernel.EntryReturn
import OsBook.Machine.Atomic

/-!
# `kernel_entry` with its handlers as single steps

A handler is a block of steps in the sense of `Machine.Atomic`
(`entry_blocks`), so every reachable state of the kernel comes from a run in
which each exception and each interrupt is handled at once
(`entry_runs_atomically`).  In such a run the main program is always somewhere
in its code (`MainAt`); what it does there is `OpMove` and `IrqMove`.
-/

namespace OsBook
namespace Kernel

open Machine

/-! ## Handlers are blocks -/

/-- A handler is running. -/
def EntryState.Busy (s : EntryState) : Prop := s.saved ≠ []

instance : DecidablePred EntryState.Busy := fun s => inferInstanceAs (Decidable (s.saved ≠ []))

/-- The reachable states, with the handler that is running. -/
def Steady (k : LoadedKernel) (s₀ s : EntryState) : Prop :=
  EntryInv k s₀ s ∧ (s.saved ≠ [] → ∃ body, Handling s body)

/-- A step whose handlers are done at once. -/
def atomicStep (k : LoadedKernel) : EntryEvent → EntryState → Option EntryState :=
  atomically (entryStep k) EntryState.Busy (EntryState.finish k)

section Blocks

variable {k : LoadedKernel} {s s' s₀ : EntryState} {body : List EntryOp}

/-- The operations of a handler do not change how much code is interrupted. -/
theorem EntryState.handle_saved {op : EntryOp} (hop : op.inHandler = true) (s : EntryState) :
    (s.handle k op).saved.length = s.saved.length := by
  cases op with
  | op o =>
      cases o with
      | io i =>
          rcases inHandler_io hop with ⟨c, rfl⟩ | ⟨t, rfl⟩
          · rfl
          · cases t <;> rfl
      | countTick t => rfl
      | sti => cases hop
      | hlt => cases hop
      | waitTicks t => cases hop
      | iretq => cases hop
  | skipProbe =>
      show (skipFault s.saved).length = s.saved.length
      unfold skipFault
      split
      · rename_i hsaved
        rw [hsaved]
        rfl
      · rfl
  | _ => rfl

/-- A handler that has interrupted the main program returns to it. -/
theorem Handling.finish_saved (h : Handling s body) (hone : s.saved.length = 1) :
    (s.finish k).saved = [] := by
  induction body generalizing s with
  | nil =>
      obtain ⟨frame, hsaved⟩ := List.length_eq_one_iff.mp hone
      unfold EntryState.finish
      rw [h.code]
      show (s.handle k (.op .iretq)).saved = []
      simp only [EntryState.handle, hsaved]
  | cons op body ih =>
      rw [← h.finish_rest]
      exact ih h.rest ((EntryState.handle_saved (h.inHandler op (by simp)) s).trans hone)

/-- Interrupts are disabled while a handler runs, and it has interrupted the main program. -/
theorem EntryInv.of_saved (hinv : EntryInv k s₀ s) (hsaved : s.saved ≠ [])
    (hbody : Handling s body) : s.hw.interrupts = false ∧ s.saved.length = 1 := by
  cases hinv with
  | main hcode hat hnone hsetup => exact absurd hnone hsaved
  | handler hcode hat hsaved hoff hbody hin hsetup =>
      refine ⟨hoff, ?_⟩
      rw [hsaved]
      rfl
  | left hcode hoff =>
      have hcons := hbody.code
      rw [hcode] at hcons
      exact absurd hcons.symm (by simp)

/-- A delivery starts a handler, or leaves the kernel. -/
theorem deliver_saved (hsaved : s.saved = []) (vector : UInt8) :
    (s.deliver k vector).saved = [] ∨ ∃ body, Handling (s.deliver k vector) body := by
  cases hstub : s.stubOf k vector with
  | none =>
      left
      unfold EntryState.deliver
      rw [hstub]
      rfl
  | some found =>
      obtain ⟨isr, g⟩ := found
      exact Or.inr (handling_deliver hsaved hstub)

/-- Of the operations of the main program, only the breakpoint and the probe start a handler. -/
theorem stepOp_delivers (hsaved : s.saved = []) (hstep : s.stepOp k = some s') :
    s'.saved = [] ∨
      (∃ code, s.code = .int3 :: code ∧
        s' = EntryState.deliver k { s with code := code } kVectorBreakpoint) ∨
      ∃ code, s.code = .probe :: code ∧
        s' = EntryState.deliver k { s with cr2 := kProbeUnmappedVa } kVectorPageFault := by
  unfold EntryState.stepOp at hstep
  split at hstep
  · cases hstep
  · obtain rfl := Option.some.inj hstep
    exact Or.inl hsaved
  · split at hstep
    all_goals
      obtain rfl := Option.some.inj hstep
      exact Or.inl hsaved
  · obtain rfl := Option.some.inj hstep
    exact Or.inl hsaved
  · rw [hsaved] at hstep
    cases hstep
  · obtain rfl := Option.some.inj hstep
    left
    cases hflip : s.flipWord k with
    | none => rfl
    | some t =>
        obtain ⟨r, -, rfl⟩ := Option.map_eq_some_iff.mp hflip
        exact hsaved
  · obtain rfl := Option.some.inj hstep
    left
    cases hrestore : s.restoreWord k with
    | none => rfl
    | some t =>
        obtain ⟨r, -, rfl⟩ := Option.map_eq_some_iff.mp hrestore
        exact hsaved
  · rename_i code hcode
    exact Or.inr (Or.inl ⟨code, hcode, (Option.some.inj hstep).symm⟩)
  · rename_i code hcode
    split at hstep
    · obtain rfl := Option.some.inj hstep
      exact Or.inl hsaved
    · exact Or.inr (Or.inr ⟨code, hcode, (Option.some.inj hstep).symm⟩)
  · obtain rfl := Option.some.inj hstep
    exact Or.inl hsaved
  · rw [hsaved] at hstep
    obtain rfl := Option.some.inj hstep
    exact Or.inl rfl
  · obtain rfl := Option.some.inj hstep
    exact Or.inl hsaved
  · obtain rfl := Option.some.inj hstep
    exact Or.inl ((s.exec_saved k _).1.trans hsaved)

/-- A step of the main program that starts a handler starts it with its first operation. -/
theorem stepOp_saved (hsaved : s.saved = []) (hstep : s.stepOp k = some s') :
    s'.saved = [] ∨ ∃ body, Handling s' body := by
  rcases stepOp_delivers hsaved hstep with hnone | ⟨code, -, rfl⟩ | ⟨code, -, rfl⟩
  · exact Or.inl hnone
  · exact deliver_saved (by exact hsaved) _
  · exact deliver_saved (by exact hsaved) _

/-- While a handler runs, nothing happens but its next operation. -/
theorem Handling.only_op (h : Handling s body) (hoff : s.hw.interrupts = false) {e : EntryEvent}
    (hstep : entryStep k e s = some s') : e = .op ∧ s.stepOp k = some s' := by
  cases e with
  | op =>
      simp only [entryStep, h.halted, Bool.false_eq_true, if_false] at hstep
      exact ⟨rfl, hstep⟩
  | irq src =>
      simp only [entryStep, hoff, Bool.false_eq_true, if_false] at hstep
      cases hstep

/-- **Handlers are blocks.** -/
theorem entry_blocks (hsafe : ∀ done rest, done ++ rest = entryCode →
    Safe k rest (s₀.after k done)) :
    Blocks (entryStep k) .op (Steady k s₀) EntryState.Busy (EntryState.finish k) where
  keeps := by
    rintro e s s' ⟨hinv, hbusy⟩ hstep
    refine ⟨hinv.step hsafe hstep, fun hsaved' => ?_⟩
    by_cases hsaved : s.saved = []
    · cases e with
      | op =>
          simp only [entryStep] at hstep
          split at hstep
          · cases hstep
          · exact (stepOp_saved hsaved hstep).resolve_left hsaved'
      | irq src =>
          simp only [entryStep] at hstep
          split at hstep
          · obtain ⟨vector, -, rfl⟩ := Option.map_eq_some_iff.mp hstep
            split at hsaved'
            · rename_i hloaded
              rw [if_pos hloaded]
              exact (deliver_saved hsaved vector).resolve_left hsaved'
            · exact absurd rfl hsaved'
          · cases hstep
    · obtain ⟨body, hbody⟩ := hbusy hsaved
      obtain ⟨hoff, hone⟩ := hinv.of_saved hsaved hbody
      obtain ⟨rfl, hop⟩ := hbody.only_op hoff hstep
      rcases hbody.step hop with rfl | ⟨-, hnext⟩
      · exact absurd (hbody.finish_saved hone) hsaved'
      · exact hnext
  inside := by
    rintro e s s' ⟨hinv, hbusy⟩ hsaved hstep
    obtain ⟨body, hbody⟩ := hbusy hsaved
    obtain ⟨hoff, hone⟩ := hinv.of_saved hsaved hbody
    obtain ⟨rfl, hop⟩ := hbody.only_op hoff hstep
    rcases hbody.step hop with rfl | ⟨hsame, body', hbody'⟩
    · exact settle_of_not_busy fun h => h (hbody.finish_saved hone)
    · rw [settle_of_busy (show s'.Busy from hbody'.saved), hsame]
  ended := by
    rintro s ⟨hinv, hbusy⟩ hsaved hfinish
    obtain ⟨body, hbody⟩ := hbusy hsaved
    exact hfinish (hbody.finish_saved (hinv.of_saved hsaved hbody).2)
  ends := by
    rintro s ⟨-, hbusy⟩ hsaved
    obtain ⟨body, hbody⟩ := hbusy hsaved
    exact hbody.repeats

end Blocks

/-! ## The windows as places in the program -/

/-- The program up to the window of a timer. -/
def toWindow : Timer → List EntryOp
  | .pit => toStage3Window
  | .lapic => toStage4Window

/-- The program behind the window of a timer. -/
def behindWindow : Timer → List EntryOp
  | .pit => (stage4Setup.map fun i => .op (.io i)) ++ stage4Window
  | .lapic => (stage4Finish.map fun i => .op (.io i)) ++ stage5

/-- The window of a timer and the program behind it. -/
def windowOf (t : Timer) : List EntryOp :=
  .op .sti :: .op (.waitTicks t) :: .op (.io .cli) :: behindWindow t

theorem entryCode_window (t : Timer) : entryCode = toWindow t ++ windowOf t := by
  cases t with
  | pit => exact entryCode_eq
  | lapic =>
      rw [entryCode_eq]
      simp only [toWindow, windowOf, behindWindow, toStage4Window, stage3Window, stage4Window,
        List.append_assoc, List.cons_append, List.nil_append]

section Places

variable {done rest tail : List EntryOp} {op : EntryOp} {t : Timer}

/-- The wait of a timer has one place. -/
theorem place_waitTicks (hcode : done ++ .op (.waitTicks t) :: tail = entryCode) :
    done = toWindow t ++ [.op .sti] ∧ tail = .op (.io .cli) :: behindWindow t := by
  have hbefore : EntryOp.op (.waitTicks t) ∉ toWindow t ++ [.op .sti] := by
    cases t <;> decide +kernel
  have hbehind : EntryOp.op (.waitTicks t) ∉ EntryOp.op (.io .cli) :: behindWindow t := by
    cases t <;> decide +kernel
  have hsplit : (toWindow t ++ [.op .sti]) ++ .op (.waitTicks t) :: .op (.io .cli) ::
      behindWindow t = done ++ .op (.waitTicks t) :: tail := by
    rw [hcode, entryCode_window t, windowOf, List.append_assoc, List.singleton_append]
  obtain ⟨hdone, -, htail⟩ := (List.append_cons_inj_of_notMem hbefore hbehind).mp hsplit
  exact ⟨hdone.symm, htail.symm⟩

/-- A window opens behind the reset of its counter. -/
theorem reset_before_window (hcode : done ++ op :: rest = entryCode) (hrest : rest = windowOf t) :
    op = .op (.io (.resetCount t)) := by
  have hlast : (toWindow t).getLast? = some (.op (.io (.resetCount t))) := by
    cases t <;> decide +kernel
  have hdone : done ++ [op] = toWindow t := by
    have hsame : (done ++ [op]) ++ rest = toWindow t ++ rest := by
      rw [List.append_assoc, List.singleton_append, hcode, hrest, entryCode_window t]
    exact List.append_cancel_right hsame
  rw [← hdone, List.getLast?_concat] at hlast
  exact Option.some.inj hlast

/-- A wait follows the `sti` of its window. -/
theorem sti_before_wait (hcode : done ++ op :: rest = entryCode)
    (hrest : rest = .op (.waitTicks t) :: tail) : op = .op .sti ∧ op :: rest = windowOf t := by
  subst hrest
  rw [← List.singleton_append, ← List.append_assoc] at hcode
  obtain ⟨hdone, rfl⟩ := place_waitTicks hcode
  obtain rfl : op = .op .sti := by
    have hlast := congrArg List.getLast? hdone
    rw [List.getLast?_concat, List.getLast?_concat] at hlast
    exact Option.some.inj hlast
  exact ⟨rfl, rfl⟩

/-- The place where a window closes. -/
theorem place_close (hcode : done ++ .op (.io .cli) :: behindWindow t = entryCode) :
    done = toWindow t ++ [.op .sti] ++ [.op (.waitTicks t)] := by
  have hsame : done ++ (.op (.io .cli) :: behindWindow t) =
      (toWindow t ++ [.op .sti] ++ [.op (.waitTicks t)]) ++
        (.op (.io .cli) :: behindWindow t) := by
    rw [hcode, entryCode_window t, windowOf]
    simp only [List.append_assoc, List.cons_append, List.nil_append]
  exact List.append_cancel_right hsame

/-- A window closes behind its wait. -/
theorem wait_before_close (hcode : done ++ op :: rest = entryCode)
    (hrest : rest = .op (.io .cli) :: behindWindow t) : op = .op (.waitTicks t) := by
  subst hrest
  rw [← List.singleton_append, ← List.append_assoc] at hcode
  have hlast := congrArg List.getLast? (place_close hcode)
  rw [List.getLast?_concat, List.getLast?_concat] at hlast
  exact Option.some.inj hlast

/-- The place of an operation that occurs once. -/
theorem place_once {before behind : List EntryOp} (hsplit : entryCode = before ++ op :: behind)
    (hbefore : op ∉ before) (hbehind : op ∉ behind) (hcode : done ++ op :: tail = entryCode) :
    done = before ∧ tail = behind := by
  rw [hsplit] at hcode
  obtain ⟨hdone, -, htail⟩ := (List.append_cons_inj_of_notMem hbefore hbehind).mp hcode.symm
  exact ⟨hdone.symm, htail.symm⟩

/-- The program ends with its endless loop. -/
theorem haltLoop_iff (hcode : done ++ op :: tail = entryCode) : op = .haltLoop ↔ tail = [] := by
  have hlast : entryCode.getLast? = some .haltLoop := by decide +kernel
  constructor
  · rintro rfl
    have hsplit : entryCode = entryCode.dropLast ++ [.haltLoop] := by decide +kernel
    have hbefore : EntryOp.haltLoop ∉ entryCode.dropLast := by decide +kernel
    exact (place_once hsplit hbefore (List.not_mem_nil) hcode).2
  · rintro rfl
    rw [← hcode, List.getLast?_concat] at hlast
    exact Option.some.inj hlast

/-- An operation of the program is one of the main program's. -/
theorem inMain_of_place (hcode : done ++ op :: rest = entryCode) : op.inMain = true := by
  have hmem : op ∈ entryCode := by
    rw [← hcode]
    simp
  exact List.all_eq_true.mp entryCode_inMain op hmem

/-- The program does not contain the `hlt` that a wait puts in front of itself. -/
theorem entryCode_ne_hlt : done ++ .op .hlt :: rest ≠ entryCode :=
  fun hcode => absurd (inMain_of_place hcode) (by decide)

end Places

/-! ## Where the main program is -/

/-- The operations in front of which the main program may sleep. -/
def Sleeps (rest : List EntryOp) : Prop :=
  (∃ t tail, rest = .op (.waitTicks t) :: tail) ∨ rest = [.haltLoop]

/-- The main program is before the operations `rest`, and has set up the machine as if it had run
alone. -/
structure MainAt (k : LoadedKernel) (s₀ : EntryState) (done rest : List EntryOp) (s : EntryState) :
    Prop where
  code : done ++ rest = entryCode
  more : rest ≠ []
  here : AtCode rest s.code
  saved : s.saved = []
  setup : s.setup = (s₀.after k done).setup
  inside : s.crashed = false
  asleep : s.halted = true → s.code = rest ∧ Sleeps rest

/-- Control has left the kernel for good. -/
structure Left (s : EntryState) : Prop where
  code : s.code = []
  saved : s.saved = []
  off : s.hw.interrupts = false
  crashed : s.crashed = true

/-- What the main program finds where it may fault and where it may be interrupted; `faults` says
whether the probe faults. -/
structure Gates (k : LoadedKernel) (s₀ : EntryState) (faults : Bool) : Prop where
  flip : ∀ done tail, done ++ .flipWord :: tail = entryCode →
    (flipMemory (s₀.after k done).mem (s₀.after k done).cr3 (k.mmapPhys + upperHalf)).isSome = true
  restore : ∀ done tail, done ++ .restoreWord :: tail = entryCode →
    (restoreMemory (s₀.after k done).mem (s₀.after k done).cr3 (k.mmapPhys + upperHalf)
      (s₀.after k done).old).isSome = true
  int3 : ∀ done tail, done ++ .int3 :: tail = entryCode →
    ∃ g, (s₀.after k done).stubOf k kVectorBreakpoint = some (.breakpoint, g)
  probe : ∀ done tail, done ++ .probe :: tail = entryCode →
    ((translateAddr (s₀.after k done).mem (s₀.after k done).cr3 kProbeUnmappedVa).isNone =
      faults) ∧ ∃ g, (s₀.after k done).stubOf k kVectorPageFault = some (.pageFault, g)
  halt : ∀ done, done ++ [.haltLoop] = entryCode → (s₀.after k done).hw.interrupts = false
  /-- An interrupt that finds a handler is a tick of the window's timer. -/
  irq : ∀ done rest, done ++ rest = entryCode → (s₀.after k done).hw.interrupts = true →
    (s₀.after k done).idtLoaded = true → ∀ src vector isr g,
      (s₀.after k done).deliverable src = some vector →
      (s₀.after k done).stubOf k vector = some (isr, g) →
        ∃ t, src = t.source ∧ isr = stub t ∧
          (rest = .op (.waitTicks t) :: .op (.io .cli) :: behindWindow t ∨
            rest = .op (.io .cli) :: behindWindow t)

/-! ## What it does there -/

/-- What an operation prints, itself or in the handler of its exception. -/
def EntryOp.text (faults : Bool) : EntryOp → List Char
  | .op (.io (.writeChar c)) => [c]
  | .int3 => "STAGE 2: #BP dispatcher\n".toList
  | .probe => if faults then
      "STAGE 5: #PF dispatch\n".toList ++ "STAGE 5: cr2 ok\n".toList else []
  | _ => []

/-- The tick counters behind an operation. -/
def EntryOp.counts (n : Timer → UInt64) : EntryOp → Timer → UInt64
  | .op (.io (.resetCount t)) => Function.update n t 0
  | _ => n

section Moves

variable (k : LoadedKernel) (s₀ : EntryState)

/-- One step of the processor: the next operation is done, or the program waits. -/
inductive OpMove (faults : Bool) (done rest : List EntryOp) (s s' : EntryState) : Prop
  | next {op : EntryOp} {tail : List EntryOp} (hrest : rest = op :: tail)
      (hat : MainAt k s₀ (done ++ [op]) tail s') (hawake : s'.halted = false)
      (hlog : s'.hw.log = s.hw.log ++ op.text faults)
      (hcount : s'.hw.irqCount = op.counts s.hw.irqCount)
      (hwaited : ∀ t, op = .op (.waitTicks t) → 3 ≤ (s.hw.irqCount t).toNat)
  | wait (hat : MainAt k s₀ done rest s') (hsleeps : Sleeps rest) (hlog : s'.hw.log = s.hw.log)
      (hcount : s'.hw.irqCount = s.hw.irqCount)

/-- One interrupt: it is a tick of the window's timer and is handled, or it leaves the kernel. -/
inductive IrqMove (src : InterruptSource) (done rest : List EntryOp) (s s' : EntryState) : Prop
  | tick {t : Timer} (hsource : src = t.source)
      (hplace : rest = .op (.waitTicks t) :: .op (.io .cli) :: behindWindow t ∨
        rest = .op (.io .cli) :: behindWindow t)
      (hat : MainAt k s₀ done rest s') (hawake : s'.halted = false) (hcode : s'.code = s.code)
      (hlog : s'.hw.log = s.hw.log ++ countedLine t (s.hw.irqCount t + 1))
      (hcount : s'.hw.irqCount = Function.update s.hw.irqCount t (s.hw.irqCount t + 1))
  | left (hleft : Left s') (hlog : s'.hw.log = s.hw.log)

variable {k s₀} {s s' : EntryState} {done rest tail : List EntryOp} {op : EntryOp} {faults : Bool}

theorem stepOp_hlt (hcode : s.code = .op .hlt :: tail) :
    s.stepOp k = some { s with code := tail, halted := true } := by
  unfold EntryState.stepOp
  rw [hcode]

/-- The check of a wait: it goes on behind three ticks, and halts before. -/
theorem stepOp_waitTicks {t : Timer} (hcode : s.code = .op (.waitTicks t) :: tail) :
    s.stepOp k = some { s with
      code := if (s.hw.irqCount t).toNat < 3 then .op .hlt :: .op (.waitTicks t) :: tail
        else tail } := by
  have hthree : (3 : UInt64).toNat = 3 := rfl
  unfold EntryState.stepOp
  rw [hcode]
  simp only [UInt64.lt_iff_toNat_lt, hthree]
  split <;> rfl

theorem stepOp_haltLoop (hcode : s.code = .haltLoop :: tail) :
    s.stepOp k = some { s with hw := { s.hw with interrupts := false }, halted := true } := by
  unfold EntryState.stepOp
  rw [hcode]

/-- Where the main program goes on to its next operation. -/
theorem MainAt.next (h : MainAt k s₀ done (op :: tail) s) (hop : op ≠ .haltLoop)
    (hat : s'.code = tail) (hsaved : s'.saved = []) (hsetup : s'.setup = (s.exec k op).setup)
    (hinside : s'.crashed = false) (hawake : s'.halted = false) :
    MainAt k s₀ (done ++ [op]) tail s' where
  code := append_next h.code
  more := fun htail => hop ((haltLoop_iff h.code).mpr htail)
  here := by
    rw [hat]
    exact .here
  saved := hsaved
  setup := by
    rw [hsetup, EntryState.after_concat]
    exact EntryState.exec_congr k h.setup op
  inside := hinside
  asleep := fun hhalted => by
    rw [hawake] at hhalted
    cases hhalted

theorem log_outb (hw : Hw) (port : UInt16) (value : UInt8) : (hw.outb port value).log = hw.log := by
  unfold Hw.outb
  repeat' split
  all_goals rfl

theorem irqCount_outb (hw : Hw) (port : UInt16) (value : UInt8) :
    (hw.outb port value).irqCount = hw.irqCount := by
  unfold Hw.outb
  repeat' split
  all_goals rfl

/-- A plain operation prints its own character, if any, and may reset a counter. -/
theorem exec_plain (k : LoadedKernel) (faults : Bool) {op : EntryOp} (hop : op.plain = true)
    (s : EntryState) :
    (s.exec k op).hw.log = s.hw.log ++ op.text faults ∧
      (s.exec k op).hw.irqCount = op.counts s.hw.irqCount ∧
      (s.exec k op).crashed = s.crashed := by
  cases op with
  | op o =>
      cases o with
      | io i =>
          have hio : (s.exec k (.op (.io i))).hw = s.hw.io i := by
            cases i <;> rfl
          have hcrashed : (s.exec k (.op (.io i))).crashed = s.crashed := by
            cases i <;> rfl
          refine ⟨?_, ?_, hcrashed⟩
          · rw [hio]
            cases i with
            | writeChar c => rfl
            | outb port value =>
                show (s.hw.outb port value).log = s.hw.log ++ []
                rw [log_outb, List.append_nil]
            | _ => exact (List.append_nil _).symm
          · rw [hio]
            cases i with
            | outb port value => exact irqCount_outb _ _ _
            | _ => rfl
      | sti => exact ⟨(List.append_nil _).symm, rfl, rfl⟩
      | hlt => cases hop
      | waitTicks t => cases hop
      | countTick t => cases hop
      | iretq => cases hop
  | flipWord => cases hop
  | restoreWord => cases hop
  | int3 => cases hop
  | probe => cases hop
  | reportCr2 => cases hop
  | skipProbe => cases hop
  | haltLoop => cases hop
  | _ => exact ⟨(List.append_nil _).symm, rfl, rfl⟩

/-- The main program finds the gate of the breakpoint. -/
theorem MainAt.int3_stub (hgates : Gates k s₀ faults) (h : MainAt k s₀ done (.int3 :: tail) s) :
    ∃ g, s.stubOf k kVectorBreakpoint = some (.breakpoint, g) := by
  rw [EntryState.congr_setup (fun s => s.stubOf k kVectorBreakpoint) (fun _ => rfl) h.setup]
  exact hgates.int3 done tail h.code

/-- It finds the gate of the page fault when it comes to the probe. -/
theorem MainAt.probe_stub (hgates : Gates k s₀ faults) (h : MainAt k s₀ done (.probe :: tail) s) :
    (translateAddr s.mem s.cr3 kProbeUnmappedVa).isNone = faults ∧
      ∃ g, s.stubOf k kVectorPageFault = some (.pageFault, g) := by
  rw [EntryState.congr_setup EntryState.mem (fun _ => rfl) h.setup,
    EntryState.congr_setup EntryState.cr3 (fun _ => rfl) h.setup,
    EntryState.congr_setup (fun s => s.stubOf k kVectorPageFault) (fun _ => rfl) h.setup]
  exact hgates.probe done tail h.code

/-- An interrupt of the main program that finds a gate is the tick that it waits for. -/
theorem MainAt.irq_stub (hgates : Gates k s₀ faults) (h : MainAt k s₀ done rest s)
    (hon : s.hw.interrupts = true) (hloaded : s.idtLoaded = true) {src : InterruptSource}
    {vector : UInt8} {isr : Isr} {g : GateDescriptor} (hv : s.deliverable src = some vector)
    (hstub : s.stubOf k vector = some (isr, g)) :
    ∃ t, src = t.source ∧ isr = stub t ∧
      (rest = .op (.waitTicks t) :: .op (.io .cli) :: behindWindow t ∨
        rest = .op (.io .cli) :: behindWindow t) := by
  rw [EntryState.congr_setup (fun s => s.hw.interrupts) (fun _ => rfl) h.setup] at hon
  rw [EntryState.congr_setup EntryState.idtLoaded (fun _ => rfl) h.setup] at hloaded
  rw [EntryState.congr_setup (fun s => s.deliverable src) (EntryState.deliverable_setup src)
    h.setup] at hv
  rw [EntryState.congr_setup (fun s => s.stubOf k vector) (fun _ => rfl) h.setup] at hstub
  exact hgates.irq done rest h.code hon hloaded src vector isr g hv hstub

/-- `int3` enters its handler, which returns behind it. -/
theorem MainAt.int3 (hgates : Gates k s₀ faults) (h : MainAt k s₀ done (.int3 :: tail) s) :
    OpMove k s₀ faults done (.int3 :: tail) s (settle EntryState.Busy (EntryState.finish k)
      (EntryState.deliver k { s with code := tail } kVectorBreakpoint)) := by
  obtain ⟨g, hstub⟩ := h.int3_stub hgates
  obtain ⟨body, hbody⟩ := handling_deliver (s := { s with code := tail }) h.saved hstub
  rw [settle_of_busy (show EntryState.Busy _ from hbody.saved),
    finish_breakpoint (s := { s with code := tail }) h.saved hstub]
  exact .next rfl (h.next (by decide) rfl h.saved rfl h.inside rfl) rfl rfl rfl
    fun _ ht => nomatch ht

/-- The probe enters the handler of the fault, if its page is not mapped. -/
theorem MainAt.probe (hgates : Gates k s₀ faults) (h : MainAt k s₀ done (.probe :: tail) s)
    (hc : s.code = .probe :: tail) (hawake : s.halted = false) :
    OpMove k s₀ faults done (.probe :: tail) s (settle EntryState.Busy (EntryState.finish k)
      (match translateAddr s.mem s.cr3 kProbeUnmappedVa with
        | some _ => { s with code := tail }
        | none => EntryState.deliver k { s with cr2 := kProbeUnmappedVa } kVectorPageFault)) := by
  obtain ⟨htranslate, g, hstub⟩ := h.probe_stub hgates
  cases hfound : translateAddr s.mem s.cr3 kProbeUnmappedVa with
  | some found =>
      rw [hfound] at htranslate
      obtain rfl : false = faults := htranslate
      have hfree : ¬ EntryState.Busy { s with code := tail } := fun hbusy => hbusy h.saved
      simp only [settle_of_not_busy hfree]
      exact .next rfl (h.next (by decide) rfl h.saved rfl h.inside hawake) hawake
        (List.append_nil _).symm rfl fun _ ht => nomatch ht
  | none =>
      rw [hfound] at htranslate
      obtain rfl : true = faults := htranslate
      obtain ⟨body, hbody⟩ := handling_deliver (s := { s with cr2 := kProbeUnmappedVa }) h.saved
        hstub
      simp only [settle_of_busy (show EntryState.Busy _ from hbody.saved)]
      rw [finish_pageFault (s := { s with cr2 := kProbeUnmappedVa }) h.saved hc hstub]
      exact .next rfl (h.next (by decide) rfl h.saved rfl h.inside rfl) rfl
        (List.append_assoc s.hw.log _ _) rfl fun _ ht => nomatch ht

/-- A store of the touch test goes on to the next operation. -/
theorem MainAt.touch (h : MainAt k s₀ done (op :: tail) s) (hawake : s.halted = false)
    (hop : op = .flipWord ∨ op = .restoreWord) {r : Option EntryState} (hr : r.isSome = true)
    (hexec : s.exec k op = r.getD s) :
    OpMove k s₀ faults done (op :: tail) s (settle EntryState.Busy (EntryState.finish k)
      (r.elim s.leave fun t => { t with code := tail })) := by
  obtain ⟨t, rfl⟩ := Option.isSome_iff_exists.mp hr
  have hsame : ∃ m old, t = { s with mem := m, old := old } := by
    rcases hop with rfl | rfl
    · obtain ⟨m, old, hflip⟩ := s.exec_flipWord k
      exact ⟨m, old, hexec.symm.trans hflip⟩
    · obtain ⟨m, hrestore⟩ := s.exec_restoreWord k
      exact ⟨m, s.old, hexec.symm.trans hrestore⟩
  have hsetup : EntryState.setup { t with code := tail } = (s.exec k op).setup := by
    rw [hexec]
    rfl
  have hhalt : op ≠ .haltLoop := by
    rcases hop with rfl | rfl <;> decide
  have hnone : op.text faults = [] ∧ op.counts s.hw.irqCount = s.hw.irqCount := by
    rcases hop with rfl | rfl <;> exact ⟨rfl, rfl⟩
  obtain ⟨m, old, rfl⟩ := hsame
  simp only [Option.elim_some]
  rw [settle_of_not_busy fun hbusy => hbusy h.saved]
  refine .next rfl (h.next hhalt rfl h.saved hsetup h.inside hawake) hawake ?_ hnone.2.symm ?_
  · rw [hnone.1, List.append_nil]
  · rcases hop with rfl | rfl <;> exact fun _ ht => nomatch ht

/-- A plain operation is done. -/
theorem MainAt.plain (h : MainAt k s₀ done (op :: tail) s) (hawake : s.halted = false)
    (hop : op.plain = true) :
    OpMove k s₀ faults done (op :: tail) s
      (settle EntryState.Busy (EntryState.finish k) { s.exec k op with code := tail }) := by
  obtain ⟨hlog, hcount, hcrashed⟩ := exec_plain k faults hop s
  obtain ⟨hsaved, hhalt, -⟩ := s.exec_saved k op
  rw [settle_of_not_busy fun hbusy => hbusy (hsaved.trans h.saved)]
  refine .next rfl (h.next ?_ rfl (hsaved.trans h.saved) rfl (hcrashed.trans h.inside)
    (hhalt.trans hawake)) (hhalt.trans hawake) hlog hcount ?_
  · rintro rfl
    cases hop
  · rintro t rfl
    cases hop

/-- The check of a wait ends it, or the `hlt` is next. -/
theorem MainAt.check {t : Timer} (h : MainAt k s₀ done (.op (.waitTicks t) :: tail) s)
    (hawake : s.halted = false) :
    OpMove k s₀ faults done (.op (.waitTicks t) :: tail) s
      (settle EntryState.Busy (EntryState.finish k) { s with
        code := if (s.hw.irqCount t).toNat < 3 then .op .hlt :: .op (.waitTicks t) :: tail
          else tail }) := by
  rw [settle_of_not_busy fun hbusy => hbusy h.saved]
  split
  · refine .wait ⟨h.code, h.more, .hlt rfl, h.saved, h.setup, h.inside, fun hhalted => ?_⟩
      (Or.inl ⟨_, _, rfl⟩) rfl rfl
    exact absurd (hawake.symm.trans hhalted) (by decide)
  · rename_i hdone
    refine .next rfl (h.next (by simp) rfl h.saved rfl h.inside hawake) hawake
      (List.append_nil _).symm rfl ?_
    rintro t' ⟨⟩
    exact Nat.not_lt.mp hdone

/-- The last loop halts with interrupts disabled, as they are. -/
theorem MainAt.last (hgates : Gates k s₀ faults) (h : MainAt k s₀ done (.haltLoop :: tail) s)
    (hc : s.code = .haltLoop :: tail) :
    OpMove k s₀ faults done (.haltLoop :: tail) s (settle EntryState.Busy (EntryState.finish k)
      { s with hw := { s.hw with interrupts := false }, halted := true }) := by
  obtain rfl := (haltLoop_iff h.code).mp rfl
  have hoff : s.hw.interrupts = false := by
    rw [EntryState.congr_setup (fun s => s.hw.interrupts) (fun _ => rfl) h.setup]
    exact hgates.halt done h.code
  have hsetup : EntryState.setup { s with hw := { s.hw with interrupts := false } } = s.setup := by
    rw [← hoff]
  have hat : AtCode [.haltLoop] s.code := by
    rw [hc]
    exact .here
  rw [settle_of_not_busy fun hbusy => hbusy h.saved]
  exact .wait ⟨h.code, h.more, hat, h.saved, hsetup.trans h.setup, h.inside,
    fun _ => ⟨hc, Or.inr rfl⟩⟩ (Or.inr rfl) rfl rfl

/-- **One step of the processor in the main program.** -/
theorem MainAt.op_move (hgates : Gates k s₀ faults) (h : MainAt k s₀ done rest s)
    (hstep : atomicStep k .op s = some s') : OpMove k s₀ faults done rest s s' := by
  obtain ⟨t, ht, rfl⟩ := Option.map_eq_some_iff.mp hstep
  simp only [entryStep] at ht
  split at ht
  · cases ht
  rename_i hhalted
  have hawake : s.halted = false := Bool.eq_false_of_not_eq_true hhalted
  have hat := h.here
  generalize hc : s.code = code at hat
  cases hat with
  | hlt hwait =>
      obtain rfl := Option.some.inj ((stepOp_hlt hc).symm.trans ht)
      have hsleeps : Sleeps rest := Or.inl ⟨_, _, hwait⟩
      rw [settle_of_not_busy fun hbusy => hbusy h.saved]
      exact .wait ⟨h.code, h.more, .here, h.saved, h.setup, h.inside, fun _ => ⟨rfl, hsleeps⟩⟩
        hsleeps rfl rfl
  | here =>
      obtain ⟨op, tail, rfl⟩ := List.exists_cons_of_ne_nil h.more
      have hmain := inMain_of_place h.code
      by_cases hop : op.plain = true
      · obtain rfl := Option.some.inj ((stepOp_plain hop hc).symm.trans ht)
        exact h.plain hawake hop
      cases op with
      | op o =>
          cases o with
          | waitTicks t =>
              obtain rfl := Option.some.inj ((stepOp_waitTicks hc).symm.trans ht)
              exact h.check hawake
          | hlt => cases hmain
          | countTick t => cases hmain
          | iretq => cases hmain
          | _ => exact absurd rfl hop
      | flipWord =>
          have hok := hgates.flip done tail h.code
          rw [← EntryState.congr_setup (fun s => flipMemory s.mem s.cr3 (k.mmapPhys + upperHalf))
            (fun _ => rfl) h.setup] at hok
          unfold EntryState.stepOp at ht
          rw [hc] at ht
          obtain rfl := Option.some.inj ht
          refine h.touch (r := s.flipWord k) hawake (Or.inl rfl) ?_ rfl
          rw [EntryState.flipWord, Option.isSome_map]
          exact hok
      | restoreWord =>
          have hok := hgates.restore done tail h.code
          rw [← EntryState.congr_setup
            (fun s => restoreMemory s.mem s.cr3 (k.mmapPhys + upperHalf) s.old) (fun _ => rfl)
            h.setup] at hok
          unfold EntryState.stepOp at ht
          rw [hc] at ht
          obtain rfl := Option.some.inj ht
          refine h.touch (r := s.restoreWord k) hawake (Or.inr rfl) ?_ rfl
          rw [EntryState.restoreWord, Option.isSome_map]
          exact hok
      | int3 =>
          unfold EntryState.stepOp at ht
          rw [hc] at ht
          obtain rfl := Option.some.inj ht
          exact h.int3 hgates
      | probe =>
          have hprobe := h.probe hgates hc hawake
          unfold EntryState.stepOp at ht
          rw [hc] at ht
          simp only at ht
          split at ht
          · rename_i hfound
            obtain rfl := Option.some.inj ht
            rw [hfound] at hprobe
            exact hprobe
          · rename_i hnone
            obtain rfl := Option.some.inj ht
            rw [hnone, hc] at hprobe
            exact hprobe
      | haltLoop =>
          obtain rfl := Option.some.inj ((stepOp_haltLoop hc).symm.trans ht)
          exact h.last hgates hc
      | reportCr2 => cases hmain
      | skipProbe => cases hmain
      | _ => exact absurd rfl hop

/-- **One interrupt in the main program.** -/
theorem MainAt.irq_move (hgates : Gates k s₀ faults) (h : MainAt k s₀ done rest s)
    {src : InterruptSource} (hstep : atomicStep k (.irq src) s = some s') :
    IrqMove k s₀ src done rest s s' := by
  obtain ⟨u, hu, rfl⟩ := Option.map_eq_some_iff.mp hstep
  have hleave : IrqMove k s₀ src done rest s
      (settle EntryState.Busy (EntryState.finish k) s.leave) := by
    rw [settle_of_not_busy fun hbusy => hbusy rfl]
    exact .left ⟨rfl, rfl, rfl, rfl⟩ rfl
  simp only [entryStep] at hu
  split at hu
  · rename_i hon
    obtain ⟨vector, hv, rfl⟩ := Option.map_eq_some_iff.mp hu
    split
    · rename_i hloaded
      cases hstub : s.stubOf k vector with
      | none =>
          have hnone : s.deliver k vector = s.leave := by
            unfold EntryState.deliver
            rw [hstub]
          rw [hnone]
          exact hleave
      | some found =>
          obtain ⟨isr, g⟩ := found
          obtain ⟨t, rfl, rfl, hplace⟩ := h.irq_stub hgates hon hloaded hv hstub
          obtain ⟨body, hbody⟩ := handling_deliver h.saved hstub
          rw [settle_of_busy (show EntryState.Busy _ from hbody.saved), finish_timer h.saved hstub]
          exact .tick rfl hplace ⟨h.code, h.more, h.here, h.saved, h.setup, h.inside,
            fun ht => absurd ht Bool.false_ne_true⟩ rfl rfl rfl rfl
    · exact hleave
  · cases hu

end Moves

/-! ## Runs -/

section Runs

variable {k : LoadedKernel} {s₀ s s' : EntryState} {faults : Bool}

/-- The main program is somewhere in its code, or control has left the kernel. -/
def Inside (k : LoadedKernel) (s₀ s : EntryState) : Prop :=
  (∃ done rest, MainAt k s₀ done rest s) ∨ Left s

/-- Outside the kernel nothing happens. -/
theorem Left.stuck (h : Left s) (e : EntryEvent) : atomicStep k e s = none := by
  have hstep : entryStep k e s = none := by
    cases e with
    | op =>
        simp only [entryStep]
        split
        · rfl
        · unfold EntryState.stepOp
          rw [h.code]
    | irq src => simp only [entryStep, h.off, Bool.false_eq_true, if_false]
  rw [atomicStep, atomically, hstep]
  rfl

theorem Inside.step (hgates : Gates k s₀ faults) (h : Inside k s₀ s) {e : EntryEvent}
    (hstep : atomicStep k e s = some s') : Inside k s₀ s' := by
  rcases h with ⟨done, rest, h⟩ | h
  · cases e with
    | op =>
        cases h.op_move hgates hstep with
        | next hrest hat => exact Or.inl ⟨_, _, hat⟩
        | wait hat => exact Or.inl ⟨_, _, hat⟩
    | irq src =>
        cases h.irq_move hgates hstep with
        | tick hsource hplace hat => exact Or.inl ⟨_, _, hat⟩
        | left hleft => exact Or.inr hleft
  · rw [h.stuck] at hstep
    cases hstep

/-- The main program is in no handler. -/
theorem MainAt.steady {done rest : List EntryOp} (h : MainAt k s₀ done rest s) : Steady k s₀ s :=
  ⟨.main h.code h.here h.saved h.setup, fun hsaved => absurd h.saved hsaved⟩

/-- **Every run is one with handlers as single steps.** -/
theorem entry_runs_atomically
    (hsafe : ∀ done rest, done ++ rest = entryCode → Safe k rest (s₀.after k done))
    (hstart : MainAt k s₀ [] entryCode s₀) {events : List EntryEvent}
    (hrun : runs (entryStep k) events s₀ = some s) :
    Steady k s₀ s ∧ ∃ events', events'.Sublist events ∧
      runs (atomicStep k) events' s₀ = some (settle EntryState.Busy (EntryState.finish k) s) :=
  (entry_blocks hsafe).runs_atomically hstart.steady
    (fun hbusy => hbusy hstart.saved) hrun

/-- Once its handler has returned, every run is inside the program, or has left the kernel. -/
theorem inside_of_run
    (hsafe : ∀ done rest, done ++ rest = entryCode → Safe k rest (s₀.after k done))
    (hgates : Gates k s₀ faults) (hstart : MainAt k s₀ [] entryCode s₀) {events : List EntryEvent}
    (hrun : runs (entryStep k) events s₀ = some s) :
    Steady k s₀ s ∧ Inside k s₀ (settle EntryState.Busy (EntryState.finish k) s) := by
  obtain ⟨hsteady, events', -, hatomic⟩ := entry_runs_atomically hsafe hstart hrun
  exact ⟨hsteady, runs_invariant (fun _ s => Inside k s₀ s) (Or.inl ⟨_, _, hstart⟩)
    (fun _ _ _ _ h hstep => h.step hgates hstep) hatomic⟩

end Runs

end Kernel
end OsBook
