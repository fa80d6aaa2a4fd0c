import OsBook.Kernel.EntryWindows

/-!
# `kernel_entry` reaches its windows

If the only interrupts are the ticks that a window waits for, nothing stops the
main program: the touch test does not fault, `int3` finds its gate, a handler
returns to the code it has interrupted, and three ticks end a wait.  So every
operation of Stages 1 to 4 is executed in some run (`arrives_sti`).
-/

namespace OsBook
namespace Kernel

open Machine

/-! ## The main program -/

/-- The main program is about to do the operations `rest`. -/
structure Running (k : LoadedKernel) (s₀ : EntryState) (done rest : List EntryOp) (s : EntryState) :
    Prop where
  code : s.code = rest
  saved : s.saved = []
  halted : s.halted = false
  setup : s.setup = (s₀.after k done).setup

/-- Some run leads there. -/
def Arrives (k : LoadedKernel) (s₀ : EntryState) (done rest : List EntryOp) : Prop :=
  ∃ s, Reaches (entryStep k) s₀ s ∧ Running k s₀ done rest s

section Main

variable {k : LoadedKernel} {s₀ s : EntryState} {done rest : List EntryOp}

theorem entryStep_op {s' : EntryState} (hs : s.halted = false) (hstep : s.stepOp k = some s') :
    entryStep k .op s = some s' := by
  rw [← hstep]
  exact if_neg (by rw [hs]; decide)

/-- One operation. -/
theorem Running.reaches {op : EntryOp} (hs : Running k s₀ done (op :: rest) s)
    (hop : op.plain = true) : Reaches (entryStep k) s { s.exec k op with code := rest } :=
  (Reaches.refl s).snoc (entryStep_op hs.halted (stepOp_plain hop hs.code))

/-- An operation that goes on to the next one. -/
theorem Arrives.next {op : EntryOp} (h : Arrives k s₀ done (op :: rest))
    (hstep : ∀ s, Running k s₀ done (op :: rest) s →
      s.stepOp k = some { s.exec k op with code := rest }) :
    Arrives k s₀ (done ++ [op]) rest := by
  obtain ⟨s, hreach, hs⟩ := h
  obtain ⟨hsaved, hhalted, -⟩ := s.exec_saved k op
  refine ⟨_, hreach.snoc (entryStep_op hs.halted (hstep s hs)), rfl, hsaved.trans hs.saved,
    hhalted.trans hs.halted, ?_⟩
  rw [EntryState.after_concat]
  exact EntryState.exec_congr k hs.setup op

/-- Straight-line code runs to its end. -/
theorem Arrives.straight {ops : List EntryOp} (hops : ops.all EntryOp.plain = true)
    (h : Arrives k s₀ done (ops ++ rest)) : Arrives k s₀ (done ++ ops) rest := by
  induction ops generalizing done with
  | nil =>
      rw [List.append_nil]
      exact h
  | cons op ops ih =>
      rw [List.all_cons, Bool.and_eq_true] at hops
      have hnext := ih hops.2 (h.next fun _ hs => stepOp_plain hops.1 hs.code)
      rwa [List.append_assoc] at hnext

theorem plain_print (text : String) : (print text).all EntryOp.plain = true := by
  simp [print, EntryOp.plain]

/-- The touch test goes on if its accesses do not fault. -/
theorem Arrives.flipWord (h : Arrives k s₀ done (.flipWord :: rest))
    (hok : (flipMemory (s₀.after k done).mem (s₀.after k done).cr3
      (k.mmapPhys + upperHalf)).isSome = true) : Arrives k s₀ (done ++ [.flipWord]) rest := by
  refine h.next fun s hs => ?_
  rw [← EntryState.congr_setup EntryState.mem (fun _ => rfl) hs.setup,
    ← EntryState.congr_setup EntryState.cr3 (fun _ => rfl) hs.setup] at hok
  obtain ⟨r, hr⟩ := Option.isSome_iff_exists.mp hok
  unfold EntryState.stepOp
  rw [hs.code]
  simp only [EntryState.exec, EntryState.flipWord, hr, Option.map_some, Option.elim_some,
    Option.getD_some]

theorem Arrives.restoreWord (h : Arrives k s₀ done (.restoreWord :: rest))
    (hok : (restoreMemory (s₀.after k done).mem (s₀.after k done).cr3 (k.mmapPhys + upperHalf)
      (s₀.after k done).old).isSome = true) : Arrives k s₀ (done ++ [.restoreWord]) rest := by
  refine h.next fun s hs => ?_
  rw [← EntryState.congr_setup EntryState.mem (fun _ => rfl) hs.setup,
    ← EntryState.congr_setup EntryState.cr3 (fun _ => rfl) hs.setup,
    ← EntryState.congr_setup EntryState.old (fun _ => rfl) hs.setup] at hok
  obtain ⟨r, hr⟩ := Option.isSome_iff_exists.mp hok
  unfold EntryState.stepOp
  rw [hs.code]
  simp only [EntryState.exec, EntryState.restoreWord, hr, Option.map_some, Option.elim_some,
    Option.getD_some]

end Main

/-! ## Handlers -/

section Handlers

variable {k : LoadedKernel} {s : EntryState} {rest : List EntryOp}

/-- Printing from any code. -/
theorem repeats_print (text : List Char) (hs : s.halted = false)
    (hcode : s.code = ((write text).map fun i => EntryOp.op (.io i)) ++ rest) :
    Repeats (entryStep k) .op s { s with hw := s.hw.print text, code := rest } := by
  induction text generalizing s with
  | nil =>
      have hsame : { s with hw := s.hw.print [], code := rest } = s := by
        simp only [Hw.print, List.append_nil]
        rw [← show s.code = rest from hcode]
      rw [hsame]
      exact .refl _ s
  | cons c text ih =>
      have hplain : (EntryOp.op (.io (.writeChar c))).plain = true := rfl
      have hstep := entryStep_op hs (stepOp_plain (k := k) hplain hcode)
      have hrest := ih (s := { s.exec k (.op (.io (.writeChar c))) with
        code := ((write text).map fun i => EntryOp.op (.io i)) ++ rest }) hs rfl
      refine (Repeats.snoc (.refl _ s) hstep).trans ?_
      have htext : (s.hw.io (.writeChar c)).print text = s.hw.print (c :: text) := by
        simp only [Hw.io, Hw.print, List.append_assoc, List.singleton_append]
      rw [← htext]
      exact hrest

/-- A handler returns. -/
theorem entryStep_iretq {code : List EntryOp} {interrupts : Bool} {cs : UInt16}
    (hs : s.halted = false) (hcode : s.code = .op .iretq :: rest)
    (hsaved : s.saved = [(code, interrupts, cs)]) :
    entryStep k .op s = some { s.resume interrupts cs with code := code, saved := [] } := by
  refine entryStep_op hs ?_
  unfold EntryState.stepOp
  rw [hcode]
  simp only [hsaved]
  rfl

/-- A handler prints its last line and returns. -/
theorem reaches_return (text : List Char) {code : List EntryOp} {interrupts : Bool} {cs : UInt16}
    (hs : s.halted = false)
    (hcode : s.code = ((write text).map fun i => EntryOp.op (.io i)) ++ [.op .iretq])
    (hsaved : s.saved = [(code, interrupts, cs)]) :
    Reaches (entryStep k) s
      { s.resume interrupts cs with
        hw := { s.hw.print text with interrupts := interrupts }, code := code, saved := [] } :=
  (repeats_print text hs hcode).reaches.snoc
    (entryStep_iretq (s := { s with hw := s.hw.print text, code := [.op .iretq] }) hs rfl hsaved)

/-- Delivery to the main program. -/
theorem deliver_eq {vector : UInt8} {isr : Isr} {g : GateDescriptor} (hsaved : s.saved = [])
    (hstub : s.stubOf k vector = some (isr, g)) :
    s.deliver k vector =
      { s with
        hw := { s.hw with interrupts := g.typeAttr &&& 1 = 1 && s.hw.interrupts }
        cs := g.selector
        code := isrOps isr
        saved := [(s.code, s.hw.interrupts, s.cs)]
        halted := false } := by
  unfold EntryState.deliver
  rw [hstub, hsaved]

/-- `int3` goes through its gate and comes back behind the instruction. -/
theorem Arrives.int3 {s₀ : EntryState} {done : List EntryOp} {g : GateDescriptor}
    (h : Arrives k s₀ done (.int3 :: rest))
    (hstub : (s₀.after k done).stubOf k kVectorBreakpoint = some (.breakpoint, g)) :
    Arrives k s₀ (done ++ [.int3]) rest := by
  obtain ⟨s, hreach, hs⟩ := h
  rw [← EntryState.congr_setup (fun s => s.stubOf k kVectorBreakpoint) (fun _ => rfl) hs.setup]
    at hstub
  have hstep : s.stepOp k = some (EntryState.deliver k { s with code := rest } kVectorBreakpoint) := by
    unfold EntryState.stepOp
    rw [hs.code]
  have hdeliver := deliver_eq (s := { s with code := rest }) hs.saved hstub
  rw [hdeliver] at hstep
  have hback := hreach.snoc (entryStep_op hs.halted hstep)
  refine ⟨_, hback.trans (reaches_return "STAGE 2: #BP dispatcher\n".toList rfl rfl rfl), rfl, rfl,
    rfl, ?_⟩
  rw [EntryState.after_concat]
  exact hs.setup

end Handlers

/-! ## Ticks -/

/-- The source of a timer's ticks. -/
def Timer.source : Timer → InterruptSource
  | .pit => .pic1 0
  | .lapic => .lapicTimer

/-- A tick of the timer would be handled. -/
structure Awaited (k : LoadedKernel) (t : Timer) (c : EntryState) : Prop where
  interrupts : c.hw.interrupts = true
  loaded : c.idtLoaded = true
  stub : ∃ vector g, c.deliverable t.source = some vector ∧ c.stubOf k vector = some (stub t, g)

section Ticks

variable {k : LoadedKernel} {t : Timer} {s s₀ : EntryState} {done rest : List EntryOp}

theorem Awaited.congr {c : EntryState} (h : Awaited k t c) (hs : s.setup = c.setup) :
    Awaited k t s := by
  obtain ⟨vector, g, hvector, hstub⟩ := h.stub
  refine ⟨?_, ?_, vector, g, ?_, ?_⟩
  · rw [EntryState.congr_setup (fun s => s.hw.interrupts) (fun _ => rfl) hs]
    exact h.interrupts
  · rw [EntryState.congr_setup EntryState.idtLoaded (fun _ => rfl) hs]
    exact h.loaded
  · rw [EntryState.congr_setup (fun s => s.deliverable t.source)
      (EntryState.deliverable_setup t.source) hs]
    exact hvector
  · rw [EntryState.congr_setup (fun s => s.stubOf k vector) (fun _ => rfl) hs]
    exact hstub

/-- The end of interrupt changes nothing that is modelled. -/
theorem exec_acknowledge (s : EntryState) : s.exec k (.op (.io (acknowledge t))) = s := by
  have hio := io_acknowledge s.hw t
  cases t with
  | pit =>
      show { s with hw := s.hw.io (acknowledge .pit) } = s
      rw [hio]
  | lapic =>
      show { s with hw := s.hw.io (acknowledge .lapic), lapic := s.lapic } = s
      rw [hio]

/-- One of the first three ticks is counted and gets its line. -/
theorem entryStep_countTick (hs : s.halted = false) (hcode : s.code = .op (.countTick t) :: rest)
    (hle : s.hw.irqCount t + 1 ≤ 3) :
    entryStep k .op s = some { s with
      hw := { s.hw with irqCount := Function.update s.hw.irqCount t (s.hw.irqCount t + 1) }
      code := ((write (tickLine t (s.hw.irqCount t + 1))).map fun i => EntryOp.op (.io i)) ++
        rest } := by
  refine entryStep_op hs ?_
  unfold EntryState.stepOp
  rw [hcode]
  simp only [if_pos hle]

/-- The handler of a tick acknowledges it, counts it, prints its line and returns. -/
theorem reaches_handler {code : List EntryOp} {interrupts : Bool} {cs : UInt16}
    (hs : s.halted = false) (hcode : s.code = isrOps (stub t))
    (hsaved : s.saved = [(code, interrupts, cs)]) (hcount : (s.hw.irqCount t).toNat < 3) :
    ∃ log, Reaches (entryStep k) s
      { s.resume interrupts cs with
        hw := { s.hw with
          interrupts := interrupts
          irqCount := Function.update s.hw.irqCount t (s.hw.irqCount t + 1)
          log := log }
        code := code
        saved := [] } := by
  have hops : isrOps (stub t) = [.op (.io (acknowledge t)), .op (.countTick t), .op .iretq] := by
    cases t <;> rfl
  rw [hops] at hcode
  have hack := entryStep_op hs (stepOp_plain (k := k) rfl hcode)
  rw [exec_acknowledge] at hack
  have hle : s.hw.irqCount t + 1 ≤ 3 := by
    have hone : (1 : UInt64).toNat = 1 := rfl
    have hthree : (3 : UInt64).toNat = 3 := rfl
    rw [UInt64.le_iff_toNat_le, UInt64.toNat_add, hone, hthree]
    omega
  have hnext := entryStep_countTick (k := k)
    (s := { s with code := [.op (.countTick t), .op .iretq] }) hs rfl hle
  exact ⟨_, (((Reaches.refl s).snoc hack).snoc hnext).trans
    (reaches_return (tickLine t (s.hw.irqCount t + 1)) hs rfl hsaved)⟩

/-- A tick that is awaited starts its handler. -/
theorem entryStep_tick (hawait : Awaited k t s) (hsaved : s.saved = []) :
    ∃ g : GateDescriptor, entryStep k (.irq t.source) s = some { s with
      hw := { s.hw with interrupts := g.typeAttr &&& 1 = 1 && s.hw.interrupts }
      cs := g.selector
      code := isrOps (stub t)
      saved := [(s.code, s.hw.interrupts, s.cs)]
      halted := false } := by
  obtain ⟨hon, hloaded, vector, g, hvector, hstub⟩ := hawait
  refine ⟨g, ?_⟩
  rw [← deliver_eq hsaved hstub]
  simp only [entryStep, hon, if_true, hvector, Option.map_some, hloaded]

/-- One tick in the main program. -/
theorem reaches_tick (hawait : Awaited k t s) (hsaved : s.saved = [])
    (hcount : (s.hw.irqCount t).toNat < 3) :
    ∃ s', Reaches (entryStep k) s s' ∧ s'.code = s.code ∧ s'.saved = [] ∧ s'.halted = false ∧
      s'.setup = s.setup ∧ (s'.hw.irqCount t).toNat = (s.hw.irqCount t).toNat + 1 := by
  obtain ⟨g, hirq⟩ := entryStep_tick hawait hsaved
  obtain ⟨log, hhandler⟩ := reaches_handler (k := k) (t := t)
    (s := { s with
      hw := { s.hw with interrupts := g.typeAttr &&& 1 = 1 && s.hw.interrupts }
      cs := g.selector
      code := isrOps (stub t)
      saved := [(s.code, s.hw.interrupts, s.cs)]
      halted := false }) rfl rfl rfl hcount
  refine ⟨_, ((Reaches.refl s).snoc hirq).trans hhandler, rfl, rfl, rfl, rfl, ?_⟩
  have hone : (1 : UInt64).toNat = 1 := rfl
  show (Function.update s.hw.irqCount t (s.hw.irqCount t + 1) t).toNat = _
  rw [Function.update_self, UInt64.toNat_add, hone]
  omega

/-- **Three ticks end a wait.** -/
theorem Arrives.waitTicks (h : Arrives k s₀ done (.op (.waitTicks t) :: rest))
    (hawait : Awaited k t (s₀.after k done)) :
    Arrives k s₀ (done ++ [.op (.waitTicks t)]) rest := by
  obtain ⟨s, hreach, hs⟩ := h
  have hsetup : (s₀.after k (done ++ [.op (.waitTicks t)])).setup = (s₀.after k done).setup := by
    rw [EntryState.after_concat]
    rfl
  -- The induction is on the ticks that are still missing.
  induction hn : 3 - (s.hw.irqCount t).toNat generalizing s with
  | zero =>
      have hthree : (3 : UInt64).toNat = 3 := rfl
      have hstep : s.stepOp k = some { s with code := rest } := by
        unfold EntryState.stepOp
        rw [hs.code]
        exact if_neg (by rw [UInt64.lt_iff_toNat_lt, hthree]; omega)
      exact ⟨_, hreach.snoc (entryStep_op hs.halted hstep), rfl, hs.saved, hs.halted,
        hs.setup.trans hsetup.symm⟩
  | succ n ih =>
      obtain ⟨s', htick, hcode, hsaved, hhalted, hkept, hcount⟩ :=
        reaches_tick (hawait.congr hs.setup) hs.saved (by omega)
      exact ih s' (hreach.trans htick)
        ⟨hcode.trans hs.code, hsaved, hhalted, hkept.trans hs.setup⟩ (by omega)

end Ticks

/-! ## The touch test does not fault -/

/-- The accesses of the test as two operations of the machine. -/
theorem touchTest_eq_bind (m : Memory) (cr3 mmapPhys : UInt64) :
    touchTest m cr3 mmapPhys =
      (flipMemory m cr3 (mmapPhys + upperHalf)).bind fun r =>
        (restoreMemory r.1 cr3 (mmapPhys + upperHalf) r.2).map fun restored => (r.1, restored) := by
  unfold touchTest flipMemory restoreMemory
  simp only [Option.bind_eq_bind, Option.bind_assoc, Option.bind_some,
    Option.map_eq_bind, Function.comp_def]

section Touch

variable {k : LoadedKernel} {m : Memory} {P : Paging} (hp : Placed k.toHandover)
  (hd : RangesDisjoint k.toHandover) (hc : ConventionalOk k.toHandover m)
  (hb : MapBelow k.toHandover m) (hbuild : buildPaging k.toHandover m = .ok P)
include hp hd hc hb hbuild

/-- On the tables of Stage 1 neither operation faults, and the second one restores memory. -/
theorem flipMemory_restoreMemory : ∃ flipped old,
    flipMemory P.mem P.pml4Phys (k.mmapPhys + upperHalf) = some (flipped, old) ∧
      restoreMemory flipped P.pml4Phys (k.mmapPhys + upperHalf) old = some P.mem := by
  have htest := touchTest_eq hp hc hb hbuild hd
  rw [touchTest_eq_bind, Option.bind_eq_some_iff] at htest
  obtain ⟨⟨flipped, old⟩, hflip, hrest⟩ := htest
  obtain ⟨restored, hrestore, hpair⟩ := Option.map_eq_some_iff.mp hrest
  obtain rfl : restored = P.mem := congrArg Prod.snd hpair
  exact ⟨flipped, old, hflip, hrestore⟩

/-- Stage 1 ends with the memory that it has built. -/
theorem stage1Memory_eq (fw : Firmware) : k.stage1Memory fw P = P.mem := by
  obtain ⟨flipped, old, hflip, hrestore⟩ := flipMemory_restoreMemory hp hd hc hb hbuild
  rw [LoadedKernel.stage1Memory, stage1Finish, EntryState.after_append, EntryState.after_print,
    EntryState.after_cons, EntryState.after_cons, EntryState.after_print]
  simp only [EntryState.exec, EntryState.flipWord, EntryState.restoreWord, Firmware.enter, hflip,
    hrestore, Option.map_some, Option.getD_some]

end Touch

/-! ## The windows are reached -/

/-- `kernel_entry` from the `sti` of Stage 4. -/
def stage4Window : List EntryOp :=
  .op .sti :: .op (.waitTicks .lapic) :: .op (.io .cli) ::
    ((stage4Finish.map fun i => .op (.io i)) ++ stage5)

/-- `kernel_entry` from the `sti` of Stage 3. -/
def stage3Window : List EntryOp :=
  .op .sti :: .op (.waitTicks .pit) :: .op (.io .cli) ::
    ((stage4Setup.map fun i => .op (.io i)) ++ stage4Window)

/-- `kernel_entry` up to the `sti` of Stage 3. -/
def toStage3Window : List EntryOp :=
  (stage1Finish ++ bootSegments) ++ (.op (.io .cli) :: (stage2 ++
    stage3Setup.map fun i => .op (.io i)))

/-- `kernel_entry` up to the `sti` of Stage 4. -/
def toStage4Window : List EntryOp :=
  toStage3Window ++ [.op .sti] ++ [.op (.waitTicks .pit)] ++
    (.op (.io .cli) :: stage4Setup.map fun i => .op (.io i))

theorem entryCode_eq : entryCode = toStage3Window ++ stage3Window := by
  rw [entryCode, kernelEntry_eq]
  simp only [toStage3Window, stage3Window, stage4Window, List.append_assoc, List.cons_append]

section Windows

variable {k : LoadedKernel} (fw : Firmware) {P : Paging} (hp : Placed k.toHandover) (hk : k.Ok)
  (hd : RangesDisjoint k.toHandover)
include hp hk hd

/-- What the `sti` of Stage 3 finds. -/
theorem setting_stage3 :
    Setting k (k.stage1Memory fw P) P.pml4Phys k.pitGates ⟨none, none⟩
        ((fw.enter P).after k toStage3Window) ∧
      ((fw.enter P).after k toStage3Window).hw.pic1 = ⟨0x20, 0xFE, 0⟩ ∧
      ((fw.enter P).after k toStage3Window).hw.pic2 = ⟨0x28, 0xFF, 0⟩ := by
  have hstage2 := (setting_stage2 fw P hp hk hd).pitWindow hp hk hd
  rw [toStage3Window, EntryState.after_append, EntryState.after_cons, EntryState.after_append]
  exact hstage2

/-- What the `sti` of Stage 4 finds. -/
theorem setting_stage4 :
    Setting k (k.stage1Memory fw P) P.pml4Phys k.lapicGates ⟨some 0x1FF, some 0x20022⟩
        ((fw.enter P).after k toStage4Window) ∧
      ((fw.enter P).after k toStage4Window).hw.pic1 = ⟨0x20, 0xFF, 0⟩ ∧
      ((fw.enter P).after k toStage4Window).hw.pic2 = ⟨0x28, 0xFF, 0⟩ := by
  obtain ⟨hsetting, hpic1, hpic2⟩ := setting_stage3 (P := P) fw hp hk hd
  have hwait : ∀ s : EntryState, s.exec k (.op (.waitTicks .pit)) = s := fun _ => rfl
  refine hsetting.reopen hp hk hd hpic1 hpic2 ?_
  rw [toStage4Window, EntryState.after_append, EntryState.after_concat, EntryState.after_concat,
    EntryState.after_cons, hwait]

end Windows

/-- The stub behind the gate of the last call for a vector. -/
theorem Tables.stubOf {k : LoadedKernel} {m : Memory} {cr3 : UInt64} {calls : List GateCall}
    {c : EntryState} (h : Tables k m cr3 calls c) (hk : k.Ok) (hne : calls ≠ []) {vector : UInt8}
    {isr : Isr} {typeAttr : UInt8}
    (hgate : descriptorOf calls vector = ⟨k.handler isr, 8, 0, typeAttr, 0⟩)
    (hpresent : typeAttr &&& 0x80 ≠ 0) :
    c.stubOf k vector = some (isr, ⟨k.handler isr, 8, 0, typeAttr, 0⟩) := by
  have hfound := h.gate? hne vector
  rw [hgate] at hfound
  exact EntryState.stubOf_eq_some.mpr ⟨hfound, hpresent, hk.handlerAt_handler isr⟩

/-- A tick that a window lets through is handled. -/
theorem EntryWindow.awaited {k : LoadedKernel} {m : Memory} {cr3 : UInt64} {c : EntryState}
    (h : EntryWindow k m cr3 c) (hk : k.Ok) (hon : c.hw.interrupts = true) {t : Timer}
    {vector : UInt8} (hv : c.deliverable t.source = some vector) : Awaited k t c := by
  have hpresent : kIdtTypeInt64 &&& 0x80 ≠ 0 := by decide
  have hdelivery := h.delivery hv
  refine ⟨hon, h.loaded, vector, ?_⟩
  cases t with
  | pit =>
      cases hdelivery with
      | irq0 hgate =>
          exact ⟨_, hv, EntryState.stubOf_eq_some.mpr ⟨hgate, hpresent, hk.handlerAt_handler _⟩⟩
  | lapic =>
      cases hdelivery with
      | lapicTimer hgate =>
          exact ⟨_, hv, EntryState.stubOf_eq_some.mpr ⟨hgate, hpresent, hk.handlerAt_handler _⟩⟩

/-- Stage 2 between its `cli` and `int3`. -/
def toInt3 : List EntryOp :=
  .idtClearAll :: .installGate kVectorBreakpoint .breakpoint kIdtTypeTrap64 ::
    (print "STAGE 2: install idt\n" ++ print "STAGE 2: int3\n")

section Arrivals

variable {k : LoadedKernel} (fw : Firmware) {m : Memory} {P : Paging} (hp : Placed k.toHandover)
  (hk : k.Ok) (hd : RangesDisjoint k.toHandover)
include hp hk hd

/-- The gate that `int3` finds. -/
theorem stubOf_int3 :
    ((fw.enter P).after k ((stage1Finish ++ bootSegments) ++ (.op (.io .cli) :: toInt3))).stubOf k
      kVectorBreakpoint = some (.breakpoint, ⟨k.handler .breakpoint, 8, 0, kIdtTypeTrap64, 0⟩) := by
  have hclear : toInt3.tail.all EntryOp.afterClear = true := by decide +kernel
  have hcalls : toInt3.tail.filterMap (EntryOp.gateCall k) =
      [⟨kVectorBreakpoint, k.handler .breakpoint, 8, kIdtTypeTrap64⟩] := rfl
  have htables := (setting_idtClearAll fw P hp hk).tables.after hp hk hd hclear
  rw [hcalls, List.nil_append] at htables
  have hcons : EntryOp.idtClearAll :: toInt3.tail = toInt3 := rfl
  rw [EntryState.after_append, EntryState.after_cons, ← hcons, EntryState.after_cons]
  exact htables.stubOf hk (List.cons_ne_nil _ _) rfl (by decide)

variable (hc : ConventionalOk k.toHandover m) (hb : MapBelow k.toHandover m)
  (hbuild : buildPaging k.toHandover m = .ok P)
include hc hb hbuild

omit hk in
/-- The touch test is passed. -/
theorem arrives_touched :
    Arrives k (fw.enter P)
      (print "STAGE 1: touch memory\n" ++ [.flipWord] ++ [.restoreWord])
      (print "STAGE 1: paging done\n" ++ (bootSegments ++ (.op (.io .cli) :: (stage2 ++
        ((stage3Setup.map fun i => .op (.io i)) ++ stage3Window))))) := by
  obtain ⟨flipped, old, hflip, hrestore⟩ := flipMemory_restoreMemory hp hd hc hb hbuild
  have hstart : Arrives k (fw.enter P) [] entryCode := ⟨_, .refl _, rfl, rfl, rfl, rfl⟩
  rw [entryCode_eq, toStage3Window, stage1Finish] at hstart
  simp only [List.append_assoc, List.cons_append] at hstart
  have hprinted := hstart.straight (plain_print _)
  rw [List.nil_append] at hprinted
  have hmemory : ((fw.enter P).after k (print "STAGE 1: touch memory\n")).flipWord k =
      some { (fw.enter P).after k (print "STAGE 1: touch memory\n") with
        mem := flipped, old := old } := by
    rw [EntryState.after_print]
    simp only [EntryState.flipWord, Firmware.enter, hflip, Option.map_some]
  refine (hprinted.flipWord ?_).restoreWord ?_
  · rw [EntryState.after_print]
    exact Option.isSome_iff_exists.mpr ⟨_, hflip⟩
  · have hexec : ∀ s : EntryState, s.exec k .flipWord = (s.flipWord k).getD s := fun _ => rfl
    rw [EntryState.after_concat, hexec, hmemory, Option.getD_some, EntryState.after_print]
    exact Option.isSome_iff_exists.mpr ⟨_, hrestore⟩

/-- The `sti` of Stage 3 is reached. -/
theorem arrives_stage3 : Arrives k (fw.enter P) toStage3Window stage3Window := by
  have htouched := arrives_touched fw hp hd hc hb hbuild
  have hstage2 : stage2 = toInt3 ++ (.int3 :: print "STAGE 2: done\n") := by
    simp only [stage2, toInt3, List.append_assoc, List.cons_append]
  have hplain : (print "STAGE 1: paging done\n" ++ (bootSegments ++ (.op (.io .cli) ::
      toInt3))).all EntryOp.plain = true := by decide +kernel
  have hlast : (print "STAGE 2: done\n" ++ stage3Setup.map fun i => EntryOp.op (.io i)).all
      EntryOp.plain = true := by decide +kernel
  have hbefore : print "STAGE 1: touch memory\n" ++ [.flipWord] ++ [.restoreWord] ++
      (print "STAGE 1: paging done\n" ++ (bootSegments ++ (.op (.io .cli) :: toInt3))) =
        (stage1Finish ++ bootSegments) ++ (.op (.io .cli) :: toInt3) := by
    simp only [stage1Finish, List.append_assoc, List.cons_append, List.nil_append]
  have hint3 : Arrives k (fw.enter P) ((stage1Finish ++ bootSegments) ++ (.op (.io .cli) :: toInt3))
      (.int3 :: ((print "STAGE 2: done\n" ++ stage3Setup.map fun i => .op (.io i)) ++
        stage3Window)) := by
    rw [← hbefore]
    refine Arrives.straight hplain ?_
    rw [hstage2] at htouched
    simp only [List.append_assoc, List.cons_append] at htouched ⊢
    exact htouched
  have hback := (hint3.int3 (stubOf_int3 fw hp hk hd)).straight hlast
  have hafter : (stage1Finish ++ bootSegments) ++ (.op (.io .cli) :: toInt3) ++ [.int3] ++
      (print "STAGE 2: done\n" ++ stage3Setup.map fun i => .op (.io i)) = toStage3Window := by
    simp only [toStage3Window, hstage2, List.append_assoc, List.cons_append, List.nil_append]
  rwa [hafter] at hback

/-- **The `sti` of Stage 4 is reached**: three ticks of the first timer end the first window. -/
theorem arrives_stage4 : Arrives k (fw.enter P) toStage4Window stage4Window := by
  obtain ⟨hsetting, hpic1, hpic2⟩ := setting_stage3 (P := P) fw hp hk hd
  have hopen := (arrives_stage3 fw hp hk hd hc hb hbuild).next fun _ hs =>
    stepOp_plain rfl hs.code
  have hawait : Awaited k .pit ((fw.enter P).after k (toStage3Window ++ [.op .sti])) := by
    rw [EntryState.after_concat]
    generalize (fw.enter P).after k toStage3Window = d at hsetting hpic1 hpic2 ⊢
    have hwindow : EntryWindow k _ _ (d.exec k (.op .sti)) :=
      .pit hsetting.tables.sti hpic1 hpic2 hsetting.lapic
    have hirq : (d.exec k (.op .sti)).deliverable Timer.pit.source = some kVectorIRQ0 := by
      show d.hw.pic1.deliverable 0 = _
      rw [hpic1]
      rfl
    exact hwindow.awaited hk rfl hirq
  have hlast : (EntryOp.op (.io .cli) :: stage4Setup.map fun i => .op (.io i)).all
      EntryOp.plain = true := by decide +kernel
  exact (hopen.waitTicks hawait).straight hlast

end Arrivals

/-! ## A small kernel -/

/-- A kernel of two pages in the small placement: the stubs in the first page, the table in the
second one, and the locals at the top of the stack. -/
def smallKernel : LoadedKernel where
  toHandover := { smallHandover with kernelPages := 2 }
  gIdt := 0x1000
  isr := fun
    | .breakpoint => 0x100
    | .irq32 => 0x140
    | .lapicTimer => 0x180
    | .pageFault => 0x1C0
  irqCount := fun
    | .pit => 0x800
    | .lapic => 0x808
  bootGdt := 0x3E00
  bootGdtr := 0x3E20
  idtPointer := 0x3E30
  rsp := 0x3D00
  handlerStack := 0x400

theorem smallKernel_placed : Placed smallKernel.toHandover := by
  constructor <;> decide

theorem smallKernel_ok : smallKernel.Ok where
  gIdt_fits := by decide
  isr_fits := by
    intro isr
    cases isr <;> decide
  isr_distinct := by
    intro i j h
    cases i <;> cases j <;> first | rfl | exact absurd h (by decide)
  irqCount_fits := by
    intro t
    cases t <;> decide
  bootGdt_fits := by decide
  bootGdtr_fits := by decide
  idtPointer_fits := by decide
  rsp_fits := by decide

theorem smallKernel_rangesDisjoint : RangesDisjoint smallKernel.toHandover := by
  have hk : smallKernel.kernelPhys.toNat = 0x100000 := rfl
  have hn : smallKernel.kernelPages.toNat = 2 := rfl
  have hs : smallKernel.stackPhys.toNat = 0x200000 := rfl
  have hm : smallKernel.mmapPhys.toNat = 0x1000000 := rfl
  constructor
  · simp only [InKernelImage, InStackRange, hk, hn, hs]
    omega
  · simp only [Live, InKernelImage, InStackRange, InMmapBuffer, hk, hn, hs, hm]
    omega

theorem smallKernel_mapBelow : MapBelow smallKernel.toHandover (fun _ => 0) :=
  ⟨endsBelow_cleared _ _ _, endsBelow_cleared _ _ _⟩

theorem smallKernel_prepare :
    prepare smallKernel.toHandover (fun _ => 0) = .ok { smallEnv with kernelEnd := 0x102000 } := by
  unfold prepare
  rw [scan_cleared (by decide)]
  rfl

theorem smallKernel_buildPaging :
    ∃ P, buildPaging smallKernel.toHandover (fun _ => 0) = .ok P := by
  have hlength : (layoutCalls smallKernel.toHandover).length = 16 := by
    simp [layoutCalls, halfCalls, pageCalls, smallKernel, smallHandover]
  apply buildPaging_ok smallKernel_placed smallKernel_prepare
  rw [hlength]
  refine ⟨by decide, by decide, ?_⟩
  intro p hlow _
  have hscratch : (initialAlloc { smallEnv with kernelEnd := 0x102000 }).scratchNext.toNat =
      0x1000000 := rfl
  have hk : (0x102000 : UInt64).toNat = 0x102000 := rfl
  have hs : smallEnv.stackEnd.toNat = 0x204000 := rfl
  rw [hscratch] at hlow
  unfold AllocEnv.inKernel AllocEnv.inStack
  simp only [Bool.and_eq_false_iff, decide_eq_false_iff_not, UInt64.lt_iff_toNat_lt, hk, hs]
  omega

/-- Firmware that has disabled interrupts. -/
def idleFirmware : Firmware := ⟨⟨0, 0⟩, ⟨0, 0⟩, 0x38, idleHw⟩

end Kernel
end OsBook
