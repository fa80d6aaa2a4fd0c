import OsBook.Kernel.EntryMachine
import OsBook.Kernel.SerialLog

/-!
# Runs of `kernel_entry` under every schedule of interrupts

Handlers change the tick counts and the log, and nothing that interrupt delivery
depends on.  So whatever interrupts arrive, the rest of the state (`setup`) is
that of the main program run alone up to its present operation: `EntryInv`.
What holds at every operation of that single run, `Along`, then holds in every
reachable state.
-/

namespace OsBook
namespace Kernel

open Machine

/-! ## The main program alone -/

/-- The state without its tick counts, its log and its flow of control. -/
def EntryState.setup (s : EntryState) : EntryState :=
  { s with
    hw := { s.hw with irqCount := fun _ => 0, log := [] }
    cr2 := 0
    code := []
    saved := []
    halted := false
    crashed := false }

/-- The state after some operations of the main program, without interrupts. -/
def EntryState.after (k : LoadedKernel) (s : EntryState) (ops : List EntryOp) : EntryState :=
  ops.foldl (EntryState.exec k) s

section Setup

variable (k : LoadedKernel) (s : EntryState)

theorem EntryState.setup_exec (op : EntryOp) :
    (s.exec k op).setup = (s.setup.exec k op).setup := by
  cases op with
  | op o =>
      cases o with
      | io i =>
          cases i with
          | outb port value =>
              simp only [exec, io, setup, Hw.io, Hw.outb]
              split_ifs <;> rfl
          | _ => rfl
      | _ => rfl
  | flipWord =>
      show (((flipMemory s.mem s.cr3 (k.mmapPhys + upperHalf)).map _).getD s).setup =
        (((flipMemory s.mem s.cr3 (k.mmapPhys + upperHalf)).map _).getD s.setup).setup
      cases flipMemory s.mem s.cr3 (k.mmapPhys + upperHalf) <;> rfl
  | restoreWord =>
      show (((restoreMemory s.mem s.cr3 (k.mmapPhys + upperHalf) s.old).map _).getD s).setup =
        (((restoreMemory s.mem s.cr3 (k.mmapPhys + upperHalf) s.old).map _).getD s.setup).setup
      cases restoreMemory s.mem s.cr3 (k.mmapPhys + upperHalf) s.old <;> rfl
  | _ => rfl

/-- The two stores of the touch test change memory and the saved word. -/
theorem EntryState.exec_flipWord :
    ∃ m old, s.exec k .flipWord = { s with mem := m, old := old } := by
  show ∃ m old, ((flipMemory s.mem s.cr3 (k.mmapPhys + upperHalf)).map _).getD s = _
  cases flipMemory s.mem s.cr3 (k.mmapPhys + upperHalf) with
  | none => exact ⟨s.mem, s.old, rfl⟩
  | some r => exact ⟨r.1, r.2, rfl⟩

theorem EntryState.exec_restoreWord : ∃ m, s.exec k .restoreWord = { s with mem := m } := by
  show ∃ m, ((restoreMemory s.mem s.cr3 (k.mmapPhys + upperHalf) s.old).map _).getD s = _
  cases restoreMemory s.mem s.cr3 (k.mmapPhys + upperHalf) s.old with
  | none => exact ⟨s.mem, rfl⟩
  | some m => exact ⟨m, rfl⟩

/-- Only the flow of control touches the interrupted code and `halted`, and no operation forgets
that the table has been loaded. -/
theorem EntryState.exec_saved (op : EntryOp) :
    (s.exec k op).saved = s.saved ∧ (s.exec k op).halted = s.halted ∧
      (s.idtLoaded = true → (s.exec k op).idtLoaded = true) := by
  cases op with
  | op o =>
      cases o with
      | io i => cases i <;> exact ⟨rfl, rfl, fun h => by first | exact h | rfl⟩
      | _ => exact ⟨rfl, rfl, id⟩
  | flipWord =>
      obtain ⟨m, old, h⟩ := s.exec_flipWord k
      rw [h]
      exact ⟨rfl, rfl, id⟩
  | restoreWord =>
      obtain ⟨m, h⟩ := s.exec_restoreWord k
      rw [h]
      exact ⟨rfl, rfl, id⟩
  | installGate vector isr typeAttr => exact ⟨rfl, rfl, fun _ => rfl⟩
  | _ => exact ⟨rfl, rfl, id⟩

variable {s}

theorem EntryState.exec_congr {t : EntryState} (h : s.setup = t.setup) (op : EntryOp) :
    (s.exec k op).setup = (t.exec k op).setup := by
  rw [setup_exec, h, ← setup_exec]

variable (s)

theorem EntryState.after_append (ops ops' : List EntryOp) :
    s.after k (ops ++ ops') = (s.after k ops).after k ops' :=
  List.foldl_append

theorem EntryState.after_cons (op : EntryOp) (ops : List EntryOp) :
    s.after k (op :: ops) = (s.exec k op).after k ops := rfl

theorem EntryState.after_concat (ops : List EntryOp) (op : EntryOp) :
    s.after k (ops ++ [op]) = (s.after k ops).exec k op :=
  List.foldl_concat ..

end Setup

/-- A part of the state that is left alone by the handlers. -/
theorem EntryState.congr_setup {α : Type} {s t : EntryState} (f : EntryState → α)
    (hf : ∀ s, f s.setup = f s) (h : s.setup = t.setup) : f s = f t := by
  rw [← hf s, h, hf t]

/-- What interrupt delivery sees of a state is in its setup. -/
theorem EntryState.deliverable_setup (src : InterruptSource) (s : EntryState) :
    s.setup.deliverable src = s.deliverable src := by
  cases src <;> rfl

/-! ## Operations -/

/-- The operations of a handler before its `iretq`: they write to the log, acknowledge the
interrupt, count it, or look at the fault. -/
def EntryOp.inHandler : EntryOp → Bool
  | .op (.io (.writeChar _)) => true
  | .op (.io i) => i = acknowledge .pit || i = acknowledge .lapic
  | .op (.countTick _) => true
  | .reportCr2 => true
  | .skipProbe => true
  | _ => false

/-- The operations of the main program. -/
def EntryOp.inMain : EntryOp → Bool
  | .op .hlt => false
  | .op (.countTick _) => false
  | .op .iretq => false
  | .reportCr2 => false
  | .skipProbe => false
  | _ => true

/-- Operations that only go on to the next one. -/
def EntryOp.plain : EntryOp → Bool
  | .op (.io _) => true
  | .op .sti => true
  | .loadBootGdt => true
  | .reloadCs => true
  | .readCs => true
  | .idtClearAll => true
  | .installGate .. => true
  | _ => false

theorem stepOp_plain {k : LoadedKernel} {s : EntryState} {rest : List EntryOp} {op : EntryOp}
    (hop : op.plain = true) (hcode : s.code = op :: rest) :
    s.stepOp k = some { s.exec k op with code := rest } := by
  unfold EntryState.stepOp
  rw [hcode]
  cases op with
  | op o =>
      cases o with
      | io i => rfl
      | sti => rfl
      | _ => cases hop
  | loadBootGdt => rfl
  | reloadCs => rfl
  | readCs => rfl
  | idtClearAll => rfl
  | installGate vector isr typeAttr => rfl
  | _ => cases hop

theorem entryCode_inMain : entryCode.all EntryOp.inMain = true := by
  decide +kernel

theorem inHandler_print (text : List Char) {op : EntryOp}
    (h : op ∈ (write text).map fun i => EntryOp.op (.io i)) : op.inHandler = true := by
  simp only [write, List.map_map, List.mem_map, Function.comp] at h
  obtain ⟨c, -, rfl⟩ := h
  rfl

theorem inHandler_io {i : Io} (h : (EntryOp.op (.io i)).inHandler = true) :
    (∃ c, i = .writeChar c) ∨ ∃ t, i = acknowledge t := by
  have hack : ∀ j : Io, (decide (j = acknowledge .pit) || decide (j = acknowledge .lapic)) = true →
      ∃ t, j = acknowledge t := by
    intro j hj
    rcases (Bool.or_eq_true _ _).mp hj with hj | hj
    · exact ⟨.pit, of_decide_eq_true hj⟩
    · exact ⟨.lapic, of_decide_eq_true hj⟩
  cases i with
  | writeChar c => exact Or.inl ⟨c, rfl⟩
  | _ => exact Or.inr (hack _ h)

/-- Every handler ends with `iretq`. -/
theorem isrOps_eq (isr : Isr) :
    ∃ body, isrOps isr = body ++ [.op .iretq] ∧ ∀ op ∈ body, op.inHandler = true := by
  cases isr with
  | breakpoint => exact ⟨print "STAGE 2: #BP dispatcher\n", rfl, fun _ => inHandler_print _⟩
  | irq32 =>
      refine ⟨[.op (.io (acknowledge .pit)), .op (.countTick .pit)], rfl, ?_⟩
      decide
  | lapicTimer =>
      refine ⟨[.op (.io (acknowledge .lapic)), .op (.countTick .lapic)], rfl, ?_⟩
      decide
  | pageFault =>
      refine ⟨print "STAGE 5: #PF dispatch\n" ++ [.reportCr2, .skipProbe], ?_, ?_⟩
      · rw [List.append_assoc]
        rfl
      · intro op hop
        rcases List.mem_append.mp hop with h | h
        · exact inHandler_print _ h
        · simp only [List.mem_cons, List.not_mem_nil, or_false] at h
          rcases h with rfl | rfl <;> rfl

/-! ## The invariant -/

/-- Where the main program may be before the operations `rest`: there, or at the `hlt` of the
wait loop. -/
inductive AtCode (rest : List EntryOp) : (code : List EntryOp) → Prop
  | here : AtCode rest rest
  | hlt {t : Timer} {tail : List EntryOp} (h : rest = .op (.waitTicks t) :: tail) :
      AtCode rest (.op .hlt :: rest)

/-- Resume the interrupted code. -/
def EntryState.resume (s : EntryState) (interrupts : Bool) (cs : UInt16) : EntryState :=
  { s with hw := { s.hw with interrupts := interrupts }, cs := cs }

section Invariant

variable (k : LoadedKernel) (s₀ : EntryState)

/-- The reachable states: the main program, a handler that has interrupted it, or outside the
kernel. -/
inductive EntryInv : EntryState → Prop
  | main {s : EntryState} {done rest : List EntryOp} (hcode : done ++ rest = entryCode)
      (hat : AtCode rest s.code) (hsaved : s.saved = [])
      (hsetup : s.setup = (s₀.after k done).setup) : EntryInv s
  | handler {s : EntryState} {done rest code body : List EntryOp}
      (hcode : done ++ rest = entryCode) (hat : AtCode rest code)
      (hsaved : s.saved = [(code, (s₀.after k done).hw.interrupts, (s₀.after k done).cs)])
      (hoff : s.hw.interrupts = false) (hbody : s.code = body ++ [.op .iretq])
      (hin : ∀ op ∈ body, op.inHandler = true)
      (hsetup : (s.resume (s₀.after k done).hw.interrupts (s₀.after k done).cs).setup =
        (s₀.after k done).setup) : EntryInv s
  | left {s : EntryState} (hcode : s.code = []) (hoff : s.hw.interrupts = false) : EntryInv s

/-- What the main program must ensure before the operations `rest` in state `c`: an interrupt
is only delivered to an interrupt gate, and an exception only while interrupts are disabled. -/
structure Safe (rest : List EntryOp) (c : EntryState) : Prop where
  gates : c.hw.interrupts = true → c.idtLoaded = true → ∀ src vector, c.deliverable src =
    some vector → ∀ isr g, c.stubOf k vector = some (isr, g) → g.typeAttr &&& 1 = 0
  masked : c.hw.interrupts = true → ∀ tail, rest ≠ .int3 :: tail ∧ rest ≠ .probe :: tail ∧
    rest ≠ .haltLoop :: tail

variable {k s₀}

theorem EntryInv.leave (s : EntryState) : EntryInv k s₀ s.leave := .left rfl rfl

/-- A delivery to the main program that disables interrupts. -/
theorem EntryInv.deliver {s : EntryState} {done rest : List EntryOp}
    (hcode : done ++ rest = entryCode) (hat : AtCode rest s.code) (hsaved : s.saved = [])
    (hsetup : s.setup = (s₀.after k done).setup) {vector : UInt8}
    (hoff : s.hw.interrupts = true → ∀ isr g, s.stubOf k vector = some (isr, g) →
      g.typeAttr &&& 1 = 0) : EntryInv k s₀ (s.deliver k vector) := by
  unfold EntryState.deliver
  cases hstub : s.stubOf k vector with
  | none => exact .leave s
  | some found =>
      obtain ⟨isr, g⟩ := found
      obtain ⟨body, hbody, hin⟩ := isrOps_eq isr
      have hon : s.hw.interrupts = (s₀.after k done).hw.interrupts :=
        EntryState.congr_setup (fun s => s.hw.interrupts) (fun _ => rfl) hsetup
      have hcs : s.cs = (s₀.after k done).cs :=
        EntryState.congr_setup EntryState.cs (fun _ => rfl) hsetup
      refine .handler hcode hat (by rw [hsaved, hon, hcs]) ?_ hbody hin ?_
      · show (decide (g.typeAttr &&& 1 = 1) && s.hw.interrupts) = false
        cases hs : s.hw.interrupts with
        | false => rw [Bool.and_false]
        | true =>
            rw [hoff hs isr g hstub]
            rfl
      · rw [← hsetup, ← hon, ← hcs]
        rfl

theorem append_next {done tail : List EntryOp} {op : EntryOp}
    (hcode : done ++ op :: tail = entryCode) : (done ++ [op]) ++ tail = entryCode := by
  rw [List.append_assoc, List.singleton_append, hcode]

/-- The main program has done its next operation. -/
theorem EntryInv.next {s' : EntryState} {done tail : List EntryOp} {op : EntryOp}
    (hcode : done ++ op :: tail = entryCode) (hat : s'.code = tail) (hsaved : s'.saved = [])
    (hsetup : s'.setup = ((s₀.after k done).exec k op).setup) : EntryInv k s₀ s' := by
  refine .main (append_next hcode) ?_ hsaved ?_
  · rw [hat]
    exact .here
  · rw [EntryState.after_concat, hsetup]

/-- A step of the main program. -/
theorem EntryInv.main_step (hsafe : ∀ done rest, done ++ rest = entryCode →
    Safe k rest (s₀.after k done)) {s s' : EntryState} {done rest : List EntryOp}
    (hcode : done ++ rest = entryCode) (hat : AtCode rest s.code) (hsaved : s.saved = [])
    (hsetup : s.setup = (s₀.after k done).setup) (hstep : s.stepOp k = some s') :
    EntryInv k s₀ s' := by
  have hon : s.hw.interrupts = (s₀.after k done).hw.interrupts :=
    EntryState.congr_setup (fun s => s.hw.interrupts) (fun _ => rfl) hsetup
  have hmasked := (hsafe done rest hcode).masked
  rw [← hon] at hmasked
  generalize hc : s.code = code at hat
  cases hat with
  | hlt hwait =>
      unfold EntryState.stepOp at hstep
      rw [hc] at hstep
      obtain rfl := Option.some.inj hstep
      exact .main hcode .here hsaved hsetup
  | here =>
      cases rest with
      | nil =>
          unfold EntryState.stepOp at hstep
          rw [hc] at hstep
          cases hstep
      | cons op tail =>
          have hmain : op.inMain = true := by
            have hmem : op ∈ entryCode := by
              rw [← hcode]
              simp
            exact List.all_eq_true.mp entryCode_inMain op hmem
          -- An operation that is neither a jump nor an exception.
          have hplain : s' = { s.exec k op with code := tail } → EntryInv k s₀ s' := by
            rintro rfl
            exact .next hcode rfl ((s.exec_saved k op).1.trans hsaved)
              (EntryState.exec_congr k hsetup op)
          -- An access of the touch test.
          have hmemory : ∀ r : Option EntryState, s.exec k op = r.getD s →
              s' = r.elim s.leave (fun t => { t with code := tail }) → EntryInv k s₀ s' := by
            intro r hexec hs'
            cases r with
            | none =>
                subst hs'
                exact .leave s
            | some t => exact hplain (hs'.trans (by rw [hexec]; rfl))
          by_cases hop : op.plain = true
          · rw [stepOp_plain hop hc] at hstep
            exact hplain (Option.some.inj hstep).symm
          unfold EntryState.stepOp at hstep
          rw [hc] at hstep
          cases op with
          | op o =>
              cases o with
              | waitTicks t =>
                  simp only at hstep
                  split at hstep
                  · obtain rfl := Option.some.inj hstep
                    exact .main hcode (.hlt rfl) hsaved hsetup
                  · exact hplain (Option.some.inj hstep).symm
              | hlt => cases hmain
              | countTick t => cases hmain
              | iretq => cases hmain
              | _ => exact absurd rfl hop
          | flipWord => exact hmemory (s.flipWord k) rfl (Option.some.inj hstep).symm
          | restoreWord => exact hmemory (s.restoreWord k) rfl (Option.some.inj hstep).symm
          | int3 =>
              obtain rfl := Option.some.inj hstep
              refine .deliver (s := { s with code := tail }) (append_next hcode) .here hsaved ?_ ?_
              · rw [EntryState.after_concat]
                exact EntryState.exec_congr k hsetup .int3
              · intro hs
                exact absurd rfl (hmasked hs tail).1
          | probe =>
              simp only at hstep
              split at hstep
              · exact hplain (Option.some.inj hstep).symm
              · obtain rfl := Option.some.inj hstep
                refine .deliver (s := { s with cr2 := kProbeUnmappedVa, code := .probe :: tail })
                  hcode .here hsaved hsetup fun hs => ?_
                exact absurd rfl (hmasked hs tail).2.1
          | reportCr2 => cases hmain
          | skipProbe => cases hmain
          | haltLoop =>
              obtain rfl := Option.some.inj hstep
              have hoff : s.hw.interrupts = false := by
                cases hs : s.hw.interrupts with
                | false => rfl
                | true => exact absurd rfl (hmasked hs tail).2.2
              refine .main hcode (hc ▸ .here) hsaved ?_
              rw [← hsetup, ← hoff]
              rfl
          | _ => exact absurd rfl hop

/-- A step of a handler. -/
theorem EntryInv.handler_step {s s' : EntryState} {done rest code body : List EntryOp}
    (hcode : done ++ rest = entryCode) (hat : AtCode rest code)
    (hsaved : s.saved = [(code, (s₀.after k done).hw.interrupts, (s₀.after k done).cs)])
    (hoff : s.hw.interrupts = false) (hbody : s.code = body ++ [.op .iretq])
    (hin : ∀ op ∈ body, op.inHandler = true)
    (hsetup : (s.resume (s₀.after k done).hw.interrupts (s₀.after k done).cs).setup =
      (s₀.after k done).setup) (hstep : s.stepOp k = some s') : EntryInv k s₀ s' := by
  unfold EntryState.stepOp at hstep
  rw [hbody] at hstep
  cases body with
  | nil =>
      simp only [List.nil_append, hsaved] at hstep
      obtain rfl := Option.some.inj hstep
      exact .main hcode hat rfl hsetup
  | cons op body =>
      have hrest : ∀ op ∈ body, op.inHandler = true := fun o ho => hin o (by simp [ho])
      have hop := hin op (by simp)
      have hprinted : ∀ text : List Char, ∀ o ∈ ((write text).map fun i => EntryOp.op (.io i)) ++
          body, o.inHandler = true := by
        intro text o ho
        rcases List.mem_append.mp ho with h | h
        · exact inHandler_print text h
        · exact hrest o h
      cases op with
      | op o =>
          cases o with
          | io i =>
              rcases inHandler_io hop with ⟨c, rfl⟩ | ⟨t, rfl⟩
              · obtain rfl := Option.some.inj hstep
                exact .handler hcode hat hsaved hoff rfl hrest hsetup
              · cases t <;>
                · obtain rfl := Option.some.inj hstep
                  exact .handler hcode hat hsaved hoff rfl hrest hsetup
          | countTick t =>
              obtain rfl := Option.some.inj hstep
              refine .handler hcode hat hsaved hoff (List.append_assoc _ body _).symm ?_ hsetup
              split
              · exact hprinted _
              · exact hrest
          | sti => cases hop
          | hlt => cases hop
          | waitTicks t => cases hop
          | iretq => cases hop
      | reportCr2 =>
          obtain rfl := Option.some.inj hstep
          refine .handler hcode hat hsaved hoff (List.append_assoc _ body _).symm ?_ hsetup
          split
          · exact hprinted _
          · exact hprinted _
      | skipProbe =>
          simp only [List.cons_append, hsaved] at hstep
          split at hstep
          · rename_i heq
            cases heq
            obtain rfl := Option.some.inj hstep
            cases hat with
            | here =>
                -- The interrupted code resumes behind the faulting instruction.
                refine .handler (append_next hcode) .here ?_ hoff rfl hrest ?_
                · rw [EntryState.after_concat]
                  rfl
                · rw [EntryState.after_concat]
                  exact hsetup
          · obtain rfl := Option.some.inj hstep
            exact .handler hcode hat rfl hoff rfl hrest hsetup
      | flipWord => cases hop
      | restoreWord => cases hop
      | loadBootGdt => cases hop
      | reloadCs => cases hop
      | readCs => cases hop
      | idtClearAll => cases hop
      | installGate vector isr typeAttr => cases hop
      | int3 => cases hop
      | probe => cases hop
      | haltLoop => cases hop

/-- **Every step keeps the invariant.** -/
theorem EntryInv.step (hsafe : ∀ done rest, done ++ rest = entryCode →
    Safe k rest (s₀.after k done)) {s s' : EntryState} (h : EntryInv k s₀ s) {e : EntryEvent}
    (hstep : entryStep k e s = some s') : EntryInv k s₀ s' := by
  cases e with
  | op =>
      simp only [entryStep] at hstep
      split at hstep
      · cases hstep
      · cases h with
        | main hcode hat hsaved hsetup => exact .main_step hsafe hcode hat hsaved hsetup hstep
        | handler hcode hat hsaved hoff hbody hin hsetup =>
            exact .handler_step hcode hat hsaved hoff hbody hin hsetup hstep
        | left hcode hoff =>
            unfold EntryState.stepOp at hstep
            rw [hcode] at hstep
            cases hstep
  | irq src =>
      simp only [entryStep] at hstep
      cases h with
      | main hcode hat hsaved hsetup =>
          have hgates := (hsafe _ _ hcode).gates
          rw [← EntryState.congr_setup (fun s => s.hw.interrupts) (fun _ => rfl) hsetup,
            ← EntryState.congr_setup (fun s => s.idtLoaded) (fun _ => rfl) hsetup] at hgates
          split at hstep
          · rename_i hon
            obtain ⟨vector, hvector, rfl⟩ := Option.map_eq_some_iff.mp hstep
            split
            · rename_i hloaded
              refine .deliver hcode hat hsaved hsetup fun hs isr g hstub => ?_
              rw [EntryState.congr_setup (fun s => s.deliverable src)
                (EntryState.deliverable_setup src) hsetup] at hvector
              rw [EntryState.congr_setup (fun s => s.stubOf k vector) (fun _ => rfl) hsetup] at hstub
              exact hgates hon hloaded src vector hvector isr g hstub
            · exact .leave _
          · cases hstep
      | handler hcode hat hsaved hoff hbody hin hsetup =>
          rw [hoff, if_neg Bool.false_ne_true] at hstep
          cases hstep
      | left hcode hoff =>
          rw [hoff, if_neg Bool.false_ne_true] at hstep
          cases hstep

/-- **The invariant holds in every reachable state.** -/
theorem EntryInv.run (hsafe : ∀ done rest, done ++ rest = entryCode →
    Safe k rest (s₀.after k done)) {events : List EntryEvent} {s s' : EntryState}
    (h : EntryInv k s₀ s) (hrun : runs (entryStep k) events s = some s') : EntryInv k s₀ s' :=
  runs_invariant (fun _ s => EntryInv k s₀ s) h (fun _ _ _ _ hs hstep => hs.step hsafe hstep) hrun

end Invariant

/-! ## Properties of the single run -/

section Along

variable (k : LoadedKernel) (P : List EntryOp → EntryState → Prop)

/-- `P` holds before each of the operations `ops`, which are followed by `rest`. -/
def Along (rest : List EntryOp) : List EntryOp → EntryState → Prop
  | [], _ => True
  | op :: ops, c => P (op :: (ops ++ rest)) c ∧ Along rest ops (c.exec k op)

variable {k P} {rest : List EntryOp}

theorem Along.append {ops ops' : List EntryOp} {c : EntryState} (h : Along k P (ops' ++ rest) ops c)
    (h' : Along k P rest ops' (c.after k ops)) : Along k P rest (ops ++ ops') c := by
  induction ops generalizing c with
  | nil => exact h'
  | cons op ops ih =>
      refine ⟨?_, ih h.2 h'⟩
      show P (op :: (ops ++ ops' ++ rest)) c
      rw [List.append_assoc]
      exact h.1

/-- Before an operation. -/
theorem Along.before {done tail ops : List EntryOp} {op : EntryOp} {c : EntryState}
    (h : Along k P rest ops c) (hops : done ++ op :: tail = ops) :
    P (op :: (tail ++ rest)) (c.after k done) := by
  induction done generalizing ops c with
  | nil =>
      subst hops
      exact h.1
  | cons o done ih =>
      subst hops
      exact ih h.2 rfl

/-- An invariant of the operations carries a property along them. -/
theorem Along.of_invariant {ops : List EntryOp} {c : EntryState} (Inv : EntryState → Prop)
    (hP : ∀ op ∈ ops, ∀ tail c, Inv c → P (op :: tail) c)
    (hkeep : ∀ op ∈ ops, ∀ c, Inv c → Inv (c.exec k op)) (hc : Inv c) :
    Along k P rest ops c ∧ Inv (c.after k ops) := by
  induction ops generalizing c with
  | nil => exact ⟨trivial, hc⟩
  | cons op ops ih =>
      obtain ⟨hrest, hend⟩ := ih (fun o ho => hP o (by simp [ho])) (fun o ho => hkeep o (by simp [ho]))
        (hkeep op (by simp) c hc)
      exact ⟨⟨hP op (by simp) _ c hc, hrest⟩, hend⟩

end Along

section Segments

variable (k : LoadedKernel)

/-- Only `sti` enables interrupts. -/
theorem EntryState.exec_interrupts {c : EntryState} {op : EntryOp} (hop : op ≠ .op .sti)
    (hc : c.hw.interrupts = false) : (c.exec k op).hw.interrupts = false := by
  cases op with
  | op o =>
      cases o with
      | io i =>
          have hio := interrupts_io hc i
          cases i <;> exact hio
      | sti => exact absurd rfl hop
      | _ => exact hc
  | flipWord =>
      obtain ⟨m, old, h⟩ := c.exec_flipWord k
      rw [h]
      exact hc
  | restoreWord =>
      obtain ⟨m, h⟩ := c.exec_restoreWord k
      rw [h]
      exact hc
  | _ => exact hc

/-- The operations of the timer stages act on the devices as they do there. -/
theorem EntryState.after_hw (ops : List Io) (c : EntryState) :
    (c.after k (ops.map fun i => .op (.io i))).hw = runIo ops c.hw := by
  induction ops generalizing c with
  | nil => rfl
  | cons i ops ih =>
      have hio : (c.exec k (.op (.io i))).hw = c.hw.io i := by
        cases i <;> rfl
      rw [List.map_cons, after_cons, ih, hio, runIo_cons]

/-- Printing only changes the log. -/
theorem EntryState.after_print (text : String) (c : EntryState) :
    c.after k (print text) = { c with hw := c.hw.print text.toList } := by
  have hwrite : ∀ (chars : List Char) (c : EntryState),
      c.after k ((write chars).map fun i => .op (.io i)) = { c with hw := runIo (write chars) c.hw } := by
    intro chars
    induction chars with
    | nil => exact fun c => rfl
    | cons x chars ih => exact fun c => ih (c.exec k (.op (.io (.writeChar x))))
  rw [print, hwrite, runIo_write]

end Segments

end Kernel
end OsBook
