import OsBook.Kernel.EntryHalts
import OsBook.Machine.Guarded

/-!
# Interrupts are acknowledged

The interrupt controllers keep a request in service until its handler writes the
end of interrupt, and admit no other one of its priority or below.  A handler
that forgot to acknowledge would silence its timer for good.

Here the controllers are put next to the machine of `Kernel.EntryMachine`.  The
two handlers acknowledge exactly what they have been called for, so nothing is
in service while interrupts are enabled, the controllers never hold an interrupt
back, and the kernel halts as before (`entry_acknowledges`).
-/

namespace OsBook
namespace Kernel

open Machine

/-! ## The controllers -/

/-- The requests in service, the latest one in front.  Only a request of a higher priority than all
of these is admitted, so the latest is the highest. -/
structure InService where
  pic1 : List (Fin 8)
  pic2 : List (Fin 8)
  /-- The vectors in service in the local APIC. -/
  lapic : List UInt8
deriving DecidableEq, Repr

namespace InService

/-- Nothing is in service. -/
def idle : InService := ⟨[], [], []⟩

/-- The line of the first 8259 that the second one is behind. -/
def cascadeLine : Fin 8 := ⟨2, by decide⟩

/-- Lower lines of an 8259 and higher classes of 16 vectors have priority. -/
def admits (r : InService) (vector : UInt8) : InterruptSource → Bool
  | .pic1 line => r.pic1.all (line < ·)
  | .pic2 line => r.pic1.all (cascadeLine < ·) && r.pic2.all (line < ·)
  | .lapicTimer => r.lapic.all (· / 16 < vector / 16)
  | .spurious => true

/-- The spurious vector is not put in service. -/
def accept (r : InService) (vector : UInt8) : InterruptSource → InService
  | .pic1 line => { r with pic1 := line :: r.pic1 }
  | .pic2 line => { r with pic1 := cascadeLine :: r.pic1, pic2 := line :: r.pic2 }
  | .lapicTimer => { r with lapic := vector :: r.lapic }
  | .spurious => r

/-- A write to the command port: `ICW1` ends all service, the end of interrupt the latest one. -/
def command (lines : List (Fin 8)) (value : UInt8) : List (Fin 8) :=
  if value &&& 0x10 ≠ 0 then [] else if value = 0x20 then lines.tail else lines

def io (r : InService) : Io → InService
  | .outb port value =>
      if port = 0x20 then { r with pic1 := command r.pic1 value }
      else if port = 0xA0 then { r with pic2 := command r.pic2 value }
      else r
  | .lapicMmioWrite reg _ => if reg = kLapicRegEoi then { r with lapic := r.lapic.tail } else r
  | _ => r

/-- The next operation of the processor, as the controllers see it. -/
def exec (r : InService) (code : List EntryOp) : InService :=
  match code with
  | .op (.io i) :: _ => r.io i
  | _ => r

end InService

/-- What the controllers do in a step; they refuse an interrupt that they do not admit. -/
def serve (e : EntryEvent) (s : EntryState) (r : InService) : Option InService :=
  match e with
  | .op => some (r.exec s.code)
  | .irq src =>
      (s.deliverable src).bind fun vector =>
        if r.admits vector src then some (r.accept vector src) else none

/-- `entryStep` behind the controllers. -/
def servedStep (k : LoadedKernel) : EntryEvent → EntryState × InService →
    Option (EntryState × InService) :=
  guarded (entryStep k) serve

/-! ## What a handler owes -/

/-- The timer whose request an operation acknowledges. -/
def EntryOp.eoi (op : EntryOp) : Option Timer :=
  if op = .op (.io (acknowledge .pit)) then some .pit
  else if op = .op (.io (acknowledge .lapic)) then some .lapic
  else none

/-- The acknowledgements in some code, up to its `iretq`. -/
def owed : List EntryOp → List Timer
  | [] => []
  | op :: code => if op = .op .iretq then [] else op.eoi.toList ++ owed code

/-- The request of one timer is in service. -/
def InService.only (t : Timer) (vector : UInt8) : InService := idle.accept vector t.source

/-- The controllers hold what the running code has yet to acknowledge. -/
inductive Owed (code : List EntryOp) (r : InService) : Prop
  | nothing (howed : owed code = []) (hr : r = .idle)
  | one {t : Timer} {vector : UInt8} (howed : owed code = [t]) (hr : r = .only t vector)

section Owes

variable {code : List EntryOp} {op : EntryOp} {r : InService} {text : List Char}

theorem owed_cons (hop : op ≠ .op .iretq) : owed (op :: code) = op.eoi.toList ++ owed code :=
  if_neg hop

theorem owed_eq_nil (h : ∀ op ∈ code, op.eoi = none) : owed code = [] := by
  induction code with
  | nil => rfl
  | cons op code ih =>
      unfold owed
      split
      · rfl
      · rw [h op (by simp), ih fun o ho => h o (by simp [ho])]
        rfl

/-- Printing acknowledges nothing. -/
theorem owed_print : owed (((write text).map fun i => .op (.io i)) ++ code) = owed code := by
  induction text with
  | nil => rfl
  | cons c text ih => exact ih

/-- The main program acknowledges nothing. -/
theorem owed_main {done rest : List EntryOp} (hcode : done ++ rest = entryCode)
    (hat : AtCode rest code) : owed code = [] := by
  have hall : ∀ op ∈ entryCode, op.eoi = none := by
    have hnone : entryCode.all (fun op => op.eoi.isNone) = true := by decide +kernel
    exact fun op hop => Option.isNone_iff_eq_none.mp (List.all_eq_true.mp hnone op hop)
  have hrest : owed rest = [] := by
    refine owed_eq_nil fun op hop => hall op ?_
    rw [← hcode]
    exact List.mem_append_right _ hop
  cases hat with
  | here => exact hrest
  | hlt _ => exact hrest

theorem owed_exception {isr : Isr} (hisr : isr = .breakpoint ∨ isr = .pageFault) :
    owed (isrOps isr) = [] := by
  rcases hisr with rfl | rfl <;> decide +kernel

/-- The handler of a timer acknowledges its own request. -/
theorem owed_timer (t : Timer) : owed (isrOps (stub t)) = [t] := by
  cases t <;> decide

/-- No operation puts anything in service. -/
theorem InService.exec_idle (code : List EntryOp) : idle.exec code = idle := by
  unfold exec
  split
  · rename_i i tail
    cases i with
    | outb port value =>
        have hcommand : ∀ value, command [] value = [] := by
          intro value
          unfold command
          split
          · rfl
          · split <;> rfl
        simp only [io, idle, hcommand, ite_self]
    | lapicMmioWrite reg value =>
        simp only [io, idle, List.tail_nil, ite_self]
    | _ => rfl
  · rfl

/-- An acknowledgement ends the service of its timer. -/
theorem InService.exec_acknowledge {t : Timer} {vector : UInt8} :
    (only t vector).exec (.op (.io (acknowledge t)) :: code) = idle := by
  cases t <;> rfl

/-- The other operations of a handler do not reach the controllers. -/
theorem InService.exec_other (hop : op.inHandler = true) (heoi : op.eoi = none) :
    r.exec (op :: code) = r := by
  cases op with
  | op o =>
      cases o with
      | io i =>
          rcases inHandler_io hop with ⟨c, rfl⟩ | ⟨t, rfl⟩
          · rfl
          · cases t <;> cases heoi
      | _ => rfl
  | _ => rfl

/-- An acknowledgement is one of the two writes. -/
theorem eq_acknowledge {t : Timer} (heoi : op.eoi = some t) : op = .op (.io (acknowledge t)) := by
  unfold EntryOp.eoi at heoi
  split at heoi
  · obtain rfl := Option.some.inj heoi
    assumption
  · split at heoi
    · obtain rfl := Option.some.inj heoi
      assumption
    · cases heoi

/-- **One operation of a handler** settles what it owes. -/
theorem Owed.exec (hop : op.inHandler = true) (h : Owed (op :: code) r) :
    Owed code (r.exec (op :: code)) := by
  have hiretq : op ≠ .op .iretq := by
    rintro rfl
    cases hop
  cases heoi : op.eoi with
  | none =>
      rw [InService.exec_other hop heoi]
      have howed : owed (op :: code) = owed code := by
        rw [owed_cons hiretq, heoi]
        rfl
      cases h with
      | nothing hnone hr => exact .nothing (howed ▸ hnone) hr
      | one hone hr => exact .one (howed ▸ hone) hr
  | some t =>
      obtain rfl := eq_acknowledge heoi
      have howed : owed (.op (.io (acknowledge t)) :: code) = t :: owed code := by
        rw [owed_cons hiretq, heoi]
        rfl
      cases h with
      | nothing hnone hr =>
          rw [howed] at hnone
          cases hnone
      | one hone hr =>
          rw [howed] at hone
          obtain ⟨rfl, hrest⟩ := List.cons.inj hone
          rw [hr, InService.exec_acknowledge]
          exact .nothing hrest rfl

end Owes

/-! ## Runs -/

/-- The controllers hold what the running code owes, as long as the kernel runs. -/
def Serving (s : EntryState) (r : InService) : Prop := s.crashed = false → Owed s.code r

section Runs

variable {k : LoadedKernel} {s₀ s s' : EntryState} {r : InService} {faults : Bool}

/-- In the main program nothing is in service. -/
theorem MainAt.idle {done rest : List EntryOp} (h : MainAt k s₀ done rest s)
    (hserving : Serving s r) : r = .idle := by
  have hnone := owed_main h.code h.here
  cases hserving h.inside with
  | nothing _ hr => exact hr
  | one hone _ =>
      rw [hnone] at hone
      cases hone

/-- The main program owes nothing. -/
theorem Inside.serving (h : Inside k s₀ s) : Serving s .idle := by
  intro hcrashed
  rcases h with ⟨done, rest, hat⟩ | hleft
  · exact .nothing (owed_main hat.code hat.here) rfl
  · rw [hleft.crashed] at hcrashed
    cases hcrashed

/-- An operation of the main program. -/
theorem MainAt.serve_op (hgates : Gates k s₀ faults) {done rest : List EntryOp}
    (h : MainAt k s₀ done rest s) (hserving : Serving s r) (hstep : s.stepOp k = some s')
    (hnext : ¬ s'.Busy → Inside k s₀ s') : Serving s' (r.exec s.code) := by
  obtain rfl := h.idle hserving
  rw [InService.exec_idle]
  have hplace : ∀ op code, op ≠ .op .hlt → s.code = op :: code → rest = op :: code := by
    intro op code hop hcode
    have hat := h.here
    generalize hc : s.code = c at hat
    rw [hc] at hcode
    cases hat with
    | here => exact hcode
    | hlt hwait => exact absurd (List.cons.inj hcode).1.symm hop
  rcases stepOp_delivers h.saved hstep with hnone | ⟨code, hcode, rfl⟩ | ⟨code, hcode, rfl⟩
  · exact (hnext fun hbusy => hbusy hnone).serving
  · obtain rfl := hplace _ _ (by decide) hcode
    obtain ⟨g, hstub⟩ := h.int3_stub hgates
    rw [deliver_eq (s := { s with code := code }) h.saved hstub]
    exact fun _ => .nothing (owed_exception (Or.inl rfl)) rfl
  · obtain rfl := hplace _ _ (by decide) hcode
    obtain ⟨-, g, hstub⟩ := h.probe_stub hgates
    rw [deliver_eq (s := { s with cr2 := kProbeUnmappedVa }) h.saved hstub]
    exact fun _ => .nothing (owed_exception (Or.inr rfl)) rfl

/-- An interrupt in the main program is admitted, and its handler owes its acknowledgement. -/
theorem MainAt.serve_irq (hgates : Gates k s₀ faults) {done rest : List EntryOp}
    (h : MainAt k s₀ done rest s) (hserving : Serving s r) {src : InterruptSource}
    (hstep : entryStep k (.irq src) s = some s') :
    ∃ r', serve (.irq src) s r = some r' ∧ Serving s' r' := by
  obtain rfl := h.idle hserving
  simp only [entryStep] at hstep
  split at hstep
  · rename_i hon
    obtain ⟨vector, hv, rfl⟩ := Option.map_eq_some_iff.mp hstep
    have hadmits : InService.idle.admits vector src = true := by
      cases src <;> rfl
    refine ⟨InService.idle.accept vector src, ?_, ?_⟩
    · simp only [serve, hv, Option.bind_some, hadmits, if_true]
    · split
      · rename_i hloaded
        cases hstub : s.stubOf k vector with
        | none =>
            intro hcrashed
            unfold EntryState.deliver at hcrashed
            rw [hstub] at hcrashed
            cases hcrashed
        | some found =>
            obtain ⟨isr, g⟩ := found
            obtain ⟨t, rfl, rfl, -⟩ := h.irq_stub hgates hon hloaded hv hstub
            rw [deliver_eq h.saved hstub]
            exact fun _ => .one (owed_timer t) rfl
      · intro hcrashed
        cases hcrashed
  · cases hstep

/-- An operation of a handler. -/
theorem Handling.serve_op {body : List EntryOp} (h : Handling s body) (hone : s.saved.length = 1)
    (hserving : Serving s r) (hstep : s.stepOp k = some s')
    (hnext : ¬ s'.Busy → Inside k s₀ s') : Serving s' (r.exec s.code) := by
  intro hcrashed
  have hsame : s'.crashed = s.crashed := by
    rcases h.step hstep with rfl | ⟨hfinish, -⟩
    · exact s.crashed_finish k
    · rw [← EntryState.crashed_finish k s', hfinish, EntryState.crashed_finish]
  have hserved := hserving (hsame.symm.trans hcrashed)
  rw [h.code] at hserved ⊢
  cases body with
  | nil =>
      -- The handler has acknowledged its request when it returns.
      have hidle : r = .idle := by
        cases hserved with
        | nothing _ hr => exact hr
        | one howed _ => cases howed
      obtain ⟨frame, hsaved⟩ := List.length_eq_one_iff.mp hone
      obtain ⟨code, interrupts, cs⟩ := frame
      have hfree : s'.saved = [] := by
        unfold EntryState.stepOp at hstep
        rw [h.code] at hstep
        simp only [List.nil_append, hsaved, Option.some.injEq] at hstep
        rw [← hstep]
      rw [hidle, InService.exec_idle]
      exact (hnext fun hbusy => hbusy hfree).serving hcrashed
  | cons op body =>
      have hop := h.inHandler op (by simp)
      have hcons := h.code
      rw [List.cons_append] at hcons hserved ⊢
      obtain ⟨t, text, hprint, -, -⟩ := stepOp_handler (k := k) hop hcons
      obtain rfl := Option.some.inj (hprint.symm.trans hstep)
      show Owed (((write text).map fun i => EntryOp.op (.io i)) ++ (body ++ [.op .iretq])) _
      cases hserved.exec hop with
      | nothing howed hr => exact .nothing (owed_print.trans howed) hr
      | one howed hr => exact .one (owed_print.trans howed) hr

end Runs

section Entry

variable {k : LoadedKernel} (fw : Firmware) {m : Memory} {P : Paging} (hp : Placed k.toHandover)
  (hk : k.Ok) (hd : RangesDisjoint k.toHandover) (hc : ConventionalOk k.toHandover m)
  (hb : MapBelow k.toHandover m) (hbuild : buildPaging k.toHandover m = .ok P)
include hp hk hd hc hb hbuild

/-- A state without a handler is in the main program, or outside the kernel. -/
theorem inside_of_not_busy {events : List EntryEvent} {s : EntryState}
    (hrun : runs (entryStep k) events (fw.enter P) = some s) (hfree : ¬ s.Busy) :
    Inside k (fw.enter P) s := by
  have hgates := gates_entryCode fw hp hk hd hc hb hbuild
  have hat := (inside_of_run (safe_entryCode hp hk hd) hgates (mainAt_enter fw) hrun).2
  rwa [settle_of_not_busy hfree] at hat

/-- **No step is refused**, and what is in service stays what the code owes. -/
theorem serve_step (es : List EntryEvent) (e : EntryEvent) (s s' : EntryState) (r : InService)
    (hrun : runs (entryStep k) es (fw.enter P) = some s) (hserving : Serving s r)
    (hstep : entryStep k e s = some s') : ∃ r', serve e s r = some r' ∧ Serving s' r' := by
  have hgates := gates_entryCode fw hp hk hd hc hb hbuild
  have hmain := inside_of_not_busy fw hp hk hd hc hb hbuild hrun
  have hnext := inside_of_not_busy fw hp hk hd hc hb hbuild (runs_snoc hrun hstep)
  by_cases hsaved : s.saved = []
  · rcases hmain fun h => h hsaved with ⟨done, rest, hat⟩ | hleft
    · cases e with
      | op =>
          refine ⟨_, rfl, ?_⟩
          simp only [entryStep] at hstep
          split at hstep
          · cases hstep
          · exact hat.serve_op hgates hserving hstep hnext
      | irq src => exact hat.serve_irq hgates hserving hstep
    · have hstuck := hleft.stuck (k := k) e
      rw [atomicStep, atomically, hstep] at hstuck
      cases hstuck
  · obtain ⟨⟨hinv, hbusy⟩, -⟩ :=
      inside_of_run (safe_entryCode hp hk hd) hgates (mainAt_enter fw) hrun
    obtain ⟨body, hbody⟩ := hbusy hsaved
    obtain ⟨hoff, hone⟩ := hinv.of_saved hsaved hbody
    obtain ⟨rfl, hop⟩ := hbody.only_op hoff hstep
    exact ⟨_, rfl, hbody.serve_op hone hserving hop hnext⟩

/-- **Every interrupt is acknowledged.**  The controllers refuse nothing in any run of the kernel,
and nothing is in service outside its handlers; so the kernel can halt, unless an interrupt has
left it, with the controllers in front of it as well. -/
theorem entry_acknowledges {events : List EntryEvent} {s : EntryState}
    (hrun : runs (entryStep k) events (fw.enter P) = some s) :
    ∃ r, runs (servedStep k) events (fw.enter P, .idle) = some (s, r) ∧
      (s.crashed = false → s.saved = [] → r = .idle) ∧
      (s.crashed = false → ∃ s', Reaches (servedStep k) (s, r) (s', .idle) ∧ Halted s') := by
  have hinside : Inside k (fw.enter P) (fw.enter P) := Or.inl ⟨_, _, mainAt_enter fw⟩
  have hstart := hinside.serving
  have hkeep := serve_step fw hp hk hd hc hb hbuild
  obtain ⟨r, hserved, hserving⟩ := runs_guarded hstart hkeep hrun
  have hidle : ∀ es t r, runs (entryStep k) es (fw.enter P) = some t → Serving t r →
      t.crashed = false → t.saved = [] → r = .idle := by
    intro es t r hrun hserving hcrashed hsaved
    rcases inside_of_not_busy fw hp hk hd hc hb hbuild hrun fun h => h hsaved with
      ⟨done, rest, hat⟩ | hleft
    · exact hat.idle hserving
    · rw [hleft.crashed] at hcrashed
      cases hcrashed
  refine ⟨r, hserved, hidle events s r hrun hserving, fun hcrashed => ?_⟩
  obtain ⟨s', ⟨es, hreach⟩, hhalted⟩ := entry_halts fw hp hk hd hc hb hbuild hrun hcrashed
  obtain ⟨r', hpair, hserving'⟩ := reaches_guarded hstart hkeep hrun hserved ⟨es, hreach⟩
  have hall : runs (entryStep k) (events ++ es) (fw.enter P) = some s' := by
    rw [runs_append hrun, hreach]
  obtain rfl := hidle _ s' r' hall hserving' hhalted.inside hhalted.saved
  exact ⟨s', hpair, hhalted⟩

end Entry

/-- The small kernel halts behind its interrupt controllers. -/
theorem entry_acknowledges_small :
    ∃ P s, buildPaging smallKernel.toHandover (fun _ => 0) = .ok P ∧
      Reaches (servedStep smallKernel) (idleFirmware.enter P, .idle) (s, .idle) ∧ Halted s := by
  obtain ⟨P, hbuild⟩ := smallKernel_buildPaging
  have hrun : runs (entryStep smallKernel) [] (idleFirmware.enter P) =
      some (idleFirmware.enter P) := rfl
  obtain ⟨r, hserved, hidle, hhalts⟩ := entry_acknowledges idleFirmware smallKernel_placed
    smallKernel_ok smallKernel_rangesDisjoint (conventionalOk_cleared _) smallKernel_mapBelow hbuild
    hrun
  obtain rfl := hidle rfl rfl
  obtain ⟨s, hreach, hhalted⟩ := hhalts rfl
  exact ⟨P, s, hbuild, hreach, hhalted⟩

end Kernel
end OsBook
