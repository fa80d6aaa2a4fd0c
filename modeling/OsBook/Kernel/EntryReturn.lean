import OsBook.Kernel.EntryProgress

/-!
# Handlers as one step

A handler runs with interrupts disabled, so from its first operation to its
`iretq` nothing else happens.  `finish` is the state in which it returns.  Every
step of a handler leaves `finish` alone (`finish_step`), and nothing keeps the
handler from getting there (`reaches_finish`).
-/

namespace OsBook
namespace Kernel

open Machine

section Finish

variable (k : LoadedKernel)

/-- What the handler of a timer prints when it has counted `n` ticks. -/
def countedLine (t : Timer) (n : UInt64) : List Char := if n ≤ 3 then tickLine t n else []

/-- What `page_fault_dispatch` prints about the faulting address. -/
def cr2Line (cr2 : UInt64) : String :=
  if cr2 = kProbeUnmappedVa then "STAGE 5: cr2 ok\n" else "STAGE 5: cr2 bad\n"

/-- The interrupted code behind the instruction that has faulted. -/
def skipFault : List (List EntryOp × Bool × UInt16) → List (List EntryOp × Bool × UInt16)
  | (.probe :: rest, interrupts, cs) :: saved => (rest, interrupts, cs) :: saved
  | saved => saved

theorem skipFault_ne_nil {saved : List (List EntryOp × Bool × UInt16)} (h : saved ≠ []) :
    skipFault saved ≠ [] := by
  unfold skipFault
  split
  · exact List.cons_ne_nil _ _
  · exact h

/-- An operation of a handler together with all that it prints. -/
def EntryState.handle (s : EntryState) : EntryOp → EntryState
  | .op (.io i) => s.io k i
  | .op (.countTick t) =>
      let n := s.hw.irqCount t + 1
      { s with
        hw := ({ s.hw with irqCount := Function.update s.hw.irqCount t n }).print (countedLine t n) }
  | .reportCr2 => { s with hw := s.hw.print (cr2Line s.cr2).toList }
  | .skipProbe => { s with saved := skipFault s.saved }
  | .op .iretq =>
      match s.saved with
      | (code, interrupts, cs) :: saved => { s.resume interrupts cs with code := code, saved := saved }
      | [] => s
  | _ => s

/-- Several operations of a handler. -/
def EntryState.handleAll (s : EntryState) (ops : List EntryOp) : EntryState :=
  ops.foldl (EntryState.handle k) s

/-- The state at the return of the running handler. -/
def EntryState.finish (s : EntryState) : EntryState := s.handleAll k s.code

theorem EntryState.handleAll_cons (s : EntryState) (op : EntryOp) (ops : List EntryOp) :
    s.handleAll k (op :: ops) = (s.handle k op).handleAll k ops := rfl

theorem EntryState.handleAll_append (s : EntryState) (ops ops' : List EntryOp) :
    s.handleAll k (ops ++ ops') = (s.handleAll k ops).handleAll k ops' :=
  List.foldl_append

/-- Printing character by character. -/
theorem EntryState.handleAll_write (s : EntryState) (text : List Char) :
    s.handleAll k ((write text).map fun i => .op (.io i)) = { s with hw := s.hw.print text } := by
  induction text generalizing s with
  | nil =>
      show s = { s with hw := { s.hw with log := s.hw.log ++ [] } }
      rw [List.append_nil]
  | cons c text ih =>
      have htext : (s.hw.io (.writeChar c)).print text = s.hw.print (c :: text) := by
        simp only [Hw.io, Hw.print, List.append_assoc, List.singleton_append]
      rw [← htext]
      exact ih (s.handle k (.op (.io (.writeChar c))))

variable {k}

/-- What holds across each operation holds across the whole handler. -/
theorem EntryState.finish_keeps {R : EntryState → EntryState → Prop} (hrefl : ∀ s, R s s)
    (htrans : ∀ {s t u}, R s t → R t u → R s u) (hop : ∀ s op, R s (s.handle k op))
    (s : EntryState) : R s (s.finish k) := by
  have hall : ∀ (ops : List EntryOp) (s : EntryState), R s (s.handleAll k ops) := by
    intro ops
    induction ops with
    | nil => exact hrefl
    | cons op ops ih => exact fun s => htrans (hop s op) (ih (s.handle k op))
  exact hall s.code s

/-- The operations of a handler look neither at the code behind them nor at `halted`, and leave
the interrupted code in place. -/
theorem EntryState.handle_code {op : EntryOp} (hop : op.inHandler = true) (s : EntryState)
    (code : List EntryOp) :
    ({ s with code := code }).handle k op = { s.handle k op with code := code } ∧
      (s.saved ≠ [] → (s.handle k op).saved ≠ []) := by
  cases op with
  | op o =>
      cases o with
      | io i =>
          rcases inHandler_io hop with ⟨c, rfl⟩ | ⟨t, rfl⟩
          · exact ⟨rfl, id⟩
          · cases t <;> exact ⟨rfl, id⟩
      | countTick t => exact ⟨rfl, id⟩
      | sti => cases hop
      | hlt => cases hop
      | waitTicks t => cases hop
      | iretq => cases hop
  | reportCr2 => exact ⟨rfl, id⟩
  | skipProbe => exact ⟨rfl, skipFault_ne_nil⟩
  | flipWord => cases hop
  | restoreWord => cases hop
  | loadBootGdt => cases hop
  | reloadCs => cases hop
  | readCs => cases hop
  | idtClearAll => cases hop
  | installGate vector isr typeAttr => cases hop
  | int3 => cases hop
  | probe => cases hop
  | haltLoop => cases hop

/-- The code of a handler is forgotten at its return. -/
theorem EntryState.handleAll_code {body : List EntryOp}
    (hin : ∀ op ∈ body, op.inHandler = true) {s : EntryState} (hsaved : s.saved ≠ [])
    (code : List EntryOp) :
    EntryState.handleAll k { s with code := code } (body ++ [.op .iretq]) =
      s.handleAll k (body ++ [.op .iretq]) := by
  induction body generalizing s with
  | nil =>
      obtain ⟨⟨c, interrupts, cs⟩, saved, hs⟩ := List.exists_cons_of_ne_nil hsaved
      show EntryState.handle k { s with code := code } (.op .iretq) = s.handle k (.op .iretq)
      simp only [handle, hs]
      rfl
  | cons op body ih =>
      obtain ⟨hcode, hkeep⟩ := handle_code (k := k) (hin op (by simp)) s code
      rw [List.cons_append, handleAll_cons, handleAll_cons, hcode]
      exact ih (fun o ho => hin o (by simp [ho])) (hkeep hsaved)

theorem Hw.print_nil (hw : Hw) : hw.print [] = hw := by
  show { hw with log := hw.log ++ [] } = hw
  rw [List.append_nil]

/-- One operation of a handler: it may put a text to be printed in front of the rest. -/
theorem stepOp_handler {s : EntryState} {op : EntryOp} {rest : List EntryOp}
    (hop : op.inHandler = true) (hcode : s.code = op :: rest) :
    ∃ (t : EntryState) (text : List Char), s.stepOp k = some { t with
        code := ((write text).map fun i => EntryOp.op (.io i)) ++ rest } ∧
      s.handle k op = { t with hw := t.hw.print text } ∧ t.halted = s.halted := by
  unfold EntryState.stepOp
  rw [hcode]
  cases op with
  | op o =>
      cases o with
      | io i =>
          refine ⟨s.io k i, [], rfl, ?_, ?_⟩
          · rw [Hw.print_nil]
            rfl
          · cases i <;> rfl
      | countTick t =>
          refine ⟨{ s with hw := { s.hw with
            irqCount := Function.update s.hw.irqCount t (s.hw.irqCount t + 1) } },
            countedLine t (s.hw.irqCount t + 1), ?_, rfl, rfl⟩
          unfold countedLine
          simp only
          split <;> rfl
      | sti => cases hop
      | hlt => cases hop
      | waitTicks t => cases hop
      | iretq => cases hop
  | reportCr2 =>
      refine ⟨s, (cr2Line s.cr2).toList, ?_, rfl, rfl⟩
      unfold cr2Line print
      simp only
      split <;> rfl
  | skipProbe =>
      refine ⟨s.handle k .skipProbe, [], ?_, ?_, rfl⟩
      · simp only [EntryState.handle]
        rcases s.saved with _ | ⟨⟨_ | ⟨op, code⟩, interrupts, cs⟩, saved⟩
        · rfl
        · rfl
        · cases op <;> rfl
      · rw [Hw.print_nil]
  | flipWord => cases hop
  | restoreWord => cases hop
  | loadBootGdt => cases hop
  | reloadCs => cases hop
  | readCs => cases hop
  | idtClearAll => cases hop
  | installGate vector isr typeAttr => cases hop
  | int3 => cases hop
  | probe => cases hop
  | haltLoop => cases hop

/-- What is left of a handler, which has interrupted some code. -/
structure Handling (s : EntryState) (body : List EntryOp) : Prop where
  code : s.code = body ++ [.op .iretq]
  inHandler : ∀ op ∈ body, op.inHandler = true
  saved : s.saved ≠ []
  halted : s.halted = false

section Step

variable {s s' : EntryState} {body : List EntryOp}

/-- Behind the first operation. -/
theorem Handling.rest {op : EntryOp} (h : Handling s (op :: body)) :
    Handling { s.handle k op with code := body ++ [.op .iretq] } body := by
  have hop := h.inHandler op (by simp)
  obtain ⟨t, text, -, hhandle, hhalted⟩ := stepOp_handler (k := k) hop h.code
  refine ⟨rfl, fun o ho => h.inHandler o (by simp [ho]), ?_, ?_⟩
  · exact (EntryState.handle_code (k := k) hop s []).2 h.saved
  · rw [hhandle]
    exact hhalted.trans h.halted

theorem Handling.finish_rest {op : EntryOp} (h : Handling s (op :: body)) :
    EntryState.finish k { s.handle k op with code := body ++ [.op .iretq] } = s.finish k := by
  have hop := h.inHandler op (by simp)
  unfold EntryState.finish
  rw [h.code, List.cons_append, EntryState.handleAll_cons]
  exact EntryState.handleAll_code (fun o ho => h.inHandler o (by simp [ho]))
    ((EntryState.handle_code (k := k) hop s []).2 h.saved) _

/-- **One step of a handler**: it returns, or the state of its return stays the same. -/
theorem Handling.step (h : Handling s body) (hstep : s.stepOp k = some s') :
    s' = s.finish k ∨ s'.finish k = s.finish k ∧ ∃ body', Handling s' body' := by
  cases body with
  | nil =>
      left
      obtain ⟨⟨code, interrupts, cs⟩, saved, hsaved⟩ := List.exists_cons_of_ne_nil h.saved
      unfold EntryState.stepOp at hstep
      rw [h.code] at hstep
      simp only [List.nil_append, hsaved, Option.some.injEq] at hstep
      unfold EntryState.finish
      rw [h.code, ← hstep]
      show _ = s.handle k (.op .iretq)
      simp only [EntryState.handle, hsaved]
      rfl
  | cons op body =>
      right
      have hop := h.inHandler op (by simp)
      have hcons := h.code
      rw [List.cons_append] at hcons
      obtain ⟨t, text, hnext, hhandle, hhalted⟩ := stepOp_handler (k := k) hop hcons
      obtain rfl := Option.some.inj (hnext.symm.trans hstep)
      have hrest := h.rest (k := k)
      rw [hhandle] at hrest
      have hprint : ∀ o ∈ ((write text).map fun i => EntryOp.op (.io i)) ++ body,
          o.inHandler = true := by
        intro o ho
        rcases List.mem_append.mp ho with ho | ho
        · exact inHandler_print text ho
        · exact hrest.inHandler o ho
      refine ⟨?_, _, ⟨(List.append_assoc _ body _).symm, hprint, hrest.saved, hrest.halted⟩⟩
      rw [← h.finish_rest, hhandle]
      unfold EntryState.finish
      simp only
      rw [EntryState.handleAll_append, EntryState.handleAll_write]
      exact (EntryState.handleAll_code (s := { t with hw := t.hw.print text }) hrest.inHandler
        hrest.saved _).trans
          (EntryState.handleAll_code (s := { t with hw := t.hw.print text }) hrest.inHandler
            hrest.saved _).symm

/-- **Nothing keeps a handler from its return.** -/
theorem Handling.repeats (h : Handling s body) : Repeats (entryStep k) .op s (s.finish k) := by
  induction body generalizing s with
  | nil =>
      obtain ⟨⟨code, interrupts, cs⟩, saved, hsaved⟩ := List.exists_cons_of_ne_nil h.saved
      have hstep : s.stepOp k = some (s.finish k) := by
        unfold EntryState.stepOp EntryState.finish
        rw [h.code]
        show _ = some (s.handle k (.op .iretq))
        simp only [List.nil_append, EntryState.handle, hsaved]
        rfl
      exact (Repeats.refl _ s).snoc (entryStep_op h.halted hstep)
  | cons op body ih =>
      have hop := h.inHandler op (by simp)
      have hcons := h.code
      rw [List.cons_append] at hcons
      obtain ⟨t, text, hnext, hhandle, hhalted⟩ := stepOp_handler (k := k) hop hcons
      have hrest := h.rest (k := k)
      have hprinted : Repeats (entryStep k) .op
          { t with code := ((write text).map fun i => EntryOp.op (.io i)) ++ (body ++ [.op .iretq]) }
          { t with hw := t.hw.print text, code := body ++ [.op .iretq] } :=
        repeats_print text (hhalted.trans h.halted) rfl
      have hall := ((Repeats.refl _ s).snoc (entryStep_op h.halted hnext)).trans hprinted
      rw [← h.finish_rest]
      rw [hhandle] at hrest ⊢
      exact hall.trans (ih hrest)

end Step

/-! ## What a handler does to the interrupted program -/

section Deliveries

variable {s : EntryState} {vector : UInt8} {g : GateDescriptor} (hsaved : s.saved = [])
include hsaved

/-- A delivery starts a handler. -/
theorem handling_deliver {isr : Isr} (hstub : s.stubOf k vector = some (isr, g)) :
    ∃ body, Handling (s.deliver k vector) body := by
  obtain ⟨body, hbody, hin⟩ := isrOps_eq isr
  rw [deliver_eq hsaved hstub]
  exact ⟨body, hbody, hin, List.cons_ne_nil _ _, rfl⟩

/-- `breakpoint_dispatch` prints its line. -/
theorem finish_breakpoint (hstub : s.stubOf k vector = some (.breakpoint, g)) :
    (s.deliver k vector).finish k =
      { s with hw := s.hw.print "STAGE 2: #BP dispatcher\n".toList, halted := false } := by
  have hsame : s.saved = [] := hsaved
  rw [deliver_eq hsaved hstub, EntryState.finish, isrOps, EntryState.handleAll_append, print,
    EntryState.handleAll_write]
  obtain ⟨mem, cr3, gdtr, idtr, cs, hw, lapic, idtLoaded, csSel, old, cr2, code, saved, halted,
    crashed⟩ := s
  obtain rfl : saved = [] := hsame
  rfl

/-- A timer's handler counts the tick, and prints a line for one of the first three. -/
theorem finish_timer {t : Timer} (hstub : s.stubOf k vector = some (stub t, g)) :
    (s.deliver k vector).finish k =
      { s with
        hw := ({ s.hw with
          irqCount := Function.update s.hw.irqCount t (s.hw.irqCount t + 1) } : Hw).print
            (countedLine t (s.hw.irqCount t + 1))
        halted := false } := by
  have hops : isrOps (stub t) = [.op (.io (acknowledge t)), .op (.countTick t), .op .iretq] := by
    cases t <;> rfl
  have hack : ∀ c : EntryState, c.handle k (.op (.io (acknowledge t))) = c := exec_acknowledge
  rw [deliver_eq hsaved hstub, EntryState.finish, hops, EntryState.handleAll_cons, hack]
  obtain ⟨mem, cr3, gdtr, idtr, cs, hw, lapic, idtLoaded, csSel, old, cr2, code, saved, halted,
    crashed⟩ := s
  obtain rfl : saved = [] := hsaved
  rfl

/-- `page_fault_dispatch` reports the address and returns behind the faulting instruction. -/
theorem finish_pageFault {rest : List EntryOp} (hcode : s.code = .probe :: rest)
    (hstub : s.stubOf k vector = some (.pageFault, g)) :
    (s.deliver k vector).finish k =
      { s with
        hw := (s.hw.print "STAGE 5: #PF dispatch\n".toList).print (cr2Line s.cr2).toList
        code := rest
        halted := false } := by
  rw [deliver_eq hsaved hstub, EntryState.finish, isrOps, EntryState.handleAll_append, print,
    EntryState.handleAll_write]
  obtain ⟨mem, cr3, gdtr, idtr, cs, hw, lapic, idtLoaded, csSel, old, cr2, code, saved, halted,
    crashed⟩ := s
  obtain rfl : saved = [] := hsaved
  obtain rfl : code = .probe :: rest := hcode
  rfl

end Deliveries

/-! ## The log of a handler -/

/-- No operation of a handler removes characters from the log. -/
theorem EntryState.log_handle (s : EntryState) (op : EntryOp) :
    s.hw.log <+: (s.handle k op).hw.log := by
  cases op with
  | op o =>
      cases o with
      | io i =>
          have hio : (s.io k i).hw = s.hw.io i := by
            cases i <;> rfl
          show s.hw.log <+: (s.io k i).hw.log
          rw [hio]
          exact log_runIo [i] s.hw
      | countTick t => exact List.prefix_append _ _
      | iretq =>
          simp only [handle]
          split <;> exact List.prefix_refl _
      | sti => exact List.prefix_refl _
      | hlt => exact List.prefix_refl _
      | waitTicks t => exact List.prefix_refl _
  | reportCr2 => exact List.prefix_append _ _
  | _ => exact List.prefix_refl _

theorem EntryState.log_finish (s : EntryState) : s.hw.log <+: (s.finish k).hw.log :=
  EntryState.finish_keeps (R := fun s s' => s.hw.log <+: s'.hw.log) (fun _ => List.prefix_refl _)
    (fun h h' => h.trans h') (fun s op => s.log_handle op) s

end Finish

end Kernel
end OsBook
