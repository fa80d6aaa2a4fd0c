import OsBook.Kernel.EntryProgress

/-!
# Vectors, gates and ends of interrupt

From the `sti` of Stage 3 on, whatever the interrupt controllers may deliver
should find a present gate, and its handler should acknowledge the interrupt
where it came from.  `IRQ0` and the timer of the local APIC do in every
reachable state.  The spurious vector does not: from the write of `0x1FF` to SVR
on it is `0xFF`, and no gate is ever installed for it (`handled_iff_svr`).
-/

namespace OsBook
namespace Kernel

open Machine

/-! ## Ends of interrupt -/

/-- The command to an interrupt controller, or the write to the local APIC. -/
def Io.isEoi : Io → Bool
  | .outb port value => (port = 0x20 || port = 0xA0) && value = 0x20
  | .lapicMmioWrite reg _ => reg = kLapicRegEoi
  | _ => false

/-- The ends of interrupt that the dispatcher of a stub issues, in order. -/
def Isr.eois (isr : Isr) : List Io :=
  (isrOps isr).filterMap fun
    | .op (.io i) => if i.isEoi then some i else none
    | _ => none

/-- The ends of interrupt that belong to a source.  A line of the second controller comes through
the first one. -/
def InterruptSource.eois : InterruptSource → List Io
  | .pic1 _ => [.outb 0x20 0x20]
  | .pic2 _ => [.outb 0xA0 0x20, .outb 0x20 0x20]
  | .lapicTimer => [.lapicMmioWrite kLapicRegEoi 0]
  | .spurious => []

/-- If the source may deliver a vector, the kernel's table is loaded and has a present gate for
it, and the stub behind the gate issues the ends of interrupt of the source. -/
def Handled (k : LoadedKernel) (s : EntryState) (src : InterruptSource) : Prop :=
  ∀ vector, s.deliverable src = some vector → s.idtLoaded = true ∧
    ∃ isr g, s.stubOf k vector = some (isr, g) ∧ isr.eois = src.eois

/-! ## The table stays loaded -/

section Loaded

variable {k : LoadedKernel} {s s' : EntryState}

theorem EntryState.deliver_idtLoaded (vector : UInt8) :
    (s.deliver k vector).idtLoaded = s.idtLoaded := by
  unfold deliver
  split <;> rfl

theorem stepOp_idtLoaded (hs : s.idtLoaded = true) (hstep : s.stepOp k = some s') :
    s'.idtLoaded = true := by
  unfold EntryState.stepOp at hstep
  cases hcode : s.code with
  | nil =>
      rw [hcode] at hstep
      cases hstep
  | cons op code =>
      rw [hcode] at hstep
      have hexec := (s.exec_saved k op).2.2 hs
      cases op with
      | op o =>
          cases o with
          | waitTicks t =>
              simp only at hstep
              split at hstep <;> exact Option.some.inj hstep ▸ hs
          | iretq =>
              simp only at hstep
              split at hstep
              · cases hstep
              · exact Option.some.inj hstep ▸ hs
          | io i => exact Option.some.inj hstep ▸ hexec
          | _ => exact Option.some.inj hstep ▸ hs
      | flipWord =>
          rw [← Option.some.inj hstep, EntryState.flipWord]
          cases flipMemory s.mem s.cr3 (k.mmapPhys + upperHalf) <;> exact hs
      | restoreWord =>
          rw [← Option.some.inj hstep, EntryState.restoreWord]
          cases restoreMemory s.mem s.cr3 (k.mmapPhys + upperHalf) s.old <;> exact hs
      | int3 => exact Option.some.inj hstep ▸ (EntryState.deliver_idtLoaded _).trans hs
      | probe =>
          simp only at hstep
          split at hstep
          · exact Option.some.inj hstep ▸ hs
          · exact Option.some.inj hstep ▸ (EntryState.deliver_idtLoaded _).trans hs
      | skipProbe =>
          simp only at hstep
          split at hstep <;> exact Option.some.inj hstep ▸ hs
      | haltLoop => exact Option.some.inj hstep ▸ hs
      | reportCr2 => exact Option.some.inj hstep ▸ hs
      | _ => exact Option.some.inj hstep ▸ hexec

/-- No step forgets that the kernel has loaded its table. -/
theorem entryStep_idtLoaded (e : EntryEvent) (hs : s.idtLoaded = true)
    (hstep : entryStep k e s = some s') : s'.idtLoaded = true := by
  cases e with
  | op =>
      simp only [entryStep] at hstep
      split at hstep
      · cases hstep
      · exact stepOp_idtLoaded hs hstep
  | irq src =>
      simp only [entryStep] at hstep
      split at hstep
      · obtain ⟨vector, -, rfl⟩ := Option.map_eq_some_iff.mp hstep
        rw [EntryState.deliver_idtLoaded, hs]
      · cases hstep

end Loaded

/-! ## Reachable states from a `sti` on -/

section Reachable

variable {k : LoadedKernel} {fw : Firmware} {P : Paging} (hp : Placed k.toHandover) (hk : k.Ok)
  (hd : RangesDisjoint k.toHandover)
include hp hk hd

/-- Only the main program has a `sti`, and the table is loaded there. -/
theorem idtLoaded_of_sti {s : EntryState} {code : List EntryOp} (h : EntryInv k (fw.enter P) s)
    (hsti : s.code = .op .sti :: code) : s.idtLoaded = true := by
  cases h with
  | main hcode hat hsaved hsetup =>
      have hpos := position_entryCode fw P hp hk hd hcode
      generalize hc : s.code = at' at hat
      cases hat with
      | here =>
          rw [EntryState.congr_setup EntryState.idtLoaded (fun _ => rfl) hsetup]
          exact hpos.loaded code (hc.symm.trans hsti)
      | hlt _ =>
          rw [hc] at hsti
          cases hsti
  | @handler _ _ _ body hcode hat hsaved hoff hbody hin hsetup =>
      rw [hbody] at hsti
      cases body with
      | nil => cases hsti
      | cons op body =>
          obtain rfl : op = .op .sti := (List.cons.inj hsti).1
          cases hin _ (List.mem_cons_self ..)
  | left hcode hoff =>
      rw [hcode] at hsti
      cases hsti

/-- Interrupts are then enabled only in the windows. -/
theorem entryWindow_of_sti {s₁ s : EntryState} {code : List EntryOp}
    (hbefore : Reaches (entryStep k) (fw.enter P) s₁) (hsti : s₁.code = .op .sti :: code)
    (hafter : Reaches (entryStep k) s₁ s) (hon : s.hw.interrupts = true) :
    EntryWindow k (k.stage1Memory fw P) P.pml4Phys s := by
  obtain ⟨events, hrun⟩ := hbefore
  have hloaded := idtLoaded_of_sti hp hk hd (entryInv_run hp hk hd hrun) hsti
  have hkept := hafter.keeps (fun e s s' => entryStep_idtLoaded e) hloaded
  obtain ⟨events', hrun'⟩ := hafter
  have hall : runs (entryStep k) (events ++ events') (fw.enter P) =
      runs (entryStep k) events' s₁ := runs_append hrun
  rcases entry_window hp hk hd (hall.trans hrun') hon with ⟨hnot, -⟩ | hwindow
  · rw [hkept] at hnot
    cases hnot
  · exact hwindow

end Reachable

/-! ## Windows and handlers -/

section Windows

variable {k : LoadedKernel} {m : Memory} {cr3 : UInt64} {c : EntryState}

/-- The interrupts of a window, apart from the spurious one. -/
theorem EntryWindow.handled (h : EntryWindow k m cr3 c) (hk : k.Ok) {src : InterruptSource}
    (hsrc : src ≠ .spurious) : Handled k c src := by
  have hpresent : kIdtTypeInt64 &&& 0x80 ≠ 0 := by decide
  intro vector hv
  refine ⟨h.loaded, ?_⟩
  cases h.delivery hv with
  | irq0 hgate =>
      exact ⟨_, _, EntryState.stubOf_eq_some.mpr ⟨hgate, hpresent, hk.handlerAt_handler _⟩, rfl⟩
  | lapicTimer hgate =>
      exact ⟨_, _, EntryState.stubOf_eq_some.mpr ⟨hgate, hpresent, hk.handlerAt_handler _⟩, rfl⟩
  | spurious hgate hsvr => exact absurd rfl hsrc

/-- The spurious vector is never handled. -/
theorem EntryWindow.not_handled_spurious (h : EntryWindow k m cr3 c) {vector : UInt8}
    (hv : c.deliverable .spurious = some vector) : ¬ Handled k c .spurious := by
  intro hhandled
  obtain ⟨-, isr, g, hstub, -⟩ := hhandled vector hv
  obtain ⟨hfound, hpresent, -⟩ := EntryState.stubOf_eq_some.mp hstub
  cases h.delivery hv with
  | spurious hgate hsvr =>
      obtain rfl := Option.some.inj (hgate.symm.trans hfound)
      exact hpresent rfl

/-- SVR is either as it was or holds the enable bit and vector `0xFF`. -/
theorem EntryWindow.deliverable_spurious (h : EntryWindow k m cr3 c) :
    c.deliverable .spurious = none ∧ c.lapic.svr = none ∨
      c.deliverable .spurious = some 0xFF ∧ c.lapic.svr = some 0x1FF := by
  cases h with
  | pit htables hpic1 hpic2 hlapic =>
      rw [EntryState.deliverable, hlapic]
      exact Or.inl ⟨rfl, rfl⟩
  | lapic htables hpic1 hpic2 hlapic =>
      rw [EntryState.deliverable, hlapic]
      exact Or.inr ⟨rfl, rfl⟩

end Windows

/-- **Which vectors have a handler.**  In every state from the `sti` of Stage 3 on in which
interrupts are enabled, every line of the two controllers and the timer of the local APIC is
handled.  All sources are exactly while the kernel has not written SVR. -/
theorem handled_iff_svr {k : LoadedKernel} {fw : Firmware} {P : Paging} {s₁ s : EntryState}
    {code : List EntryOp} (hp : Placed k.toHandover) (hk : k.Ok) (hd : RangesDisjoint k.toHandover)
    (hbefore : Reaches (entryStep k) (fw.enter P) s₁) (hsti : s₁.code = .op .sti :: code)
    (hafter : Reaches (entryStep k) s₁ s) (hon : s.hw.interrupts = true) :
    (∀ src, src ≠ .spurious → Handled k s src) ∧
      ((∀ src, Handled k s src) ↔ s.lapic.svr = none) := by
  have hwindow := entryWindow_of_sti hp hk hd hbefore hsti hafter hon
  have hothers : ∀ src, src ≠ .spurious → Handled k s src := fun src => hwindow.handled hk
  refine ⟨hothers, ?_⟩
  rcases hwindow.deliverable_spurious with ⟨hnone, hsvr⟩ | ⟨hsome, hsvr⟩
  · refine iff_of_true (fun src => ?_) hsvr
    by_cases hsrc : src = .spurious
    · -- The source delivers nothing.
      subst hsrc
      intro vector hv
      rw [hnone] at hv
      cases hv
    · exact hothers src hsrc
  · refine iff_of_false (fun hall => hwindow.not_handled_spurious hsome (hall .spurious)) ?_
    rw [hsvr]
    exact Option.some_ne_none _

/-- Behind the `sti` of Stage 3 the small kernel handles whatever may come. -/
theorem handled_iff_svr_stage3 : ∃ P s, buildPaging smallKernel.toHandover (fun _ => 0) = .ok P ∧
    Reaches (entryStep smallKernel) (idleFirmware.enter P) s ∧ s.hw.interrupts = true ∧
      ∀ src, Handled smallKernel s src := by
  obtain ⟨P, hbuild⟩ := smallKernel_buildPaging
  have hp := smallKernel_placed
  have hk := smallKernel_ok
  have hd := smallKernel_rangesDisjoint
  obtain ⟨s₁, hbefore, hs⟩ :=
    arrives_stage3 idleFirmware hp hk hd (conventionalOk_cleared _) smallKernel_mapBelow hbuild
  have hafter := hs.reaches rfl
  have hlapic : s₁.lapic = ⟨none, none⟩ := by
    rw [EntryState.congr_setup EntryState.lapic (fun _ => rfl) hs.setup]
    exact (setting_stage3 idleFirmware hp hk hd).1.lapic
  exact ⟨P, _, hbuild, hbefore.trans hafter, rfl,
    (handled_iff_svr hp hk hd hbefore hs.code hafter rfl).2.mpr (congrArg ProgrammedLapic.svr hlapic)⟩

/-- While the small kernel waits for the ticks of Stage 4, a spurious interrupt finds no gate. -/
theorem not_handled : ¬ ∀ (k : LoadedKernel) (fw : Firmware) (m : Memory) (P : Paging)
    (s₁ s : EntryState) (code : List EntryOp), Placed k.toHandover → k.Ok →
    RangesDisjoint k.toHandover → ConventionalOk k.toHandover m → MapBelow k.toHandover m →
    buildPaging k.toHandover m = .ok P → Reaches (entryStep k) (fw.enter P) s₁ →
    s₁.code = .op .sti :: code → Reaches (entryStep k) s₁ s → s.hw.interrupts = true →
    ∀ src, Handled k s src := by
  intro hall
  obtain ⟨P, hbuild⟩ := smallKernel_buildPaging
  have hp := smallKernel_placed
  have hk := smallKernel_ok
  have hd := smallKernel_rangesDisjoint
  have hc := conventionalOk_cleared smallKernel.toHandover
  obtain ⟨s₁, hbefore, hs⟩ :=
    arrives_stage4 idleFirmware hp hk hd hc smallKernel_mapBelow hbuild
  have hafter := hs.reaches rfl
  have hlapic : s₁.lapic = ⟨some 0x1FF, some 0x20022⟩ := by
    rw [EntryState.congr_setup EntryState.lapic (fun _ => rfl) hs.setup]
    exact (setting_stage4 idleFirmware hp hk hd).1.lapic
  have hwindow := entryWindow_of_sti hp hk hd hbefore hs.code hafter rfl
  have hspurious : ({ s₁.exec smallKernel (.op .sti) with code := stage4Window.tail } :
      EntryState).deliverable .spurious = some 0xFF := by
    show (s₁.lapic.svr.bind fun w => if w &&& 0x100 = 0 then none else some w.toUInt8) = _
    rw [hlapic]
    rfl
  exact hwindow.not_handled_spurious hspurious
    (hall _ _ _ P s₁ _ _ hp hk hd hc smallKernel_mapBelow hbuild hbefore hs.code hafter rfl _)

end Kernel
end OsBook
