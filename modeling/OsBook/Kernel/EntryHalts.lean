import OsBook.Kernel.EntryGates

/-!
# No schedule keeps `kernel_entry` from its end

Wherever the kernel is, it can still get to its last loop, with no other
interrupts than the ticks that it waits for (`entry_halts`): no handler is lost,
no wait misses the tick that ends it.
-/

namespace OsBook
namespace Kernel

open Machine

/-- The main program is at the `hlt` of its last loop. -/
structure Halted (s : EntryState) : Prop where
  code : s.code = [.haltLoop]
  saved : s.saved = []
  halted : s.halted = true
  inside : s.crashed = false

section Advance

variable {k : LoadedKernel} {s₀ s s' : EntryState} {done rest tail : List EntryOp} {op : EntryOp}
  {t : Timer} {faults : Bool}

/-- An operation of the main program can be done. -/
theorem stepOp_isSome (hcode : s.code = op :: tail) (hop : op ≠ .op .iretq) :
    ∃ s', s.stepOp k = some s' := by
  unfold EntryState.stepOp
  rw [hcode]
  split
  · rename_i hnil
    cases hnil
  · exact ⟨_, rfl⟩
  · split <;> exact ⟨_, rfl⟩
  · exact ⟨_, rfl⟩
  · rename_i heq
    exact absurd (List.cons.inj heq).1 hop
  · exact ⟨_, rfl⟩
  · exact ⟨_, rfl⟩
  · exact ⟨_, rfl⟩
  · split <;> exact ⟨_, rfl⟩
  · exact ⟨_, rfl⟩
  · split <;> exact ⟨_, rfl⟩
  · exact ⟨_, rfl⟩
  · exact ⟨_, rfl⟩

/-- An operation that enters no handler. -/
theorem atomicStep_op (hawake : s.halted = false) (hop : s.stepOp k = some s')
    (hfree : s'.saved = []) : atomicStep k .op s = some s' := by
  rw [atomicStep, atomically, entryStep_op hawake hop, Option.map_some,
    settle_of_not_busy fun hbusy => hbusy hfree]

/-- The main program is in front of its next operation, or of the `hlt` of a wait. -/
theorem MainAt.code_cases (h : MainAt k s₀ done rest s) :
    s.code = rest ∨ s.halted = false ∧ s.code = .op .hlt :: rest ∧
      ∃ t tail, rest = .op (.waitTicks t) :: tail := by
  have hat := h.here
  generalize hc : s.code = code at hat
  cases hat with
  | here => exact Or.inl rfl
  | hlt hwait =>
      refine Or.inr ⟨Bool.eq_false_of_not_eq_true fun hhalted => ?_, rfl, _, _, hwait⟩
      have hcode := (h.asleep hhalted).1
      rw [hc] at hcode
      exact absurd (congrArg List.length hcode) (by simp)

/-- While the main program is awake, the processor can go on. -/
theorem MainAt.op_enabled (h : MainAt k s₀ done rest s) (hawake : s.halted = false) :
    ∃ s', atomicStep k .op s = some s' := by
  have hcode : ∃ op tail, s.code = op :: tail ∧ op ≠ .op .iretq := by
    have hat := h.here
    generalize s.code = code at hat
    cases hat with
    | hlt hwait => exact ⟨_, _, rfl, by decide⟩
    | here =>
        obtain ⟨op, tail, rfl⟩ := List.exists_cons_of_ne_nil h.more
        refine ⟨op, tail, rfl, ?_⟩
        rintro rfl
        exact absurd (inMain_of_place h.code) (by decide)
  obtain ⟨op, tail, hcode, hop⟩ := hcode
  obtain ⟨u, hu⟩ := stepOp_isSome (k := k) hcode hop
  exact ⟨_, by rw [atomicStep, atomically, entryStep_op hawake hu]; rfl⟩

/-- A tick that is awaited is handled. -/
theorem MainAt.irq_handled (h : MainAt k s₀ done rest s) (hawait : Awaited k t (s₀.after k done)) :
    ∃ s', atomicStep k (.irq t.source) s = some s' ∧ s'.crashed = false := by
  obtain ⟨hon, hloaded, vector, g, hv, hstub⟩ := hawait.congr h.setup
  obtain ⟨body, hbody⟩ := handling_deliver h.saved hstub
  refine ⟨(s.deliver k vector).finish k, ?_, ?_⟩
  · have hsettle : settle EntryState.Busy (EntryState.finish k) (s.deliver k vector) = _ :=
      settle_of_busy (show EntryState.Busy _ from hbody.saved)
    rw [← hsettle]
    simp only [atomicStep, atomically, entryStep, hon, hv, hloaded, if_true, Option.map_some]
  · rw [finish_timer h.saved hstub]
    exact h.inside

/-- It is counted. -/
theorem MainAt.tick (hgates : Gates k s₀ faults)
    (h : MainAt k s₀ done (.op (.waitTicks t) :: tail) s)
    (hawait : Awaited k t (s₀.after k done)) :
    ∃ s', atomicStep k (.irq t.source) s = some s' ∧
      MainAt k s₀ done (.op (.waitTicks t) :: tail) s' ∧ s'.halted = false ∧ s'.code = s.code ∧
        s'.hw.irqCount t = s.hw.irqCount t + 1 := by
  obtain ⟨s', hstep, hinside⟩ := h.irq_handled hawait
  refine ⟨s', hstep, ?_⟩
  cases h.irq_move hgates hstep with
  | @tick t' hsource hplace hat hawake hcode hlog hcount =>
      obtain rfl := source_inj hsource
      refine ⟨hat, hawake, hcode, ?_⟩
      rw [hcount, Function.update_self]
  | left hleft hlog =>
      rw [hleft.crashed] at hinside
      cases hinside

/-- A wait can be woken. -/
theorem MainAt.wake (hgates : Gates k s₀ faults)
    (h : MainAt k s₀ done (.op (.waitTicks t) :: tail) s)
    (hawait : Awaited k t (s₀.after k done)) :
    ∃ s', Reaches (atomicStep k) s s' ∧ MainAt k s₀ done (.op (.waitTicks t) :: tail) s' ∧
      s'.halted = false ∧ s'.code = .op (.waitTicks t) :: tail := by
  by_cases hhalted : s.halted = true
  · obtain ⟨s', hstep, hat, hawake, hcode, -⟩ := h.tick hgates hawait
    exact ⟨s', (Reaches.refl s).snoc hstep, hat, hawake, hcode.trans (h.asleep hhalted).1⟩
  · have hawake : s.halted = false := Bool.eq_false_of_not_eq_true hhalted
    rcases h.code_cases with hcode | ⟨-, hcode, -⟩
    · exact ⟨s, .refl s, h, hawake, hcode⟩
    · -- The `hlt` first, then the tick that ends it.
      have hstep := atomicStep_op (k := k) hawake (stepOp_hlt hcode) h.saved
      have hslept : MainAt k s₀ done (.op (.waitTicks t) :: tail)
          { s with code := .op (.waitTicks t) :: tail, halted := true } :=
        ⟨h.code, h.more, .here, h.saved, h.setup, h.inside, fun _ => ⟨rfl, Or.inl ⟨_, _, rfl⟩⟩⟩
      obtain ⟨s', htick, hat, hawake', hcode', -⟩ := hslept.tick hgates hawait
      exact ⟨s', ((Reaches.refl s).snoc hstep).snoc htick, hat, hawake', hcode'⟩

/-- **Three ticks end a wait.** -/
theorem MainAt.waitTicks (hgates : Gates k s₀ faults)
    (h : MainAt k s₀ done (.op (.waitTicks t) :: tail) s)
    (hawait : Awaited k t (s₀.after k done)) :
    ∃ s', Reaches (atomicStep k) s s' ∧ MainAt k s₀ (done ++ [.op (.waitTicks t)]) tail s' := by
  obtain ⟨u, hreach, hu, hawake, hcode⟩ := h.wake hgates hawait
  -- The induction is on the ticks that are still missing.
  induction hn : 3 - (u.hw.irqCount t).toNat generalizing u with
  | zero =>
      have hop : u.stepOp k = some { u with code := tail } := by
        rw [stepOp_waitTicks hcode, if_neg (by omega)]
      exact ⟨_, hreach.snoc (atomicStep_op hawake hop hu.saved),
        hu.next (by simp) rfl hu.saved rfl hu.inside hawake⟩
  | succ n ih =>
      obtain ⟨v, htick, hv, hawake', hsame, hcount⟩ := hu.tick hgates hawait
      refine ih v (hreach.snoc htick) hv hawake' (hsame.trans hcode) ?_
      rw [hcount, toNat_succ (by omega)]
      omega

/-- Every operation before the last loop comes to its end. -/
theorem MainAt.advance (hgates : Gates k s₀ faults)
    (hawait : ∀ done t tail, done ++ .op (.waitTicks t) :: tail = entryCode →
      Awaited k t (s₀.after k done))
    (h : MainAt k s₀ done (op :: tail) s) (hop : op ≠ .haltLoop) :
    ∃ s', Reaches (atomicStep k) s s' ∧ MainAt k s₀ (done ++ [op]) tail s' := by
  by_cases hsleeps : Sleeps (op :: tail)
  · rcases hsleeps with ⟨t, rest, hwait⟩ | hhalt
    · obtain ⟨rfl, rfl⟩ := List.cons.inj hwait
      exact h.waitTicks hgates (hawait _ _ _ h.code)
    · exact absurd (List.cons.inj hhalt).1 hop
  · have hawake : s.halted = false :=
      Bool.eq_false_of_not_eq_true fun hhalted => hsleeps (h.asleep hhalted).2
    obtain ⟨s', hstep⟩ := h.op_enabled hawake
    cases h.op_move hgates hstep with
    | next hrest hat =>
        obtain ⟨rfl, rfl⟩ := List.cons.inj hrest
        exact ⟨s', (Reaches.refl s).snoc hstep, hat⟩
    | wait hat hwait => exact absurd hwait hsleeps

/-- The last loop disables interrupts and halts. -/
theorem MainAt.halt (h : MainAt k s₀ done [.haltLoop] s) :
    ∃ s', Reaches (atomicStep k) s s' ∧ Halted s' := by
  by_cases hhalted : s.halted = true
  · exact ⟨s, .refl s, (h.asleep hhalted).1, h.saved, hhalted, h.inside⟩
  · have hawake : s.halted = false := Bool.eq_false_of_not_eq_true hhalted
    have hcode : s.code = [.haltLoop] := by
      rcases h.code_cases with hcode | ⟨-, -, _, _, hwait⟩
      · exact hcode
      · cases hwait
    have hstep := atomicStep_op (k := k) hawake (stepOp_haltLoop hcode) h.saved
    exact ⟨_, (Reaches.refl s).snoc hstep, hcode, h.saved, rfl, h.inside⟩

/-- From anywhere in its code the main program gets to its end. -/
theorem MainAt.halts (hgates : Gates k s₀ faults)
    (hawait : ∀ done t tail, done ++ .op (.waitTicks t) :: tail = entryCode →
      Awaited k t (s₀.after k done))
    (h : MainAt k s₀ done rest s) : ∃ s', Reaches (atomicStep k) s s' ∧ Halted s' := by
  induction rest generalizing done s with
  | nil => exact absurd rfl h.more
  | cons op tail ih =>
      by_cases hop : op = .haltLoop
      · obtain rfl := (haltLoop_iff h.code).mp hop
        subst hop
        exact h.halt
      · obtain ⟨u, hreach, hu⟩ := h.advance hgates hawait hop
        obtain ⟨s', hrest, hs'⟩ := ih hu
        exact ⟨s', hreach.trans hrest, hs'⟩

end Advance

/-- No operation of a handler leaves the kernel. -/
theorem EntryState.crashed_finish (k : LoadedKernel) (s : EntryState) :
    (s.finish k).crashed = s.crashed := by
  refine finish_keeps (R := fun s s' => s'.crashed = s.crashed) (fun _ => rfl)
    (fun h h' => h'.trans h) (fun s op => ?_) s
  cases op with
  | op o =>
      cases o with
      | io i => cases i <;> rfl
      | iretq =>
          simp only [handle]
          split <;> rfl
      | _ => rfl
  | _ => rfl

section Entry

variable {k : LoadedKernel} (fw : Firmware) {m : Memory} {P : Paging} (hp : Placed k.toHandover)
  (hk : k.Ok) (hd : RangesDisjoint k.toHandover)
include hp hk hd

omit hp hd in
/-- The first window waits for its timer. -/
theorem pitWindow_awaited {b : EntryState}
    (hsetting : Setting k (k.stage1Memory fw P) P.pml4Phys k.pitGates ⟨none, none⟩ b)
    (hpic1 : b.hw.pic1 = ⟨0x20, 0xFE, 0⟩) (hpic2 : b.hw.pic2 = ⟨0x28, 0xFF, 0⟩) :
    Awaited k .pit (b.exec k (.op .sti)) := by
  have hwindow : EntryWindow k (k.stage1Memory fw P) P.pml4Phys (b.exec k (.op .sti)) :=
    .pit hsetting.tables.sti hpic1 hpic2 hsetting.lapic
  have hirq : (b.exec k (.op .sti)).deliverable Timer.pit.source = some kVectorIRQ0 := by
    show b.hw.pic1.deliverable 0 = _
    rw [hpic1]
    rfl
  exact hwindow.awaited hk rfl hirq

omit hp hd in
/-- The second window waits for its timer. -/
theorem lapicWindow_awaited {b : EntryState}
    (hsetting : Setting k (k.stage1Memory fw P) P.pml4Phys k.lapicGates ⟨some 0x1FF, some 0x20022⟩
      b)
    (hpic1 : b.hw.pic1 = ⟨0x20, 0xFF, 0⟩) (hpic2 : b.hw.pic2 = ⟨0x28, 0xFF, 0⟩) :
    Awaited k .lapic (b.exec k (.op .sti)) := by
  have hwindow : EntryWindow k (k.stage1Memory fw P) P.pml4Phys (b.exec k (.op .sti)) :=
    .lapic hsetting.tables.sti hpic1 hpic2 hsetting.lapic
  have hirq : (b.exec k (.op .sti)).deliverable Timer.lapic.source = some kVectorLapicTimer := by
    show b.lapic.lvtTimer.bind _ = _
    rw [hsetting.lapic]
    rfl
  exact hwindow.awaited hk rfl hirq

/-- Each wait stands where the ticks of its timer are handled. -/
theorem awaited_entryCode {done tail : List EntryOp} {t : Timer}
    (hcode : done ++ .op (.waitTicks t) :: tail = entryCode) :
    Awaited k t ((fw.enter P).after k done) := by
  obtain ⟨rfl, -⟩ := place_waitTicks hcode
  rw [EntryState.after_concat]
  cases t with
  | pit =>
      obtain ⟨hsetting, hpic1, hpic2⟩ := setting_stage3 (P := P) fw hp hk hd
      exact pitWindow_awaited fw hk hsetting hpic1 hpic2
  | lapic =>
      obtain ⟨hsetting, hpic1, hpic2⟩ := setting_stage4 (P := P) fw hp hk hd
      exact lapicWindow_awaited fw hk hsetting hpic1 hpic2

omit hp hk hd in
theorem mainAt_enter : MainAt k (fw.enter P) [] entryCode (fw.enter P) where
  code := rfl
  more := by decide
  here := .here
  saved := rfl
  setup := rfl
  inside := rfl
  asleep := fun h => nomatch h

/-- **Handlers are as good as single steps**: what every schedule leads to, some schedule of the
same interrupts leads to with handlers that cannot be seen, as soon as a handler has returned, and
it does return. -/
theorem entry_serializes {events : List EntryEvent} {s : EntryState}
    (hrun : runs (entryStep k) events (fw.enter P) = some s) :
    Reaches (entryStep k) s (settle EntryState.Busy (EntryState.finish k) s) ∧
      ∃ events', events'.Sublist events ∧ runs (atomicStep k) events' (fw.enter P) =
        some (settle EntryState.Busy (EntryState.finish k) s) := by
  have hsafe := @safe_entryCode k fw P hp hk hd
  obtain ⟨hsteady, hatomic⟩ := entry_runs_atomically hsafe (mainAt_enter fw) hrun
  exact ⟨((entry_blocks hsafe).repeats_settle hsteady).reaches, hatomic⟩

end Entry

/-- A tick has come in the first window of the small kernel, and its handler has just begun. -/
theorem entry_serializes_small : ∃ P events s,
    buildPaging smallKernel.toHandover (fun _ => 0) = .ok P ∧
      runs (entryStep smallKernel) events (idleFirmware.enter P) = some s ∧ s.Busy ∧
      Reaches (entryStep smallKernel) s (s.finish smallKernel) ∧
      ∃ events', events'.Sublist events ∧ runs (atomicStep smallKernel) events'
        (idleFirmware.enter P) = some (s.finish smallKernel) := by
  have hp := smallKernel_placed
  have hk := smallKernel_ok
  have hd := smallKernel_rangesDisjoint
  obtain ⟨P, hbuild⟩ := smallKernel_buildPaging
  have harrives := arrives_stage3 idleFirmware hp hk hd (conventionalOk_cleared _)
    smallKernel_mapBelow hbuild
  obtain ⟨s, ⟨events, hrun⟩, hs⟩ := harrives.next fun _ hs => stepOp_plain rfl hs.code
  have hcode : (toStage3Window ++ [.op .sti]) ++ stage3Window.tail = entryCode := by
    rw [entryCode_eq, List.append_assoc]
    rfl
  have hawait : Awaited smallKernel .pit s :=
    (awaited_entryCode idleFirmware hp hk hd hcode).congr hs.setup
  obtain ⟨u, hirq, hbusy⟩ : ∃ u, entryStep smallKernel (.irq Timer.pit.source) s = some u ∧
      u.Busy := by
    obtain ⟨g, hirq⟩ := entryStep_tick hawait hs.saved
    exact ⟨_, hirq, List.cons_ne_nil _ _⟩
  have hbegun := runs_snoc hrun hirq
  obtain ⟨hreach, hatomic⟩ := entry_serializes idleFirmware hp hk hd hbegun
  rw [settle_of_busy hbusy] at hreach hatomic
  exact ⟨P, _, u, hbuild, hbegun, hbusy, hreach, hatomic⟩

section Entry

variable {k : LoadedKernel} (fw : Firmware) {m : Memory} {P : Paging} (hp : Placed k.toHandover)
  (hk : k.Ok) (hd : RangesDisjoint k.toHandover)
include hp hk hd

variable (hc : ConventionalOk k.toHandover m) (hb : MapBelow k.toHandover m)
  (hbuild : buildPaging k.toHandover m = .ok P)
include hc hb hbuild

/-- **The end can be reached from everywhere**, unless control has left the kernel. -/
theorem entry_halts {events : List EntryEvent} {s : EntryState}
    (hrun : runs (entryStep k) events (fw.enter P) = some s) (hinside : s.crashed = false) :
    ∃ s', Reaches (entryStep k) s s' ∧ Halted s' := by
  have hgates := gates_entryCode fw hp hk hd hc hb hbuild
  have hsafe := @safe_entryCode k fw P hp hk hd
  have hblocks := entry_blocks hsafe
  obtain ⟨hsteady, hat⟩ := inside_of_run hsafe hgates (mainAt_enter fw) hrun
  have hsettled : (settle EntryState.Busy (EntryState.finish k) s).crashed = false := by
    unfold settle
    split
    · exact (EntryState.crashed_finish k s).trans hinside
    · exact hinside
  rcases hat with ⟨done, rest, hat⟩ | hleft
  · obtain ⟨s', hreach, hhalted⟩ := hat.halts hgates
      (fun _ _ _ hcode => awaited_entryCode fw hp hk hd hcode)
    have hsettle := (hblocks.repeats_settle hsteady).reaches
    have hsteady' := hsettle.keeps hblocks.keeps hsteady
    obtain ⟨events', hatomic⟩ := hreach
    obtain ⟨-, events'', hrun', -⟩ := hblocks.runs_of_atomically hsteady' hatomic
    exact ⟨s', hsettle.trans ⟨events'', hrun'⟩, hhalted⟩
  · rw [hleft.crashed] at hsettled
    cases hsettled

end Entry

end Kernel
end OsBook
