import OsBook.Kernel.EntryHalts
import OsBook.Machine.Fairness

/-!
# The program behind the `CR3` load comes closer to its end

`entry_halts` says that the end can be reached.  Here it is approached: each step
of the processor brings the program closer to its last loop, a tick does so if it
is awaited, and no interrupt takes it away (`approaches_over`).  A wait is three
ticks long, and no other operation waits; a tick between the check of a wait and
its `hlt` does no harm, because the timers are periodic.

Handlers are single steps: a machine that is interrupted again as soon as a
handler returns would never get to the main program.  And a counter must not
wrap around: a timer that ticks `2 ^ 64 - 1` times in one window would bring its
wait back to the beginning.
-/

namespace OsBook
namespace Kernel

open Machine

/-! ## The distance from the end -/

/-- The ticks that the wait for a timer still misses. -/
def EntryState.missing (s : EntryState) (t : Timer) : Nat := 3 - (s.hw.irqCount t).toNat

/-- Sixteen for each operation to come, and what is left of the current one. -/
def EntryState.distance (s : EntryState) : Nat :=
  if s.crashed then 0
  else
    match s.code with
    | .op .hlt :: .op (.waitTicks t) :: tail => 16 * tail.length + (3 * s.missing t + 3)
    | .op (.waitTicks t) :: tail =>
        16 * tail.length +
          if s.halted then 3 * s.missing t + 2
          else if s.missing t = 0 then 1
          else 3 * s.missing t + 4
    | code => 16 * (code.length - 1) + if s.halted then 1 else 2

/-- The event that a state is waiting for. -/
def EntryState.due (s : EntryState) : EntryEvent :=
  match s.halted, s.code with
  | true, .op (.waitTicks t) :: _ => .irq t.source
  | _, _ => .op

/-- The processor and the two timers. -/
def EntryEvent.Regular (e : EntryEvent) : Prop := e = .op ∨ ∃ t : Timer, e = .irq t.source

/-- The wait for a timer whose counter is about to wrap around. -/
def EntryState.Wraps (s : EntryState) : Prop :=
  ∃ t tail,
    (s.code = .op (.waitTicks t) :: tail ∨ s.code = .op .hlt :: .op (.waitTicks t) :: tail) ∧
      (s.hw.irqCount t).toNat + 1 = 2 ^ 64

/-- The end, or a way out: an interrupt has left the kernel, or a counter is about to wrap. -/
def EntryState.Over (s : EntryState) : Prop := Halted s ∨ s.crashed = true ∨ s.Wraps

section Distance

variable {k : LoadedKernel} {s₀ s s' : EntryState} {done rest tail : List EntryOp} {op : EntryOp}
  {t : Timer} {faults : Bool}

theorem EntryState.missing_le (s : EntryState) (t : Timer) : s.missing t ≤ 3 := Nat.sub_le 3 _

theorem distance_crashed (h : s.crashed = true) : s.distance = 0 := if_pos h

theorem distance_hlt (hinside : s.crashed = false)
    (hcode : s.code = .op .hlt :: .op (.waitTicks t) :: tail) :
    s.distance = 16 * tail.length + (3 * s.missing t + 3) := by
  unfold EntryState.distance
  rw [hinside, hcode]
  rfl

theorem distance_waitTicks (hinside : s.crashed = false)
    (hcode : s.code = .op (.waitTicks t) :: tail) :
    s.distance = 16 * tail.length +
      if s.halted then 3 * s.missing t + 2
      else if s.missing t = 0 then 1
      else 3 * s.missing t + 4 := by
  unfold EntryState.distance
  rw [hinside, hcode]
  rfl

/-- In front of an operation that does not wait. -/
theorem MainAt.distance_other (h : MainAt k s₀ done (op :: tail) s)
    (hop : ∀ t, op ≠ .op (.waitTicks t)) :
    s.code = op :: tail ∧ s.distance = 16 * tail.length + if s.halted then 1 else 2 := by
  have hcode : s.code = op :: tail := by
    rcases h.code_cases with hcode | ⟨-, -, t, tail, hwait⟩
    · exact hcode
    · exact absurd (List.cons.inj hwait).1 (hop t)
  refine ⟨hcode, ?_⟩
  unfold EntryState.distance
  rw [h.inside, hcode, if_neg Bool.false_ne_true]
  split
  · rename_i heq
    obtain ⟨rfl, -⟩ := List.cons.inj heq
    exact absurd h.code entryCode_ne_hlt
  · rename_i t _ heq
    exact absurd (List.cons.inj heq).1 (hop t)
  · rfl

/-- The distance lies between that of the operations to come and the next multiple. -/
theorem MainAt.distance_bounds (h : MainAt k s₀ done (op :: tail) s) :
    16 * tail.length < s.distance ∧ s.distance < 16 * (tail.length + 1) := by
  by_cases hwait : ∃ t, op = .op (.waitTicks t)
  · obtain ⟨t, rfl⟩ := hwait
    have hmissing := s.missing_le t
    rcases h.code_cases with hcode | ⟨-, hcode, -⟩
    · rw [distance_waitTicks h.inside hcode]
      split
      · omega
      · split <;> omega
    · rw [distance_hlt h.inside hcode]
      omega
  · rw [not_exists] at hwait
    rw [(h.distance_other hwait).2]
    split <;> omega

theorem due_awake (h : s.halted = false) : s.due = .op := by
  simp only [EntryState.due, h]

/-- In a wait that is not over, the counter has room for another tick. -/
theorem MainAt.count_lt (h : MainAt k s₀ done (.op (.waitTicks t) :: tail) s) (hover : ¬ s.Over) :
    (s.hw.irqCount t).toNat + 1 < 2 ^ 64 := by
  have hlt := (s.hw.irqCount t).toNat_lt
  have hcode : s.code = .op (.waitTicks t) :: tail ∨
      s.code = .op .hlt :: .op (.waitTicks t) :: tail := by
    rcases h.code_cases with hcode | ⟨-, hcode, -⟩
    · exact Or.inl hcode
    · exact Or.inr hcode
  have hne : (s.hw.irqCount t).toNat + 1 ≠ 2 ^ 64 :=
    fun heq => hover (Or.inr (Or.inr ⟨t, tail, hcode, heq⟩))
  omega

theorem Inside.mainAt (h : Inside k s₀ s) (hinside : ¬ s.crashed = true) :
    ∃ done rest, MainAt k s₀ done rest s :=
  h.resolve_right fun hleft => hinside hleft.crashed

/-- The next operation is closer. -/
theorem MainAt.distance_next (h : MainAt k s₀ done (op :: tail) s)
    (h' : MainAt k s₀ (done ++ [op]) tail s') : s'.distance < s.distance := by
  obtain ⟨op', tail', rfl⟩ := List.exists_cons_of_ne_nil h'.more
  have hfar := h.distance_bounds.1
  have hnear := h'.distance_bounds.2
  rw [List.length_cons] at hfar
  omega

/-! ## Steps -/

/-- **A step of the processor brings the end closer.** -/
theorem MainAt.op_closer (hgates : Gates k s₀ faults) (h : MainAt k s₀ done rest s)
    (hstep : atomicStep k .op s = some s') : s'.distance < s.distance := by
  have hawake : s.halted = false := by
    refine Bool.eq_false_of_not_eq_true fun hhalted => ?_
    rw [atomicStep, atomically, entryStep, if_pos hhalted] at hstep
    cases hstep
  by_cases hsleeps : Sleeps rest
  · rcases hsleeps with ⟨t, tail, rfl⟩ | rfl
    · rcases h.code_cases with hcode | ⟨-, hcode, -⟩
      · have hop := stepOp_waitTicks (k := k) hcode
        have hs' := Option.some.inj (hstep.symm.trans (atomicStep_op hawake hop h.saved))
        by_cases hlt : (s.hw.irqCount t).toNat < 3
        · -- The check fails, and the `hlt` is next.
          rw [if_pos hlt] at hs'
          have hmissing : s.missing t ≠ 0 := by
            unfold EntryState.missing
            omega
          have hsame : s'.missing t = s.missing t := by
            rw [hs']
            rfl
          rw [distance_waitTicks h.inside hcode, hawake, if_neg Bool.false_ne_true,
            if_neg hmissing, distance_hlt (hs' ▸ h.inside) (by rw [hs']), hsame]
          exact Nat.lt_add_one _
        · rw [if_neg hlt] at hs'
          subst hs'
          exact h.distance_next (h.next (by simp) rfl h.saved rfl h.inside hawake)
      · have hop := stepOp_hlt (k := k) hcode
        have hs' := Option.some.inj (hstep.symm.trans (atomicStep_op hawake hop h.saved))
        have hsame : s'.missing t = s.missing t := by
          rw [hs']
          rfl
        have hhalted : s'.halted = true := by rw [hs']
        rw [distance_hlt h.inside hcode, distance_waitTicks (hs' ▸ h.inside) (by rw [hs']), hsame,
          if_pos hhalted]
        exact Nat.lt_add_one _
    · obtain ⟨hcode, hdistance⟩ := h.distance_other (by simp)
      have hop := stepOp_haltLoop (k := k) hcode
      have hs' := Option.some.inj (hstep.symm.trans (atomicStep_op hawake hop h.saved))
      have hdistance' : s'.distance = 1 := by
        unfold EntryState.distance
        rw [hs', if_neg (by rw [h.inside]; simp)]
        simp only [hcode]
        rfl
      rw [hdistance, hawake, hdistance']
      exact Nat.lt_add_one _
  · cases h.op_move hgates hstep with
    | next hrest hat =>
        subst hrest
        exact h.distance_next hat
    | wait hat hwait => exact absurd hwait hsleeps

/-- A tick inside a wait: one tick less is missing, or none was. -/
theorem MainAt.tick_closer (h : MainAt k s₀ done (.op (.waitTicks t) :: tail) s)
    (hat : MainAt k s₀ done (.op (.waitTicks t) :: tail) s') (hawake : s'.halted = false)
    (hcode : s'.code = s.code) (hmissing : s'.missing t = s.missing t - 1) :
    s'.distance < s.distance ∨ s'.distance = s.distance ∧ s'.due = s.due := by
  rcases h.code_cases with hc | ⟨hawake₀, hc, -⟩
  · have hold := distance_waitTicks h.inside hc
    have hnew := distance_waitTicks hat.inside (hcode.trans hc)
    rw [hawake, if_neg Bool.false_ne_true, hmissing] at hnew
    by_cases hhalted : s.halted = true
    · rw [if_pos hhalted] at hold
      split at hnew <;> omega
    · rw [if_neg hhalted] at hold
      by_cases hzero : s.missing t = 0
      · right
        rw [if_pos hzero] at hold
        rw [if_pos (by omega)] at hnew
        exact ⟨hnew.trans hold.symm,
          (due_awake hawake).trans (due_awake (Bool.eq_false_of_not_eq_true hhalted)).symm⟩
      · rw [if_neg hzero] at hold
        split at hnew <;> omega
  · have hold := distance_hlt h.inside hc
    have hnew := distance_hlt hat.inside (hcode.trans hc)
    rw [hmissing] at hnew
    by_cases hzero : s.missing t = 0
    · rw [hzero] at hold hnew
      exact Or.inr ⟨hnew.trans hold.symm, (due_awake hawake).trans (due_awake hawake₀).symm⟩
    · omega

/-- **An interrupt takes nothing away**: it brings the end closer, or leaves the same to be
done. -/
theorem MainAt.irq_closer (hgates : Gates k s₀ faults) (h : MainAt k s₀ done rest s)
    (hover : ¬ s.Over) {src : InterruptSource} (hstep : atomicStep k (.irq src) s = some s') :
    s'.distance < s.distance ∨ s'.distance = s.distance ∧ s'.due = s.due := by
  obtain ⟨op, tail, rfl⟩ := List.exists_cons_of_ne_nil h.more
  cases h.irq_move hgates hstep with
  | left hleft hlog =>
      have hbounds := h.distance_bounds.1
      rw [distance_crashed hleft.crashed]
      omega
  | @tick t hsource hplace hat hawake hcode hlog hcount =>
      rcases hplace with hrest | hrest
      · obtain ⟨rfl, -⟩ := List.cons.inj hrest
        have hmissing : s'.missing t = s.missing t - 1 := by
          unfold EntryState.missing
          rw [hcount, Function.update_self, toNat_succ (h.count_lt hover)]
          omega
        exact h.tick_closer hat hawake hcode hmissing
      · -- Behind the wait a tick changes no more than the counter.
        obtain ⟨rfl, -⟩ := List.cons.inj hrest
        have hother : ∀ t, EntryOp.op (.io .cli) ≠ .op (.waitTicks t) := by simp
        have hawake₀ : s.halted = false := by
          refine Bool.eq_false_of_not_eq_true fun hhalted => ?_
          rcases (h.asleep hhalted).2 with ⟨t', tail', hwait⟩ | hloop
          · exact hother t' (List.cons.inj hwait).1
          · exact absurd (List.cons.inj hloop).1 (by simp)
        rw [(h.distance_other hother).2, (hat.distance_other hother).2, hawake, hawake₀]
        exact Or.inr ⟨rfl, (due_awake hawake).trans (due_awake hawake₀).symm⟩

/-- What is due can happen, and brings the end closer. -/
theorem MainAt.due_closer (hgates : Gates k s₀ faults)
    (hawait : ∀ done t tail, done ++ .op (.waitTicks t) :: tail = entryCode →
      Awaited k t (s₀.after k done))
    (h : MainAt k s₀ done rest s) (hover : ¬ s.Over) :
    s.due.Regular ∧ ∃ s', atomicStep k s.due s = some s' ∧ s'.distance < s.distance := by
  by_cases hhalted : s.halted = true
  · obtain ⟨hcode, ⟨t, tail, rfl⟩ | rfl⟩ := h.asleep hhalted
    · have hdue : s.due = .irq t.source := by
        unfold EntryState.due
        rw [hhalted, hcode]
      obtain ⟨s', hstep, hat, hawake, -, -⟩ := h.tick hgates (hawait _ _ _ h.code)
      rw [hdue]
      refine ⟨Or.inr ⟨t, rfl⟩, s', hstep, ?_⟩
      rcases h.irq_closer hgates hover hstep with hlt | ⟨-, hsame⟩
      · exact hlt
      · rw [hdue, due_awake hawake] at hsame
        cases hsame
    · exact absurd (Or.inl ⟨hcode, h.saved, hhalted, h.inside⟩) hover
  · have hawake : s.halted = false := Bool.eq_false_of_not_eq_true hhalted
    rw [due_awake hawake]
    obtain ⟨s', hstep⟩ := h.op_enabled hawake
    exact ⟨Or.inl rfl, s', hstep, h.op_closer hgates hstep⟩

/-- The program approaches its end. -/
theorem approaches_over (hgates : Gates k s₀ faults)
    (hawait : ∀ done t tail, done ++ .op (.waitTicks t) :: tail = entryCode →
      Awaited k t (s₀.after k done)) :
    Approaches (atomicStep k) EntryEvent.Regular (Inside k s₀) EntryState.Over
      EntryState.distance fun e s => e = s.due where
  keeps := fun _ _ _ h hstep => h.step hgates hstep
  down := by
    intro e s s' hinside hover hstep
    obtain ⟨done, rest, h⟩ := hinside.mainAt fun hcrashed => hover (Or.inr (Or.inl hcrashed))
    cases e with
    | op => exact Or.inl (h.op_closer hgates hstep)
    | irq src =>
        exact (h.irq_closer hgates hover hstep).imp_right fun ⟨hequal, hdue⟩ =>
          ⟨hequal, fun e he => he.trans hdue.symm⟩
  helpful := by
    intro s hinside hover
    obtain ⟨done, rest, h⟩ := hinside.mainAt fun hcrashed => hover (Or.inr (Or.inl hcrashed))
    exact ⟨s.due, (h.due_closer hgates hawait hover).1, rfl⟩
  closer := by
    rintro e s hinside hover rfl
    obtain ⟨done, rest, h⟩ := hinside.mainAt fun hcrashed => hover (Or.inr (Or.inl hcrashed))
    exact (h.due_closer hgates hawait hover).2

end Distance

/-! ## Who leaves the kernel -/

/-- A window lets through the ticks of the timers and the spurious vector. -/
theorem EntryWindow.source {k : LoadedKernel} {m : Memory} {cr3 : UInt64} {c : EntryState}
    (h : EntryWindow k m cr3 c) {src : InterruptSource} {vector : UInt8}
    (hv : c.deliverable src = some vector) : src = .spurious ∨ ∃ t : Timer, src = t.source := by
  cases h.delivery hv with
  | irq0 => exact Or.inr ⟨.pit, rfl⟩
  | lapicTimer => exact Or.inr ⟨.lapic, rfl⟩
  | spurious => exact Or.inl rfl

section Entry

variable {k : LoadedKernel} (fw : Firmware) {m : Memory} {P : Paging} (hp : Placed k.toHandover)
  (hk : k.Ok) (hd : RangesDisjoint k.toHandover)
include hp hk hd

variable (hc : ConventionalOk k.toHandover m) (hb : MapBelow k.toHandover m)
  (hbuild : buildPaging k.toHandover m = .ok P)
include hc hb hbuild

/-- Only a spurious interrupt leaves the kernel, unless the firmware left interrupts enabled. -/
theorem irq_inside {done rest : List EntryOp} {s s' : EntryState}
    (h : MainAt k (fw.enter P) done rest s) (hoff : fw.hw.interrupts = false)
    {src : InterruptSource} (hsrc : src ≠ .spurious)
    (hstep : atomicStep k (.irq src) s = some s') : MainAt k (fw.enter P) done rest s' := by
  have hgates := gates_entryCode fw hp hk hd hc hb hbuild
  have hon : s.hw.interrupts = true ∧ ∃ vector, s.deliverable src = some vector := by
    obtain ⟨u, hu, -⟩ := Option.map_eq_some_iff.mp hstep
    simp only [entryStep] at hu
    split at hu
    · rename_i hon
      obtain ⟨vector, hv, -⟩ := Option.map_eq_some_iff.mp hu
      exact ⟨hon, vector, hv⟩
    · cases hu
  rw [EntryState.congr_setup (fun s => s.hw.interrupts) (fun _ => rfl) h.setup,
    EntryState.congr_setup (fun s => s.deliverable src) (EntryState.deliverable_setup src) h.setup]
    at hon
  obtain ⟨hon, vector, hv⟩ := hon
  have hposition : Position k fw (k.stage1Memory fw P) P.pml4Phys rest
      ((fw.enter P).after k done) :=
    position_entryCode fw P hp hk hd h.code
  rcases hposition.enabled hon with ⟨-, hfirmware⟩ | hwindow
  · rw [hoff] at hfirmware
    cases hfirmware
  · obtain ⟨t, rfl⟩ := (hwindow.source hv).resolve_left hsrc
    obtain ⟨u, hu, hinside⟩ := h.irq_handled (hwindow.awaited hk hon hv)
    obtain rfl := Option.some.inj (hu.symm.trans hstep)
    cases h.irq_move hgates hstep with
    | tick hsource hplace hat => exact hat
    | left hleft =>
        rw [hleft.crashed] at hinside
        cases hinside

end Entry

/-- The processor and the two timers in turn. -/
def regularly (n : Nat) : EntryEvent :=
  if n % 3 = 0 then .op else if n % 3 = 1 then .irq Timer.pit.source else .irq Timer.lapic.source

theorem regularly_fairWithin : FairWithin 3 EntryEvent.Regular regularly := by
  intro e he n
  have hturn : ∃ r, r < 3 ∧ ∀ m, m % 3 = r → regularly m = e := by
    rcases he with rfl | ⟨t, rfl⟩
    · exact ⟨0, by omega, fun m hm => if_pos hm⟩
    · cases t with
      | pit =>
          refine ⟨1, by omega, fun m hm => ?_⟩
          rw [regularly, if_neg (by omega), if_pos hm]
      | lapic =>
          refine ⟨2, by omega, fun m hm => ?_⟩
          rw [regularly, if_neg (by omega), if_neg (by omega)]
  obtain ⟨r, hr, hturn⟩ := hturn
  exact ⟨n + (r + 3 - n % 3) % 3, by omega, by omega, hturn _ (by omega)⟩

theorem regularly_ne_spurious (n : Nat) : regularly n ≠ .irq .spurious := by
  intro h
  unfold regularly at h
  split at h
  · cases h
  · split at h <;> cases h

end Kernel
end OsBook
