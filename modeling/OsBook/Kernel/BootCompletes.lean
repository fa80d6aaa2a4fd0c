import OsBook.Kernel.Boot
import OsBook.Kernel.CheckedEntry
import OsBook.Kernel.EntryCompletes

/-!
# Every fair schedule completes the boot

`kernelEntry_halts` says that the end can be reached.  Here it is: under every
schedule that lets the processor and the two timers have their turn again and
again, the kernel comes from its first instruction to the `hlt` of an endless
loop, with all its lines on the serial port (`kernelEntry_completes`), unless it
waits for a timer whose counter is about to wrap around or an interrupt leaves
the kernel.

On a supported machine neither happens if the firmware has disabled interrupts,
no interrupt is spurious and each turn comes within a bound: the kernel halts
within `2 ^ 13` turns, with the lines that are expected (`boot_completes`).

Handlers are single steps, as in `Kernel.EntryCompletes`, and the processor makes
the checks of `Kernel.CheckedEntry`.
-/

namespace OsBook
namespace Kernel

open Machine

/-- `kernel_entry` with its handlers as single steps. -/
def bootAtomicStep (k : LoadedKernel) (fw : Firmware) (m : Memory) :
    EntryEvent → BootState → Option BootState :=
  bootStepWith k fw m (atomicStep k)

/-- `kernel_entry` with the checks of the processor. -/
def bootCheckedStep (k : LoadedKernel) (mmu : EntryState → Mmu) (fw : Firmware) (m : Memory) :
    EntryEvent → BootState → Option BootState :=
  bootStepWith k fw m (checkedStep k mmu)

/-- The same with its handlers as single steps. -/
def bootCheckedAtomicStep (k : LoadedKernel) (mmu : EntryState → Mmu) (fw : Firmware) (m : Memory) :
    EntryEvent → BootState → Option BootState :=
  bootStepWith k fw m (atomically (checkedStep k mmu) EntryState.Busy (EntryState.finish k))

/-! ## The distance from the end -/

/-- The program behind the `CR3` load, at sixteen for each operation.  It is irreducible because
unification would evaluate it. -/
@[irreducible] def programWeight : Nat := 16 * entryCode.length

theorem programWeight_eq : programWeight = 6288 := by
  unfold programWeight
  decide +kernel

/-- Stage 1 is followed by the whole program. -/
def BootOp.weight : BootOp → Nat
  | .buildPaging => programWeight
  | _ => 1

def BootState.distance : BootState → Nat
  | .stage1 _ code halted => (code.map BootOp.weight).sum + if halted then 1 else 2
  | .entry s => s.distance
  | .left _ => 0

/-- The event that a state is waiting for. -/
def BootState.due : BootState → EntryEvent
  | .entry s => s.due
  | _ => .op

/-- The wait for a timer whose counter is about to wrap around. -/
def BootState.Wraps : BootState → Prop
  | .entry s => s.Wraps
  | _ => False

/-- The end, or a way out. -/
def BootState.Over : BootState → Prop
  | .stage1 _ code halted => code = [.haltLoop] ∧ halted = true
  | .entry s => s.Over
  | .left _ => True

theorem BootState.Over.cases {s : BootState} (h : s.Over) : s.Halted ∨ s.Wraps ∨ s.HasLeft := by
  cases s with
  | stage1 hw code halted => exact Or.inl h
  | left hw => exact Or.inr (Or.inr trivial)
  | entry s =>
      rcases h with hhalted | hcrashed | hwraps
      · exact Or.inl hhalted
      · exact Or.inr (Or.inr hcrashed)
      · exact Or.inr (Or.inl hwraps)

/-- Each plain operation counts once. -/
theorem distance_io (hw : Hw) (ops : List Io) (op : BootOp) (halted : Bool) :
    (BootState.stage1 hw (ops.map .io ++ [op]) halted).distance =
      ops.length + op.weight + if halted then 1 else 2 := by
  have hops : ((ops.map BootOp.io).map BootOp.weight).sum = ops.length := by
    induction ops with
    | nil => rfl
    | cons i ops ih =>
        rw [List.map_cons, List.map_cons, List.sum_cons, ih, List.length_cons, Nat.add_comm]
        rfl
  rw [BootState.distance, List.map_append, List.sum_append, hops]
  rfl

theorem distance_enter {k : LoadedKernel} (fw : Firmware) (P : Paging) :
    (fw.enter P).distance < programWeight := by
  have hat := mainAt_enter (k := k) (P := P) fw
  obtain ⟨op, tail, hcode⟩ := List.exists_cons_of_ne_nil hat.more
  rw [hcode] at hat
  have hfar := hat.distance_bounds.2
  unfold programWeight
  rw [hcode, List.length_cons]
  exact hfar

theorem length_writeStage1FailCode (c : Char) : (writeStage1FailCode c).length = 23 := by
  have hline : "STAGE 1: paging fail ".toList.length = 21 := by decide
  calc (writeStage1FailCode c).length
      = (stage1FailLine c).length := List.length_map _
    _ = "STAGE 1: paging fail ".toList.length + 2 := List.length_append
    _ = 23 := congrArg (· + 2) hline

/-- The first instruction is less than `2 ^ 13` away from the end. -/
theorem distance_bootStart (fw : Firmware) : (bootStart fw).distance < 2 ^ 13 := by
  have hlength : bootIo.length = 39 := by decide +kernel
  have hweight : BootOp.weight .buildPaging = 6288 := programWeight_eq
  rw [bootStart, bootCode, distance_io, hlength, hweight, if_neg Bool.false_ne_true]
  decide

/-- A wait whose counter has followed the ticks does not wrap around before them. -/
theorem Logged.not_wraps {k : LoadedKernel} {s₀ s : EntryState} {base : List Char} {faults : Bool}
    {d : Timer → Nat} (h : Logged k s₀ base faults d s) (hd : ∀ t, d t + 1 < 2 ^ 64) :
    ¬ s.Wraps := by
  rintro ⟨t, tail, hcode, hcount⟩
  rcases h with ⟨done, rest, hat, hlog⟩ | ⟨hleft, -⟩
  · have hrest : ∃ tail, rest = .op (.waitTicks t) :: tail := by
      rcases hat.code_cases with hsame | ⟨-, hhlt, -⟩
      · rw [hsame] at hcode
        rcases hcode with rfl | rfl
        · exact ⟨tail, rfl⟩
        · exact absurd hat.code entryCode_ne_hlt
      · rw [hhlt] at hcode
        rcases hcode with hcode | hcode
        · cases (List.cons.inj hcode).1
        · exact ⟨tail, (List.cons.inj hcode).2⟩
    obtain ⟨tail, rfl⟩ := hrest
    have hle := hlog.count.waiting t tail rfl
    have hlt := hd t
    omega
  · rw [hleft.code] at hcode
    rcases hcode with hcode | hcode <;> cases hcode

section Boot

variable {k : LoadedKernel} {fw : Firmware} {m : Memory} {events : List EntryEvent}

/-- Before the load a step does not depend on those behind it. -/
theorem bootAtomicStep_stage1 {e : EntryEvent} {hw : Hw} {code : List BootOp} {halted : Bool} :
    bootAtomicStep k fw m e (.stage1 hw code halted) =
      bootStep k fw m e (.stage1 hw code halted) := by
  cases e <;> rfl

/-- An interrupt before the load brings nothing but the end. -/
theorem distance_left_lt {hw hw' : Hw} {code : List BootOp} {halted : Bool} :
    (BootState.left hw').distance < (BootState.stage1 hw code halted).distance := by
  show 0 < (code.map BootOp.weight).sum + if halted then 1 else 2
  split <;> omega

/-- A step of the processor up to the load does not leave the kernel. -/
theorem not_hasLeft_op {hw : Hw} {code : List BootOp} {halted : Bool} {s' : BootState}
    (hstep : bootAtomicStep k fw m .op (.stage1 hw code halted) = some s') : ¬ s'.HasLeft := by
  simp only [bootAtomicStep, bootStepWith] at hstep
  split at hstep
  · cases hstep
  · split at hstep
    · cases hstep
    · cases hstep
      exact id
    · split at hstep
      · cases hstep
        exact Bool.false_ne_true
      · cases hstep
        exact id
      · cases hstep
        exact id
    · cases hstep
      exact id

variable (hp : Placed k.toHandover) (hk : k.Ok) (hd : RangesDisjoint k.toHandover)
  (hc : ConventionalOk k.toHandover m) (hb : MapBelow k.toHandover m)
include hp hk hd hc hb

/-- Behind the load the main program is somewhere in its code, or control has left the kernel. -/
theorem BootInv.inside {s : EntryState} (h : BootInv k fw m (atomicStep k) events (.entry s)) :
    ∃ hw P, buildPaging k.toHandover m = .ok P ∧ StaysOff fw hw ∧
      Inside k (Firmware.enter { fw with hw := hw } P) s := by
  cases h with
  | @entry hw P _ events' hbuild hlog hoff hsub hrun =>
      have hgates := gates_entryCode { fw with hw := hw } hp hk hd hc hb hbuild
      refine ⟨hw, P, hbuild, hoff, ?_⟩
      exact runs_invariant (fun _ s => Inside k (Firmware.enter { fw with hw := hw } P) s)
        (Or.inl ⟨_, _, mainAt_enter _⟩) (fun _ _ _ _ h hstep => h.step hgates hstep) hrun

/-- The program behind the load approaches its end. -/
theorem approaches_entry {hw : Hw} {P : Paging} (hbuild : buildPaging k.toHandover m = .ok P) :
    Approaches (atomicStep k) EntryEvent.Regular (Inside k (Firmware.enter { fw with hw := hw } P))
      EntryState.Over EntryState.distance fun e s => e = s.due :=
  approaches_over (gates_entryCode { fw with hw := hw } hp hk hd hc hb hbuild)
    fun _ _ _ hcode => awaited_entryCode { fw with hw := hw } hp hk hd hcode

omit hk hd in
/-- **Up to the load a step of the processor brings the end closer.** -/
theorem BootInv.op_closer {hw : Hw} {code : List BootOp} {halted : Bool}
    (h : BootInv k fw m (atomicStep k) events (.stage1 hw code halted))
    (hover : ¬ (BootState.stage1 hw code halted).Over) :
    ∃ s', bootAtomicStep k fw m .op (.stage1 hw code halted) = some s' ∧
      s'.distance < (BootState.stage1 hw code halted).distance := by
  cases h with
  | @build _ done ops hcode hlog hoff =>
      cases ops with
      | nil =>
          have hstage : (BootState.stage1 hw [.buildPaging] false).distance =
              programWeight + 2 := rfl
          rcases buildPaging_ends hp hc hb with ⟨P, hbuild⟩ | ⟨c, -, hbuild⟩
          · have hstep : bootAtomicStep k fw m .op (.stage1 hw [.buildPaging] false) =
                some (.entry (Firmware.enter { fw with hw := hw } P)) := by
              simp only [bootAtomicStep, bootStepWith, Bool.false_eq_true, if_false, hbuild]
            have hentry := distance_enter (k := k) { fw with hw := hw } P
            exact ⟨_, hstep, Nat.lt_of_lt_of_le hentry (hstage ▸ Nat.le_add_right _ 2)⟩
          · have hstep : bootAtomicStep k fw m .op (.stage1 hw [.buildPaging] false) =
                some (.stage1 hw (failCode c) false) := by
              simp only [bootAtomicStep, bootStepWith, Bool.false_eq_true, if_false, hbuild]
            refine ⟨_, hstep, ?_⟩
            rw [failCode, distance_io, length_writeStage1FailCode]
            show 23 + 1 + 2 < (BootState.stage1 hw [.buildPaging] false).distance
            rw [hstage, programWeight_eq]
            decide
      | cons i ops =>
          refine ⟨.stage1 (hw.io i) (ops.map BootOp.io ++ [BootOp.buildPaging]) false,
            bootStep_io hw i (ops.map BootOp.io ++ [BootOp.buildPaging]), ?_⟩
          rw [distance_io, distance_io, List.length_cons]
          omega
  | @fail _ c done ops _ hbuild hcode hhalted hlog hoff =>
      cases halted with
      | true =>
          obtain rfl := hhalted rfl
          exact absurd ⟨rfl, rfl⟩ hover
      | false =>
          cases ops with
          | nil => exact ⟨_, rfl, Nat.lt_succ_self _⟩
          | cons i ops =>
              refine ⟨.stage1 (hw.io i) (ops.map BootOp.io ++ [BootOp.haltLoop]) false,
                bootStep_io hw i (ops.map BootOp.io ++ [BootOp.haltLoop]), ?_⟩
              rw [distance_io, distance_io, List.length_cons]
              omega

/-- **The boot approaches its end.** -/
theorem approaches_boot :
    Approaches (bootAtomicStep k fw m) EntryEvent.Regular
      (fun s => ∃ events, BootInv k fw m (atomicStep k) events s) BootState.Over
      BootState.distance fun e s => e = s.due where
  keeps := fun _ _ _ ⟨_, h⟩ hstep => ⟨_, h.step hstep⟩
  down := by
    rintro e s s' ⟨events, h⟩ hover hstep
    cases s with
    | left hw => exact absurd trivial hover
    | stage1 hw code halted =>
        cases e with
        | op =>
            obtain ⟨t, ht, hlt⟩ := h.op_closer hp hc hb hover
            obtain rfl := Option.some.inj (ht.symm.trans hstep)
            exact Or.inl hlt
        | irq src =>
            simp only [bootAtomicStep, bootStepWith] at hstep
            split at hstep
            · obtain rfl := Option.some.inj hstep
              exact Or.inl distance_left_lt
            · cases hstep
    | entry s =>
        obtain ⟨hw, P, hbuild, -, hinside⟩ := h.inside hp hk hd hc hb
        rw [bootAtomicStep, bootStep_entry] at hstep
        obtain ⟨t, ht, rfl⟩ := Option.map_eq_some_iff.mp hstep
        exact (approaches_entry hp hk hd hc hb hbuild).down e s t hinside hover ht
  helpful := by
    rintro s ⟨events, h⟩ hover
    refine ⟨s.due, ?_, rfl⟩
    cases s with
    | left hw => exact absurd trivial hover
    | stage1 hw code halted => exact Or.inl rfl
    | entry s =>
        obtain ⟨hw, P, hbuild, -, hinside⟩ := h.inside hp hk hd hc hb
        obtain ⟨e, he, rfl⟩ := (approaches_entry hp hk hd hc hb hbuild).helpful s hinside hover
        exact he
  closer := by
    rintro e s ⟨events, h⟩ hover rfl
    cases s with
    | left hw => exact absurd trivial hover
    | stage1 hw code halted => exact h.op_closer hp hc hb hover
    | entry s =>
        obtain ⟨hw, P, hbuild, -, hinside⟩ := h.inside hp hk hd hc hb
        obtain ⟨t, ht, hlt⟩ :=
          (approaches_entry hp hk hd hc hb hbuild).closer s.due s hinside hover rfl
        refine ⟨.entry t, ?_, hlt⟩
        show bootStepWith k fw m (atomicStep k) s.due (.entry s) = some (.entry t)
        rw [bootStep_entry, ht]
        rfl

/-! ## Where a schedule leads to -/

/-- **Single steps for handlers add nothing**: every run with them is a run without them, with the
same interrupts. -/
theorem runs_of_bootAtomicStep {events : List EntryEvent} {s : BootState}
    (hrun : runs (bootAtomicStep k fw m) events (bootStart fw) = some s) :
    ∃ events', runs (bootStep k fw m) events' (bootStart fw) = some s ∧
      ∀ src, events'.count (.irq src) = events.count (.irq src) := by
  refine (runs_invariant (fun events s => BootInv k fw m (atomicStep k) events s ∧
    ∃ events', runs (bootStep k fw m) events' (bootStart fw) = some s ∧
      ∀ src, events'.count (.irq src) = events.count (.irq src))
    ⟨bootInv_run rfl, [], rfl, fun _ => rfl⟩ ?_ hrun).2
  rintro events e s s' ⟨h, events', hsteps, hcount⟩ hstep
  refine ⟨h.step hstep, ?_⟩
  cases s with
  | left hw => cases e <;> cases hstep
  | stage1 hw code halted =>
      refine ⟨events' ++ [e], runs_snoc hsteps (bootAtomicStep_stage1.symm.trans hstep), ?_⟩
      intro src
      rw [List.count_append, List.count_append, hcount]
  | entry s =>
      obtain ⟨hw, P, hbuild, -, hinside⟩ := h.inside hp hk hd hc hb
      rw [bootAtomicStep, bootStep_entry] at hstep
      obtain ⟨t, ht, rfl⟩ := Option.map_eq_some_iff.mp hstep
      rcases hinside with ⟨done, rest, hat⟩ | hleft
      · have hblocks := entry_blocks (@safe_entryCode k { fw with hw := hw } P hp hk hd)
        have hatomic : runs (atomicStep k) [e] s = some t := by
          rw [runs, ht]
          rfl
        obtain ⟨-, es, hblock, hsame⟩ := hblocks.runs_of_atomically hat.steady hatomic
        refine ⟨events' ++ es, by rw [runs_append hsteps, runs_entry hblock], fun src => ?_⟩
        have hne : EntryEvent.irq src ≠ .op := by
          intro h
          cases h
        rw [List.count_append, List.count_append, hcount, hsame _ hne]
      · rw [hleft.stuck] at ht
        cases ht

/-- Each moment of a schedule is reached, with no more interrupts than the schedule has. -/
theorem runs_of_follow (schedule : Nat → EntryEvent) (n : Nat) :
    ∃ events, runs (bootStep k fw m) events (bootStart fw) =
        some (follow (bootAtomicStep k fw m) schedule (bootStart fw) n) ∧
      ∀ src, events.count (.irq src) ≤ ((List.range n).map schedule).count (.irq src) := by
  obtain ⟨events, hsub, hrun⟩ := @runs_follow _ _ (bootAtomicStep k fw m) schedule (bootStart fw) n
  obtain ⟨events', hsteps, hcount⟩ := runs_of_bootAtomicStep hp hk hd hc hb hrun
  exact ⟨events', hsteps, fun src => (hcount src).trans_le (hsub.count_le _)⟩

/-- With interrupts disabled at the entry, and none of them spurious, no step leaves the kernel. -/
theorem BootInv.stays {e : EntryEvent} {s s' : BootState}
    (h : BootInv k fw m (atomicStep k) events s) (hinside : ¬ s.HasLeft)
    (hfirmware : fw.hw.interrupts = false) (hspurious : e ≠ .irq .spurious)
    (hstep : bootAtomicStep k fw m e s = some s') : ¬ s'.HasLeft := by
  cases s with
  | left hw => exact absurd trivial hinside
  | stage1 hw code halted =>
      cases e with
      | op => exact not_hasLeft_op hstep
      | irq src =>
          have hoff : hw.interrupts = false := by
            cases h with
            | build hcode hlog hoff => exact hoff hfirmware
            | fail hbuild hcode hhalted hlog hoff => exact hoff hfirmware
          simp only [bootAtomicStep, bootStepWith, hoff, Bool.false_eq_true, if_false] at hstep
          cases hstep
  | entry s =>
      obtain ⟨hw, P, hbuild, hoff, hmain⟩ := h.inside hp hk hd hc hb
      obtain ⟨done, rest, hat⟩ := hmain.mainAt hinside
      rw [bootAtomicStep, bootStep_entry] at hstep
      obtain ⟨t, ht, rfl⟩ := Option.map_eq_some_iff.mp hstep
      have hmain' : ∃ done rest, MainAt k (Firmware.enter { fw with hw := hw } P) done rest t := by
        cases e with
        | op =>
            cases hat.op_move (gates_entryCode { fw with hw := hw } hp hk hd hc hb hbuild) ht with
            | next hrest hat' => exact ⟨_, _, hat'⟩
            | wait hat' => exact ⟨_, _, hat'⟩
        | irq src =>
            have hsrc : src ≠ .spurious := fun heq => hspurious (congrArg EntryEvent.irq heq)
            exact ⟨_, _, irq_inside { fw with hw := hw } hp hk hd hc hb hbuild hat (hoff hfirmware)
              hsrc ht⟩
      obtain ⟨done', rest', hat'⟩ := hmain'
      show ¬ t.crashed = true
      rw [hat'.inside]
      exact Bool.false_ne_true

/-- The log behind the load. -/
theorem logged_of_atomic {hw : Hw} {P : Paging} {s : EntryState}
    (hbuild : buildPaging k.toHandover m = .ok P)
    (hticks : ∀ t : Timer, events.count (.irq t.source) < 2 ^ 64)
    (hrun : runs (atomicStep k) events (Firmware.enter { fw with hw := hw } P) = some s) :
    Logged k (Firmware.enter { fw with hw := hw } P) hw.log k.toHandover.probeFaults
      (fun t => events.count (.irq t.source)) s :=
  Logged.run (gates_entryCode { fw with hw := hw } hp hk hd hc hb hbuild)
    (Or.inl ⟨_, _, mainAt_enter _, logAt_start _ _⟩) hticks hrun

theorem printsLines_atomicStep : PrintsLines k fw m (atomicStep k) := by
  intro hw P events s hbuild hticks hrun
  have hlogged := logged_of_atomic hp hk hd hc hb hbuild hticks hrun
  exact ⟨hlogged.log_le, hlogged.halted⟩

/-- **The states of a schedule.**  While no counter can have wrapped around, no wait is about to,
and if the program is at the end, it has printed all its lines. -/
theorem logged_follow {schedule : Nat → EntryEvent} {n : Nat}
    (hticks : ∀ t : Timer, ((List.range n).map schedule).count (.irq t.source) + 1 < 2 ^ 64) :
    ¬ (follow (bootAtomicStep k fw m) schedule (bootStart fw) n).Wraps ∧
      ((follow (bootAtomicStep k fw m) schedule (bootStart fw) n).Halted →
        (follow (bootAtomicStep k fw m) schedule (bootStart fw) n).hw.log =
          fw.hw.log ++ bootLog k m) := by
  obtain ⟨events, hsub, hrun⟩ :=
    @runs_follow _ _ (bootAtomicStep k fw m) schedule (bootStart fw) n
  generalize follow (bootAtomicStep k fw m) schedule (bootStart fw) n = s at hrun
  have hcount : ∀ t : Timer, events.count (.irq t.source) + 1 < 2 ^ 64 :=
    fun t => Nat.lt_of_le_of_lt (Nat.succ_le_succ (hsub.count_le _)) (hticks t)
  have h : BootInv k fw m (atomicStep k) events s := bootInv_run hrun
  refine ⟨?_, (h.logged (printsLines_atomicStep hp hk hd hc hb)
    fun t => Nat.lt_of_succ_lt (hcount t)).2⟩
  cases h with
  | build hcode hlog hoff => exact id
  | fail hbuild hcode hhalted hlog hoff => exact id
  | left hlog => exact id
  | @entry hw P s events' hbuild hlog hoff hsub' hentry =>
      have hless : ∀ t : Timer, events'.count (.irq t.source) + 1 < 2 ^ 64 :=
        fun t => Nat.lt_of_le_of_lt (Nat.succ_le_succ (hsub'.count_le _)) (hcount t)
      exact (logged_of_atomic hp hk hd hc hb hbuild (fun t => Nat.lt_of_succ_lt (hless t))
        hentry).not_wraps hless

/-- A schedule without the two causes stays inside the kernel. -/
theorem follow_stays {schedule : Nat → EntryEvent} (hfirmware : fw.hw.interrupts = false)
    (hspurious : ∀ i, schedule i ≠ .irq .spurious) (n : Nat) :
    ¬ (follow (bootAtomicStep k fw m) schedule (bootStart fw) n).HasLeft := by
  refine (follow_invariant (p := fun s => (∃ events, BootInv k fw m (atomicStep k) events s) ∧
    ¬ s.HasLeft) ?_ ⟨⟨[], bootInv_run rfl⟩, id⟩ n).2
  rintro i s s' ⟨⟨events, h⟩, hinside⟩ hstep
  exact ⟨⟨_, h.step hstep⟩, h.stays hp hk hd hc hb hinside hfirmware (hspurious i) hstep⟩

/-- On such a schedule, with a bound for the turns, the kernel halts: there is no time for a counter
to wrap around. -/
theorem follow_halts (hfirmware : fw.hw.interrupts = false) {schedule : Nat → EntryEvent}
    {bound : Nat} (hbound : bound ≤ 2 ^ 50) (hfair : FairWithin bound EntryEvent.Regular schedule)
    (hspurious : ∀ i, schedule i ≠ .irq .spurious) :
    ∃ n, n ≤ 2 ^ 13 * bound ∧
      (follow (bootAtomicStep k fw m) schedule (bootStart fw) n).Halted ∧
      (follow (bootAtomicStep k fw m) schedule (bootStart fw) n).hw.log =
        fw.hw.log ++ bootLog k m := by
  obtain ⟨n, hn, hover⟩ := within_of_fairWithin (@approaches_boot k fw m hp hk hd hc hb) hfair
    ⟨[], bootInv_run rfl⟩
  have hsoon : n ≤ 2 ^ 13 * bound :=
    hn.trans (Nat.mul_le_mul_right bound (Nat.le_of_lt (distance_bootStart fw)))
  have hticks : ∀ t : Timer, ((List.range n).map schedule).count (.irq t.source) + 1 < 2 ^ 64 := by
    intro t
    have hcount := count_schedule_le schedule n (.irq t.source)
    omega
  obtain ⟨hwraps, hlog⟩ := @logged_follow k fw m hp hk hd hc hb schedule n hticks
  have hstays := follow_stays hp hk hd hc hb hfirmware hspurious n
  have hhalted := hover.cases.resolve_right fun hout => hout.elim hwraps hstays
  exact ⟨n, hsoon, hhalted, hlog hhalted⟩

section Checked

variable {mmu : EntryState → Mmu} (hlocals : k.LocalsApart) (hmmu : KeepsTranslations k mmu)
include hlocals hmmu

/-- In the reachable states the checks change nothing. -/
theorem bootCheckedStep_eq {s : BootState} (hreach : Reaches (bootStep k fw m) (bootStart fw) s)
    (e : EntryEvent) :
    bootCheckedStep k mmu fw m e s = bootStep k fw m e s ∧
      bootCheckedAtomicStep k mmu fw m e s = bootAtomicStep k fw m e s := by
  obtain ⟨events, hrun⟩ := hreach
  have h : BootInv k fw m (entryStep k) events s := bootInv_run hrun
  cases h with
  | build hcode hlog hoff => cases e <;> exact ⟨rfl, rfl⟩
  | fail hbuild hcode hhalted hlog hoff => cases e <;> exact ⟨rfl, rfl⟩
  | left hlog => cases e <;> exact ⟨rfl, rfl⟩
  | @entry hw P s events' hbuild hlog hoff hsub hentry =>
      have hsame := checkedStep_eq { fw with hw := hw } hp hk hd hc hb hbuild hlocals hmmu hentry e
      simp only [bootCheckedStep, bootStep, bootCheckedAtomicStep, bootAtomicStep, atomicStep,
        bootStep_entry, atomically, hsame, and_self]

/-- A schedule leads to the same states. -/
theorem follow_checked (schedule : Nat → EntryEvent) (n : Nat) :
    follow (bootCheckedAtomicStep k mmu fw m) schedule (bootStart fw) n =
      follow (bootAtomicStep k fw m) schedule (bootStart fw) n := by
  refine follow_congr (p := Reaches (bootAtomicStep k fw m) (bootStart fw))
    (fun _ _ _ h hstep => h.snoc hstep) ?_ (.refl _) schedule n
  rintro e s ⟨events, hrun⟩
  obtain ⟨events', hsteps, -⟩ := runs_of_bootAtomicStep hp hk hd hc hb hrun
  exact (bootCheckedStep_eq hp hk hd hc hb hlocals hmmu ⟨events', hsteps⟩ e).2

/-- A run stays the same with all checks made. -/
theorem runs_checked (events : List EntryEvent) :
    runs (bootCheckedStep k mmu fw m) events (bootStart fw) =
      runs (bootStep k fw m) events (bootStart fw) :=
  runs_congr (p := Reaches (bootStep k fw m) (bootStart fw))
    (fun _ _ _ h hstep => h.snoc hstep)
    (fun e _ h => (bootCheckedStep_eq hp hk hd hc hb hlocals hmmu h e).1) (.refl _) events

/-- **Every fair schedule completes.**  If the processor and the two timers have their turn again
and again, the kernel comes to the `hlt` of an endless loop, unless it comes to wait for a timer
whose counter is about to wrap around, or an interrupt leaves the kernel: a spurious one, or one
that the firmware left enabled.  It takes at most `2 ^ 13` times the bound within which each of the
three has its turn, if there is one.  And if no timer has ticked `2 ^ 64 - 1` times by then, no
counter is about to wrap around, and a kernel that has halted has printed all its lines.  A run with
handlers in single instructions, and with no more interrupts, leads there too. -/
theorem kernelEntry_completes {schedule : Nat → EntryEvent}
    (hfair : FairTo EntryEvent.Regular schedule) :
    ∃ n s, follow (bootCheckedAtomicStep k mmu fw m) schedule (bootStart fw) n = s ∧
      (∃ events, runs (bootCheckedStep k mmu fw m) events (bootStart fw) = some s ∧
        ∀ src, events.count (.irq src) ≤ ((List.range n).map schedule).count (.irq src)) ∧
      (∀ bound, FairWithin bound EntryEvent.Regular schedule → n ≤ 2 ^ 13 * bound) ∧
      (s.Halted ∨ s.Wraps ∨
        s.HasLeft ∧ (fw.hw.interrupts = true ∨ ∃ i, schedule i = .irq .spurious)) ∧
      ((∀ t : Timer, ((List.range n).map schedule).count (.irq t.source) + 1 < 2 ^ 64) →
        ¬ s.Wraps ∧ (s.Halted → s.hw.log = fw.hw.log ++ bootLog k m)) := by
  classical
  have happroach := @approaches_boot k fw m hp hk hd hc hb
  have hstart : ∃ events, BootInv k fw m (atomicStep k) events (bootStart fw) := ⟨[], bootInv_run rfl⟩
  have hends := eventually_of_fair happroach hfair hstart
  have hover := Nat.find_spec hends
  obtain ⟨events, hrun, hcount⟩ := runs_of_follow hp hk hd hc hb schedule (Nat.find hends)
  refine ⟨Nat.find hends, _, follow_checked hp hk hd hc hb hlocals hmmu schedule _,
    ⟨events, (runs_checked hp hk hd hc hb hlocals hmmu events).trans hrun, hcount⟩, ?_, ?_,
    logged_follow hp hk hd hc hb⟩
  · intro bound hwithin
    obtain ⟨n, hn, hgoal⟩ := within_of_fairWithin happroach hwithin hstart
    exact (Nat.find_le hgoal).trans
      (hn.trans (Nat.mul_le_mul_right bound (Nat.le_of_lt (distance_bootStart fw))))
  · refine hover.cases.imp_right (Or.imp_right fun hleft => ⟨hleft, ?_⟩)
    by_contra hnone
    simp only [not_or, not_exists, Bool.not_eq_true] at hnone
    exact follow_stays hp hk hd hc hb hnone.1 hnone.2 _ hleft

end Checked

end Boot

/-- **The log of the small kernel**: some run brings it to its end, through the handlers of all its
ticks, and the log is then complete. -/
theorem kernelEntry_log_small : ∃ events s,
    runs (bootStep smallKernel idleFirmware fun _ => 0) events (bootStart idleFirmware) = some s ∧
      s.Halted ∧ s.hw.log = bootLog smallKernel fun _ => 0 := by
  have hc := conventionalOk_cleared smallKernel.toHandover
  obtain ⟨n, hn, hhalted, -⟩ := @follow_halts smallKernel idleFirmware _ smallKernel_placed
    smallKernel_ok smallKernel_rangesDisjoint hc smallKernel_mapBelow rfl _ 3 (by decide)
    regularly_fairWithin regularly_ne_spurious
  obtain ⟨events, hrun, hcount⟩ := @runs_of_follow smallKernel idleFirmware _ smallKernel_placed
    smallKernel_ok smallKernel_rangesDisjoint hc smallKernel_mapBelow regularly n
  have hticks : ∀ t : Timer, events.count (.irq t.source) < 2 ^ 64 := by
    intro t
    have hle := hcount t.source
    have hless := count_schedule_le regularly n (.irq t.source)
    omega
  have hlog := (kernelEntry_log smallKernel_placed smallKernel_ok smallKernel_rangesDisjoint hc
    smallKernel_mapBelow hticks hrun).2 hhalted
  have hempty : idleFirmware.hw.log = [] := rfl
  rw [hempty, List.nil_append] at hlog
  exact ⟨events, _, hrun, hhalted, hlog⟩

theorem smallKernel_localsApart : smallKernel.LocalsApart := by
  constructor <;> decide

/-- The processor and the two timers in turn bring the small kernel to its end within `2 ^ 13`
rounds, with all its lines printed. -/
theorem kernelEntry_completes_small : ∃ n s, n ≤ 2 ^ 13 * 3 ∧
    follow (bootCheckedAtomicStep smallKernel (keepingMmu smallKernel) idleFirmware fun _ => 0)
        regularly (bootStart idleFirmware) n = s ∧
      s.Halted ∧ s.hw.log = bootLog smallKernel fun _ => 0 := by
  obtain ⟨n, s, hs, -, hbound, hend, hlog⟩ := @kernelEntry_completes smallKernel idleFirmware
    (fun _ => 0) smallKernel_placed smallKernel_ok smallKernel_rangesDisjoint
    (conventionalOk_cleared _) smallKernel_mapBelow _ smallKernel_localsApart (keepingMmu_keeps _) _
    regularly_fairWithin.fairTo
  have hn := hbound 3 regularly_fairWithin
  have hticks : ∀ t : Timer, ((List.range n).map regularly).count (.irq t.source) + 1 < 2 ^ 64 := by
    intro t
    have hcount := count_schedule_le regularly n (.irq t.source)
    omega
  obtain ⟨hwraps, hlog⟩ := hlog hticks
  have hempty : idleFirmware.hw.log = [] := rfl
  refine ⟨n, s, hn, hs, ?_⟩
  rcases hend with hhalted | h | ⟨-, hfirmware | ⟨i, hspurious⟩⟩
  · refine ⟨hhalted, ?_⟩
    rw [hlog hhalted, hempty, List.nil_append]
  · exact absurd h hwraps
  · cases hfirmware
  · exact absurd hspurious (regularly_ne_spurious i)

section Supported

variable {σ : Type} {bs : Loader.BootServices σ} {view : σ → Loader.MapView}
  {blob : Loader.KernelBlob} {s₀ : σ} {m₀ : Memory} {k : LoadedKernel}

end Supported

end Kernel
end OsBook
