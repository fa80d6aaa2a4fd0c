import OsBook.Common.Serial
import OsBook.Kernel.EntryMemory
import OsBook.Kernel.StageOutcome

/-!
# `kernel_entry` from its first instruction to its last

Before the `CR3` load the program initialises the serial port, prints two lines
and builds the page tables; if that fails, it prints a code and halts.  After
the load it is the program of `Kernel.EntryMachine`.

Whatever the memory map and the interrupts, the serial log is at every moment a
part of `bootLog`, and all of it when the program halts (`kernelEntry_log`);
and it can always get there (`kernelEntry_halts`).
-/

namespace OsBook
namespace Kernel

open Machine

/-! ## The code up to the `CR3` load -/

inductive BootOp where
  | io (i : Io)
  /-- Stage 1 up to the `CR3` load. -/
  | buildPaging
  | haltLoop
deriving DecidableEq, Repr

/-- The port writes of the serial driver.  They do not reach the devices of the timer stages. -/
def serialInit : List Io :=
  Serial.init115200.filterMap fun
    | .outb port value => some (.outb port value)
    | .awaitThr => none

def writeHelloInit : List Io := write "HELLO INIT\n".toList

def writeStage1BuildPaging : List Io := write "STAGE 1: build paging\n".toList

/-- The line of `write_stage1_fail_code`. -/
def stage1FailLine (code : Char) : List Char := "STAGE 1: paging fail ".toList ++ [code, '\n']

def writeStage1FailCode (code : Char) : List Io := write (stage1FailLine code)

def bootIo : List Io := serialInit ++ (writeHelloInit ++ writeStage1BuildPaging)

def bootCode : List BootOp := bootIo.map .io ++ [.buildPaging]

/-- The code behind a failure of Stage 1. -/
def failCode (code : Char) : List BootOp := (writeStage1FailCode code).map .io ++ [.haltLoop]

/-! ## The machine -/

inductive BootState where
  /-- On the tables of the firmware. -/
  | stage1 (hw : Hw) (code : List BootOp) (halted : Bool)
  | entry (s : EntryState)
  /-- An interrupt has entered firmware code. -/
  | left (hw : Hw)

def BootState.hw : BootState → Hw
  | .stage1 hw _ _ => hw
  | .entry s => s.hw
  | .left hw => hw

/-- At the `hlt` of an endless loop. -/
def BootState.Halted : BootState → Prop
  | .stage1 _ code halted => code = [.haltLoop] ∧ halted = true
  | .entry s => Kernel.Halted s
  | .left _ => False

/-- An interrupt has left the kernel. -/
def BootState.HasLeft : BootState → Prop
  | .stage1 .. => False
  | .entry s => s.crashed = true
  | .left _ => True

section Machine

variable (k : LoadedKernel) (fw : Firmware) (m : Memory)

/-- `kernel_entry` on the memory `m`, with the steps `move` behind the `CR3` load. -/
def bootStepWith (move : EntryEvent → EntryState → Option EntryState) :
    EntryEvent → BootState → Option BootState
  | .op, .stage1 hw code halted =>
      if halted then none
      else
        match code with
        | [] => none
        | .io i :: code => some (.stage1 (hw.io i) code false)
        | .buildPaging :: code =>
            match buildPaging k.toHandover m with
            | .ok P => some (.entry (Firmware.enter { fw with hw := hw } P))
            | .error (.failCode c) => some (.stage1 hw (failCode c) false)
            | .error .spin => some (.stage1 hw (.buildPaging :: code) false)
        | .haltLoop :: code => some (.stage1 { hw with interrupts := false } (.haltLoop :: code) true)
  | .irq _, .stage1 hw _ _ =>
      if hw.interrupts then some (.left { hw with interrupts := false }) else none
  | e, .entry s => (move e s).map .entry
  | _, .left _ => none

/-- `kernel_entry` on the memory `m`. -/
def bootStep : EntryEvent → BootState → Option BootState := bootStepWith k fw m (entryStep k)

def bootStart : BootState := .stage1 fw.hw bootCode false

/-! ## What it prints -/

/-- The lines after the `CR3` load. -/
def entryLines (faults : Bool) : List String :=
  ["STAGE 1: touch memory\n", "STAGE 1: paging done\n",
    "STAGE 2: begin\n", "STAGE 2: install idt\n", "STAGE 2: int3\n", "STAGE 2: #BP dispatcher\n",
    "STAGE 2: done\n",
    "STAGE 3: begin\n", "STAGE 3: pic ok\n", "STAGE 3: pit ok\n", "STAGE 3: sti\n",
    "STAGE 3: irq 1\n", "STAGE 3: irq 2\n", "STAGE 3: irq 3\n", "STAGE 3: done\n",
    "STAGE 4: begin\n", "STAGE 4: pic mask\n", "STAGE 4: lapic mmio\n", "STAGE 4: svr\n",
    "STAGE 4: timer\n", "STAGE 4: sti\n",
    "STAGE 4: irq 1\n", "STAGE 4: irq 2\n", "STAGE 4: irq 3\n", "STAGE 4: done\n",
    "STAGE 5: begin\n", "STAGE 5: pf gate\n", "STAGE 5: probe\n"] ++
  (if faults then ["STAGE 5: #PF dispatch\n", "STAGE 5: cr2 ok\n"] else []) ++
  ["STAGE 5: done\n"]

/-- The lines after the page tables have been built, or could not be. -/
def outcomeLog : List Char :=
  match buildPaging k.toHandover m with
  | .ok _ => (entryLines k.toHandover.probeFaults).flatMap String.toList
  | .error (.failCode c) => stage1FailLine c
  | .error .spin => []

/-- The lines of one boot. -/
def bootLog : List Char :=
  "HELLO INIT\n".toList ++ "STAGE 1: build paging\n".toList ++ outcomeLog k m

end Machine

theorem output_entryCode (faults : Bool) :
    output faults entryCode = (entryLines faults).flatMap String.toList := by
  cases faults <;> decide +kernel

/-- What some operations print. -/
def ioText (ops : List Io) : List Char :=
  ops.filterMap fun
    | .writeChar c => some c
    | _ => none

theorem ioText_append (ops ops' : List Io) : ioText (ops ++ ops') = ioText ops ++ ioText ops' :=
  List.filterMap_append

theorem ioText_write (text : List Char) : ioText (write text) = text := by
  induction text with
  | nil => rfl
  | cons c text ih => exact congrArg (c :: ·) ih

theorem ioText_bootIo :
    ioText bootIo = "HELLO INIT\n".toList ++ "STAGE 1: build paging\n".toList := by
  decide +kernel

theorem log_io (hw : Hw) (i : Io) : (hw.io i).log = hw.log ++ ioText [i] := by
  cases i with
  | writeChar c => rfl
  | outb port value =>
      show (hw.outb port value).log = hw.log ++ []
      rw [log_outb, List.append_nil]
  | _ => exact (List.append_nil _).symm

/-! ## Runs -/

section Runs

variable (k : LoadedKernel) (fw : Firmware) (m : Memory)
  (move : EntryEvent → EntryState → Option EntryState)

/-- Nothing has enabled interrupts. -/
def StaysOff (hw : Hw) : Prop := fw.hw.interrupts = false → hw.interrupts = false

/-- The reachable states up to the `CR3` load, and the runs of the program behind it. -/
inductive BootInv (events : List EntryEvent) : BootState → Prop
  | build {hw : Hw} {done ops : List Io} (hcode : done ++ ops = bootIo)
      (hlog : hw.log = fw.hw.log ++ ioText done) (hoff : StaysOff fw hw) :
      BootInv events (.stage1 hw (ops.map .io ++ [.buildPaging]) false)
  | fail {hw : Hw} {c : Char} {done ops : List Io} {halted : Bool}
      (hbuild : buildPaging k.toHandover m = .error (.failCode c))
      (hcode : done ++ ops = writeStage1FailCode c) (hhalted : halted = true → ops = [])
      (hlog : hw.log = fw.hw.log ++ ioText bootIo ++ ioText done) (hoff : StaysOff fw hw) :
      BootInv events (.stage1 hw (ops.map .io ++ [.haltLoop]) halted)
  | entry {hw : Hw} {P : Paging} {s : EntryState} {events' : List EntryEvent}
      (hbuild : buildPaging k.toHandover m = .ok P)
      (hlog : hw.log = fw.hw.log ++ ioText bootIo) (hoff : StaysOff fw hw)
      (hsub : events'.Sublist events)
      (hrun : runs move events' (Firmware.enter { fw with hw := hw } P) = some s) :
      BootInv events (.entry s)
  | left {hw : Hw} (hlog : hw.log <+: fw.hw.log ++ bootLog k m) : BootInv events (.left hw)

variable {k fw m move}

theorem StaysOff.io {hw : Hw} (h : StaysOff fw hw) (i : Io) : StaysOff fw (hw.io i) :=
  fun hfirmware => interrupts_io (h hfirmware) i

theorem bootLog_eq : bootLog k m = ioText bootIo ++ outcomeLog k m := by
  rw [ioText_bootIo]
  rfl

theorem outcomeLog_fail {c : Char} (hbuild : buildPaging k.toHandover m = .error (.failCode c)) :
    outcomeLog k m = ioText (writeStage1FailCode c) := by
  rw [outcomeLog, hbuild, writeStage1FailCode, ioText_write]

theorem outcomeLog_ok {P : Paging} (hbuild : buildPaging k.toHandover m = .ok P) :
    outcomeLog k m = output k.toHandover.probeFaults entryCode := by
  rw [outcomeLog, hbuild, output_entryCode]

/-- Up to the load, the log is a part of the expected lines. -/
theorem BootInv.log_le {events : List EntryEvent} {hw : Hw} {code : List BootOp} {halted : Bool}
    (h : BootInv k fw m move events (.stage1 hw code halted)) :
    hw.log <+: fw.hw.log ++ bootLog k m := by
  cases h with
  | @build _ done ops hcode hlog hoff =>
      rw [hlog, List.prefix_append_right_inj, bootLog_eq, ← hcode, ioText_append,
        List.append_assoc]
      exact List.prefix_append _ _
  | @fail _ c done ops _ hbuild hcode hhalted hlog hoff =>
      rw [hlog, List.append_assoc, List.prefix_append_right_inj, bootLog_eq,
        List.prefix_append_right_inj, outcomeLog_fail hbuild, ← hcode, ioText_append]
      exact List.prefix_append _ _

/-- A plain operation. -/
theorem bootStep_io (hw : Hw) (i : Io) (code : List BootOp) :
    bootStepWith k fw m move .op (.stage1 hw (.io i :: code) false) =
      some (.stage1 (hw.io i) code false) := rfl

/-- A step behind the load. -/
theorem bootStep_entry (e : EntryEvent) (s : EntryState) :
    bootStepWith k fw m move e (.entry s) = (move e s).map .entry := by
  cases e <;> rfl

/-- **One operation up to the load keeps the invariant.** -/
theorem BootInv.op {events : List EntryEvent} {hw : Hw} {code : List BootOp} {halted : Bool}
    {s' : BootState} (h : BootInv k fw m move events (.stage1 hw code halted))
    (hstep : bootStepWith k fw m move .op (.stage1 hw code halted) = some s') :
    BootInv k fw m move (events ++ [.op]) s' := by
  cases h with
  | @build _ done ops hcode hlog hoff =>
      cases ops with
      | nil =>
          rw [List.append_nil] at hcode
          subst hcode
          simp only [List.map_nil, List.nil_append, bootStepWith, Bool.false_eq_true, if_false]
            at hstep
          cases hbuild : buildPaging k.toHandover m with
          | ok P =>
              rw [hbuild] at hstep
              obtain rfl := Option.some.inj hstep
              exact .entry hbuild hlog hoff (List.nil_sublist _) rfl
          | error stop =>
              rw [hbuild] at hstep
              cases stop with
              | failCode c =>
                  obtain rfl := Option.some.inj hstep
                  exact .fail hbuild (List.nil_append _) (fun h => nomatch h)
                    (hlog.trans (List.append_nil _).symm) hoff
              | spin =>
                  obtain rfl := Option.some.inj hstep
                  exact .build (List.append_nil _) hlog hoff
      | cons i ops =>
          rw [List.map_cons, List.cons_append, bootStep_io] at hstep
          obtain rfl := Option.some.inj hstep
          have hnext : (done ++ [i]) ++ ops = bootIo := by
            rw [List.append_assoc, List.singleton_append, hcode]
          refine .build hnext ?_ (hoff.io i)
          rw [log_io, hlog, ioText_append, List.append_assoc]
  | @fail _ c done ops _ hbuild hcode hhalted hlog hoff =>
      cases halted with
      | true =>
          simp only [bootStepWith, if_true] at hstep
          cases hstep
      | false =>
          cases ops with
          | nil =>
              obtain rfl := Option.some.inj hstep
              exact .fail hbuild hcode (fun _ => rfl) hlog fun _ => rfl
          | cons i ops =>
              rw [List.map_cons, List.cons_append, bootStep_io] at hstep
              obtain rfl := Option.some.inj hstep
              have hnext : (done ++ [i]) ++ ops = writeStage1FailCode c := by
                rw [List.append_assoc, List.singleton_append, hcode]
              refine .fail hbuild hnext (fun h => nomatch h) ?_ (hoff.io i)
              rw [log_io, hlog, ioText_append]
              simp only [List.append_assoc]

/-- **Every step keeps the invariant.** -/
theorem BootInv.step {events : List EntryEvent} {e : EntryEvent} {s s' : BootState}
    (h : BootInv k fw m move events s) (hstep : bootStepWith k fw m move e s = some s') :
    BootInv k fw m move (events ++ [e]) s' := by
  cases s with
  | left hw =>
      cases e <;> cases hstep
  | entry s =>
      rw [bootStep_entry] at hstep
      obtain ⟨t, ht, rfl⟩ := Option.map_eq_some_iff.mp hstep
      cases h with
      | entry hbuild hlog hoff hsub hrun =>
          exact .entry hbuild hlog hoff (hsub.append (.refl [e])) (runs_snoc hrun ht)
  | stage1 hw code halted =>
      cases e with
      | op => exact h.op hstep
      | irq src =>
          simp only [bootStepWith] at hstep
          split at hstep
          · obtain rfl := Option.some.inj hstep
            exact .left h.log_le
          · cases hstep

theorem bootInv_run {events : List EntryEvent} {s : BootState}
    (hrun : runs (bootStepWith k fw m move) events (bootStart fw) = some s) :
    BootInv k fw m move events s :=
  runs_invariant (fun events s => BootInv k fw m move events s)
    (.build (List.nil_append _) (List.append_nil _).symm id)
    (fun _ _ _ _ h hstep => h.step hstep) hrun

end Runs

/-- The log before the first operation behind the `CR3` load. -/
theorem logAt_start (faults : Bool) (s : EntryState) :
    LogAt s.hw.log faults (fun _ => 0) [] entryCode s := by
  have hhead : entryCode = .op (.io (.writeChar 'S')) :: entryCode.tail := by decide +kernel
  generalize entryCode.tail = tail at hhead
  rw [hhead]
  refine ⟨⟨?_, ?_, ?_⟩, ?_⟩
  · rintro t ⟨⟩
  · rintro t tail' ⟨⟩
  · rintro t ⟨⟩
  · show s.hw.log = s.hw.log ++ [] ++ []
    rw [List.append_nil, List.append_nil]

/-- All lines have been printed when the last loop is reached. -/
theorem LogAt.halted {base : List Char} {faults : Bool} {d : Timer → Nat}
    {done rest : List EntryOp} {s : EntryState} {k : LoadedKernel} {s₀ : EntryState}
    (h : LogAt base faults d done rest s) (hat : MainAt k s₀ done rest s) (hhalted : Halted s) :
    s.hw.log = base ++ output faults entryCode := by
  have hplace := hat.here
  rw [hhalted.code] at hplace
  generalize hcode : [EntryOp.haltLoop] = code at hplace
  cases hplace with
  | here =>
      subst hcode
      rw [h.log, ← hat.code, output_concat]
      show _ ++ [] = _ ++ (_ ++ [])
      rw [List.append_nil, List.append_nil]
  | hlt hwait => cases hcode

section Logged

variable (k : LoadedKernel) (fw : Firmware) (m : Memory)
  (move : EntryEvent → EntryState → Option EntryState)

/-- Behind the load `move` prints what the program prints, and all of it if it halts. -/
def PrintsLines : Prop :=
  ∀ ⦃hw : Hw⦄ ⦃P : Paging⦄ ⦃events : List EntryEvent⦄ ⦃s : EntryState⦄,
    buildPaging k.toHandover m = .ok P → (∀ t : Timer, events.count (.irq t.source) < 2 ^ 64) →
      runs move events (Firmware.enter { fw with hw := hw } P) = some s →
        s.hw.log <+: hw.log ++ output k.toHandover.probeFaults entryCode ∧
          (Halted s → s.hw.log = hw.log ++ output k.toHandover.probeFaults entryCode)

variable {k fw m move}

/-- The log of a reachable state. -/
theorem BootInv.logged (hprints : PrintsLines k fw m move) {events : List EntryEvent}
    {s : BootState} (h : BootInv k fw m move events s)
    (hticks : ∀ t : Timer, events.count (.irq t.source) < 2 ^ 64) :
    s.hw.log <+: fw.hw.log ++ bootLog k m ∧
      (s.Halted → s.hw.log = fw.hw.log ++ bootLog k m) := by
  cases s with
  | left hw =>
      cases h with
      | left hlog => exact ⟨hlog, fun h => h.elim⟩
  | stage1 hw code halted =>
      refine ⟨h.log_le, ?_⟩
      rintro ⟨hlast, -⟩
      cases h with
      | @build _ done ops hcode hlog hoff =>
          have hop := congrArg List.getLast? hlast
          rw [List.getLast?_concat] at hop
          cases hop
      | @fail _ c done ops _ hbuild hcode hhalted hlog hoff =>
          obtain rfl : ops = [] := by simpa using hlast
          rw [List.append_nil] at hcode
          show hw.log = _
          rw [hlog, hcode, List.append_assoc, bootLog_eq, outcomeLog_fail hbuild]
  | entry s =>
      cases h with
      | @entry hw P _ events' hbuild hlog hoff hsub hentry =>
          have hle : ∀ t : Timer, events'.count (.irq t.source) < 2 ^ 64 :=
            fun t => Nat.lt_of_le_of_lt (hsub.count_le _) (hticks t)
          have hbase : hw.log ++ output k.toHandover.probeFaults entryCode =
              fw.hw.log ++ bootLog k m := by
            rw [hlog, List.append_assoc, bootLog_eq, outcomeLog_ok hbuild]
          rw [← hbase]
          exact hprints hbuild hle hentry

/-- The main program at its end has printed everything. -/
theorem Logged.halted {base : List Char} {faults : Bool} {d : Timer → Nat} {s₀ s : EntryState}
    (h : Logged k s₀ base faults d s) (hhalted : Halted s) :
    s.hw.log = base ++ output faults entryCode := by
  rcases h with ⟨done, rest, hat, hlog⟩ | ⟨hleft, -⟩
  · exact hlog.halted hat hhalted
  · exact absurd (hhalted.inside.symm.trans hleft.crashed) (by decide)

end Logged

section Boot

variable {k : LoadedKernel} {fw : Firmware} {m : Memory} (hp : Placed k.toHandover) (hk : k.Ok)
  (hd : RangesDisjoint k.toHandover) (hc : ConventionalOk k.toHandover m)
  (hb : MapBelow k.toHandover m)
include hp hk hd hc hb

theorem printsLines_entryStep : PrintsLines k fw m (entryStep k) := by
  intro hw P events s hbuild hticks hrun
  obtain ⟨hpart, hlogged⟩ := logged_run (safe_entryCode hp hk hd)
    (gates_entryCode { fw with hw := hw } hp hk hd hc hb hbuild) (mainAt_enter _)
    (logAt_start _ _) hticks hrun
  exact ⟨hpart, fun hhalted => (hlogged fun hbusy => hbusy hhalted.saved).halted hhalted⟩

/-- **The serial log of a boot.**  Whatever the memory map and the interrupts, it is at every
moment a part of the expected lines, and when the program halts it is all of them. -/
theorem kernelEntry_log {events : List EntryEvent} {s : BootState}
    (hticks : ∀ t : Timer, events.count (.irq t.source) < 2 ^ 64)
    (hrun : runs (bootStep k fw m) events (bootStart fw) = some s) :
    s.hw.log <+: fw.hw.log ++ bootLog k m ∧
      (s.Halted → s.hw.log = fw.hw.log ++ bootLog k m) :=
  (bootInv_run hrun).logged (printsLines_entryStep hp hk hd hc hb) hticks

end Boot

section Reaching

variable {k : LoadedKernel} {fw : Firmware} {m : Memory}

/-- Plain operations are done one after the other. -/
theorem reaches_io (ops : List Io) (hw : Hw) (code : List BootOp) :
    ∃ hw', Reaches (bootStep k fw m) (.stage1 hw (ops.map .io ++ code) false)
      (.stage1 hw' code false) := by
  induction ops generalizing hw with
  | nil => exact ⟨hw, .refl _⟩
  | cons i ops ih =>
      obtain ⟨hw', hreach⟩ := ih (hw.io i)
      exact ⟨hw', ((Reaches.refl _).snoc (bootStep_io hw i _)).trans hreach⟩

/-- The `CR3` load. -/
theorem bootStep_buildPaging (hw : Hw) {P : Paging} (hbuild : buildPaging k.toHandover m = .ok P) :
    bootStep k fw m .op (.stage1 hw [.buildPaging] false) =
      some (.entry (Firmware.enter { fw with hw := hw } P)) := by
  simp only [bootStep, bootStepWith, Bool.false_eq_true, if_false, hbuild]

/-- The `CR3` load is reached. -/
theorem reaches_entered {P : Paging} (hbuild : buildPaging k.toHandover m = .ok P) :
    ∃ hw, Reaches (bootStep k fw m) (bootStart fw)
      (.entry (Firmware.enter { fw with hw := hw } P)) := by
  obtain ⟨hw, hreach⟩ := reaches_io bootIo fw.hw [.buildPaging]
  exact ⟨hw, hreach.snoc (bootStep_buildPaging hw hbuild)⟩

/-- A failure of Stage 1 ends in its loop. -/
theorem reaches_fail (ops : List Io) (hw : Hw) :
    ∃ s', Reaches (bootStep k fw m) (.stage1 hw (ops.map .io ++ [.haltLoop]) false) s' ∧
      s'.Halted := by
  obtain ⟨hw', hreach⟩ := @reaches_io k fw m ops hw [.haltLoop]
  have hstep : bootStep k fw m .op (.stage1 hw' [.haltLoop] false) =
      some (.stage1 { hw' with interrupts := false } [.haltLoop] true) := rfl
  exact ⟨_, hreach.snoc hstep, rfl, rfl⟩

/-- The program behind the `CR3` load runs as part of the whole. -/
theorem runs_entry {events : List EntryEvent} {s s' : EntryState}
    (hrun : runs (entryStep k) events s = some s') :
    runs (bootStep k fw m) events (.entry s) = some (.entry s') := by
  refine runs_invariant (fun events t => runs (bootStep k fw m) events (.entry s) =
    some (.entry t)) rfl ?_ hrun
  intro events e t t' hsteps hstep
  exact runs_snoc hsteps ((bootStep_entry e t).trans (by rw [hstep]; rfl))

theorem reaches_entry {s s' : EntryState} (h : Reaches (entryStep k) s s') :
    Reaches (bootStep k fw m) (.entry s) (.entry s') := by
  obtain ⟨events, hrun⟩ := h
  exact ⟨events, runs_entry hrun⟩

end Reaching

section Boot

variable {k : LoadedKernel} {fw : Firmware} {m : Memory} (hp : Placed k.toHandover) (hk : k.Ok)
  (hd : RangesDisjoint k.toHandover) (hc : ConventionalOk k.toHandover m)
  (hb : MapBelow k.toHandover m)
include hp hk hd hc hb

/-- From every reachable state the end can be reached, unless an interrupt has left the kernel. -/
theorem BootInv.halts {events : List EntryEvent} {s : BootState}
    (h : BootInv k fw m (entryStep k) events s) (hinside : ¬ s.HasLeft) :
    ∃ s', Reaches (bootStep k fw m) s s' ∧ s'.Halted := by
  cases h with
  | @build hw done ops hcode hlog hoff =>
      obtain ⟨hw', hreach⟩ := @reaches_io k fw m ops hw [.buildPaging]
      rcases buildPaging_ends hp hc hb with ⟨P, hbuild⟩ | ⟨c, -, hbuild⟩
      · have hstep := @bootStep_buildPaging k fw m hw' P hbuild
        have hentered : runs (entryStep k) [] (Firmware.enter { fw with hw := hw' } P) =
            some (Firmware.enter { fw with hw := hw' } P) := rfl
        obtain ⟨s', hentry, hhalted⟩ := entry_halts { fw with hw := hw' } hp hk hd hc hb hbuild
          hentered rfl
        exact ⟨.entry s', (hreach.snoc hstep).trans (reaches_entry hentry), hhalted⟩
      · have hstep : bootStep k fw m .op (.stage1 hw' [.buildPaging] false) =
            some (.stage1 hw' (failCode c) false) := by
          simp only [bootStep, bootStepWith, Bool.false_eq_true, if_false, hbuild]
        obtain ⟨s', hfail, hhalted⟩ := @reaches_fail k fw m (writeStage1FailCode c) hw'
        exact ⟨s', (hreach.snoc hstep).trans hfail, hhalted⟩
  | @fail hw c done ops halted hbuild hcode hhalted hlog hoff =>
      cases halted with
      | true =>
          obtain rfl := hhalted rfl
          exact ⟨_, .refl _, rfl, rfl⟩
      | false => exact reaches_fail ops hw
  | @entry hw P s events' hbuild hlog hoff hsub hentry =>
      have hcrashed : s.crashed = false := Bool.eq_false_of_not_eq_true hinside
      obtain ⟨s', hreach, hhalted⟩ := entry_halts { fw with hw := hw } hp hk hd hc hb hbuild hentry
        hcrashed
      exact ⟨.entry s', reaches_entry hreach, hhalted⟩
  | left hlog => exact absurd trivial hinside

/-- **The kernel can always halt**: from every reachable state, unless an interrupt has left the
kernel. -/
theorem kernelEntry_halts {events : List EntryEvent} {s : BootState}
    (hrun : runs (bootStep k fw m) events (bootStart fw) = some s) (hinside : ¬ s.HasLeft) :
    ∃ s', Reaches (bootStep k fw m) s s' ∧ s'.Halted :=
  (bootInv_run hrun).halts hp hk hd hc hb hinside

/-- **Memory after Stage 1.**  In every reachable state behind the `CR3` load that has not left the
kernel, memory outside the image and the stack is as Stage 1 has left it and addresses translate as
Stage 1 has arranged, but for the word between the two stores of the touch test. -/
theorem kernelEntry_memory {events : List EntryEvent} {s : EntryState}
    (hrun : runs (bootStep k fw m) events (bootStart fw) = some (.entry s))
    (hinside : s.crashed = false) :
    ∃ P, buildPaging k.toHandover m = .ok P ∧ s.cr3 = P.pml4Phys ∧
      ((∀ x, Foreign k.toHandover x → s.mem x = P.mem x) ∧
          (∀ v, translateAddr s.mem s.cr3 v = translateAddr P.mem P.pml4Phys v) ∨
        flipMemory P.mem P.pml4Phys (k.mmapPhys + upperHalf) = some (s.mem, s.old)) := by
  cases bootInv_run hrun with
  | @entry hw P _ events' hbuild hlog hoff hsub hentry =>
      exact ⟨P, hbuild, entry_memory { fw with hw := hw } hp hk hd hc hb hbuild hentry hinside⟩

end Boot

/-- The small kernel can halt. -/
theorem kernelEntry_halts_small :
    ∃ s, Reaches (bootStep smallKernel idleFirmware (fun _ => 0)) (bootStart idleFirmware) s ∧
      s.Halted := by
  have hrun : runs (bootStep smallKernel idleFirmware (fun _ => 0)) [] (bootStart idleFirmware) =
      some (bootStart idleFirmware) := rfl
  exact kernelEntry_halts smallKernel_placed smallKernel_ok smallKernel_rangesDisjoint
    (conventionalOk_cleared _) smallKernel_mapBelow hrun id

/-- The small kernel loads `CR3`. -/
theorem kernelEntry_memory_small :
    ∃ s P, Reaches (bootStep smallKernel idleFirmware (fun _ => 0)) (bootStart idleFirmware)
        (.entry s) ∧
      buildPaging smallKernel.toHandover (fun _ => 0) = .ok P ∧ s.cr3 = P.pml4Phys := by
  obtain ⟨P, hbuild⟩ := smallKernel_buildPaging
  obtain ⟨hw, events, hrun⟩ := @reaches_entered _ idleFirmware _ _ hbuild
  obtain ⟨P', hbuild', hroot, -⟩ := kernelEntry_memory smallKernel_placed smallKernel_ok
    smallKernel_rangesDisjoint (conventionalOk_cleared _) smallKernel_mapBelow hrun rfl
  exact ⟨_, P', ⟨events, hrun⟩, hbuild', hroot⟩

end Kernel
end OsBook
