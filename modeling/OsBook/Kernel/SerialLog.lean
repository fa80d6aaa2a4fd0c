import OsBook.Kernel.TimerStages
import OsBook.Machine.Word

/-!
# The serial log of the timer stages

Interrupts are enabled only between a `sti` and the next `cli`, while the main
program waits.  Everything else is straight-line code whose effect on the
devices is a function (`runIo`).  Inside a window the log is determined by the
tick counter alone, up to the line that a handler is printing (`Window`), and
the main program leaves it only after three counted ticks.

A tick counter has 64 bits, so this needs fewer than `2 ^ 64` ticks: with that
many the counter is zero again, and the handler prints once more.
-/

namespace OsBook
namespace Kernel

open Machine

/-! ## Straight-line code -/

/-- Operations in order. -/
def runIo (ops : List Io) (hw : Hw) : Hw := ops.foldl Hw.io hw

theorem runIo_nil (hw : Hw) : runIo [] hw = hw := rfl

theorem runIo_cons (i : Io) (ops : List Io) (hw : Hw) :
    runIo (i :: ops) hw = runIo ops (hw.io i) := rfl

theorem runIo_append (ops ops' : List Io) (hw : Hw) :
    runIo (ops ++ ops') hw = runIo ops' (runIo ops hw) :=
  List.foldl_append

/-- Send a text to the serial port. -/
def Hw.print (hw : Hw) (text : List Char) : Hw := { hw with log := hw.log ++ text }

theorem runIo_write (text : List Char) (hw : Hw) : runIo (write text) hw = hw.print text := by
  induction text generalizing hw with
  | nil =>
      show hw = { hw with log := hw.log ++ [] }
      rw [List.append_nil]
  | cons c text ih =>
      show runIo (write text) (hw.io (.writeChar c)) = _
      rw [ih, Hw.print, Hw.io, List.append_assoc]
      rfl

/-- No operation removes characters. -/
theorem log_runIo (ops : List Io) (hw : Hw) : hw.log <+: (runIo ops hw).log := by
  induction ops generalizing hw with
  | nil => exact List.prefix_refl _
  | cons i ops ih =>
      have hfirst : hw.log <+: (hw.io i).log := by
        cases i with
        | writeChar c => exact List.prefix_append _ _
        | outb port value =>
            have hlog : (hw.outb port value).log = hw.log := by
              unfold Hw.outb
              repeat' split
              all_goals rfl
            show hw.log <+: (hw.outb port value).log
            exact hlog.symm ▸ List.prefix_refl _
        | lapicMmioRead reg => exact List.prefix_refl _
        | lapicMmioWrite reg value => exact List.prefix_refl _
        | idtSetGate vector handler typeAttr => exact List.prefix_refl _
        | resetCount t => exact List.prefix_refl _
        | cli => exact List.prefix_refl _
      exact hfirst.trans (ih (hw.io i))

/-- No operation enables interrupts. -/
theorem interrupts_io {hw : Hw} (h : hw.interrupts = false) (i : Io) :
    (hw.io i).interrupts = false := by
  cases i with
  | outb port value =>
      show (hw.outb port value).interrupts = false
      unfold Hw.outb
      repeat' split
      all_goals exact h
  | cli => rfl
  | writeChar c => exact h
  | lapicMmioRead reg => exact h
  | lapicMmioWrite reg value => exact h
  | idtSetGate vector handler typeAttr => exact h
  | resetCount t => exact h

/-- Acknowledging a tick changes nothing that is modelled. -/
theorem io_acknowledge (hw : Hw) (t : Timer) : hw.io (acknowledge t) = hw := by
  cases t with
  | pit => rfl
  | lapic => rfl

section Ports

variable (hw : Hw) (value : UInt8)

theorem outb_pic1_command :
    hw.outb 0x20 value = { hw with pic1 := hw.pic1.command value } := rfl

theorem outb_pic1_data : hw.outb 0x21 value = { hw with pic1 := hw.pic1.data value } := rfl

theorem outb_pic2_command :
    hw.outb 0xA0 value = { hw with pic2 := hw.pic2.command value } := rfl

theorem outb_pic2_data : hw.outb 0xA1 value = { hw with pic2 := hw.pic2.data value } := rfl

/-- The ports of the programmable interval timer. -/
theorem outb_pit {port : UInt16} (hport : port = 0x40 ∨ port = 0x43) :
    hw.outb port value = hw := by
  obtain rfl | rfl := hport
  all_goals
    rw [Hw.outb, if_neg (by decide), if_neg (by decide), if_neg (by decide), if_neg (by decide)]

end Ports

theorem runIo_picRemapAndMask (hw : Hw) :
    runIo picRemapAndMask hw = { hw with pic1 := ⟨0x20, 0xFE, 0⟩, pic2 := ⟨0x28, 0xFF, 0⟩ } := by
  simp only [picRemapAndMask, runIo_cons, runIo_nil, Hw.io, outb_pic1_command, outb_pic1_data,
    outb_pic2_command, outb_pic2_data]
  rfl

theorem runIo_picMaskAll (hw : Hw) :
    runIo picMaskAll hw =
      { hw with pic1 := hw.pic1.data 0xFF, pic2 := hw.pic2.data 0xFF } := by
  rw [picMaskAll, runIo_cons, runIo_cons, runIo_nil, Hw.io, Hw.io, outb_pic1_data,
    outb_pic2_data]

theorem runIo_pitSetFrequency (hz : Nat) (hw : Hw) : runIo (pitSetFrequency hz) hw = hw := by
  rw [pitSetFrequency, runIo_cons, runIo_cons, runIo_cons, runIo_nil, Hw.io, Hw.io, Hw.io,
    outb_pit _ _ (Or.inr rfl), outb_pit _ _ (Or.inl rfl), outb_pit _ _ (Or.inl rfl)]

/-- The log at the `sti` of Stage 3. -/
def stage3Log (log : List Char) : List Char :=
  log ++ "STAGE 3: begin\n".toList ++ "STAGE 3: pic ok\n".toList ++ "STAGE 3: pit ok\n".toList ++
    "STAGE 3: sti\n".toList

theorem runIo_stage3Setup (hw : Hw) :
    runIo stage3Setup hw =
      { hw with
        pic1 := ⟨0x20, 0xFE, 0⟩
        pic2 := ⟨0x28, 0xFF, 0⟩
        idt := Function.update hw.idt kVectorIRQ0 (some (.pit, kIdtTypeInt64))
        irqCount := Function.update hw.irqCount .pit 0
        log := stage3Log hw.log } := by
  rw [stage3Setup, runIo_append, writeStage3Begin, runIo_write, runIo_append,
    runIo_picRemapAndMask, runIo_append, writeStage3PicOk, runIo_write, runIo_append,
    runIo_pitSetFrequency, runIo_append, writeStage3PitOk, runIo_write, runIo_cons, runIo_append,
    writeStage3Sti, runIo_write, runIo_cons, runIo_nil]
  rfl

/-- The log at the `sti` of Stage 4. -/
def stage4Log (log : List Char) : List Char :=
  log ++ "STAGE 3: done\n".toList ++ "STAGE 4: begin\n".toList ++
    "STAGE 4: pic mask\n".toList ++ "STAGE 4: lapic mmio\n".toList ++ "STAGE 4: svr\n".toList ++
    "STAGE 4: timer\n".toList ++ "STAGE 4: sti\n".toList

theorem runIo_stage4Setup (hw : Hw) :
    runIo stage4Setup hw =
      { hw with
        pic1 := hw.pic1.data 0xFF
        pic2 := hw.pic2.data 0xFF
        lapic := ⟨0x1FF, 3, 0x20022, 0x80000⟩
        idt := Function.update hw.idt kVectorLapicTimer (some (.lapic, kIdtTypeInt64))
        irqCount := Function.update hw.irqCount .lapic 0
        log := stage4Log hw.log } := by
  rw [stage4Setup, runIo_append, writeStage3Done, runIo_write, runIo_append, writeStage4Begin,
    runIo_write, runIo_append, runIo_picMaskAll, runIo_append, writeStage4PicMasked, runIo_write,
    runIo_cons, runIo_append, writeStage4LapicMmio, runIo_write, runIo_cons, runIo_append,
    writeStage4Svr, runIo_write, runIo_cons, runIo_cons, runIo_cons, runIo_append,
    writeStage4TimerArm, runIo_write, runIo_cons, runIo_append, writeStage4Sti, runIo_write,
    runIo_cons, runIo_nil]
  rfl

theorem log_stage4Finish (hw : Hw) :
    (runIo stage4Finish hw).log = hw.log ++ "STAGE 4: done\n".toList := by
  rw [stage4Finish, runIo_cons, writeStage4Done, runIo_write]
  rfl

/-! ## Ticks -/

/-- The lines of the first `n` ticks. -/
def ticks (t : Timer) : (n : Nat) → List Char
  | 0 => []
  | n + 1 => ticks t n ++ tickLine t (UInt64.ofNat (n + 1))

/-- The lines printed when the counter stands at `c`. -/
def ticksAt (t : Timer) (c : UInt64) : List Char := ticks t (min c.toNat 3)

theorem ticksAt_of_le {t : Timer} {c : UInt64} (hc : 3 ≤ c.toNat) : ticksAt t c = ticks t 3 := by
  rw [ticksAt, Nat.min_eq_right hc]

theorem ticks_mono (t : Timer) {n k : Nat} (h : n ≤ k) : ticks t n <+: ticks t k := by
  induction h with
  | refl => exact List.prefix_refl _
  | step _ ih => exact ih.trans (List.prefix_append _ _)

theorem toNat_succ {c : UInt64} (hc : c.toNat + 1 < 2 ^ 64) : (c + 1).toNat = c.toNat + 1 :=
  toNat_add_of_lt hc

/-- Counting a tick adds its line, if it is one of the first three. -/
theorem ticksAt_succ (t : Timer) {c : UInt64} (hc : c.toNat + 1 < 2 ^ 64) :
    ticksAt t (c + 1) = ticksAt t c ++ (if c + 1 ≤ 3 then tickLine t (c + 1) else []) := by
  have hnext := toNat_succ hc
  have hle : c + 1 ≤ 3 ↔ c.toNat + 1 ≤ 3 := by
    rw [UInt64.le_iff_toNat_le, hnext]
    rfl
  have hofNat : UInt64.ofNat (c.toNat + 1) = c + 1 := by
    rw [← hnext, UInt64.ofNat_toNat]
  by_cases hsmall : c + 1 ≤ 3
  · have hbound := hle.mp hsmall
    rw [if_pos hsmall, ticksAt, ticksAt, hnext, Nat.min_eq_left hbound,
      Nat.min_eq_left (by omega), ticks, hofNat]
  · have hbound : ¬ c.toNat + 1 ≤ 3 := fun h => hsmall (hle.mpr h)
    rw [if_neg hsmall, List.append_nil, ticksAt_of_le (by omega), ticksAt_of_le (by omega)]

/-! ## A window -/

/-- The devices when the main program is about to enable interrupts for a timer. -/
structure Ready (t : Timer) (base : List Char) (hw : Hw) : Prop where
  gate : hw.idt (hw.vector t) = some (t, kIdtTypeInt64)
  enabled : hw.enabled t = true
  only : ∀ t', t' ≠ t → hw.enabled t' = false
  initWords : hw.pic1.initWords = 0
  count : hw.irqCount t = 0
  log : hw.log = base

/-- What may have changed inside a window. -/
def Hw.during (hw : Hw) (t : Timer) (interrupts : Bool) (c : UInt64) (log : List Char) : Hw :=
  { hw with interrupts := interrupts, irqCount := Function.update hw.irqCount t c, log := log }

section Window

variable (t : Timer) (rest : List Op)

/-- Where the main program may be in a window, with the counter at `c`: at the test, between
the test and `hlt`, halted, or past the loop. -/
inductive Waiting (c : UInt64) : (code : List Op) → (halted : Bool) → Prop
  | test : Waiting c (.waitTicks t :: .io .cli :: rest) false
  | hlt : Waiting c (.hlt :: .waitTicks t :: .io .cli :: rest) false
  | halted : Waiting c (.waitTicks t :: .io .cli :: rest) true
  | done (hc : 3 ≤ c.toNat) : Waiting c (.io .cli :: rest) false

/-- The states of a window after `d` deliveries: the main program, a handler before its count,
or a handler that prints. -/
inductive Window (hw : Hw) (base : List Char) (d : Nat) : State → Prop
  | main {c : UInt64} {code : List Op} {halted : Bool} (hc : c.toNat ≤ d)
      (hmain : Waiting t rest c code halted) :
      Window hw base d ⟨hw.during t true c (base ++ ticksAt t c), code, [], halted, false⟩
  | entered {c : UInt64} {code ops : List Op} (hc : c.toNat < d)
      (hmain : Waiting t rest c code false)
      (hops : ops = handler t ∨ ops = [.countTick t, .iretq]) :
      Window hw base d
        ⟨hw.during t false c (base ++ ticksAt t c), ops, [(code, true)], false, false⟩
  | printing {c : UInt64} {code : List Op} {log text : List Char} (hc : c.toNat ≤ d)
      (hmain : Waiting t rest c code false) (hlog : log ++ text = base ++ ticksAt t c) :
      Window hw base d
        ⟨hw.during t false c log, (write text).map .io ++ [.iretq], [(code, true)], false, false⟩

variable {t rest}

/-- The main program resumes from a handler as if it had not been halted. -/
theorem Waiting.wake {c : UInt64} {code : List Op} {halted : Bool}
    (h : Waiting t rest c code halted) : Waiting t rest c code false := by
  cases h with
  | test => exact .test
  | hlt => exact .hlt
  | halted => exact .test
  | done hc => exact .done hc

/-- Counting a tick does not take the main program back. -/
theorem Waiting.succ {c : UInt64} {code : List Op} {halted : Bool} (hc : c.toNat + 1 < 2 ^ 64)
    (h : Waiting t rest c code halted) : Waiting t rest (c + 1) code halted := by
  cases h with
  | test => exact .test
  | hlt => exact .hlt
  | halted => exact .halted
  | done hdone => exact .done (by rw [toNat_succ hc]; omega)

variable {hw : Hw} {base : List Char} {d : Nat}

/-- A tick in a window starts the timer's handler. -/
theorem step_tick_during (hready : Ready t base hw) (c : UInt64) (log : List Char)
    (code : List Op) (halted : Bool) :
    step (.tick t) ⟨hw.during t true c log, code, [], halted, false⟩ =
      some ⟨hw.during t false c log, handler t, [(code, true)], false, false⟩ := by
  have henabled : (hw.during t true c log).enabled t = true := by
    rw [← hready.enabled]
    cases t <;> rfl
  have hgate : (hw.during t true c log).idt ((hw.during t true c log).vector t) =
      some (t, kIdtTypeInt64) := by
    rw [← hready.gate]
    cases t <;> rfl
  show (if true && (hw.during t true c log).enabled t then
    some (deliver _ ((hw.during t true c log).vector t)) else none) = _
  rw [henabled, deliver, hgate]
  rfl

/-- A tick of the other timer is not delivered. -/
theorem step_tick_other (hready : Ready t base hw) {t' : Timer} (ht : t' ≠ t) {b : Bool}
    {c : UInt64} {log : List Char} {code : List Op} {saved : List (List Op × Bool)}
    {halted : Bool} :
    step (.tick t') ⟨hw.during t b c log, code, saved, halted, false⟩ = none := by
  have hdisabled : (hw.during t b c log).enabled t' = false := by
    rw [← hready.only t' ht]
    cases t' <;> rfl
  show (if b && (hw.during t b c log).enabled t' then some _ else none) = _
  rw [hdisabled, Bool.and_false, if_neg Bool.false_ne_true]

/-- Nothing is delivered while interrupts are disabled. -/
theorem step_tick_disabled {t' : Timer} {s : State} (h : s.hw.interrupts = false) :
    step (.tick t') s = none := by
  rw [step, h, Bool.false_and, if_neg Bool.false_ne_true]

theorem irqCount_during (hw : Hw) (t : Timer) (b : Bool) (c : UInt64) (log : List Char) :
    (hw.during t b c log).irqCount t = c := by
  simp [Hw.during]

/-- The test of the wait loop. -/
theorem step_waitTicks (hw : Hw) (b : Bool) (c : UInt64) (log : List Char) :
    step .op ⟨hw.during t b c log, .waitTicks t :: .io .cli :: rest, [], false, false⟩ =
      some ⟨hw.during t b c log,
        if c < 3 then .hlt :: .waitTicks t :: .io .cli :: rest else .io .cli :: rest,
        [], false, false⟩ := by
  show (if (hw.during t b c log).irqCount t < 3 then some _ else some _) = _
  rw [irqCount_during]
  split <;> rfl

/-- A handler's count. -/
theorem step_countTick (hw : Hw) (b : Bool) (c : UInt64) (log : List Char)
    (saved : List (List Op × Bool)) :
    step .op ⟨hw.during t b c log, [.countTick t, .iretq], saved, false, false⟩ =
      some ⟨hw.during t b (c + 1) log,
        (write (if c + 1 ≤ 3 then tickLine t (c + 1) else [])).map .io ++ [.iretq],
        saved, false, false⟩ := by
  have hcount := irqCount_during hw t b c log
  have hupdate : ({ hw.during t b c log with
      irqCount := Function.update (hw.during t b c log).irqCount t (c + 1) } : Hw) =
        hw.during t b (c + 1) log := by
    simp [Hw.during]
  show some (State.mk { hw.during t b c log with
    irqCount := Function.update (hw.during t b c log).irqCount t
      ((hw.during t b c log).irqCount t + 1) }
    ((if (hw.during t b c log).irqCount t + 1 ≤ 3 then
      (write (tickLine t ((hw.during t b c log).irqCount t + 1))).map .io else []) ++ [.iretq])
    saved false false) = _
  rw [hcount, hupdate]
  split <;> rfl

/-- **One step in a window.**  It leads to a state of the window, or the main program disables
interrupts after three ticks. -/
theorem Window.step (hready : Ready t base hw) (hd : d < 2 ^ 64) {s s' : State} {e : Event}
    (h : Window t rest hw base d s) (hstep : step e s = some s') :
    Window t rest hw base (if e = .tick t then d + 1 else d) s' ∨
      ∃ c, s' = ⟨hw.during t false c (base ++ ticks t 3), rest, [], false, false⟩ := by
  have hop : (if Event.op = .tick t then d + 1 else d) = d := if_neg fun h => nomatch h
  cases h with
  | @main c code halted hc hmain =>
      cases e with
      | tick t' =>
          left
          -- Wherever the main program is, the handler starts; a halted one wakes up.
          by_cases ht : t' = t
          · subst ht
            rw [step_tick_during hready] at hstep
            cases hstep
            rw [if_pos rfl]
            exact .entered (by omega) hmain.wake (Or.inl rfl)
          · rw [step_tick_other hready ht] at hstep
            cases hstep
      | op =>
          rw [hop]
          cases hmain with
          | test =>
              left
              rw [step_waitTicks] at hstep
              cases hstep
              by_cases hless : c < 3
              · rw [if_pos hless]
                exact .main hc .hlt
              · rw [if_neg hless]
                exact .main hc (.done (UInt64.le_iff_toNat_le.mp (UInt64.not_lt.mp hless)))
          | hlt =>
              left
              cases hstep
              exact .main hc .halted
          | halted => cases hstep
          | done hdone =>
              -- `cli` ends the window; three ticks have been printed by now.
              right
              cases hstep
              refine ⟨c, ?_⟩
              rw [ticksAt_of_le hdone]
              rfl
  | @entered c code ops hc hmain hops =>
      left
      cases e with
      | tick t' =>
          rw [step_tick_disabled rfl] at hstep
          cases hstep
      | op =>
          rw [hop]
          obtain rfl | rfl := hops
          · -- The end of interrupt.
            have hack : Kernel.step .op ⟨hw.during t false c (base ++ ticksAt t c), handler t,
                [(code, true)], false, false⟩ =
                  some ⟨(hw.during t false c (base ++ ticksAt t c)).io (acknowledge t),
                    [.countTick t, .iretq], [(code, true)], false, false⟩ := rfl
            rw [hack, io_acknowledge] at hstep
            cases hstep
            exact .entered hc hmain (Or.inr rfl)
          · -- The counter does not wrap, as there were fewer than `2 ^ 64` deliveries.
            have hwrap : c.toNat + 1 < 2 ^ 64 := by omega
            rw [step_countTick] at hstep
            cases hstep
            refine .printing (by rw [toNat_succ hwrap]; omega) (hmain.succ hwrap) ?_
            rw [ticksAt_succ t hwrap, List.append_assoc]
  | @printing c code log text hc hmain hlog =>
      left
      cases e with
      | tick t' =>
          rw [step_tick_disabled rfl] at hstep
          cases hstep
      | op =>
          rw [hop]
          cases text with
          | nil =>
              -- The line is complete, and `iretq` enables interrupts again.
              cases hstep
              rw [List.append_nil] at hlog
              subst hlog
              exact .main hc hmain
          | cons ch text =>
              cases hstep
              refine .printing hc hmain ?_
              rw [← hlog]
              exact List.append_assoc log [ch] text

end Window

/-! ## The two stages -/

/-- Straight-line code with interrupts disabled, after which `P` holds and `goal` is next. -/
inductive Straight (goal : List Op) (P : Hw → Prop) : State → Prop
  | mk {hw : Hw} (ops : List Io) (hoff : hw.interrupts = false) (hend : P (runIo ops hw)) :
      Straight goal P ⟨hw, ops.map .io ++ goal, [], false, false⟩

/-- **One step of straight-line code.**  It only moves on, up to its end. -/
theorem Straight.step {goal : List Op} {P : Hw → Prop} {s s' : State} {e : Event}
    (h : Straight goal P s) (hstep : step e s = some s') :
    Straight goal P s' ∨
      e = .op ∧ ∃ hw : Hw, P hw ∧ s = ⟨hw, goal, [], false, false⟩ := by
  obtain ⟨ops, hoff, hend⟩ := h
  cases e with
  | tick t =>
      rw [step_tick_disabled hoff] at hstep
      cases hstep
  | op =>
      cases ops with
      | nil => exact Or.inr ⟨rfl, _, hend, rfl⟩
      | cons i ops =>
          left
          cases hstep
          exact .mk ops (interrupts_io hoff i) hend

/-- The log when the first window begins. -/
def log₃ : List Char := stage3Log []

/-- The log when the second window begins. -/
def log₄ : List Char := stage4Log (log₃ ++ ticks .pit 3)

def stage4Rest : List Op := stage4Finish.map .io

def stage3Rest : List Op := stage4Setup.map .io ++ tickWindow .lapic stage4Rest

/-- Where a run may be, after `d t` deliveries of each timer `t`. -/
inductive Phase (d : Timer → Nat) (s : State) : Prop
  | setup3 (h : Straight (tickWindow .pit stage3Rest) (Ready .pit log₃) s)
  | ticks3 (hw : Hw) (hready : Ready .pit log₃ hw)
      (h : Window .pit stage3Rest hw log₃ (d .pit) s)
  | setup4 (h : Straight (tickWindow .lapic stage4Rest) (Ready .lapic log₄) s)
  | ticks4 (hw : Hw) (hready : Ready .lapic log₄ hw)
      (h : Window .lapic stage4Rest hw log₄ (d .lapic) s)
  | finish (h : Straight [] (fun hw => hw.log = readmeLog) s)

theorem ready_stage3 {hw : Hw} (harm : hw.lapic.timerInit = 0) (hlog : hw.log = []) :
    Ready .pit log₃ (runIo stage3Setup hw) := by
  rw [runIo_stage3Setup]
  constructor
  case gate => simp [Hw.vector, kVectorIRQ0]
  case enabled =>
    show decide ((0xFE : UInt8) &&& 1 = 0) = true
    decide
  case only =>
    intro t ht
    cases t with
    | pit => exact absurd rfl ht
    | lapic => simp [Hw.enabled, harm]
  case initWords => rfl
  case count => simp only [Function.update_self]
  case log => rw [log₃, hlog]

theorem ready_stage4 {hw : Hw} (hinit : hw.pic1.initWords = 0)
    (hlog : hw.log = log₃ ++ ticks .pit 3) : Ready .lapic log₄ (runIo stage4Setup hw) := by
  have hmask : hw.pic1.data 0xFF = { hw.pic1 with mask := 0xFF } := by
    simp only [Pic.data, hinit]
  rw [runIo_stage4Setup, hmask]
  constructor
  case gate =>
    have hvector : (0x20022 : UInt32).toUInt8 = kVectorLapicTimer := by decide
    simp only [Hw.vector, hvector, Function.update_self]
  case enabled =>
    show ((0x80000 : UInt32) ≠ 0 && (0x20022 : UInt32) &&& 0x10000 = 0) = true
    decide
  case only =>
    intro t ht
    cases t with
    | pit =>
        show decide ((0xFF : UInt8) &&& 1 = 0) = false
        decide
    | lapic => exact absurd rfl ht
  case initWords => exact hinit
  case count => simp only [Function.update_self]
  case log => rw [log₄, hlog]

theorem readmeLog_eq : log₄ ++ ticks .lapic 3 ++ "STAGE 4: done\n".toList = readmeLog := by
  decide +kernel

/-- The devices after `sti`. -/
theorem Ready.sti {t : Timer} {base : List Char} {hw : Hw} (hready : Ready t base hw) :
    ({ hw with interrupts := true } : Hw) = hw.during t true 0 base := by
  have hcount : Function.update hw.irqCount t 0 = hw.irqCount := by
    rw [← hready.count, Function.update_eq_self]
  rw [Hw.during, hcount, ← hready.log]

/-- The main program enters a window at `sti`. -/
theorem step_sti {t : Timer} {rest : List Op} {base : List Char} {hw : Hw}
    (hready : Ready t base hw) :
    step .op ⟨hw, tickWindow t rest, [], false, false⟩ =
      some ⟨hw.during t true 0 base, .waitTicks t :: .io .cli :: rest, [], false, false⟩ := by
  rw [← hready.sti]
  rfl

theorem enterWindow {t : Timer} {rest : List Op} {base : List Char} {hw : Hw} {d : Nat} {s : State}
    (hready : Ready t base hw)
    (hstep : step .op ⟨hw, tickWindow t rest, [], false, false⟩ = some s) :
    Window t rest hw base d s := by
  rw [step_sti hready, ← List.append_nil base] at hstep
  cases hstep
  exact .main (Nat.zero_le d) .test

/-- **One step of a run.** -/
theorem Phase.step {d d' : Timer → Nat} {s s' : State} {e : Event} (h : Phase d s)
    (hbound : ∀ t, d t < 2 ^ 64) (hcount : ∀ t, d' t = if e = .tick t then d t + 1 else d t)
    (hstep : step e s = some s') : Phase d' s' := by
  cases h with
  | setup3 h =>
      obtain hnext | ⟨rfl, hw, hready, rfl⟩ := h.step hstep
      · exact .setup3 hnext
      · exact .ticks3 hw hready (enterWindow hready hstep)
  | ticks3 hw hready h =>
      obtain hnext | ⟨c, rfl⟩ := h.step hready (hbound .pit) hstep
      · rw [← hcount] at hnext
        exact .ticks3 hw hready hnext
      · exact .setup4 (.mk stage4Setup rfl (ready_stage4 hready.initWords rfl))
  | setup4 h =>
      obtain hnext | ⟨rfl, hw, hready, rfl⟩ := h.step hstep
      · exact .setup4 hnext
      · exact .ticks4 hw hready (enterWindow hready hstep)
  | ticks4 hw hready h =>
      obtain hnext | ⟨c, rfl⟩ := h.step hready (hbound .lapic) hstep
      · rw [← hcount] at hnext
        exact .ticks4 hw hready hnext
      · have hdone : (runIo stage4Finish (hw.during .lapic false c (log₄ ++ ticks .lapic 3))).log =
            readmeLog := by
          rw [log_stage4Finish]
          exact readmeLog_eq
        have hlast : Straight [] (fun hw => hw.log = readmeLog) ⟨hw.during .lapic false c
            (log₄ ++ ticks .lapic 3), stage4Finish.map .io ++ [], [], false, false⟩ :=
          .mk stage4Finish rfl hdone
        exact .finish hlast
  | finish h =>
      obtain hnext | ⟨rfl, hw, hlog, rfl⟩ := h.step hstep
      · exact .finish hnext
      · cases hstep

/-! ## Runs -/

/-- A window's log extends its base, and at most by three lines. -/
theorem Window.log_le {t : Timer} {rest : List Op} {hw : Hw} {base : List Char} {d : Nat}
    {s : State} (h : Window t rest hw base d s) : s.hw.log <+: base ++ ticks t 3 := by
  have hcounted : ∀ c, base ++ ticksAt t c <+: base ++ ticks t 3 := fun c =>
    (List.prefix_append_right_inj base).mpr (ticks_mono t (Nat.min_le_right c.toNat 3))
  cases h with
  | main hc hmain => exact hcounted _
  | entered hc hmain hops => exact hcounted _
  | @printing c code log text hc hmain hlog =>
      have hpart : log <+: base ++ ticksAt t c := hlog ▸ List.prefix_append log text
      exact hpart.trans (hcounted c)

/-- Nothing is left to do only outside the windows. -/
theorem Window.not_completed {t : Timer} {rest : List Op} {hw : Hw} {base : List Char} {d : Nat}
    {s : State} (h : Window t rest hw base d s) : ¬ s.Completed := by
  intro hdone
  cases h with
  | main hc hmain =>
      obtain ⟨hcode, -, -⟩ := hdone
      cases hmain with
      | test => cases hcode
      | hlt => cases hcode
      | halted => cases hcode
      | done h => cases hcode
  | entered hc hmain hops =>
      obtain ⟨-, hsaved, -⟩ := hdone
      cases hsaved
  | printing hc hmain hlog =>
      obtain ⟨-, hsaved, -⟩ := hdone
      cases hsaved

theorem Window.not_crashed {t : Timer} {rest : List Op} {hw : Hw} {base : List Char} {d : Nat}
    {s : State} (h : Window t rest hw base d s) : s.crashed = false := by
  cases h <;> rfl

/-- What a phase says of the log. -/
theorem Phase.log {d : Timer → Nat} {s : State} (h : Phase d s) :
    s.hw.log <+: readmeLog ∧ s.crashed = false ∧ (s.Completed → s.hw.log = readmeLog) := by
  have htail : log₄ ++ ticks .lapic 3 <+: readmeLog := readmeLog_eq ▸ List.prefix_append _ _
  have hbase₄ : log₄ <+: readmeLog := (List.prefix_append _ _).trans htail
  -- The second window begins with everything the first one can print.
  have hhead : log₃ ++ ticks .pit 3 <+: readmeLog := by
    have hlonger : log₃ ++ ticks .pit 3 <+: log₄ := by
      simp only [log₄, stage4Log, List.append_assoc]
      exact List.prefix_append _ _
    exact hlonger.trans hbase₄
  have hbase₃ : log₃ <+: readmeLog := (List.prefix_append _ _).trans hhead
  cases h with
  | setup3 h =>
      obtain @⟨hw, ops, hoff, hready⟩ := h
      have hlog := log_runIo ops hw
      rw [hready.log] at hlog
      refine ⟨hlog.trans hbase₃, rfl, fun hdone => ?_⟩
      exact absurd hdone.1 (List.append_ne_nil_of_right_ne_nil _ (List.cons_ne_nil _ _))
  | ticks3 hw hready h =>
      exact ⟨h.log_le.trans hhead, h.not_crashed, fun hdone => absurd hdone h.not_completed⟩
  | setup4 h =>
      obtain @⟨hw, ops, hoff, hready⟩ := h
      have hlog := log_runIo ops hw
      rw [hready.log] at hlog
      refine ⟨hlog.trans hbase₄, rfl, fun hdone => ?_⟩
      exact absurd hdone.1 (List.append_ne_nil_of_right_ne_nil _ (List.cons_ne_nil _ _))
  | ticks4 hw hready h =>
      exact ⟨h.log_le.trans htail, h.not_crashed, fun hdone => absurd hdone h.not_completed⟩
  | finish h =>
      obtain @⟨hw, ops, hoff, hend⟩ := h
      have hlog := log_runIo ops hw
      rw [hend] at hlog
      refine ⟨hlog, rfl, fun hdone => ?_⟩
      -- Nothing is left to do, so nothing is left to print.
      cases ops with
      | nil => exact hend
      | cons i ops => cases hdone.1

/-- **The serial log.**  Under every schedule with fewer than `2 ^ 64` ticks of each timer, the
log is at every moment a part of the documented one, no tick finds its vector without a handler,
and when Stage 4 is over the log is complete. -/
theorem serialLog {hw : Hw} (hoff : hw.interrupts = false) (harm : hw.lapic.timerInit = 0)
    (hlog : hw.log = []) {events : List Event} {s : State}
    (hticks : ∀ t, events.count (.tick t) < 2 ^ 64)
    (hrun : runs step events (start hw) = some s) :
    s.hw.log <+: readmeLog ∧ s.crashed = false ∧ (s.Completed → s.hw.log = readmeLog) := by
  have hphase := runs_invariant
    (fun past s => (∀ t, past.count (.tick t) < 2 ^ 64) → Phase (fun t => past.count (.tick t)) s)
    (fun _ => .setup3 (.mk stage3Setup hoff (ready_stage3 harm hlog))) ?_ hrun
  · exact (hphase hticks).log
  · intro past e s s' hpast hstep hticks
    have hcount : ∀ t, (past ++ [e]).count (.tick t) =
        if e = .tick t then past.count (.tick t) + 1 else past.count (.tick t) := by
      intro t
      rw [List.count_append, List.count_singleton]
      by_cases he : e = .tick t <;> simp [he]
    have hbound : ∀ t, past.count (.tick t) < 2 ^ 64 := by
      intro t
      have hle : past.count (.tick t) ≤ (past ++ [e]).count (.tick t) :=
        (List.sublist_append_left past [e]).count_le _
      exact Nat.lt_of_le_of_lt hle (hticks t)
    exact (hpast hbound).step hbound hcount hstep

instance (s : State) : Decidable s.Completed :=
  inferInstanceAs (Decidable (s.code = [] ∧ s.saved = [] ∧ s.crashed = false))

/-- Devices before Stage 3: no mask, no gates, no armed timer. -/
def idleHw : Hw where
  interrupts := false
  pic1 := ⟨0x08, 0, 0⟩
  pic2 := ⟨0x70, 0, 0⟩
  lapic := ⟨0, 0, 0, 0⟩
  idt := fun _ => none
  irqCount := fun _ => 0
  log := []

/-- `n` operations without a tick. -/
def undisturbed (n : Nat) : List Event := List.replicate n Event.op

/-- Ticks between the test and `hlt`, while halted, and after the loop. -/
def fourTicks (t : Timer) : List Event :=
  undisturbed 2 ++ [Event.tick t] ++ undisturbed 19 ++ [Event.tick t] ++ undisturbed 20 ++
    [Event.tick t] ++ undisturbed 19 ++ [Event.tick t] ++ undisturbed 4

/-- A schedule that completes both stages. -/
def completeSchedule : List Event :=
  undisturbed 75 ++ fourTicks .pit ++ undisturbed 117 ++ fourTicks .lapic ++ undisturbed 15

theorem serialLog_complete :
    ∃ s, runs step completeSchedule (start idleHw) = some s ∧ s.hw.log = readmeLog := by
  have hany : (runs step completeSchedule (start idleHw)).any (fun s => decide s.Completed) =
      true := by
    decide +kernel
  obtain ⟨s, hrun, hdone⟩ := Option.any_eq_true _ _ |>.mp hany
  have hticks : ∀ t, completeSchedule.count (.tick t) < 2 ^ 64 := by
    intro t
    cases t <;> decide +kernel
  exact ⟨s, hrun, (serialLog rfl rfl rfl hticks hrun).2.2 (of_decide_eq_true hdone)⟩

/-! ## A counter that wraps -/

/-- Straight-line code runs to its end. -/
theorem runs_straight (ops : List Io) (hw : Hw) (goal : List Op)
    (saved : List (List Op × Bool)) :
    runs step (List.replicate ops.length .op) ⟨hw, ops.map .io ++ goal, saved, false, false⟩ =
      some ⟨runIo ops hw, goal, saved, false, false⟩ := by
  induction ops generalizing hw with
  | nil => rfl
  | cons i ops ih => exact ih (hw.io i)

/-- Outside the loop's test nothing stops the handler of a tick from running to its end. -/
theorem runs_tick {t : Timer} {base : List Char} {hw : Hw} (hready : Ready t base hw) (c : UInt64)
    (log : List Char) (code : List Op) :
    ∃ events, runs step events ⟨hw.during t true c log, code, [], false, false⟩ =
      some ⟨hw.during t true (c + 1) (log ++ (if c + 1 ≤ 3 then tickLine t (c + 1) else [])),
        code, [], false, false⟩ := by
  have hdeliver := step_tick_during hready c log code false
  have hack : step .op ⟨hw.during t false c log, handler t, [(code, true)], false, false⟩ =
      some ⟨(hw.during t false c log).io (acknowledge t), [.countTick t, .iretq],
        [(code, true)], false, false⟩ := rfl
  rw [io_acknowledge] at hack
  have hcount := step_countTick (t := t) hw false c log [(code, true)]
  -- From here on the handler prints some text, whatever it is, and returns.
  generalize (if c + 1 ≤ 3 then tickLine t (c + 1) else []) = text at hcount ⊢
  have hprint := runs_straight (write text) (hw.during t false (c + 1) log) [.iretq]
    [(code, true)]
  rw [runIo_write] at hprint
  have hreturn : step .op ⟨(hw.during t false (c + 1) log).print text, [.iretq],
      [(code, true)], false, false⟩ =
        some ⟨hw.during t true (c + 1) (log ++ text), code, [], false, false⟩ := rfl
  refine ⟨.tick t :: .op :: .op :: (List.replicate (write text).length .op ++ [.op]), ?_⟩
  rw [runs, hdeliver, Option.bind_some, runs, hack, Option.bind_some, runs, hcount,
    Option.bind_some]
  exact runs_snoc hprint hreturn

/-- Any number of ticks below the wrap. -/
theorem runs_ticks {t : Timer} {base : List Char} {hw : Hw} (hready : Ready t base hw)
    (code : List Op) (n : Nat) (hn : n < 2 ^ 64) :
    ∃ events, runs step events ⟨hw.during t true 0 base, code, [], false, false⟩ =
      some ⟨hw.during t true (UInt64.ofNat n) (base ++ ticksAt t (UInt64.ofNat n)), code, [],
        false, false⟩ := by
  induction n with
  | zero =>
      refine ⟨[], ?_⟩
      show some _ = some (State.mk (hw.during t true 0 (base ++ [])) code [] false false)
      rw [List.append_nil]
  | succ n ih =>
      obtain ⟨before, hbefore⟩ := ih (by omega)
      obtain ⟨round, hround⟩ := runs_tick hready (UInt64.ofNat n)
        (base ++ ticksAt t (UInt64.ofNat n)) code
      have hvalue : (UInt64.ofNat n).toNat + 1 < 2 ^ 64 := by
        rw [UInt64.toNat_ofNat', Nat.mod_eq_of_lt (by omega)]
        exact hn
      rw [List.append_assoc, ← ticksAt_succ t hvalue] at hround
      refine ⟨before ++ round, ?_⟩
      rw [runs_append hbefore, hround, UInt64.ofNat_add]
      rfl

/-- With `2 ^ 64` ticks in the first window, a line for tick zero follows the third one. -/
theorem not_serialLog :
    ¬ ∀ (hw : Hw) (events : List Event) (s : State), hw.interrupts = false →
      hw.lapic.timerInit = 0 → hw.log = [] → runs step events (start hw) = some s →
        s.hw.log <+: readmeLog ∧ (s.Completed → s.hw.log = readmeLog) := by
  intro hclaim
  have hready : Ready .pit log₃ (runIo stage3Setup idleHw) := ready_stage3 rfl rfl
  have hsetup := runs_straight stage3Setup idleHw (tickWindow .pit stage3Rest) []
  have hopen := runs_snoc hsetup (step_sti hready)
  obtain ⟨many, hmany⟩ := runs_ticks hready (.waitTicks .pit :: .io .cli :: stage3Rest)
    (2 ^ 64 - 1) (by decide)
  obtain ⟨last, hlast⟩ := runs_tick hready (UInt64.ofNat (2 ^ 64 - 1))
    (log₃ ++ ticksAt .pit (UInt64.ofNat (2 ^ 64 - 1)))
    (.waitTicks .pit :: .io .cli :: stage3Rest)
  -- All ticks arrive between `sti` and the first test of the counter.
  have hrun := (runs_append hopen).trans ((runs_append hmany).trans hlast)
  have hlog := (hclaim idleHw _ _ rfl rfl rfl hrun).1
  have hall : ticksAt .pit (UInt64.ofNat (2 ^ 64 - 1)) = ticks .pit 3 :=
    ticksAt_of_le (by decide)
  have hwrap : UInt64.ofNat (2 ^ 64 - 1) + 1 = 0 := by decide
  rw [hall, hwrap] at hlog
  revert hlog
  show ¬ (log₃ ++ ticks .pit 3 ++ tickLine .pit 0 <+: readmeLog)
  decide +kernel

end Kernel
end OsBook
