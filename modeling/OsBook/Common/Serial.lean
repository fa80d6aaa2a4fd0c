import OsBook.Machine.Uart

/-!
# The serial port driver

`serial.hpp` is included by the loader and by the kernel.  It programs the UART
of COM1 and writes characters to it, waiting before each one until the holding
register is empty.  Meanwhile the transmitter moves on at any time.

Under every timing the characters leave in order, none twice; only a second
initialisation can drop a character, and only the last one written
(`serial_delivers`).  The waits end under every fair timing
(`serial_completes`).
-/

namespace OsBook
namespace Serial

open Machine

/-! ## The driver -/

def com1Base : UInt16 := 0x3F8

def regThr : UInt16 := com1Base + 0

def regLsr : UInt16 := com1Base + 5

def regLcr : UInt16 := com1Base + 3

def regDll : UInt16 := com1Base + 0

def regDlm : UInt16 := com1Base + 1

def regFcr : UInt16 := com1Base + 2

def regIer : UInt16 := com1Base + 1

inductive PortOp where
  | outb (port : UInt16) (value : UInt8)
  /-- `while ((inb(REG_LSR) & 0x20u) == 0) pause`. -/
  | awaitThr
deriving DecidableEq, Repr

def init115200 : List PortOp :=
  [.outb regIer 0x00, .outb regLcr 0x80, .outb regDll 0x10, .outb regDlm 0x00, .outb regLcr 0x03,
   .outb regFcr 0x07]

def writeChar (c : UInt8) : List PortOp := [.awaitThr, .outb regThr c]

/-- `write_str` on the bytes from a pointer on; `none` is the null pointer. -/
def writeStr (s : Option (List UInt8)) : List PortOp :=
  match s with
  | none => []
  | some bytes => (bytes.takeWhile (· ≠ 0)).flatMap writeChar

/-! ## Execution -/

/-- A write to a port; the UART has eight of them. -/
def outb (u : Uart) (port : UInt16) (value : UInt8) : Uart :=
  if com1Base ≤ port ∧ port < com1Base + 8 then u.write (port - com1Base) value else u

/-- A read; only the line status is modelled. -/
def inb (u : Uart) (port : UInt16) : UInt8 := if port = regLsr then u.lineStatus else 0xFF

structure State where
  uart : Uart
  /-- What is left of the running code. -/
  code : List PortOp

/-- The processor does an operation, or the transmitter moves a character. -/
inductive Event where
  | cpu
  | load
  | shiftOut
deriving DecidableEq, Repr

def step : Event → State → Option State
  | .cpu, s =>
      match s.code with
      | [] => none
      | .outb port value :: code => some ⟨outb s.uart port value, code⟩
      | .awaitThr :: code => some (if inb s.uart regLsr &&& 0x20 = 0 then s else ⟨s.uart, code⟩)
  | .load, s => s.uart.load.map fun u => { s with uart := u }
  | .shiftOut, s => s.uart.shiftOut.map fun u => { s with uart := u }

/-! ## Steps -/

section Steps

variable {u : Uart} {code : List PortOp} {s s' : State}

/-- What a step of the transmitter does. -/
theorem step_transmitter {e : Event} (he : e ≠ .cpu) (hstep : step e s = some s') :
    s'.code = s.code ∧ s.uart.Sent s'.uart := by
  cases e with
  | cpu => exact absurd rfl he
  | load =>
      obtain ⟨u, hload, rfl⟩ := Option.map_eq_some_iff.mp hstep
      exact ⟨rfl, Uart.load_sent hload⟩
  | shiftOut =>
      obtain ⟨u, hout, rfl⟩ := Option.map_eq_some_iff.mp hstep
      exact ⟨rfl, Uart.shiftOut_sent hout⟩

theorem step_outb (port : UInt16) (value : UInt8) :
    step .cpu ⟨u, .outb port value :: code⟩ = some ⟨outb u port value, code⟩ := rfl

/-- The wait goes on as long as a character is held. -/
theorem step_awaitThr :
    step .cpu ⟨u, .awaitThr :: code⟩ =
      some (if u.holding = [] then ⟨u, code⟩ else ⟨u, .awaitThr :: code⟩) := by
  have hempty : inb u regLsr &&& 0x20 = 0 ↔ u.holding ≠ [] := Uart.lineStatus_empty
  show some (if inb u regLsr &&& 0x20 = 0 then _ else _) = _
  by_cases hholding : u.holding = []
  · rw [if_pos hholding, if_neg fun h => hempty.mp h hholding]
  · rw [if_neg hholding, if_pos (hempty.mpr hholding)]

end Steps

/-! ## Registers -/

section Registers

variable (u : Uart) (value : UInt8)

theorem outb_ier : outb u regIer value =
    if u.dlab then { u with dlm := value } else { u with ier := value } := rfl

theorem outb_dll : outb u regDll value =
    if u.dlab then { u with dll := value } else u.transmit value := rfl

theorem outb_dlm : outb u regDlm value =
    if u.dlab then { u with dlm := value } else { u with ier := value } := rfl

/-- Enabling and clearing the queue. -/
theorem outb_fcr : outb u regFcr 0x07 = { u with fifo := true, holding := [] } := by
  obtain ⟨ier, lcr, dll, dlm, fifo, holding, shift, line⟩ := u
  cases fifo <;> rfl

end Registers

/-! ## Initialisation -/

/-- The registers behind the first `n` writes of `init_115200`; `latched` says that the divisor
latch was accessible before. -/
structure Programmed (latched : Bool) (n : Nat) (u : Uart) : Prop where
  start : n = 0 → u.dlab = latched
  ier : 1 ≤ n → latched = false → u.ier = 0
  latch : 2 ≤ n → n ≤ 4 → u.lcr = 0x80
  dll : 3 ≤ n → u.dll = 0x10
  dlm : 4 ≤ n → u.dlm = 0
  lcr : 5 ≤ n → u.lcr = 0x03
  fifo : 6 ≤ n → u.fifo = true

section Init

variable {latched : Bool} {n : Nat} {u u' : Uart}

/-- The transmitter does not change the registers. -/
theorem Programmed.sent (h : Programmed latched n u) (hsent : u.Sent u') :
    Programmed latched n u' where
  start := fun hn => by
    rw [Uart.dlab, hsent.lcr]
    exact h.start hn
  ier := fun hn hlatched => hsent.ier.trans (h.ier hn hlatched)
  latch := fun hn hn' => hsent.lcr.trans (h.latch hn hn')
  dll := fun hn => hsent.dll.trans (h.dll hn)
  dlm := fun hn => hsent.dlm.trans (h.dlm hn)
  lcr := fun hn => hsent.lcr.trans (h.lcr hn)
  fifo := fun hn => hsent.fifo.trans (h.fifo hn)

theorem Programmed.dlab (h : Programmed latched 6 u) : u.dlab = false := by
  rw [Uart.dlab, h.lcr (by decide)]
  rfl

/-- **One write of `init_115200`.**  Only the last one reaches the queue, which it clears. -/
theorem Programmed.write (h : Programmed latched n u) (hn : n < 6) :
    ∃ port value, init115200.drop n = .outb port value :: init115200.drop (n + 1) ∧
      Programmed latched (n + 1) (outb u port value) ∧
      (outb u port value).line = u.line ∧ (outb u port value).shift = u.shift ∧
      (outb u port value).holding = if n = 5 then [] else u.holding := by
  have hlatch : u.lcr = 0x80 → u.dlab = true := by
    intro hlcr
    rw [Uart.dlab, hlcr]
    rfl
  have hcases : n = 0 ∨ n = 1 ∨ n = 2 ∨ n = 3 ∨ n = 4 ∨ n = 5 := by omega
  rcases hcases with rfl | rfl | rfl | rfl | rfl | rfl
  · refine ⟨regIer, 0x00, rfl, ?_, ?_⟩
    · refine ⟨nofun, fun _ hlatched => ?_, by omega, by omega, by omega, by omega, by omega⟩
      rw [outb_ier, h.start rfl, hlatched]
      rfl
    · rw [outb_ier]
      split <;> exact ⟨rfl, rfl, rfl⟩
  · refine ⟨regLcr, 0x80, rfl, ?_, rfl, rfl, rfl⟩
    exact ⟨nofun, fun _ => h.ier (by omega), fun _ _ => rfl, by omega, by omega, by omega, by omega⟩
  · have hdlab := hlatch (h.latch (by omega) (by omega))
    refine ⟨regDll, 0x10, rfl, ?_, ?_⟩
    · rw [outb_dll, hdlab]
      exact ⟨nofun, fun _ => h.ier (by omega), fun _ _ => h.latch (by omega) (by omega),
        fun _ => rfl, by omega, by omega, by omega⟩
    · rw [outb_dll, hdlab]
      exact ⟨rfl, rfl, rfl⟩
  · have hdlab := hlatch (h.latch (by omega) (by omega))
    refine ⟨regDlm, 0x00, rfl, ?_, ?_⟩
    · rw [outb_dlm, hdlab]
      exact ⟨nofun, fun _ => h.ier (by omega), fun _ _ => h.latch (by omega) (by omega),
        fun _ => h.dll (by omega), fun _ => rfl, by omega, by omega⟩
    · rw [outb_dlm, hdlab]
      exact ⟨rfl, rfl, rfl⟩
  · refine ⟨regLcr, 0x03, rfl, ?_, rfl, rfl, rfl⟩
    exact ⟨nofun, fun _ => h.ier (by omega), by omega, fun _ => h.dll (by omega),
      fun _ => h.dlm (by omega), fun _ => rfl, by omega⟩
  · refine ⟨regFcr, 0x07, rfl, ?_, ?_⟩
    · rw [outb_fcr]
      exact ⟨nofun, fun _ => h.ier (by omega), by omega, fun _ => h.dll (by omega),
        fun _ => h.dlm (by omega), fun _ => h.lcr (by omega), fun _ => rfl⟩
    · rw [outb_fcr]
      exact ⟨rfl, rfl, rfl⟩

end Init

/-! ## Calls -/

inductive Call where
  | init115200
  | writeChar (c : UInt8)
deriving DecidableEq, Repr

def Call.ops : Call → List PortOp
  | .init115200 => Serial.init115200
  | .writeChar c => Serial.writeChar c

/-- A string is written character by character, up to its terminator. -/
theorem writeStr_eq (s : Option (List UInt8)) : ∃ text : List UInt8,
    writeStr s = (text.map Call.writeChar).flatMap Call.ops ∧ (0 : UInt8) ∉ text := by
  cases s with
  | none => exact ⟨[], rfl, List.not_mem_nil⟩
  | some bytes =>
      refine ⟨bytes.takeWhile (· ≠ 0), ?_, fun hmem => ?_⟩
      · rw [List.flatMap_map]
        rfl
      · simpa using List.all_eq_true.mp List.all_takeWhile _ hmem

/-- What the UART has taken after some calls: every character, in order, but for the last one
before an initialisation, which that may drop. -/
inductive Delivered (base : List UInt8) : List Call → List UInt8 → Prop
  | nil : Delivered base [] base
  | write {past : List Call} {t : List UInt8} {c : UInt8} (h : Delivered base past t) :
      Delivered base (past ++ [.writeChar c]) (t ++ [c])
  | kept {past : List Call} {t : List UInt8} (h : Delivered base past t) :
      Delivered base (past ++ [.init115200]) t
  | dropped {past : List Call} {t : List UInt8} {c : UInt8} (h : Delivered base past (t ++ [c])) :
      Delivered base (past ++ [.init115200]) t

section Delivered

variable {base t : List UInt8} {past : List Call}

theorem Delivered.of_nil (h : Delivered base [] t) : t = base := by
  generalize hcalls : [] = calls at h
  cases h with
  | nil => rfl
  | write => simp at hcalls
  | kept => simp at hcalls
  | dropped => simp at hcalls

theorem Delivered.of_write {c : UInt8} (h : Delivered base (past ++ [.writeChar c]) t) :
    ∃ t', Delivered base past t' ∧ t = t' ++ [c] := by
  generalize hcalls : past ++ [Call.writeChar c] = calls at h
  cases h with
  | nil => simp at hcalls
  | write h =>
      obtain ⟨rfl, hlast⟩ := List.append_inj' hcalls rfl
      obtain rfl := Call.writeChar.inj (List.cons.inj hlast).1
      exact ⟨_, h, rfl⟩
  | kept h => simp at hcalls
  | dropped h => simp at hcalls

theorem Delivered.of_init (h : Delivered base (past ++ [.init115200]) t) :
    Delivered base past t ∨ ∃ c, Delivered base past (t ++ [c]) := by
  generalize hcalls : past ++ [Call.init115200] = calls at h
  cases h with
  | nil => simp at hcalls
  | write h => simp at hcalls
  | kept h =>
      obtain ⟨rfl, -⟩ := List.append_inj' hcalls rfl
      exact Or.inl h
  | dropped h =>
      obtain ⟨rfl, -⟩ := List.append_inj' hcalls rfl
      exact Or.inr ⟨_, h⟩

/-- Characters written last are all there. -/
theorem Delivered.append_writes {text : List UInt8}
    (h : Delivered base (past ++ text.map .writeChar) t) :
    ∃ t', Delivered base past t' ∧ t = t' ++ text := by
  induction text generalizing past with
  | nil =>
      rw [List.map_nil, List.append_nil] at h
      exact ⟨t, h, (List.append_nil t).symm⟩
  | cons c text ih =>
      rw [List.map_cons, List.append_cons] at h
      obtain ⟨t₁, h₁, rfl⟩ := ih h
      obtain ⟨t', h', rfl⟩ := h₁.of_write
      exact ⟨t', h', List.append_assoc _ _ _⟩

/-- Without a later initialisation nothing is dropped. -/
theorem Delivered.of_writes {text : List UInt8} (h : Delivered base (text.map .writeChar) t) :
    t = base ++ text := by
  rw [← List.nil_append (text.map _)] at h
  obtain ⟨t', h', rfl⟩ := h.append_writes
  rw [h'.of_nil]

end Delivered

/-- The characters that have left the queue. -/
def sent (u : Uart) : List UInt8 := u.line ++ u.shift.toList

theorem accepted_eq (u : Uart) : u.accepted = sent u ++ u.holding := rfl

/-- A write of `init_115200` keeps all characters, but for the last one, which drops those that the
queue holds. -/
theorem Programmed.write_sent {latched : Bool} {n : Nat} {u : Uart} (h : Programmed latched n u)
    (hn : n < 6) :
    ∃ port value, init115200.drop n = .outb port value :: init115200.drop (n + 1) ∧
      Programmed latched (n + 1) (outb u port value) ∧
      Serial.sent (outb u port value) = Serial.sent u ∧
      (n = 5 → (outb u port value).holding = [] ∧
        (outb u port value).accepted = Serial.sent u) ∧
      (n ≠ 5 → (outb u port value).holding = u.holding ∧
        (outb u port value).accepted = u.accepted) := by
  obtain ⟨port, value, hdrop, hnext, hline, hshift, hheld⟩ := h.write hn
  have hsame : Serial.sent (outb u port value) = Serial.sent u := by
    rw [Serial.sent, Serial.sent, hline, hshift]
  refine ⟨port, value, hdrop, hnext, hsame, fun hlast => ?_, fun hlast => ?_⟩
  · rw [if_pos hlast] at hheld
    exact ⟨hheld, by rw [accepted_eq, hheld, hsame, List.append_nil]⟩
  · rw [if_neg hlast] at hheld
    exact ⟨hheld, by rw [accepted_eq, accepted_eq, hheld, hsame]⟩

/-- The transmitter only adds to what has left the queue. -/
theorem sent_le {u u' : Uart} (h : u.Sent u') : sent u <+: sent u' := by
  have haccepted := h.accepted
  rw [accepted_eq, accepted_eq] at haccepted
  refine List.prefix_of_prefix_length_le (List.prefix_append _ _)
    (haccepted ▸ List.prefix_append (sent u') u'.holding) ?_
  have hlength := congrArg List.length haccepted
  have hle := h.holding.length_le
  rw [List.length_append, List.length_append] at hlength
  omega

/-! ## The invariant -/

section Phases

variable (u₀ : Uart) (calls : List Call)

/-- What the first initialisation has left of the characters that the UART held. -/
def Base (base : List UInt8) : Prop := base <+: u₀.accepted ∧ sent u₀ <+: base

/-- The calls `past` have been made, and `t` is what the UART has taken. -/
def Made (past : List Call) (t : List UInt8) : Prop := ∃ base, Base u₀ base ∧ Delivered base past t

/-- Where the driver is: in its first initialisation, between two calls, behind the wait of a
character, or in a later initialisation. -/
inductive Phase : State → Prop
  | starting {n : Nat} {u : Uart} (hn : n < 6) (hregs : Programmed u₀.dlab n u)
      (haccepted : u.accepted = u₀.accepted) (hsent : sent u₀ <+: sent u) :
      Phase ⟨u, init115200.drop n ++ calls.flatMap Call.ops⟩
  | between {past rest : List Call} {u : Uart} (hcalls : past ++ rest = calls)
      (hregs : Programmed u₀.dlab 6 u) (hheld : u.holding.length ≤ 1)
      (hmade : Made u₀ past u.accepted) : Phase ⟨u, rest.flatMap Call.ops⟩
  | polled {past rest : List Call} {c : UInt8} {u : Uart}
      (hcalls : past ++ .writeChar c :: rest = calls) (hregs : Programmed u₀.dlab 6 u)
      (hheld : u.holding = []) (hmade : Made u₀ past u.accepted) :
      Phase ⟨u, .outb regThr c :: rest.flatMap Call.ops⟩
  | again {n : Nat} {past rest : List Call} {u : Uart}
      (hcalls : past ++ .init115200 :: rest = calls) (hn : n < 6) (hregs : Programmed false n u)
      (hheld : u.holding.length ≤ 1) (hmade : Made u₀ past u.accepted) :
      Phase ⟨u, init115200.drop n ++ rest.flatMap Call.ops⟩

variable {u₀ calls} {s s' : State}

/-- The transmitter keeps the driver where it is. -/
theorem Phase.sent {u u' : Uart} {code : List PortOp} (h : Phase u₀ calls ⟨u, code⟩)
    (hsent : u.Sent u') : Phase u₀ calls ⟨u', code⟩ := by
  have hheld := hsent.holding.length_le
  generalize hs : (⟨u, code⟩ : State) = s at h
  cases h with
  | starting hn hregs haccepted hle =>
      obtain ⟨rfl, rfl⟩ := State.mk.inj hs
      exact .starting hn (hregs.sent hsent) (hsent.accepted.trans haccepted)
        (hle.trans (sent_le hsent))
  | between hcalls hregs hone hmade =>
      obtain ⟨rfl, rfl⟩ := State.mk.inj hs
      exact .between hcalls (hregs.sent hsent) (Nat.le_trans hheld hone) (hsent.accepted ▸ hmade)
  | polled hcalls hregs hnone hmade =>
      obtain ⟨rfl, rfl⟩ := State.mk.inj hs
      refine .polled hcalls (hregs.sent hsent) ?_ (hsent.accepted ▸ hmade)
      rw [hnone] at hheld
      exact List.length_eq_zero_iff.mp (Nat.le_zero.mp hheld)
  | again hcalls hn hregs hone hmade =>
      obtain ⟨rfl, rfl⟩ := State.mk.inj hs
      exact .again hcalls hn (hregs.sent hsent) (Nat.le_trans hheld hone) (hsent.accepted ▸ hmade)

/-- A write of the first initialisation. -/
theorem Phase.start {n : Nat} {u : Uart} (hn : n < 6) (hregs : Programmed u₀.dlab n u)
    (haccepted : u.accepted = u₀.accepted) (hle : Serial.sent u₀ <+: Serial.sent u)
    (hstep : step .cpu ⟨u, init115200.drop n ++ calls.flatMap Call.ops⟩ = some s') :
    Phase u₀ calls s' := by
  obtain ⟨port, value, hdrop, hnext, hsame, hclear, hkeep⟩ := hregs.write_sent hn
  rw [hdrop, List.cons_append, step_outb] at hstep
  obtain rfl := Option.some.inj hstep
  by_cases hlast : n = 5
  · obtain ⟨hheld, htaken⟩ := hclear hlast
    subst hlast
    refine .between (List.nil_append calls) hnext (by rw [hheld]; exact Nat.zero_le 1) ?_
    rw [htaken]
    refine ⟨_, ⟨?_, hle⟩, .nil⟩
    rw [← haccepted]
    exact List.prefix_append _ _
  · exact .starting (by omega) hnext ((hkeep hlast).2.trans haccepted) (hsame ▸ hle)

/-- A write of a later initialisation. -/
theorem Phase.restart {n : Nat} {past rest : List Call} {u : Uart}
    (hcalls : past ++ .init115200 :: rest = calls) (hn : n < 6) (hregs : Programmed false n u)
    (hone : u.holding.length ≤ 1) (hmade : Made u₀ past u.accepted)
    (hstep : step .cpu ⟨u, init115200.drop n ++ rest.flatMap Call.ops⟩ = some s') :
    Phase u₀ calls s' := by
  obtain ⟨port, value, hdrop, hnext, hsame, hclear, hkeep⟩ := hregs.write_sent hn
  rw [hdrop, List.cons_append, step_outb] at hstep
  obtain rfl := Option.some.inj hstep
  by_cases hlast : n = 5
  · obtain ⟨hheld, htaken⟩ := hclear hlast
    subst hlast
    have hregs' : Programmed u₀.dlab 6 (outb u port value) :=
      ⟨nofun, fun hle _ => hnext.ier hle rfl, by omega, hnext.dll, hnext.dlm, hnext.lcr, hnext.fifo⟩
    have hpast : (past ++ [.init115200]) ++ rest = calls := by
      rw [List.append_assoc, List.singleton_append, hcalls]
    refine .between hpast hregs' (by rw [hheld]; exact Nat.zero_le 1) ?_
    rw [htaken]
    obtain ⟨base, hbase, hdelivered⟩ := hmade
    rw [accepted_eq] at hdelivered
    refine ⟨base, hbase, ?_⟩
    -- At most one character was still held.
    match hholding : u.holding with
    | [] =>
        rw [hholding, List.append_nil] at hdelivered
        exact .kept hdelivered
    | [c] =>
        rw [hholding] at hdelivered
        exact .dropped hdelivered
    | _ :: _ :: _ =>
        rw [hholding] at hone
        simp at hone
  · obtain ⟨hheld, htaken⟩ := hkeep hlast
    exact .again hcalls (by omega) hnext (by rw [hheld]; exact hone) (htaken ▸ hmade)

/-- **Every step keeps the invariant.** -/
theorem Phase.step {e : Event} (h : Phase u₀ calls s) (hstep : Serial.step e s = some s') :
    Phase u₀ calls s' := by
  by_cases he : e = .cpu
  · subst he
    cases h with
    | starting hn hregs haccepted hle => exact .start hn hregs haccepted hle hstep
    | again hcalls hn hregs hone hmade => exact .restart hcalls hn hregs hone hmade hstep
    | @polled past rest c u hcalls hregs hnone hmade =>
        rw [step_outb] at hstep
        obtain rfl := Option.some.inj hstep
        obtain ⟨hwrite, haccepted⟩ := Uart.accepted_write (c := c) hregs.dlab hnone
        have hout : outb u regThr c = u.write 0 c := rfl
        rw [hout]
        have hpast : (past ++ [.writeChar c]) ++ rest = calls := by
          rw [List.append_assoc, List.singleton_append, hcalls]
        refine .between hpast ?_ ?_ ?_
        · rw [hwrite]
          exact ⟨nofun, hregs.ier, by omega, hregs.dll, hregs.dlm, hregs.lcr, hregs.fifo⟩
        · rw [hwrite]
          exact Nat.le_refl 1
        · rw [haccepted]
          obtain ⟨base, hbase, hdelivered⟩ := hmade
          exact ⟨base, hbase, hdelivered.write⟩
    | @between past rest u hcalls hregs hone hmade =>
        cases rest with
        | nil => cases hstep
        | cons call rest =>
            cases call with
            | init115200 =>
                refine Phase.restart (n := 0) hcalls (by decide) ?_ hone hmade hstep
                exact ⟨fun _ => hregs.dlab, by omega, by omega, by omega, by omega, by omega,
                  by omega⟩
            | writeChar c =>
                have hcode : (Call.writeChar c :: rest).flatMap Call.ops =
                    .awaitThr :: .outb regThr c :: rest.flatMap Call.ops := rfl
                rw [hcode, step_awaitThr] at hstep
                obtain rfl := Option.some.inj hstep
                split
                · rename_i hnone
                  exact .polled hcalls hregs hnone hmade
                · rw [← hcode]
                  exact .between hcalls hregs hone hmade
  · obtain ⟨u, code⟩ := s
    obtain ⟨u', code'⟩ := s'
    obtain ⟨rfl, hsent⟩ := step_transmitter he hstep
    exact h.sent hsent

/-- The calls that are left are none when their code is. -/
theorem flatMap_ops_eq_nil {rest : List Call} (h : rest.flatMap Call.ops = []) : rest = [] := by
  cases rest with
  | nil => rfl
  | cons call rest => cases call <;> cases h

/-- The end of the calls. -/
theorem Phase.done (h : Phase u₀ calls s) (hdone : s.code = []) :
    Programmed u₀.dlab 6 s.uart ∧ Made u₀ calls s.uart.accepted := by
  cases h with
  | starting hn hregs haccepted hle =>
      obtain ⟨port, value, hdrop, -⟩ := hregs.write hn
      rw [show State.code _ = _ from rfl, hdrop] at hdone
      cases hdone
  | again hcalls hn hregs hone hmade =>
      obtain ⟨port, value, hdrop, -⟩ := hregs.write hn
      rw [show State.code _ = _ from rfl, hdrop] at hdone
      cases hdone
  | polled hcalls hregs hnone hmade => cases hdone
  | between hcalls hregs hone hmade =>
      obtain rfl := flatMap_ops_eq_nil hdone
      rw [List.append_nil] at hcalls
      exact ⟨hregs, hcalls ▸ hmade⟩

end Phases

/-! ## Results -/

/-- The driver before its calls; the first one initialises the UART. -/
def start (u₀ : Uart) (calls : List Call) : State :=
  ⟨u₀, (.init115200 :: calls).flatMap Call.ops⟩

theorem phase_start (u₀ : Uart) (calls : List Call) : Phase u₀ calls (start u₀ calls) :=
  .starting (n := 0) (by decide)
    ⟨fun _ => rfl, by omega, by omega, by omega, by omega, by omega, by omega⟩ rfl
    (List.prefix_refl _)

section Results

variable {u₀ : Uart} {calls : List Call}

/-- **What the UART takes.**  Whatever state it was in and however the transmitter is timed, the
characters are taken in order, each one once; an initialisation drops what the queue still holds,
which is one character at most behind the first one. -/
theorem serial_delivers {events : List Event} {s : State}
    (hrun : runs step events (start u₀ calls) = some s) (hdone : s.code = []) :
    ∃ base, base <+: u₀.accepted ∧ sent u₀ <+: base ∧ Delivered base calls s.uart.accepted := by
  have hphase := runs_invariant (fun _ s => Phase u₀ calls s) (phase_start u₀ calls)
    (fun _ _ _ _ h hstep => h.step hstep) hrun
  obtain ⟨-, base, ⟨hle, hsent⟩, hdelivered⟩ := hphase.done hdone
  exact ⟨base, hle, hsent, hdelivered⟩

/-- A UART that holds nothing, with its queue off. -/
def idleUart : Uart := ⟨0, 0, 0, 0, false, [], none, []⟩

/-- Two characters, another initialisation, and one character more. -/
def greeting : List Call := [.writeChar 72, .writeChar 105, .init115200, .writeChar 33]

/-- The initialisation keeps the second character or drops it. -/
theorem delivered_greeting {t : List UInt8} (h : Delivered [] greeting t) :
    t = [72, 105, 33] ∨ t = [72, 33] := by
  have hwrites : Delivered [] ((([72, 105] : List UInt8).map .writeChar ++ [.init115200]) ++
      ([33] : List UInt8).map .writeChar) t := h
  obtain ⟨t, hinit, rfl⟩ := hwrites.append_writes
  rcases hinit.of_init with hkept | ⟨c, hdropped⟩
  · left
    rw [hkept.of_writes]
    rfl
  · right
    have htaken : t ++ [c] = [72] ++ [105] := hdropped.of_writes
    obtain ⟨rfl, -⟩ := List.append_inj' htaken rfl
    rfl

/-- A run in which the transmitter takes the first character only. -/
theorem serial_delivers_greeting :
    ∃ s, runs step (List.replicate 8 .cpu ++ .load :: List.replicate 10 .cpu)
        (start idleUart greeting) = some s ∧ s.code = [] ∧
      (s.uart.accepted = [72, 105, 33] ∨ s.uart.accepted = [72, 33]) := by
  obtain ⟨s, hrun, hdone⟩ : ∃ s, runs step (List.replicate 8 .cpu ++ .load :: List.replicate 10 .cpu)
      (start idleUart greeting) = some s ∧ s.code = [] := ⟨_, rfl, rfl⟩
  obtain ⟨base, hbase, -, hdelivered⟩ := serial_delivers hrun hdone
  obtain rfl : base = [] := List.prefix_nil.mp hbase
  exact ⟨s, hrun, hdone, delivered_greeting hdelivered⟩

/-- **What the registers are.**  Behind any calls the UART sends 8N1 frames from its FIFO, with a
divisor of 16: 7200 bits a second from a clock of 1.8432 MHz. -/
theorem serial_registers {events : List Event} {s : State}
    (hrun : runs step events (start u₀ calls) = some s) (hdone : s.code = []) :
    s.uart.lcr = 0x03 ∧ s.uart.fifo = true ∧ (u₀.dlab = false → s.uart.ier = 0) ∧
      s.uart.divisor = 16 ∧ s.uart.baud 1843200 = 7200 := by
  have hphase := runs_invariant (fun _ s => Phase u₀ calls s) (phase_start u₀ calls)
    (fun _ _ _ _ h hstep => h.step hstep) hrun
  obtain ⟨hregs, -⟩ := hphase.done hdone
  have hdivisor : s.uart.divisor = 16 := by
    rw [Uart.divisor, hregs.dlm (by decide), hregs.dll (by decide)]
    rfl
  refine ⟨hregs.lcr (by decide), hregs.fifo (by decide), hregs.ier (by decide), hdivisor, ?_⟩
  rw [Uart.baud, hdivisor]

theorem serial_registers_char :
    ∃ s, runs step (List.replicate 8 .cpu) (start idleUart [.writeChar 72]) = some s ∧
      s.uart.baud 1843200 = 7200 := by
  obtain ⟨s, hrun, hdone⟩ : ∃ s, runs step (List.replicate 8 .cpu)
      (start idleUart [.writeChar 72]) = some s ∧ s.code = [] := ⟨_, rfl, rfl⟩
  exact ⟨s, hrun, (serial_registers hrun hdone).2.2.2.2⟩

/-- How far the driver and the transmitter are from their end. -/
def distance (s : State) : Nat := 3 * s.code.length + s.uart.backlog

theorem backlog_outb (u : Uart) (port : UInt16) (value : UInt8) :
    (outb u port value).backlog ≤ u.backlog + 2 := by
  unfold outb
  split
  · exact u.backlog_write _ _
  · exact Nat.le_add_right _ _

/-- An event that brings the end closer. -/
def Shortens (e : Event) (s : State) : Prop := ∃ s', step e s = some s' ∧ distance s' < distance s

/-- Every move of the transmitter brings the end closer. -/
theorem distance_transmitter {e : Event} {s s' : State} (he : e ≠ .cpu)
    (hstep : step e s = some s') : distance s' < distance s := by
  obtain ⟨hcode, hsent⟩ := step_transmitter he hstep
  have hbacklog := hsent.backlog
  unfold distance
  rw [hcode]
  omega

/-- Every step brings the end closer, or is a turn of a wait. -/
theorem approaches_done (u₀ : Uart) (calls : List Call) :
    Approaches step (fun _ => True) (Phase u₀ calls) (fun s => s.code = [] ∧ s.uart.Idle) distance
      Shortens where
  keeps := fun _ _ _ h hstep => h.step hstep
  closer := fun _ _ _ _ h => h
  down := by
    intro e s s' _ _ hstep
    by_cases he : e = .cpu
    · subst he
      obtain ⟨u, code⟩ := s
      match code with
      | [] => cases hstep
      | .outb port value :: code =>
          obtain rfl := Option.some.inj hstep
          left
          have hle := backlog_outb u port value
          simp only [distance, List.length_cons]
          omega
      | .awaitThr :: code =>
          rw [step_awaitThr] at hstep
          obtain rfl := Option.some.inj hstep
          split
          · left
            simp only [distance, List.length_cons]
            omega
          · exact Or.inr ⟨rfl, fun _ h => h⟩
    · exact Or.inl (distance_transmitter he hstep)
  helpful := by
    intro s _ hgoal
    have htransmitter : ¬ s.uart.Idle → ∃ e, True ∧ Shortens e s := by
      intro hbusy
      have hmove : ∃ e s', e ≠ .cpu ∧ step e s = some s' := by
        rcases Uart.exists_sent hbusy with ⟨u', hload⟩ | ⟨u', hout⟩
        · exact ⟨.load, _, by decide, by rw [step, hload]; rfl⟩
        · exact ⟨.shiftOut, _, by decide, by rw [step, hout]; rfl⟩
      obtain ⟨e, s', he, hstep⟩ := hmove
      exact ⟨e, trivial, s', hstep, distance_transmitter he hstep⟩
    obtain ⟨u, code⟩ := s
    match code with
    | [] => exact htransmitter fun hidle => hgoal ⟨rfl, hidle⟩
    | .outb port value :: code =>
        have hle := backlog_outb u port value
        refine ⟨.cpu, trivial, _, step_outb port value, ?_⟩
        simp only [distance, List.length_cons]
        omega
    | .awaitThr :: code =>
        by_cases hnone : u.holding = []
        · refine ⟨.cpu, trivial, ⟨u, code⟩, by rw [step_awaitThr, if_pos hnone], ?_⟩
          simp only [distance, List.length_cons]
          omega
        · exact htransmitter fun hidle => hnone hidle.1

/-- Everything written is on the line when the transmitter has come to rest. -/
theorem Phase.line {s : State} (h : Phase u₀ calls s) (hdone : s.code = []) (hidle : s.uart.Idle) :
    ∃ base, base <+: u₀.accepted ∧ Serial.sent u₀ <+: base ∧
      Delivered base calls s.uart.line := by
  obtain ⟨-, base, ⟨hle, hsent⟩, hdelivered⟩ := h.done hdone
  have hline : s.uart.accepted = s.uart.line := by
    rw [Uart.accepted, hidle.1, hidle.2]
    simp
  exact ⟨base, hle, hsent, hline ▸ hdelivered⟩

/-- **Every wait ends.**  Under a fair schedule of the processor and the transmitter all calls
return, and all that they have written, but for what an initialisation drops, is on the line. -/
theorem serial_completes {schedule : Nat → Event} (hfair : Fair schedule) :
    ∃ n base, (follow step schedule (start u₀ calls) n).code = [] ∧
      (follow step schedule (start u₀ calls) n).uart.Idle ∧
      base <+: u₀.accepted ∧ sent u₀ <+: base ∧
      Delivered base calls (follow step schedule (start u₀ calls) n).uart.line := by
  obtain ⟨n, hdone, hidle⟩ := eventually_of_fair (approaches_done u₀ calls) hfair
    (phase_start u₀ calls)
  have hphase := follow_keeps (approaches_done u₀ calls).keeps (phase_start u₀ calls) schedule n
  obtain ⟨base, hle, hsent, hdelivered⟩ := hphase.line hdone hidle
  exact ⟨n, base, hdone, hidle, hle, hsent, hdelivered⟩

/-- The processor and the two moves of the transmitter in turn. -/
def inTurn (n : Nat) : Event :=
  if n % 3 = 0 then .cpu else if n % 3 = 1 then .load else .shiftOut

theorem inTurn_fair : Fair inTurn := by
  intro e _ n
  cases e with
  | cpu => exact ⟨3 * n, by omega, if_pos (by omega)⟩
  | load =>
      refine ⟨3 * n + 1, by omega, ?_⟩
      unfold inTurn
      rw [if_neg (by omega), if_pos (by omega)]
  | shiftOut =>
      refine ⟨3 * n + 2, by omega, ?_⟩
      unfold inTurn
      rw [if_neg (by omega), if_neg (by omega)]

theorem serial_completes_greeting :
    ∃ n, (follow step inTurn (start idleUart greeting) n).uart.line = [72, 105, 33] ∨
      (follow step inTurn (start idleUart greeting) n).uart.line = [72, 33] := by
  obtain ⟨n, base, -, -, hbase, -, hdelivered⟩ :=
    @serial_completes idleUart greeting inTurn inTurn_fair
  obtain rfl : base = [] := List.prefix_nil.mp hbase
  exact ⟨n, delivered_greeting hdelivered⟩

end Results

end Serial
end OsBook
