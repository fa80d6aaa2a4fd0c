import OsBook.Kernel.EntryAtomic

/-!
# The log of `kernel_entry` under every schedule

The log of the main program is what its operations print, one after the other;
an exception and a wait print what their handlers do.  Between two operations
only the wait of a window prints, as far as its ticks have been counted
(`LogAt`).  So the log of every reachable state is a part of one text
(`logged_run`).

As in the timer stages, a tick counter must not wrap.
-/

namespace OsBook
namespace Kernel

open Machine

/-! ## What the program prints -/

/-- What an operation of the main program prints, with its exception and its ticks. -/
def EntryOp.output (faults : Bool) (op : EntryOp) : List Char :=
  match op with
  | .op (.waitTicks t) => ticks t 3
  | _ => op.text faults

def output (faults : Bool) (ops : List EntryOp) : List Char := ops.flatMap (EntryOp.output faults)

theorem output_concat (faults : Bool) (ops : List EntryOp) (op : EntryOp) :
    output faults (ops ++ [op]) = output faults ops ++ op.output faults := by
  simp only [output, List.flatMap_append, List.flatMap_singleton]

/-- What a wait has printed so far. -/
def waitOutput (rest : List EntryOp) (n : Timer → UInt64) : List Char :=
  match rest with
  | .op (.waitTicks t) :: _ => ticksAt t (n t)
  | _ => []

theorem waitOutput_wait (t : Timer) (tail : List EntryOp) (n : Timer → UInt64) :
    waitOutput (.op (.waitTicks t) :: tail) n = ticksAt t (n t) := rfl

theorem waitOutput_le (faults : Bool) (rest : List EntryOp) (n : Timer → UInt64) :
    waitOutput rest n <+: output faults rest := by
  unfold waitOutput
  split
  · exact (ticks_mono _ (Nat.min_le_right _ 3)).trans (List.prefix_append _ _)
  · exact List.nil_prefix

/-- An operation and its wait have printed all their output. -/
theorem waitOutput_text (faults : Bool) {op : EntryOp} {tail : List EntryOp} {n : Timer → UInt64}
    (hwaited : ∀ t, op = .op (.waitTicks t) → 3 ≤ (n t).toNat) :
    waitOutput (op :: tail) n ++ op.text faults = op.output faults := by
  unfold EntryOp.output
  split
  · rename_i t
    rw [waitOutput_wait, ticksAt_of_le (hwaited t rfl)]
    exact List.append_nil _
  · rename_i hne
    unfold waitOutput
    split
    · rename_i t _ heq
      exact absurd (List.cons.inj heq).1 (hne t)
    · rfl

/-! ## The counters -/

/-- What the counters are where the main program is, after `d` ticks of each timer. -/
structure Counted (d : Timer → Nat) (rest : List EntryOp) (n : Timer → UInt64) : Prop where
  reset : ∀ t, rest = windowOf t → n t = 0
  waiting : ∀ t tail, rest = .op (.waitTicks t) :: tail → (n t).toNat ≤ d t
  waited : ∀ t, rest = .op (.io .cli) :: behindWindow t → 3 ≤ (n t).toNat ∧ (n t).toNat ≤ d t

theorem Counted.mono {d d' : Timer → Nat} {rest : List EntryOp} {n : Timer → UInt64}
    (h : Counted d rest n) (hd : ∀ t, d t ≤ d' t) : Counted d' rest n where
  reset := h.reset
  waiting := fun t tail hrest => (h.waiting t tail hrest).trans (hd t)
  waited := fun t hrest => ⟨(h.waited t hrest).1, (h.waited t hrest).2.trans (hd t)⟩

/-- The counters behind an operation, and what the next wait has printed. -/
theorem Counted.next {d : Timer → Nat} {done tail : List EntryOp} {op : EntryOp}
    {n n' : Timer → UInt64} (hcode : done ++ op :: tail = entryCode) (h : Counted d (op :: tail) n)
    (hcount : n' = op.counts n) (hwaited : ∀ t, op = .op (.waitTicks t) → 3 ≤ (n t).toNat) :
    Counted d tail n' ∧ waitOutput tail n' = [] := by
  subst hcount
  -- A wait starts from a counter that has been reset.
  have hzero : ∀ t rest, tail = .op (.waitTicks t) :: rest → op.counts n t = 0 := by
    intro t rest htail
    obtain ⟨rfl, hwindow⟩ := sti_before_wait hcode htail
    exact h.reset t hwindow
  refine ⟨⟨?_, ?_, ?_⟩, ?_⟩
  · intro t htail
    obtain rfl := reset_before_window hcode htail
    exact Function.update_self ..
  · intro t rest htail
    rw [hzero t rest htail]
    exact Nat.zero_le _
  · intro t htail
    obtain rfl := wait_before_close hcode htail
    exact ⟨hwaited t rfl, h.waiting t tail rfl⟩
  · unfold waitOutput
    split
    · rw [hzero _ _ rfl]
      rfl
    · rfl

/-! ## The log of the main program -/

section Log

variable {k : LoadedKernel} {s₀ s s' : EntryState} {base : List Char} {faults : Bool}
  {d d' : Timer → Nat} {done rest : List EntryOp}

/-- The log where the main program is. -/
structure LogAt (base : List Char) (faults : Bool) (d : Timer → Nat) (done rest : List EntryOp)
    (s : EntryState) : Prop where
  count : Counted d rest s.hw.irqCount
  log : s.hw.log = base ++ output faults done ++ waitOutput rest s.hw.irqCount

theorem LogAt.mono (h : LogAt base faults d done rest s) (hd : ∀ t, d t ≤ d' t) :
    LogAt base faults d' done rest s := ⟨h.count.mono hd, h.log⟩

/-- The log is a part of what the whole program prints. -/
theorem LogAt.log_le (h : LogAt base faults d done rest s) (hcode : done ++ rest = entryCode) :
    s.hw.log <+: base ++ output faults entryCode := by
  rw [h.log, ← hcode, output, output, List.flatMap_append, List.append_assoc,
    List.prefix_append_right_inj, List.prefix_append_right_inj]
  exact waitOutput_le faults _ _

/-- **One step of the processor keeps the log.** -/
theorem LogAt.op (h : LogAt base faults d done rest s) (hcode : done ++ rest = entryCode)
    (hmove : OpMove k s₀ faults done rest s s') :
    ∃ done' rest', MainAt k s₀ done' rest' s' ∧ LogAt base faults d done' rest' s' := by
  cases hmove with
  | @next op tail hrest hat hawake hlog hcount hwaited =>
      subst hrest
      obtain ⟨hnext, hnone⟩ := h.count.next hcode hcount hwaited
      refine ⟨_, _, hat, hnext, ?_⟩
      rw [hnone, hlog, h.log, output_concat, List.append_nil, List.append_assoc,
        waitOutput_text faults hwaited, List.append_assoc]
  | wait hat hsleeps hlog hcount =>
      refine ⟨_, _, hat, ?_, ?_⟩
      · rw [hcount]
        exact h.count
      · rw [hlog, hcount]
        exact h.log

theorem behindWindow_inj {t t' : Timer} (h : behindWindow t = behindWindow t') : t = t' := by
  have hlength := congrArg List.length h
  have hne : (behindWindow .pit).length ≠ (behindWindow .lapic).length := by decide +kernel
  cases t with
  | pit =>
      cases t' with
      | pit => rfl
      | lapic => exact absurd hlength hne
  | lapic =>
      cases t' with
      | pit => exact absurd hlength.symm hne
      | lapic => rfl

theorem source_inj {t t' : Timer} (h : t.source = t'.source) : t = t' := by
  cases t <;> cases t' <;> first | rfl | cases h

/-- A tick behind the third prints nothing. -/
theorem countedLine_of_le (t : Timer) {n : UInt64} (hn : 3 ≤ n.toNat)
    (hwrap : n.toNat + 1 < 2 ^ 64) : countedLine t (n + 1) = [] := by
  have hthree : (3 : UInt64).toNat = 3 := rfl
  refine if_neg fun hle => ?_
  rw [UInt64.le_iff_toNat_le, toNat_succ hwrap, hthree] at hle
  omega

/-- A counted tick, inside the wait or right behind it. -/
theorem Counted.tick {d' : Timer → Nat} {rest : List EntryOp} {n : Timer → UInt64} {t : Timer}
    (h : Counted d rest n) (hplace : rest = .op (.waitTicks t) :: .op (.io .cli) :: behindWindow t ∨
      rest = .op (.io .cli) :: behindWindow t) (hd : d' t = d t + 1) (hbound : d' t < 2 ^ 64) :
    Counted d' rest (Function.update n t (n t + 1)) ∧
      waitOutput rest (Function.update n t (n t + 1)) =
        waitOutput rest n ++ countedLine t (n t + 1) := by
  rcases hplace with rfl | rfl
  · have hle := h.waiting t _ rfl
    have hwrap : (n t).toNat + 1 < 2 ^ 64 := by omega
    refine ⟨⟨?_, ?_, ?_⟩, ?_⟩
    · rintro t' ⟨⟩
    · rintro t' tail ⟨rfl, rfl⟩
      rw [Function.update_self, toNat_succ hwrap]
      omega
    · rintro t' ⟨⟩
    · rw [waitOutput_wait, waitOutput_wait, Function.update_self, ticksAt_succ t hwrap, countedLine]
  · obtain ⟨hthree, hle⟩ := h.waited t rfl
    have hwrap : (n t).toNat + 1 < 2 ^ 64 := by omega
    refine ⟨⟨?_, ?_, ?_⟩, ?_⟩
    · rintro t' ⟨⟩
    · rintro t' tail ⟨⟩
    · intro t' heq
      obtain rfl := behindWindow_inj (List.cons.inj heq).2
      rw [Function.update_self, toNat_succ hwrap]
      omega
    · rw [countedLine_of_le t hthree hwrap]
      rfl

/-- **A tick keeps the log.** -/
theorem LogAt.tick {t : Timer} (h : LogAt base faults d done rest s)
    (hplace : rest = .op (.waitTicks t) :: .op (.io .cli) :: behindWindow t ∨
      rest = .op (.io .cli) :: behindWindow t)
    (hlog : s'.hw.log = s.hw.log ++ countedLine t (s.hw.irqCount t + 1))
    (hcount : s'.hw.irqCount = Function.update s.hw.irqCount t (s.hw.irqCount t + 1))
    (hd : d' t = d t + 1) (hbound : d' t < 2 ^ 64) : LogAt base faults d' done rest s' := by
  obtain ⟨hcounted, houtput⟩ := h.count.tick hplace hd hbound
  rw [← hcount] at hcounted houtput
  refine ⟨hcounted, ?_⟩
  rw [hlog, h.log, houtput, List.append_assoc]

/-- The main program with its log, or what was printed before control left the kernel. -/
def Logged (k : LoadedKernel) (s₀ : EntryState) (base : List Char) (faults : Bool)
    (d : Timer → Nat) (s : EntryState) : Prop :=
  (∃ done rest, MainAt k s₀ done rest s ∧ LogAt base faults d done rest s) ∨
    Left s ∧ s.hw.log <+: base ++ output faults entryCode

theorem Logged.mono (h : Logged k s₀ base faults d s) (hd : ∀ t, d t ≤ d' t) :
    Logged k s₀ base faults d' s := by
  rcases h with ⟨done, rest, hat, hlog⟩ | h
  · exact Or.inl ⟨done, rest, hat, hlog.mono hd⟩
  · exact Or.inr h

theorem Logged.log_le (h : Logged k s₀ base faults d s) :
    s.hw.log <+: base ++ output faults entryCode := by
  rcases h with ⟨done, rest, hat, hlog⟩ | ⟨-, hlog⟩
  · exact hlog.log_le hat.code
  · exact hlog

/-- **Every step with its handler keeps the log.** -/
theorem Logged.step (hgates : Gates k s₀ faults) {e : EntryEvent}
    (h : Logged k s₀ base faults d s) (hstep : atomicStep k e s = some s')
    (hd : ∀ t, d' t = if e = .irq t.source then d t + 1 else d t) (hbound : ∀ t, d' t < 2 ^ 64) :
    Logged k s₀ base faults d' s' := by
  have hmono : ∀ t, d t ≤ d' t := by
    intro t
    rw [hd]
    split <;> omega
  rcases h with ⟨done, rest, hat, hlog⟩ | ⟨hleft, hlog⟩
  · cases e with
    | op => exact Logged.mono (Or.inl (hlog.op hat.code (hat.op_move hgates hstep))) hmono
    | irq src =>
        cases hat.irq_move hgates hstep with
        | @tick t hsource hplace hat' hawake hsame hline hcount =>
            refine Or.inl ⟨_, _, hat', hlog.tick hplace hline hcount ?_ (hbound t)⟩
            rw [hd, if_pos (by rw [hsource])]
        | left hleft hsame =>
            refine Or.inr ⟨hleft, ?_⟩
            rw [hsame]
            exact hlog.log_le hat.code
  · rw [hleft.stuck] at hstep
    cases hstep

/-- The log of a run with handlers as single steps. -/
theorem Logged.run (hgates : Gates k s₀ faults) (hstart : Logged k s₀ base faults (fun _ => 0) s₀)
    {events : List EntryEvent} (hticks : ∀ t : Timer, events.count (.irq t.source) < 2 ^ 64)
    (hrun : runs (atomicStep k) events s₀ = some s) :
    Logged k s₀ base faults (fun t => events.count (.irq t.source)) s := by
  refine runs_invariant (fun past s => (∀ t : Timer, past.count (.irq t.source) < 2 ^ 64) →
    Logged k s₀ base faults (fun t => past.count (.irq t.source)) s) (fun _ => hstart) ?_
    hrun hticks
  intro past e s s' hpast hstep hticks
  have hcount : ∀ t : Timer, (past ++ [e]).count (.irq t.source) =
      if e = .irq t.source then past.count (.irq t.source) + 1 else past.count (.irq t.source) := by
    intro t
    rw [List.count_append, List.count_singleton]
    by_cases he : e = .irq t.source <;> simp [he]
  have hbound : ∀ t : Timer, past.count (.irq t.source) < 2 ^ 64 := by
    intro t
    have hle : past.count (.irq t.source) ≤ (past ++ [e]).count (.irq t.source) :=
      (List.sublist_append_left past [e]).count_le _
    exact Nat.lt_of_le_of_lt hle (hticks t)
  exact (hpast hbound).step hgates hstep hcount hticks

/-- **The log of every reachable state**, if no tick counter wraps. -/
theorem logged_run (hsafe : ∀ done rest, done ++ rest = entryCode → Safe k rest (s₀.after k done))
    (hgates : Gates k s₀ faults) (hstart : MainAt k s₀ [] entryCode s₀)
    (hlog : LogAt base faults (fun _ => 0) [] entryCode s₀) {events : List EntryEvent}
    (hticks : ∀ t : Timer, events.count (.irq t.source) < 2 ^ 64)
    (hrun : runs (entryStep k) events s₀ = some s) :
    s.hw.log <+: base ++ output faults entryCode ∧
      (¬ s.Busy → Logged k s₀ base faults (fun t => events.count (.irq t.source)) s) := by
  obtain ⟨-, events', hsub, hatomic⟩ := entry_runs_atomically hsafe hstart hrun
  have hle : ∀ t : Timer, events'.count (.irq t.source) ≤ events.count (.irq t.source) :=
    fun t => hsub.count_le _
  have hlogged := (Logged.run hgates (Or.inl ⟨_, _, hstart, hlog⟩)
    (fun t => Nat.lt_of_le_of_lt (hle t) (hticks t)) hatomic).mono hle
  constructor
  · refine List.IsPrefix.trans ?_ hlogged.log_le
    unfold settle
    split
    · exact s.log_finish
    · exact List.prefix_refl _
  · intro hfree
    rwa [settle_of_not_busy hfree] at hlogged

end Log

end Kernel
end OsBook
