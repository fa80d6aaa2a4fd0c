import OsBook.Machine.Runs

/-!
# The pipe of the listener lab

A pipe is a byte buffer with a capacity, and `poll` reports whether a byte can
be read or written.  A `Transcript` keeps every byte written and every byte
read, so that the order of the bytes can be stated.

Only `poll` knows the capacity: `write` appends to a full buffer as well.
-/

namespace OsBook
namespace Labs

open Machine

def READABLE : UInt32 := (1 : UInt32) <<< 0

def WRITABLE : UInt32 := (1 : UInt32) <<< 1

structure Pipe where
  cap : UInt64
  bytes : List UInt8 := []
deriving DecidableEq, Repr

def Pipe.poll (p : Pipe) : UInt32 :=
  let s : UInt32 := 0
  let s := if p.bytes ≠ [] then s ||| READABLE else s
  if p.bytes.length < p.cap.toNat then s ||| WRITABLE else s

def Pipe.write (p : Pipe) (v : UInt8) : Pipe := { p with bytes := p.bytes ++ [v] }

/-- The front byte and the pipe without it; reading an empty pipe is undefined. -/
def Pipe.read (p : Pipe) : Option (UInt8 × Pipe) :=
  match p.bytes with
  | [] => none
  | v :: rest => some (v, { p with bytes := rest })

/-- `poll` reports the signal. -/
def Pipe.Reports (p : Pipe) (signal : UInt32) : Prop := p.poll &&& signal ≠ 0

instance (p : Pipe) (signal : UInt32) : Decidable (p.Reports signal) :=
  inferInstanceAs (Decidable (p.poll &&& signal ≠ 0))

/-- The signals are different bits. -/
theorem signal_bits (readable writable : Prop) [Decidable readable] [Decidable writable] :
    let s : UInt32 := if readable then 0 ||| READABLE else 0
    ((if writable then s ||| WRITABLE else s) &&& READABLE ≠ 0 ↔ readable) ∧
      ((if writable then s ||| WRITABLE else s) &&& WRITABLE ≠ 0 ↔ writable) := by
  by_cases hreadable : readable <;> by_cases hwritable : writable <;>
    simp only [hreadable, hwritable, if_true, if_false] <;> decide

theorem Pipe.reports_iff (p : Pipe) :
    (p.Reports READABLE ↔ p.bytes ≠ []) ∧ (p.Reports WRITABLE ↔ p.bytes.length < p.cap.toNat) :=
  signal_bits _ _

/-! ## Transcripts -/

/-- A pipe, all bytes written to it and all bytes read from it. -/
structure Transcript where
  pipe : Pipe
  written : List UInt8
  received : List UInt8
deriving DecidableEq, Repr

def Transcript.new (cap : UInt64) : Transcript := ⟨⟨cap, []⟩, [], []⟩

inductive Access where
  | write (v : UInt8)
  | read
deriving DecidableEq, Repr

/-- A read happens only when `poll` reports `READABLE`. -/
def Transcript.step : Access → Transcript → Option Transcript
  | .write v, t => some ⟨t.pipe.write v, t.written ++ [v], t.received⟩
  | .read, t =>
      if t.pipe.Reports READABLE then
        t.pipe.read.map fun (v, pipe) => ⟨pipe, t.written, t.received ++ [v]⟩
      else none

/-- The bytes read, then the buffered bytes, are the bytes written. -/
def Transcript.InOrder (t : Transcript) : Prop := t.received ++ t.pipe.bytes = t.written

/-- The capacity, the two signals and the order of the bytes. -/
structure Transcript.BoundedFifo (t : Transcript) : Prop where
  bounded : t.pipe.bytes.length ≤ t.pipe.cap.toNat
  readable : t.pipe.Reports READABLE ↔ t.pipe.bytes ≠ []
  writable : t.pipe.Reports WRITABLE ↔ t.pipe.bytes.length + 1 ≤ t.pipe.cap.toNat
  inOrder : t.InOrder

/-- What an access needs for the pipe to stay bounded: a write needs a free byte, and a read happens
only when it is ready. -/
def Access.Ready (access : Access) (t : Transcript) : Prop :=
  match access with
  | .write _ => t.pipe.Reports WRITABLE
  | .read => True

section Step

variable {t t' : Transcript}

/-- **What a step can do.** -/
theorem Transcript.step_cases {access : Access} (h : Transcript.step access t = some t') :
    (∃ v, access = .write v ∧ t' = ⟨t.pipe.write v, t.written ++ [v], t.received⟩) ∨
      ∃ v rest, access = .read ∧ t.pipe.bytes = v :: rest ∧
        t' = ⟨⟨t.pipe.cap, rest⟩, t.written, t.received ++ [v]⟩ := by
  cases access with
  | write v =>
      cases h
      exact Or.inl ⟨v, rfl, rfl⟩
  | read =>
      refine Or.inr ?_
      rw [Transcript.step] at h
      split at h
      · rw [Pipe.read] at h
        cases hbytes : t.pipe.bytes with
        | nil =>
            rw [hbytes] at h
            cases h
        | cons v rest =>
            rw [hbytes] at h
            cases h
            exact ⟨v, rest, rfl, rfl, rfl⟩
      · cases h

theorem Transcript.inOrder_new (cap : UInt64) : (Transcript.new cap).InOrder := rfl

theorem Transcript.InOrder.step {access : Access} (h : t.InOrder)
    (hstep : Transcript.step access t = some t') : t'.InOrder := by
  obtain ⟨v, -, rfl⟩ | ⟨v, rest, -, hbytes, rfl⟩ := Transcript.step_cases hstep
  · rw [Transcript.InOrder, Pipe.write, ← List.append_assoc, h]
  · rw [Transcript.InOrder, hbytes] at h
    rw [Transcript.InOrder, List.append_assoc, List.singleton_append, h]

/-- The signals are always right, so that only the capacity is left to prove. -/
theorem Transcript.boundedFifo_iff :
    t.BoundedFifo ↔ t.pipe.bytes.length ≤ t.pipe.cap.toNat ∧ t.InOrder := by
  obtain ⟨hreadable, hwritable⟩ := t.pipe.reports_iff
  exact ⟨fun h => ⟨h.bounded, h.inOrder⟩, fun h => ⟨h.1, hreadable, hwritable, h.2⟩⟩

/-- **One access.**  It keeps the pipe bounded exactly if it is ready. -/
theorem Transcript.BoundedFifo.step_iff (access : Access) (t t' : Transcript) (h : t.BoundedFifo)
    (hstep : Transcript.step access t = some t') : t'.BoundedFifo ↔ access.Ready t := by
  have hinOrder := h.inOrder.step hstep
  rw [Transcript.boundedFifo_iff, and_iff_left hinOrder]
  obtain ⟨v, rfl, rfl⟩ | ⟨v, rest, rfl, hbytes, rfl⟩ := Transcript.step_cases hstep
  · rw [Access.Ready, h.writable, Pipe.write, List.length_append, List.length_singleton]
  · have hbounded := h.bounded
    rw [hbytes, List.length_cons] at hbounded
    exact iff_of_true (Nat.le_of_succ_le hbounded) trivial

end Step

/-- **The bytes arrive in order.**  In every run, also past the capacity, the bytes read are a
prefix of the bytes written. -/
theorem received_prefix_written {cap : UInt64} {accesses : List Access} {t : Transcript}
    (h : runs Transcript.step accesses (Transcript.new cap) = some t) :
    t.received <+: t.written := by
  have hinOrder : t.InOrder :=
    Reaches.keeps (fun _ _ _ hs hstep => Transcript.InOrder.step hs hstep) ⟨accesses, h⟩
      (Transcript.inOrder_new cap)
  exact ⟨t.pipe.bytes, hinOrder⟩

/-- **When a pipe is a bounded FIFO.**  All states of a sequence of accesses are within the
capacity, with the right signals and the bytes in order, exactly if `poll` reports `WRITABLE` at
every write. -/
theorem boundedFifo_runs_iff (cap : UInt64) (accesses : List Access) :
    (∀ t, Visits Transcript.step accesses (Transcript.new cap) t → t.BoundedFifo) ↔
      ∀ access t t', Takes Transcript.step accesses (Transcript.new cap) access t t' →
        access.Ready t :=
  visits_invariant_iff Transcript.BoundedFifo.step_iff
    (Transcript.boundedFifo_iff.mpr ⟨Nat.zero_le _, Transcript.inOrder_new cap⟩) accesses

/-- A fifth byte is written to the pipe of the lab. -/
theorem not_boundedFifo_runs :
    ¬ ∀ (cap : UInt64) (accesses : List Access) (t : Transcript),
      Visits Transcript.step accesses (Transcript.new cap) t → t.BoundedFifo := by
  intro h
  have hbounded := (h 4 [.write 1, .write 2, .write 3, .write 4, .write 5]
    ⟨⟨4, [1, 2, 3, 4, 5]⟩, [1, 2, 3, 4, 5], []⟩ ⟨_, [], List.append_nil _, rfl⟩).bounded
  exact absurd hbounded (by decide)

end Labs
end OsBook
