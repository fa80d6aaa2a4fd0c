import Mathlib.Tactic
import OsBook.Machine.Runs

/-!
# Channel accounting

The channel of the lab keeps three counters and no messages.  A `Ledger` stands
it beside the sizes of the messages that were accepted and not yet received, so
that the counters can be compared with what they count.

Two defects show.  The capacity tests of `send` add in 64 bits, and a sum that
wraps passes them.  `recv` releases two bytes and one capability, whatever the
oldest message holds.
-/

namespace OsBook
namespace Labs

open Machine

structure Channel where
  bufCap : UInt64
  capsCap : UInt64
  msgQueueCap : UInt64
  bytesUsed : UInt64 := 0
  capsUsed : UInt64 := 0
  msgQueueUsed : UInt64 := 0
deriving DecidableEq, Repr

/-- The updates of `send`. -/
def Channel.accept (ch : Channel) (bytesLen capsLen : UInt64) : Channel :=
  { ch with
    bytesUsed := ch.bytesUsed + bytesLen
    capsUsed := ch.capsUsed + capsLen
    msgQueueUsed := ch.msgQueueUsed + 1 }

/-- The result of the call, and the channel after it. -/
def Channel.send (ch : Channel) (bytesLen capsLen : UInt64) : Bool × Channel :=
  if ch.msgQueueUsed + 1 > ch.msgQueueCap then (false, ch)
  else if ch.bytesUsed + bytesLen > ch.bufCap then (false, ch)
  else if ch.capsUsed + capsLen > ch.capsCap then (false, ch)
  else (true, ch.accept bytesLen capsLen)

/-- The updates of `recv`. -/
def Channel.release (ch : Channel) : Channel :=
  { ch with
    bytesUsed := ch.bytesUsed - 2
    capsUsed := ch.capsUsed - 1
    msgQueueUsed := ch.msgQueueUsed - 1 }

def Channel.recv (ch : Channel) (bytesCap capsCapReq : UInt64) : Bool × Channel :=
  if ch.msgQueueUsed = 0 then (false, ch)
  else if bytesCap < 2 then (false, ch)
  else if capsCapReq < 1 then (false, ch)
  else (true, ch.release)

/-! ## Admission -/

/-- No counter exceeds its capacity. -/
structure Channel.WithinCaps (ch : Channel) : Prop where
  bytes : ch.bytesUsed ≤ ch.bufCap
  caps : ch.capsUsed ≤ ch.capsCap
  messages : ch.msgQueueUsed ≤ ch.msgQueueCap

/-- The three capacity conditions, in exact arithmetic. -/
structure Channel.Fits (ch : Channel) (bytesLen capsLen : UInt64) : Prop where
  messages : ch.msgQueueUsed.toNat + 1 ≤ ch.msgQueueCap.toNat
  bytes : ch.bytesUsed.toNat + bytesLen.toNat ≤ ch.bufCap.toNat
  caps : ch.capsUsed.toNat + capsLen.toNat ≤ ch.capsCap.toNat

/-- The channel has the same capacities, and its counters have grown by one message. -/
structure Channel.Grown (ch : Channel) (bytesLen capsLen : UInt64) (ch' : Channel) : Prop where
  bufCap : ch'.bufCap = ch.bufCap
  capsCap : ch'.capsCap = ch.capsCap
  msgQueueCap : ch'.msgQueueCap = ch.msgQueueCap
  messages : ch'.msgQueueUsed.toNat = ch.msgQueueUsed.toNat + 1
  bytes : ch'.bytesUsed.toNat = ch.bytesUsed.toNat + bytesLen.toNat
  caps : ch'.capsUsed.toNat = ch.capsUsed.toNat + capsLen.toNat

/-- `send` admits exactly what fits, and changes the channel only then. -/
structure Channel.SendsExactly (ch : Channel) (bytesLen capsLen : UInt64) : Prop where
  admits : (ch.send bytesLen capsLen).1 = true ↔ ch.Fits bytesLen capsLen
  grown : (ch.send bytesLen capsLen).1 = true →
    ch.Grown bytesLen capsLen (ch.send bytesLen capsLen).2 ∧
      (ch.send bytesLen capsLen).2.WithinCaps
  unchanged : (ch.send bytesLen capsLen).1 = false → (ch.send bytesLen capsLen).2 = ch

/-- None of the three sums wraps. -/
structure Channel.NoWrap (ch : Channel) (bytesLen capsLen : UInt64) : Prop where
  messages : ch.msgQueueUsed.toNat + 1 < 2 ^ 64
  bytes : ch.bytesUsed.toNat + bytesLen.toNat < 2 ^ 64
  caps : ch.capsUsed.toNat + capsLen.toNat < 2 ^ 64

/-- One of the three sums exceeds its capacity and does not wrap. -/
def Channel.Overfull (ch : Channel) (bytesLen capsLen : UInt64) : Prop :=
  (ch.msgQueueCap.toNat < ch.msgQueueUsed.toNat + 1 ∧ ch.msgQueueUsed.toNat + 1 < 2 ^ 64) ∨
  (ch.bufCap.toNat < ch.bytesUsed.toNat + bytesLen.toNat ∧
    ch.bytesUsed.toNat + bytesLen.toNat < 2 ^ 64) ∨
  (ch.capsCap.toNat < ch.capsUsed.toNat + capsLen.toNat ∧
    ch.capsUsed.toNat + capsLen.toNat < 2 ^ 64)

/-- What a capacity test sees: a sum that wraps is below the counter, and so within capacity. -/
theorem add_gt_iff {used cap : UInt64} (len : UInt64) (h : used ≤ cap) :
    used + len > cap ↔ cap.toNat < used.toNat + len.toNat ∧ used.toNat + len.toNat < 2 ^ 64 := by
  have hused : used.toNat ≤ cap.toNat := h
  have hcap := cap.toNat_lt
  have hlen := len.toNat_lt
  rw [gt_iff_lt, UInt64.lt_iff_toNat_lt, UInt64.toNat_add]
  omega

section Send

variable {ch : Channel} {bytesLen capsLen : UInt64}

/-- **What `send` does.** -/
theorem Channel.WithinCaps.send_eq (h : ch.WithinCaps) (bytesLen capsLen : UInt64) :
    (ch.Overfull bytesLen capsLen ∧ ch.send bytesLen capsLen = (false, ch)) ∨
      (¬ ch.Overfull bytesLen capsLen ∧
        ch.send bytesLen capsLen = (true, ch.accept bytesLen capsLen)) := by
  have hmessages := add_gt_iff 1 h.messages
  have hbytes := add_gt_iff bytesLen h.bytes
  have hcaps := add_gt_iff capsLen h.caps
  rw [UInt64.toNat_one] at hmessages
  unfold Channel.send Channel.Overfull
  rw [← hmessages, ← hbytes, ← hcaps]
  by_cases h₁ : ch.msgQueueUsed + 1 > ch.msgQueueCap
  · exact Or.inl ⟨Or.inl h₁, if_pos h₁⟩
  by_cases h₂ : ch.bytesUsed + bytesLen > ch.bufCap
  · exact Or.inl ⟨Or.inr (Or.inl h₂), by rw [if_neg h₁, if_pos h₂]⟩
  by_cases h₃ : ch.capsUsed + capsLen > ch.capsCap
  · exact Or.inl ⟨Or.inr (Or.inr h₃), by rw [if_neg h₁, if_neg h₂, if_pos h₃]⟩
  · exact Or.inr ⟨by tauto, by rw [if_neg h₁, if_neg h₂, if_neg h₃]⟩

theorem Channel.Fits.not_overfull (h : ch.Fits bytesLen capsLen) :
    ¬ ch.Overfull bytesLen capsLen := by
  have hmessages := h.messages
  have hbytes := h.bytes
  have hcaps := h.caps
  unfold Channel.Overfull
  omega

theorem Channel.Fits.noWrap (h : ch.Fits bytesLen capsLen) : ch.NoWrap bytesLen capsLen where
  messages := Nat.lt_of_le_of_lt h.messages ch.msgQueueCap.toNat_lt
  bytes := Nat.lt_of_le_of_lt h.bytes ch.bufCap.toNat_lt
  caps := Nat.lt_of_le_of_lt h.caps ch.capsCap.toNat_lt

theorem Channel.NoWrap.fits (h : ch.NoWrap bytesLen capsLen)
    (hfull : ¬ ch.Overfull bytesLen capsLen) : ch.Fits bytesLen capsLen := by
  have hmessages := h.messages
  have hbytes := h.bytes
  have hcaps := h.caps
  unfold Channel.Overfull at hfull
  constructor <;> omega

/-- Counters that have grown by what fits have not wrapped. -/
theorem Channel.Fits.grown (h : ch.Fits bytesLen capsLen) :
    ch.Grown bytesLen capsLen (ch.accept bytesLen capsLen) where
  bufCap := rfl
  capsCap := rfl
  msgQueueCap := rfl
  messages := by
    rw [Channel.accept, UInt64.toNat_add, UInt64.toNat_one, Nat.mod_eq_of_lt h.noWrap.messages]
  bytes := by rw [Channel.accept, UInt64.toNat_add, Nat.mod_eq_of_lt h.noWrap.bytes]
  caps := by rw [Channel.accept, UInt64.toNat_add, Nat.mod_eq_of_lt h.noWrap.caps]

theorem Channel.Grown.withinCaps {ch' : Channel} (h : ch.Grown bytesLen capsLen ch')
    (hfits : ch.Fits bytesLen capsLen) : ch'.WithinCaps where
  bytes := by
    rw [UInt64.le_iff_toNat_le, h.bytes, h.bufCap]
    exact hfits.bytes
  caps := by
    rw [UInt64.le_iff_toNat_le, h.caps, h.capsCap]
    exact hfits.caps
  messages := by
    rw [UInt64.le_iff_toNat_le, h.messages, h.msgQueueCap]
    exact hfits.messages

/-- **When `send` is exact.**  The tests agree with exact arithmetic as long as no sum wraps, or
when another sum is over its capacity without wrapping. -/
theorem Channel.sendsExactly_iff (h : ch.WithinCaps) :
    ch.SendsExactly bytesLen capsLen ↔
      ch.NoWrap bytesLen capsLen ∨ ch.Overfull bytesLen capsLen := by
  rcases h.send_eq bytesLen capsLen with ⟨hfull, hsend⟩ | ⟨hfull, hsend⟩
  · refine iff_of_true ⟨?_, ?_, ?_⟩ (Or.inr hfull)
    · rw [hsend]
      exact iff_of_false Bool.false_ne_true fun hfits => hfits.not_overfull hfull
    · rw [hsend]
      exact fun hfalse => absurd hfalse Bool.false_ne_true
    · rw [hsend]
      exact fun _ => rfl
  · constructor
    · intro hexact
      have hfits := hexact.admits.mp (by rw [hsend])
      exact Or.inl hfits.noWrap
    · rintro (hwrap | hfull')
      · have hfits := hwrap.fits hfull
        refine ⟨?_, ?_, ?_⟩
        · rw [hsend]
          exact iff_of_true rfl hfits
        · rw [hsend]
          exact fun _ => ⟨hfits.grown, hfits.grown.withinCaps hfits⟩
        · rw [hsend]
          exact fun hfalse => absurd hfalse.symm Bool.false_ne_true
      · exact absurd hfull' hfull

end Send

/-- The channel and the message of the lab. -/
theorem Channel.sendsExactly_lab : Channel.SendsExactly ⟨8, 2, 4, 0, 0, 0⟩ 2 1 :=
  (Channel.sendsExactly_iff ⟨by decide, by decide, by decide⟩).mpr
    (Or.inl ⟨by decide, by decide, by decide⟩)

/-- One byte is in use, and a message of `2 ^ 64 - 1` bytes is admitted. -/
theorem Channel.not_sendsExactly :
    ¬ ∀ (ch : Channel) (bytesLen capsLen : UInt64), ch.WithinCaps →
      ch.SendsExactly bytesLen capsLen := by
  intro h
  have hexact := h ⟨8, 2, 4, 1, 0, 1⟩ 0xffffffffffffffff 0 ⟨by decide, by decide, by decide⟩
  have hbytes := (hexact.admits.mp (by decide)).bytes
  exact absurd hbytes (by decide)

/-! ## Accounting -/

/-- The payload sizes of a message. -/
structure Message where
  bytes : UInt64
  caps : UInt64
deriving DecidableEq, Repr

/-- The channel, and the accepted messages not yet received, oldest first. -/
structure Ledger where
  channel : Channel
  pending : List Message
deriving DecidableEq, Repr

/-- An initially empty channel. -/
def Ledger.new (bufCap capsCap msgQueueCap : UInt64) : Ledger :=
  ⟨{ bufCap := bufCap, capsCap := capsCap, msgQueueCap := msgQueueCap }, []⟩

inductive Call where
  | send (bytesLen capsLen : UInt64)
  | recv (bytesCap capsCapReq : UInt64)
deriving DecidableEq, Repr

def Ledger.apply (l : Ledger) : Call → Ledger
  | .send bytesLen capsLen =>
      let (ok, channel) := l.channel.send bytesLen capsLen
      ⟨channel, if ok then l.pending ++ [⟨bytesLen, capsLen⟩] else l.pending⟩
  | .recv bytesCap capsCapReq =>
      let (ok, channel) := l.channel.recv bytesCap capsCapReq
      ⟨channel, if ok then l.pending.tail else l.pending⟩

/-- Every call can happen in every state. -/
def Ledger.step (call : Call) (l : Ledger) : Option Ledger := some (l.apply call)

def totalBytes (messages : List Message) : Nat := (messages.map fun m => m.bytes.toNat).sum

def totalCaps (messages : List Message) : Nat := (messages.map fun m => m.caps.toNat).sum

/-- The counters say what is pending, and stay within the capacities. -/
structure Ledger.Accounted (l : Ledger) : Prop where
  bytes : l.channel.bytesUsed.toNat = totalBytes l.pending
  caps : l.channel.capsUsed.toNat = totalCaps l.pending
  messages : l.channel.msgQueueUsed.toNat = l.pending.length
  within : l.channel.WithinCaps
  drained : l.channel.msgQueueUsed = 0 → l.channel.bytesUsed = 0 ∧ l.channel.capsUsed = 0

/-- What a call needs for the counters to stay right: a message must not make a sum wrap unless it
is turned away, and a received message must have held two bytes and one capability. -/
def Call.Balanced (call : Call) (l : Ledger) : Prop :=
  match call with
  | .send bytesLen capsLen =>
      l.channel.NoWrap bytesLen capsLen ∨ l.channel.Overfull bytesLen capsLen
  | .recv bytesCap capsCapReq =>
      2 ≤ bytesCap → 1 ≤ capsCapReq → ∀ m ∈ l.pending.head?, m.bytes = 2 ∧ m.caps = 1

section Ledger

variable {l : Ledger}

/-- An empty queue has no bytes and no capabilities, so the last field follows from the others. -/
theorem Ledger.Accounted.of_counts (hbytes : l.channel.bytesUsed.toNat = totalBytes l.pending)
    (hcaps : l.channel.capsUsed.toNat = totalCaps l.pending)
    (hmessages : l.channel.msgQueueUsed.toNat = l.pending.length)
    (hwithin : l.channel.WithinCaps) : l.Accounted := by
  refine ⟨hbytes, hcaps, hmessages, hwithin, fun hzero => ?_⟩
  rw [hzero, UInt64.toNat_zero] at hmessages
  have hnil : l.pending = [] := List.length_eq_zero_iff.mp hmessages.symm
  rw [hnil] at hbytes hcaps
  exact ⟨UInt64.toNat_inj.mp hbytes, UInt64.toNat_inj.mp hcaps⟩

theorem Ledger.accounted_new (bufCap capsCap msgQueueCap : UInt64) :
    (Ledger.new bufCap capsCap msgQueueCap).Accounted :=
  Ledger.Accounted.of_counts rfl rfl rfl
    ⟨UInt64.zero_le, UInt64.zero_le, UInt64.zero_le⟩

theorem totalBytes_append (l : List Message) (m : Message) :
    totalBytes (l ++ [m]) = totalBytes l + m.bytes.toNat := by
  simp [totalBytes]

theorem totalCaps_append (l : List Message) (m : Message) :
    totalCaps (l ++ [m]) = totalCaps l + m.caps.toNat := by
  simp [totalCaps]

/-- **One `send`.**  It keeps the accounts exactly if it is balanced. -/
theorem Ledger.Accounted.send_iff (h : l.Accounted) (bytesLen capsLen : UInt64) :
    (l.apply (.send bytesLen capsLen)).Accounted ↔ (Call.send bytesLen capsLen).Balanced l := by
  rcases h.within.send_eq bytesLen capsLen with ⟨hfull, hsend⟩ | ⟨hfull, hsend⟩
  · refine iff_of_true ?_ (Or.inr hfull)
    simp only [Ledger.apply, hsend, Bool.false_eq_true, if_false]
    exact h
  · simp only [Ledger.apply, hsend, if_true]
    constructor
    · intro hnext
      -- A counter that equals the new total has not wrapped.
      have hbytes := hnext.bytes
      have hcaps := hnext.caps
      have hmessages := hnext.messages
      simp only [totalBytes_append, totalCaps_append, List.length_append, List.length_singleton,
        ← h.bytes, ← h.caps, ← h.messages] at hbytes hcaps hmessages
      exact Or.inl ⟨hmessages ▸ UInt64.toNat_lt _, hbytes ▸ UInt64.toNat_lt _,
        hcaps ▸ UInt64.toNat_lt _⟩
    · rintro (hwrap | hfull')
      · have hfits := hwrap.fits hfull
        have hgrown := hfits.grown
        refine Ledger.Accounted.of_counts ?_ ?_ ?_ (hgrown.withinCaps hfits)
        · rw [hgrown.bytes, totalBytes_append, h.bytes]
        · rw [hgrown.caps, totalCaps_append, h.caps]
        · rw [hgrown.messages, List.length_append, h.messages, List.length_singleton]
      · exact absurd hfull' hfull

/-- A counter is reduced by the right amount exactly if the amount is what the oldest message
held. -/
theorem sub_toNat_eq_iff {used : UInt64} (amount : UInt64) {held rest : Nat}
    (h : used.toNat = held + rest) : (used - amount).toNat = rest ↔ held = amount.toNat := by
  have hused := used.toNat_lt
  have hamount := amount.toNat_lt
  rw [UInt64.toNat_sub]
  omega

theorem sub_le_of_toNat {used amount cap : UInt64} {held rest : Nat}
    (h : used.toNat = held + rest) (hrest : (used - amount).toNat = rest) (hcap : used ≤ cap) :
    used - amount ≤ cap := by
  refine UInt64.le_trans (UInt64.le_iff_toNat_le.mpr ?_) hcap
  omega

theorem Channel.recv_eq (ch : Channel) (bytesCap capsCapReq : UInt64) :
    ((ch.msgQueueUsed = 0 ∨ bytesCap < 2 ∨ capsCapReq < 1) ∧
        ch.recv bytesCap capsCapReq = (false, ch)) ∨
      (ch.msgQueueUsed ≠ 0 ∧ 2 ≤ bytesCap ∧ 1 ≤ capsCapReq ∧
        ch.recv bytesCap capsCapReq = (true, ch.release)) := by
  unfold Channel.recv
  by_cases h₁ : ch.msgQueueUsed = 0
  · exact Or.inl ⟨Or.inl h₁, if_pos h₁⟩
  by_cases h₂ : bytesCap < 2
  · exact Or.inl ⟨Or.inr (Or.inl h₂), by rw [if_neg h₁, if_pos h₂]⟩
  by_cases h₃ : capsCapReq < 1
  · exact Or.inl ⟨Or.inr (Or.inr h₃), by rw [if_neg h₁, if_neg h₂, if_pos h₃]⟩
  · exact Or.inr ⟨h₁, UInt64.not_lt.mp h₂, UInt64.not_lt.mp h₃,
      by rw [if_neg h₁, if_neg h₂, if_neg h₃]⟩

/-- Releasing the oldest message is right exactly if it held two bytes and one capability. -/
theorem Ledger.Accounted.release_iff {m : Message} {rest : List Message} (h : l.Accounted)
    (hpending : l.pending = m :: rest) :
    Ledger.Accounted ⟨l.channel.release, rest⟩ ↔ m.bytes = 2 ∧ m.caps = 1 := by
  have hbytes : l.channel.bytesUsed.toNat = m.bytes.toNat + totalBytes rest := by
    rw [h.bytes, hpending, totalBytes, List.map_cons, List.sum_cons, totalBytes]
  have hcaps : l.channel.capsUsed.toNat = m.caps.toNat + totalCaps rest := by
    rw [h.caps, hpending, totalCaps, List.map_cons, List.sum_cons, totalCaps]
  have hmessages : l.channel.msgQueueUsed.toNat = 1 + rest.length := by
    rw [h.messages, hpending, List.length_cons, Nat.add_comm]
  have hbytes_iff := sub_toNat_eq_iff 2 hbytes
  have hcaps_iff := sub_toNat_eq_iff 1 hcaps
  have hlength : (l.channel.msgQueueUsed - 1).toNat = rest.length :=
    (sub_toNat_eq_iff 1 hmessages).mpr rfl
  constructor
  · intro hnext
    exact ⟨UInt64.toNat_inj.mp (hbytes_iff.mp hnext.bytes),
      UInt64.toNat_inj.mp (hcaps_iff.mp hnext.caps)⟩
  · rintro ⟨hm, hm'⟩
    have hbytes' := hbytes_iff.mpr (congrArg UInt64.toNat hm)
    have hcaps' := hcaps_iff.mpr (congrArg UInt64.toNat hm')
    exact Ledger.Accounted.of_counts hbytes' hcaps' hlength
      ⟨sub_le_of_toNat hbytes hbytes' h.within.bytes, sub_le_of_toNat hcaps hcaps' h.within.caps,
        sub_le_of_toNat hmessages hlength h.within.messages⟩

/-- **One `recv`.**  It keeps the accounts exactly if it is balanced. -/
theorem Ledger.Accounted.recv_iff (h : l.Accounted) (bytesCap capsCapReq : UInt64) :
    (l.apply (.recv bytesCap capsCapReq)).Accounted ↔
      (Call.recv bytesCap capsCapReq).Balanced l := by
  rcases l.channel.recv_eq bytesCap capsCapReq with
    ⟨hrefused, hrecv⟩ | ⟨hqueue, hbytesCap, hcapsCap, hrecv⟩
  · simp only [Ledger.apply, hrecv, Bool.false_eq_true, if_false]
    refine iff_of_true h fun hbytesCap hcapsCap m hm => ?_
    rcases hrefused with hempty | hlt | hlt
    · -- An empty queue holds no message.
      have hlength := h.messages
      rw [hempty, UInt64.toNat_zero] at hlength
      rw [List.length_eq_zero_iff.mp hlength.symm] at hm
      cases hm
    · exact absurd hlt (UInt64.not_lt.mpr hbytesCap)
    · exact absurd hlt (UInt64.not_lt.mpr hcapsCap)
  · simp only [Ledger.apply, hrecv, if_true]
    cases hpending : l.pending with
    | nil =>
        have hlength := h.messages
        rw [hpending, List.length_nil] at hlength
        exact absurd (UInt64.toNat_inj.mp hlength) hqueue
    | cons m rest =>
        rw [List.tail_cons, h.release_iff hpending]
        refine ⟨fun hm _ _ m' hm' => ?_, fun hbalanced => ?_⟩
        · rw [hpending, List.head?_cons, Option.mem_some_iff] at hm'
          exact hm' ▸ hm
        · exact hbalanced hbytesCap hcapsCap m (by rw [hpending]; rfl)

theorem Ledger.Accounted.step_iff (call : Call) (l l' : Ledger) (h : l.Accounted)
    (hstep : Ledger.step call l = some l') : l'.Accounted ↔ call.Balanced l := by
  cases hstep
  cases call with
  | send bytesLen capsLen => exact h.send_iff bytesLen capsLen
  | recv bytesCap capsCapReq => exact h.recv_iff bytesCap capsCapReq

end Ledger

/-- **When the accounts are right.**  From an empty channel, the counters are right after every
call of a sequence exactly if all its calls are balanced. -/
theorem accounted_runs_iff (bufCap capsCap msgQueueCap : UInt64) (calls : List Call) :
    (∀ l, Visits Ledger.step calls (Ledger.new bufCap capsCap msgQueueCap) l → l.Accounted) ↔
      ∀ call l l', Takes Ledger.step calls (Ledger.new bufCap capsCap msgQueueCap) call l l' →
        call.Balanced l :=
  visits_invariant_iff Ledger.Accounted.step_iff
    (Ledger.accounted_new bufCap capsCap msgQueueCap) calls

/-- No message of the sequence is larger than the channel. -/
def PayloadsWithin (bufCap capsCap : UInt64) (calls : List Call) : Prop :=
  ∀ bytesLen capsLen, Call.send bytesLen capsLen ∈ calls → bytesLen ≤ bufCap ∧ capsLen ≤ capsCap

/-- A message of three bytes is sent and received, and one byte stays on the account. -/
theorem not_accounted_runs :
    ¬ ∀ (bufCap capsCap msgQueueCap : UInt64) (calls : List Call),
      PayloadsWithin bufCap capsCap calls → ∀ l,
        Visits Ledger.step calls (Ledger.new bufCap capsCap msgQueueCap) l → l.Accounted := by
  intro h
  have hwithin : PayloadsWithin 8 2 [.send 3 1, .recv 3 1] := by
    intro bytesLen capsLen hmem
    simp only [List.mem_cons, Call.send.injEq, reduceCtorEq, List.not_mem_nil, or_false] at hmem
    exact ⟨hmem.1 ▸ by decide, hmem.2 ▸ by decide⟩
  have haccounted := h 8 2 4 _ hwithin
    (Ledger.apply (Ledger.apply (Ledger.new 8 2 4) (.send 3 1)) (.recv 3 1))
    ⟨[.send 3 1, .recv 3 1], [], rfl, rfl⟩
  exact absurd haccounted.bytes (by decide)

end Labs
end OsBook
