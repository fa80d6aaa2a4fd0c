import OsBook.Machine.Gates

/-!
# The kernel's interrupt descriptor table

`idtClearAll` and `idtSetGate` store the fields of a packed entry; the handler's
address is split into three of them.  The functions take the address of the
table, `kernelPhys + &g_idt`, and nothing is assumed about it.
-/

namespace OsBook
namespace Kernel

open Machine Memory

structure IdtEntry where
  offsetLo : UInt16
  selector : UInt16
  ist : UInt8
  typeAttr : UInt8
  offsetMid : UInt16
  offsetHi : UInt32
  reserved : UInt32
deriving DecidableEq, Repr

/-- The fields of a packed entry, in the order in which the kernel stores them. -/
def IdtEntry.fields (e : IdtEntry) : List PackedField :=
  [⟨0, 2, e.offsetLo.toNat⟩, ⟨6, 2, e.offsetMid.toNat⟩, ⟨8, 4, e.offsetHi.toNat⟩,
   ⟨2, 2, e.selector.toNat⟩, ⟨4, 1, e.ist.toNat⟩, ⟨5, 1, e.typeAttr.toNat⟩,
   ⟨12, 4, e.reserved.toNat⟩]

/-- Store the fields of entry `t[vector]`. -/
def storeEntry (m : Memory) (t : UInt64) (vector : UInt8) (e : IdtEntry) : Memory :=
  m.storeFields (gateAddr t vector) e.fields

/-- `sizeof(g_idt)`. -/
def sizeofIdt : Nat := 256 * 16

/-- The address of `g_idt` in the loaded image. -/
def idtTable (kernelPhys gIdt : UInt64) : UInt64 := kernelPhys + gIdt

def idtClearAll (m : Memory) (t : UInt64) : Memory :=
  (List.range 256).foldl (fun m i => storeEntry m t (UInt8.ofNat i) ⟨0, 0, 0, 0, 0, 0, 0⟩) m

def idtSetGate (m : Memory) (t : UInt64) (vector : UInt8) (handlerVirt : UInt64) (cs : UInt16)
    (typeAttr : UInt8) : Memory :=
  storeEntry m t vector
    { offsetLo := (handlerVirt &&& 0xffff).toUInt16
      offsetMid := ((handlerVirt >>> 16) &&& 0xffff).toUInt16
      offsetHi := (handlerVirt >>> 32).toUInt32
      selector := cs
      ist := 0
      typeAttr := typeAttr
      reserved := 0 }

/-- Store the packed table pointer at `p` on the stack and load it. -/
def idtLoad (m : Memory) (p baseVirt : UInt64) (limit : UInt16) : Memory × Idtr :=
  let m := m.storeFields p [⟨0, 2, limit.toNat⟩, ⟨2, 8, baseVirt.toNat⟩]
  (m, lidt m p)

/-! ## One entry -/

/-- The processor's view of an entry. -/
def IdtEntry.descriptor (e : IdtEntry) : GateDescriptor where
  offset := UInt64.ofNat (e.offsetLo.toNat + 2 ^ 16 * e.offsetMid.toNat + 2 ^ 32 * e.offsetHi.toNat)
  selector := e.selector
  ist := e.ist
  typeAttr := e.typeAttr
  reserved := e.reserved

theorem IdtEntry.fields_fit (e : IdtEntry) : ∀ f ∈ e.fields, f.offset + f.width ≤ 16 := by
  simp [fields]

theorem IdtEntry.fields_apart (e : IdtEntry) : e.fields.Pairwise PackedField.Apart := by
  simp [fields, PackedField.Apart]

/-- The processor decodes a stored entry field by field. -/
theorem readGate_storeEntry (m : Memory) (t : UInt64) (vector : UInt8) (e : IdtEntry) :
    readGate (storeEntry m t vector e) (gateAddr t vector) = e.descriptor := by
  have hread : ∀ f ∈ e.fields,
      (storeEntry m t vector e).load (gateAddr t vector + UInt64.ofNat f.offset) f.width =
        f.value % 256 ^ f.width :=
    fun f hf => load_storeFields (by omega) e.fields_fit e.fields_apart hf m
  generalize storeEntry m t vector e = m' at hread
  generalize gateAddr t vector = a at hread
  simp only [IdtEntry.fields, List.forall_mem_cons] at hread
  obtain ⟨hlo, hmid, hhi, hselector, hist, htype, hreserved, -⟩ := hread
  have hlo' : m'.load a 2 = e.offsetLo.toNat := by
    simp only [UInt64.reduceOfNat, UInt64.add_zero] at hlo
    exact hlo.trans (Nat.mod_eq_of_lt e.offsetLo.toNat_lt)
  have hmid' : m'.load (a + 6) 2 = e.offsetMid.toNat :=
    hmid.trans (Nat.mod_eq_of_lt e.offsetMid.toNat_lt)
  have hhi' : m'.load (a + 8) 4 = e.offsetHi.toNat :=
    hhi.trans (Nat.mod_eq_of_lt e.offsetHi.toNat_lt)
  have hselector' : m'.load (a + 2) 2 = e.selector.toNat :=
    hselector.trans (Nat.mod_eq_of_lt e.selector.toNat_lt)
  have hist' : (m' (a + 4)).toNat = e.ist.toNat := by
    rw [← load_one]
    exact hist.trans (Nat.mod_eq_of_lt e.ist.toNat_lt)
  have htype' : (m' (a + 5)).toNat = e.typeAttr.toNat := by
    rw [← load_one]
    exact htype.trans (Nat.mod_eq_of_lt e.typeAttr.toNat_lt)
  have hreserved' : m'.load (a + 12) 4 = e.reserved.toNat :=
    hreserved.trans (Nat.mod_eq_of_lt e.reserved.toNat_lt)
  ext1
  · simp only [readGate, IdtEntry.descriptor, hlo', hmid', hhi']
  · simp only [readGate, IdtEntry.descriptor, load16, hselector', UInt16.ofNat_toNat]
  · exact UInt8.toNat_inj.mp hist'
  · exact UInt8.toNat_inj.mp htype'
  · simp only [readGate, IdtEntry.descriptor, load32, hreserved', UInt32.ofNat_toNat]

/-- A stored entry changes no byte outside itself. -/
theorem storeEntry_of_not_inBlock {m : Memory} {t x : UInt64} {vector : UInt8} {e : IdtEntry}
    (hx : ¬ InBlock (gateAddr t vector) 16 x) : storeEntry m t vector e x = m x :=
  storeFields_of_not_inBlock (by omega) e.fields_fit hx m

/-- The entry of a vector after a store to any entry. -/
theorem readGate_storeEntry_apply (m : Memory) (t : UInt64) (u v : UInt8) (e : IdtEntry) :
    readGate (storeEntry m t u e) (gateAddr t v) =
      if u = v then e.descriptor else readGate m (gateAddr t v) := by
  split
  next h => rw [← h, readGate_storeEntry]
  next h =>
    exact readGate_congr fun x hx => storeEntry_of_not_inBlock (not_inBlock_gateAddr h hx)

/-- The three parts of a handler's address make up the address. -/
theorem offset_parts (a : UInt64) :
    (a &&& 0xffff).toUInt16.toNat + 2 ^ 16 * ((a >>> 16) &&& 0xffff).toUInt16.toNat +
      2 ^ 32 * (a >>> 32).toUInt32.toNat = a.toNat := by
  have hlow : ∀ b : UInt64, (b &&& 0xffff).toNat = b.toNat % 2 ^ 16 :=
    fun b => Nat.and_two_pow_sub_one_eq_mod b.toNat 16
  have hmid : (a >>> 16).toNat = a.toNat / 2 ^ 16 := Nat.shiftRight_eq_div_pow a.toNat 16
  have hhi : (a >>> 32).toNat = a.toNat / 2 ^ 32 := Nat.shiftRight_eq_div_pow a.toNat 32
  have ha := a.toNat_lt
  rw [UInt64.toNat_toUInt16, UInt64.toNat_toUInt16, UInt64.toNat_toUInt32, hlow, hlow, hmid, hhi]
  omega

/-- One call, read back by the processor. -/
theorem readGate_idtSetGate (m : Memory) (t : UInt64) (u v : UInt8) (handlerVirt : UInt64)
    (cs : UInt16) (typeAttr : UInt8) :
    readGate (idtSetGate m t u handlerVirt cs typeAttr) (gateAddr t v) =
      if u = v then ⟨handlerVirt, cs, 0, typeAttr, 0⟩ else readGate m (gateAddr t v) := by
  rw [idtSetGate, readGate_storeEntry_apply]
  simp only [IdtEntry.descriptor, offset_parts, UInt64.ofNat_toNat]

theorem idtSetGate_of_not_inBlock {m : Memory} {t x : UInt64} {vector : UInt8}
    {handlerVirt : UInt64} {cs : UInt16} {typeAttr : UInt8} (hx : ¬ InBlock t sizeofIdt x) :
    idtSetGate m t vector handlerVirt cs typeAttr x = m x :=
  storeEntry_of_not_inBlock fun h => hx (inBlock_table h)

/-! ## The cleared table -/

/-- A list of stored entries: the entries behind the list keep their value. -/
theorem idtClear_prefix (m : Memory) (t : UInt64) (n : Nat) (hn : n ≤ 256) (v : UInt8) :
    readGate ((List.range n).foldl
        (fun m i => storeEntry m t (UInt8.ofNat i) ⟨0, 0, 0, 0, 0, 0, 0⟩) m) (gateAddr t v) =
      if v.toNat < n then ⟨0, 0, 0, 0, 0⟩ else readGate m (gateAddr t v) := by
  induction n with
  | zero => simp
  | succ n ih =>
      have hsame : UInt8.ofNat n = v ↔ v.toNat = n := by
        rw [← UInt8.toNat_inj, UInt8.toNat_ofNat', Nat.mod_eq_of_lt (by omega)]
        exact eq_comm
      rw [List.range_succ, List.foldl_append, List.foldl_cons, List.foldl_nil,
        readGate_storeEntry_apply, ih (by omega)]
      by_cases hv : v.toNat = n
      · rw [if_pos (hsame.mpr hv), if_pos (by omega)]
        rfl
      · rw [if_neg fun h => hv (hsame.mp h)]
        simp only [show v.toNat < n + 1 ↔ v.toNat < n by omega]

theorem readGate_idtClearAll (m : Memory) (t : UInt64) (v : UInt8) :
    readGate (idtClearAll m t) (gateAddr t v) = ⟨0, 0, 0, 0, 0⟩ := by
  have hv : v.toNat < 256 := v.toNat_lt
  rw [idtClearAll, idtClear_prefix m t 256 (by omega), if_pos hv]

theorem idtClearAll_of_not_inBlock {m : Memory} {t x : UInt64} (hx : ¬ InBlock t sizeofIdt x) :
    idtClearAll m t x = m x := by
  unfold idtClearAll
  induction List.range 256 generalizing m with
  | nil => rfl
  | cons i is ih =>
      rw [List.foldl_cons, ih, storeEntry_of_not_inBlock fun h => hx (inBlock_table h)]

/-! ## Sequences of calls -/

/-- The arguments of one call. -/
structure GateCall where
  vector : UInt8
  handlerVirt : UInt64
  cs : UInt16
  typeAttr : UInt8
deriving DecidableEq, Repr

/-- The descriptor that a call installs. -/
def GateCall.descriptor (c : GateCall) : GateDescriptor :=
  ⟨c.handlerVirt, c.cs, 0, c.typeAttr, 0⟩

/-- Clear the table, then make the calls in order. -/
def installAll (m : Memory) (t : UInt64) (calls : List GateCall) : Memory :=
  calls.foldl (fun m c => idtSetGate m t c.vector c.handlerVirt c.cs c.typeAttr) (idtClearAll m t)

@[simp] theorem installAll_nil (m : Memory) (t : UInt64) :
    installAll m t [] = idtClearAll m t := by
  simp only [installAll, List.foldl_nil]

@[simp] theorem installAll_concat (m : Memory) (t : UInt64) (calls : List GateCall)
    (c : GateCall) :
    installAll m t (calls ++ [c]) =
      idtSetGate (installAll m t calls) t c.vector c.handlerVirt c.cs c.typeAttr := by
  simp only [installAll, List.foldl_append, List.foldl_cons, List.foldl_nil]

/-- The last call for a vector. -/
def lastCall (calls : List GateCall) (v : UInt8) : Option GateCall :=
  calls.reverse.find? fun c => c.vector = v

theorem lastCall_concat (calls : List GateCall) (c : GateCall) (v : UInt8) :
    lastCall (calls ++ [c]) v = if c.vector = v then some c else lastCall calls v := by
  simp only [lastCall, List.reverse_append, List.reverse_singleton, List.singleton_append,
    List.find?_cons]
  split
  next h => rw [if_pos (of_decide_eq_true h)]
  next h => rw [if_neg (of_decide_eq_false h)]

/-- The table holds the last call for every vector. -/
theorem readGate_installAll (m : Memory) (t : UInt64) (calls : List GateCall) (v : UInt8) :
    readGate (installAll m t calls) (gateAddr t v) =
      match lastCall calls v with
      | some c => c.descriptor
      | none => ⟨0, 0, 0, 0, 0⟩ := by
  induction calls using List.reverseRecOn with
  | nil =>
      rw [installAll_nil, readGate_idtClearAll]
      simp [lastCall]
  | append_singleton calls c ih =>
      rw [lastCall_concat, installAll_concat, readGate_idtSetGate]
      by_cases hc : c.vector = v
      · rw [if_pos hc, if_pos hc]
        rfl
      · rw [if_neg hc, if_neg hc]
        exact ih

theorem installAll_of_not_inBlock {m : Memory} {t x : UInt64} (calls : List GateCall)
    (hx : ¬ InBlock t sizeofIdt x) : installAll m t calls x = m x := by
  induction calls using List.reverseRecOn with
  | nil => rw [installAll_nil, idtClearAll_of_not_inBlock hx]
  | append_singleton calls c ih =>
      rw [installAll_concat, idtSetGate_of_not_inBlock hx, ih]

/-- The table register is what was passed to `idtLoad`. -/
theorem idtLoad_idtr (m : Memory) (p baseVirt : UInt64) (limit : UInt16) :
    (idtLoad m p baseVirt limit).2 = ⟨limit, baseVirt⟩ := by
  have hfit : ∀ f ∈ [PackedField.mk 0 2 limit.toNat, ⟨2, 8, baseVirt.toNat⟩],
      f.offset + f.width ≤ 10 := by
    simp
  have hread := fun f hf => load_storeFields (a := p) (f := f) (by omega) hfit
    (by simp [PackedField.Apart]) hf m
  simp only [List.forall_mem_cons] at hread
  obtain ⟨hlimit, hbase, -⟩ := hread
  simp only [UInt64.reduceOfNat, UInt64.add_zero] at hlimit
  have hlimit' := hlimit.trans (Nat.mod_eq_of_lt limit.toNat_lt)
  have hbase' := hbase.trans (Nat.mod_eq_of_lt baseVirt.toNat_lt)
  simp only [idtLoad, lidt, load16, load64]
  exact congrArg₂ Idtr.mk ((congrArg UInt16.ofNat hlimit').trans UInt16.ofNat_toNat)
    ((congrArg UInt64.ofNat hbase').trans UInt64.ofNat_toNat)

/-- **The IDT bytes mean what was installed.**  With the limit `sizeof(g_idt) - 1` the
processor finds an entry for every vector.  It is the descriptor of the last call for the
vector, and a cleared entry, which is not present, without one; no byte outside the table has
changed. -/
theorem idt_holds_last_calls (m : Memory) (t p : UInt64) (calls : List GateCall) :
    (∀ v, (idtLoad (installAll m t calls) p t (UInt16.ofNat (sizeofIdt - 1))).2.gate?
        (installAll m t calls) v =
      some (match lastCall calls v with
        | some c => ⟨c.handlerVirt, c.cs, 0, c.typeAttr, 0⟩
        | none => ⟨0, 0, 0, 0, 0⟩)) ∧
    (∀ v, lastCall calls v = none →
      ¬ (readGate (installAll m t calls) (gateAddr t v)).Present) ∧
    ∀ x, ¬ InBlock t ((UInt16.ofNat (sizeofIdt - 1)).toNat + 1) x →
      installAll m t calls x = m x := by
  refine ⟨fun v => ?_, fun v hv => ?_, fun x hx => installAll_of_not_inBlock calls hx⟩
  · rw [idtLoad_idtr]
    exact (gate?_full _ t v).trans (congrArg some (readGate_installAll m t calls v))
  · rw [readGate_installAll, hv]
    decide

end Kernel
end OsBook
