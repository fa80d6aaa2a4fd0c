import OsBook.Kernel.EntryHalts

/-!
# What `kernel_entry` does to memory

Behind Stage 1 the kernel stores to its descriptor table and to its stack, and
twice to the word of the touch test.  So in every reachable state all other
bytes are those that Stage 1 has left (`entry_unwritten`), and addresses
translate as Stage 1 has arranged, except between the two stores of the touch
test (`entry_memory`).
-/

namespace OsBook
namespace Kernel

open Machine Memory

/-- Neither in the descriptor table nor on the stack. -/
def Unwritten (k : LoadedKernel) (x : UInt64) : Prop :=
  ¬ InBlock k.idt sizeofIdt x ∧ ¬ InStackRange k.toHandover x.toNat

section Memory

variable {k : LoadedKernel} (fw : Firmware) {m : Memory} {P : Paging} (hp : Placed k.toHandover)
  (hk : k.Ok)
include hp hk

/-- The table is in the image. -/
theorem Foreign.unwritten {x : UInt64} (hx : Foreign k.toHandover x) : Unwritten k x :=
  ⟨fun hin => hx.1 (inKernelImage_of_inBlock_idt hp hk hin), hx.2⟩

/-- An operation other than those of the touch test stores to the table and to the stack. -/
theorem exec_unwritten {op : EntryOp} (hflip : op ≠ .flipWord) (hrestore : op ≠ .restoreWord)
    (c : EntryState) :
    (c.exec k op).cr3 = c.cr3 ∧ ∀ x, Unwritten k x → (c.exec k op).mem x = c.mem x := by
  have hgate : ∀ (c : EntryState) (vector : UInt8) (isr : Isr) (typeAttr : UInt8) (x : UInt64),
      Unwritten k x → (c.installGate k vector isr typeAttr).mem x = c.mem x := by
    intro c vector isr typeAttr x hx
    refine (storeFields_of_not_inBlock (show 10 ≤ 2 ^ 64 by decide) (by simp) (fun hin => ?_)
      _).trans (idtSetGate_of_not_inBlock hx.1)
    exact hx.2 (inStackRange_of_inBlock hp hk.idtPointer_fits.2 hin)
  cases op with
  | op o =>
      cases o with
      | io i =>
          cases i with
          | idtSetGate vector timer typeAttr => exact ⟨rfl, hgate _ vector (stub timer) typeAttr⟩
          | _ => exact ⟨rfl, fun _ _ => rfl⟩
      | _ => exact ⟨rfl, fun _ _ => rfl⟩
  | installGate vector isr typeAttr => exact ⟨rfl, hgate c vector isr typeAttr⟩
  | loadBootGdt => exact ⟨rfl, fun x hx => c.loadBootGdt_mem k hp hk hx.2⟩
  | idtClearAll =>
      simp only [EntryState.exec, true_and]
      exact fun x hx => idtClearAll_of_not_inBlock hx.1
  | flipWord => exact absurd rfl hflip
  | restoreWord => exact absurd rfl hrestore
  | _ => exact ⟨rfl, fun _ _ => rfl⟩

/-- Several operations. -/
theorem after_unwritten {ops : List EntryOp} (hflip : EntryOp.flipWord ∉ ops)
    (hrestore : EntryOp.restoreWord ∉ ops) (c : EntryState) :
    (c.after k ops).cr3 = c.cr3 ∧
      ∀ x, Unwritten k x → (c.after k ops).mem x = c.mem x := by
  induction ops generalizing c with
  | nil => exact ⟨rfl, fun _ _ => rfl⟩
  | cons op ops ih =>
      rw [List.mem_cons, not_or] at hflip hrestore
      obtain ⟨hcr3, hmem⟩ := exec_unwritten hp hk (Ne.symm hflip.1) (Ne.symm hrestore.1) c
      obtain ⟨hcr3', hmem'⟩ := ih hflip.2 hrestore.2 (c.exec k op)
      exact ⟨hcr3'.trans hcr3, fun x hx => (hmem' x hx).trans (hmem x hx)⟩

variable (hd : RangesDisjoint k.toHandover) (hc : ConventionalOk k.toHandover m)
  (hb : MapBelow k.toHandover m) (hbuild : buildPaging k.toHandover m = .ok P)
include hd hc hb hbuild

omit hp hk hd hc hb hbuild in
/-- The first store of the touch test, if it does not fault. -/
theorem exec_flipWord_of {c : EntryState} {flipped : Memory} {old : UInt64}
    (hflip : flipMemory c.mem c.cr3 (k.mmapPhys + upperHalf) = some (flipped, old)) :
    c.exec k .flipWord = { c with mem := flipped, old := old } := by
  simp only [EntryState.exec, EntryState.flipWord, hflip, Option.map_some, Option.getD_some]

omit hp hk hd hc hb hbuild in
/-- The second store of the touch test. -/
theorem exec_restoreWord_of {c : EntryState} {restored : Memory}
    (hrestore : restoreMemory c.mem c.cr3 (k.mmapPhys + upperHalf) c.old = some restored) :
    c.exec k .restoreWord = { c with mem := restored } := by
  simp only [EntryState.exec, EntryState.restoreWord, hrestore, Option.map_some, Option.getD_some]

omit hp hk hd hc hb hbuild in
/-- The touch test stands behind its line, and nowhere else. -/
theorem entryCode_touch : ∃ behind,
    entryCode = print "STAGE 1: touch memory\n" ++ .flipWord :: .restoreWord :: behind ∧
      (EntryOp.flipWord ∉ print "STAGE 1: touch memory\n" ∧
        EntryOp.restoreWord ∉ print "STAGE 1: touch memory\n") ∧
      EntryOp.flipWord ∉ behind ∧ EntryOp.restoreWord ∉ behind := by
  refine ⟨print "STAGE 1: paging done\n" ++ (bootSegments ++ (.op (.io .cli) ::
    (stage2 ++ (kernelEntry.map .op ++ stage5)))), ?_, by decide +kernel⟩
  simp only [entryCode, stage1Finish, List.append_assoc, List.cons_append]

/-- Memory before each operation of the main program: one word is flipped in front of the second
store of the touch test. -/
theorem after_memory {done rest : List EntryOp} (hcode : done ++ rest = entryCode) :
    ((fw.enter P).after k done).cr3 = P.pml4Phys ∧
      ((∀ tail, rest ≠ .restoreWord :: tail) ∧
          (∀ x, Unwritten k x → ((fw.enter P).after k done).mem x = P.mem x) ∨
        (∃ tail, rest = .restoreWord :: tail) ∧
          flipMemory P.mem P.pml4Phys (k.mmapPhys + upperHalf) =
            some (((fw.enter P).after k done).mem, ((fw.enter P).after k done).old)) := by
  obtain ⟨flipped, old, hflip, hrestore⟩ := flipMemory_restoreMemory hp hd hc hb hbuild
  obtain ⟨behind, hsplit, hbefore, hafter⟩ := entryCode_touch
  have hsecond : ∀ tail, rest = .restoreWord :: tail →
      done = print "STAGE 1: touch memory\n" ++ [.flipWord] := by
    rintro tail rfl
    have hplace : entryCode =
        (print "STAGE 1: touch memory\n" ++ [.flipWord]) ++ .restoreWord :: behind := by
      rw [hsplit, List.append_assoc, List.singleton_append]
    refine (place_once hplace ?_ hafter.2 hcode).1
    simp [hbefore.2]
  rw [hsplit] at hcode
  rcases List.append_eq_append_iff.mp hcode with ⟨ahead, hdone, -⟩ | ⟨past, rfl, hpast⟩
  · -- Before the touch test.
    have hfirst : ∀ tail, rest ≠ .restoreWord :: tail := by
      intro tail hrest
      have hlength := congrArg List.length (hdone.trans (by rw [hsecond tail hrest]))
      simp at hlength
    rw [hdone] at hbefore
    simp only [List.mem_append, not_or] at hbefore
    obtain ⟨hcr3, hmem⟩ := after_unwritten hp hk hbefore.1.1 hbefore.2.1 (fw.enter P)
    exact ⟨hcr3, Or.inl ⟨hfirst, hmem⟩⟩
  · have hother : past ≠ [.flipWord] → ∀ tail, rest ≠ .restoreWord :: tail :=
      fun hpast tail hrest => hpast (List.append_cancel_left (hsecond tail hrest))
    rw [EntryState.after_append, EntryState.after_print]
    rcases past with _ | ⟨op, past⟩
    · exact ⟨rfl, Or.inl ⟨hother (by simp), fun _ _ => rfl⟩⟩
    obtain ⟨rfl, hnext⟩ := List.cons.inj hpast
    generalize hhw : (fw.enter P).hw.print "STAGE 1: touch memory\n".toList = hw
    rw [EntryState.after_cons, exec_flipWord_of (c := { fw.enter P with hw := hw }) hflip]
    rcases past with _ | ⟨op, past⟩
    · exact ⟨rfl, Or.inr ⟨⟨_, hnext.symm⟩, hflip⟩⟩
    obtain ⟨rfl, (hthird : behind = past ++ rest)⟩ := List.cons.inj hnext
    rw [hthird] at hafter
    simp only [List.mem_append, not_or] at hafter
    rw [EntryState.after_cons,
      exec_restoreWord_of (c := { fw.enter P with hw := hw, mem := flipped, old := old }) hrestore]
    obtain ⟨hcr3, hmem⟩ := after_unwritten hp hk hafter.1.1 hafter.2.1
      { fw.enter P with hw := hw, old := old }
    exact ⟨hcr3, Or.inl ⟨hother (by simp), hmem⟩⟩

omit hc hb hbuild in
/-- The place of the main program in a reachable state that has not left the kernel. -/
theorem entry_place {events : List EntryEvent} {s : EntryState}
    (hgates : Gates k (fw.enter P) k.toHandover.probeFaults)
    (hrun : runs (entryStep k) events (fw.enter P) = some s) (hinside : s.crashed = false) :
    ∃ done rest, done ++ rest = entryCode ∧ s.mem = ((fw.enter P).after k done).mem ∧
      s.cr3 = ((fw.enter P).after k done).cr3 ∧ s.old = ((fw.enter P).after k done).old := by
  have hsafe := @safe_entryCode k fw P hp hk hd
  obtain ⟨⟨hinv, hbusy⟩, hat⟩ := inside_of_run hsafe hgates (mainAt_enter fw) hrun
  have hsame : ∀ {t u : EntryState}, t.setup = u.setup →
      t.mem = u.mem ∧ t.cr3 = u.cr3 ∧ t.old = u.old := fun hsetup =>
    ⟨EntryState.congr_setup EntryState.mem (fun _ => rfl) hsetup,
      EntryState.congr_setup EntryState.cr3 (fun _ => rfl) hsetup,
      EntryState.congr_setup EntryState.old (fun _ => rfl) hsetup⟩
  cases hinv with
  | main hcode hat hsaved hsetup => exact ⟨_, _, hcode, hsame hsetup⟩
  | handler hcode hat hsaved hoff hbody hin hsetup =>
      have hresumed := hsame hsetup
      exact ⟨_, _, hcode, hresumed⟩
  | left hcode hoff =>
      -- A handler still has its return to do, and the main program its last loop.
      have hfree : ¬ s.Busy := by
        intro hsaved
        obtain ⟨body, hbody⟩ := hbusy hsaved
        exact absurd (hbody.code.symm.trans hcode) (by simp)
      rw [settle_of_not_busy hfree] at hat
      rcases hat with ⟨done, rest, hat⟩ | hleft
      · have hplace := hat.here
        rw [hcode] at hplace
        generalize hnil : ([] : List EntryOp) = code at hplace
        cases hplace with
        | here => exact absurd hnil.symm hat.more
        | hlt hwait => cases hnil
      · rw [hleft.crashed] at hinside
        cases hinside

/-- **What no operation writes.**  In every reachable state it is as Stage 1 has left it, but for
the word between the two stores of the touch test. -/
theorem entry_unwritten {events : List EntryEvent} {s : EntryState}
    (hrun : runs (entryStep k) events (fw.enter P) = some s) (hinside : s.crashed = false) :
    s.cr3 = P.pml4Phys ∧
      ((∀ x, Unwritten k x → s.mem x = P.mem x) ∨
        flipMemory P.mem P.pml4Phys (k.mmapPhys + upperHalf) = some (s.mem, s.old)) := by
  have hgates := gates_entryCode fw hp hk hd hc hb hbuild
  obtain ⟨done, rest, hcode, hmem, hcr3, hold⟩ := entry_place fw hp hk hd hgates hrun hinside
  obtain ⟨hroot, hmemory⟩ := after_memory fw hp hk hd hc hb hbuild hcode
  rw [← hcr3] at hroot
  rw [← hmem, ← hold] at hmemory
  exact ⟨hroot, hmemory.imp And.right And.right⟩

/-- **Memory in every reachable state.**  Outside the image and the stack it is as Stage 1 has left
it and addresses translate as they did, but for the word between the two stores of the touch
test. -/
theorem entry_memory {events : List EntryEvent} {s : EntryState}
    (hrun : runs (entryStep k) events (fw.enter P) = some s) (hinside : s.crashed = false) :
    s.cr3 = P.pml4Phys ∧
      ((∀ x, Foreign k.toHandover x → s.mem x = P.mem x) ∧
          (∀ v, translateAddr s.mem s.cr3 v = translateAddr P.mem P.pml4Phys v) ∨
        flipMemory P.mem P.pml4Phys (k.mmapPhys + upperHalf) = some (s.mem, s.old)) := by
  obtain ⟨hroot, hmemory⟩ := entry_unwritten fw hp hk hd hc hb hbuild hrun hinside
  refine ⟨hroot, hmemory.imp_left fun hunwritten => ?_⟩
  have hforeign : ∀ x, Foreign k.toHandover x → s.mem x = P.mem x :=
    fun x hx => hunwritten x (hx.unwritten hp hk)
  refine ⟨hforeign, fun v => ?_⟩
  rw [hroot]
  exact translateAddr_congr hp hc hb hbuild
    (fun x hkernel hstack => hforeign x ⟨hkernel, hstack⟩) v

end Memory

end Kernel
end OsBook
