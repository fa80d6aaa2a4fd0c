import Mathlib.Data.FinEnum
import Mathlib.Data.Fintype.Powerset
import OsBook.Kernel.AllocatorRuns

/-!
# When the page allocator gives up

`allocPage` returns `0` when it finds no page.  A call moves its cursors past
reserved pages and the page it takes, and past nothing else, so a call that finds
no page has left none.  But `0` is an address as well: the page at address `0`
looks like a failure to the caller.
-/

namespace OsBook
namespace Kernel

open Machine

/-- A page that a later call can still take: it lies in the window or in a cached range,
behind the cursors, and passes the reserved-range checks. -/
structure PageLeft (e : AllocEnv) (s : AllocState) (p : UInt64) : Prop where
  aligned : p.toNat % 4096 = 0
  notKernel : e.inKernel p = false
  notStack : e.inStack p = false
  offered : Offered e p
  ahead : ¬ Consumed e s p

section Search

variable {e : AllocEnv} {s s' : AllocState} {found : Option UInt64} {q : UInt64}

theorem PageLeft.not_reserved {sn fbNext : UInt64} {fbIdx : Nat}
    (h : PageLeft e ⟨sn, fbIdx, fbNext⟩ q) : pageOverlapsReserved e sn q = false := by
  have hscratch : ¬ (e.scratch.toNat ≤ q.toNat ∧ q.toNat < sn.toNat) :=
    fun hc => h.ahead (Or.inl hc)
  simp only [pageOverlapsReserved, h.notKernel, h.notStack, Bool.and_eq_true, decide_eq_true_eq,
    ge_iff_le, UInt64.le_iff_toNat_le, UInt64.lt_iff_toNat_lt, hscratch]
  rfl

/-- Behind the window and all ranges nothing is left. -/
theorem PageLeft.fbIdx_lt {sn fbNext : UInt64} {fbIdx : Nat}
    (hexhausted : e.scratchEnd.toNat < sn.toNat + 4096)
    (h : PageLeft e ⟨sn, fbIdx, fbNext⟩ q) : fbIdx < e.ranges.length := by
  rcases h.offered with ⟨hlow, hhigh⟩ | ⟨r, hr, hlow, hhigh⟩
  · exact absurd (Or.inl ⟨hlow, by simp only; omega⟩) h.ahead
  · obtain ⟨i, hi, rfl⟩ := List.getElem_of_mem hr
    by_contra hge
    have hlt : i < fbIdx := Nat.lt_of_lt_of_le hi (Nat.le_of_not_lt hge)
    exact h.ahead (Or.inr ⟨i, _, List.getElem?_eq_getElem hi, hlow, Or.inl ⟨hlt, by omega⟩⟩)

/-- A page of the current range that the inner loop has passed was not left. -/
theorem PageLeft.not_passed {sn fbNext next cur : UInt64} {fbIdx : Nat} {r : Range}
    {found : Option UInt64} (h : PageLeft e ⟨sn, fbIdx, fbNext⟩ q)
    (hr : e.ranges[fbIdx]? = some r) (hcur : cur.toNat = r.start.toNat ∨ cur = fbNext)
    (hcuralign : cur.toNat % 4096 = 0)
    (hrun : CursorRun (fun p => p < r.endExcl) (pageOverlapsReserved e sn) cur found next)
    (hlow : r.start.toNat ≤ q.toNat) (hq : found ≠ some q) : ¬ q.toNat < next.toNat := by
  intro hlt
  by_cases hbefore : q.toNat < fbNext.toNat
  · exact h.ahead (Or.inr ⟨fbIdx, r, hr, hlow, Or.inr ⟨rfl, hbefore⟩⟩)
  · have hcurle : cur.toNat ≤ q.toNat := by
      rcases hcur with hcur | rfl
      · omega
      · omega
    have hskip := (hrun.passed q hcurle hlt (by rw [hcuralign, h.aligned])).2 hq
    exact Bool.false_ne_true (h.not_reserved.symm.trans hskip)

/-- The fallback path loses no page. -/
theorem fallbackPath_complete (ok : e.Ok) {sn : UInt64}
    (hexhausted : e.scratchEnd.toNat < sn.toNat + 4096) :
    ∀ left fbIdx fbNext found s', AllocInv e ⟨sn, fbIdx, fbNext⟩ →
      e.ranges.length ≤ fbIdx + left →
      fallbackPath e sn left fbIdx fbNext = .ok (found, s') →
      ∀ q, PageLeft e ⟨sn, fbIdx, fbNext⟩ q →
        found = some q ∨ found ≠ none ∧ PageLeft e s' q := by
  intro left
  induction left with
  | zero =>
      intro fbIdx fbNext found s' _ hleft _ q hq
      have := hq.fbIdx_lt hexhausted
      omega
  | succ left ih =>
      intro fbIdx fbNext found s' inv hleft h q hq
      have hidx := hq.fbIdx_lt hexhausted
      have hr := List.getElem?_eq_getElem hidx
      generalize e.ranges[fbIdx] = r at hr
      rw [fallbackPath] at h
      simp only [hr] at h
      obtain ⟨⟨found₁, next⟩, hloop, h⟩ := bind_eq_ok.mp h
      obtain ⟨cur, hcureq, hcuralign, -, -, -, hcur⟩ := fallback_cursor ok inv hr
      rw [hcureq] at hloop
      obtain ⟨hrun, hnextalign⟩ := cursorLoop_run (fun x => x.toNat % 4096 = 0)
        (fallback_more ok (List.mem_of_getElem? hr)) _ _ _ _ hcuralign hloop
      -- The inner loop has not passed `q`, unless it returned it.
      have hpassed : ∀ t, e.ranges[fbIdx]? = some t → t.start.toNat ≤ q.toNat →
          found₁ ≠ some q → ¬ q.toNat < next.toNat := by
        intro t ht hlow hne
        rw [hr] at ht
        obtain rfl := Option.some.inj ht
        exact hq.not_passed hr hcur hcuralign hrun hlow hne
      cases found₁ with
      | some p =>
          simp only [Except.ok.injEq, Prod.mk.injEq] at h
          obtain ⟨rfl, rfl⟩ := h
          by_cases hpq : some p = some q
          · exact Or.inl hpq
          · refine Or.inr ⟨by simp, hq.aligned, hq.notKernel, hq.notStack, hq.offered, ?_⟩
            rintro (hscratch | ⟨i, t, ht, hlow, ⟨hi, hlt⟩ | ⟨rfl, hlt⟩⟩)
            · exact hq.ahead (Or.inl hscratch)
            · exact hq.ahead (Or.inr ⟨i, t, ht, hlow, Or.inl ⟨hi, hlt⟩⟩)
            · exact hpassed t ht hlow hpq hlt
      | none =>
          -- The current range is used up, and `q` lies in a later one.
          have hend : r.endExcl.toNat ≤ next.toNat := by
            have hnone := hrun.found_none rfl
            rw [decide_eq_false_iff_not, UInt64.lt_iff_toNat_lt] at hnone
            omega
          refine ih _ _ _ _ (inv.nextRange hexhausted) (by omega) h q
            ⟨hq.aligned, hq.notKernel, hq.notStack, hq.offered, ?_⟩
          rintro (hscratch | ⟨i, t, ht, hlow, ⟨hi, hlt⟩ | ⟨rfl, hlt⟩⟩)
          · exact hq.ahead (Or.inl hscratch)
          · rcases Nat.lt_or_eq_of_le (Nat.le_of_lt_succ hi) with hi | rfl
            · exact hq.ahead (Or.inr ⟨i, t, ht, hlow, Or.inl ⟨hi, hlt⟩⟩)
            · have hnot := hpassed t ht hlow (by simp)
              rw [hr] at ht
              obtain rfl := Option.some.inj ht
              omega
          · simp at hlt

/-- **A search loses no page**: what was left is taken or still left, and if no page is found
none was left. -/
theorem nextPage_complete (ok : e.Ok) (inv : AllocInv e s) (h : nextPage e s = .ok (found, s'))
    (hq : PageLeft e s q) : found = some q ∨ found ≠ none ∧ PageLeft e s' q := by
  obtain ⟨⟨found₁, next⟩, hloop, h⟩ := bind_eq_ok.mp h
  obtain ⟨hrun, hcursor⟩ := scratchLoop_run ok inv hloop
  have hle := hrun.le
  -- The window's cursor only passes reserved pages.
  have hpassed : found₁ ≠ some q → ¬ (e.scratch.toNat ≤ q.toNat ∧ q.toNat < next.toNat) := by
    rintro hne ⟨hqlow, hqhigh⟩
    by_cases hbefore : q.toNat < s.scratchNext.toNat
    · exact hq.ahead (Or.inl ⟨hqlow, hbefore⟩)
    · have halign : q.toNat % 4096 = s.scratchNext.toNat % 4096 := by
        rw [hq.aligned, inv.next_aligned]
      have hskip := (hrun.passed q (by omega) hqhigh halign).2 hne
      rw [hq.notKernel, hq.notStack] at hskip
      exact Bool.false_ne_true hskip
  have hstill : found₁ ≠ some q → PageLeft e { s with scratchNext := next } q := by
    intro hne
    refine ⟨hq.aligned, hq.notKernel, hq.notStack, hq.offered, ?_⟩
    rintro (hscratch | hfallback)
    · exact hpassed hne hscratch
    · exact hq.ahead (Or.inr hfallback)
  cases found₁ with
  | some p =>
      simp only [Except.ok.injEq, Prod.mk.injEq] at h
      obtain ⟨rfl, rfl⟩ := h
      by_cases hpq : some p = some q
      · exact Or.inl hpq
      · exact Or.inr ⟨by simp, hstill hpq⟩
  | none =>
      have hexhausted := scratch_exhausted hcursor.2.2.1 hrun
      exact fallbackPath_complete ok hexhausted _ _ _ _ _ (inv.moveScratch hle hcursor)
        (by omega) h q (hstill (by simp))

/-- The fallback path ends. -/
theorem fallbackPath_ends (ok : e.Ok) {sn : UInt64}
    (hexhausted : e.scratchEnd.toNat < sn.toNat + 4096) :
    ∀ left fbIdx fbNext, AllocInv e ⟨sn, fbIdx, fbNext⟩ →
      ∃ r, fallbackPath e sn left fbIdx fbNext = .ok r := by
  intro left
  induction left with
  | zero => exact fun _ _ _ => ⟨_, rfl⟩
  | succ left ih =>
      intro fbIdx fbNext inv
      rw [fallbackPath]
      cases hr : e.ranges[fbIdx]? with
      | none => exact ⟨_, rfl⟩
      | some r =>
          obtain ⟨cur, hcureq, hcuralign, -⟩ := fallback_cursor ok inv hr
          have hmem := List.mem_of_getElem? hr
          have hend := (ok.range_aligned r hmem).2
          have hlt := r.endExcl.toNat_lt
          have hends : ∃ result, cursorLoop (fun p => p < r.endExcl)
              (pageOverlapsReserved e sn) loopFuel cur = .ok result := by
            apply cursorLoop_ends (fun x => x.toNat % 4096 = 0) (fallback_more ok hmem)
              r.endExcl.toNat
            · intro x _ hmore
              rwa [decide_eq_true_eq, UInt64.lt_iff_toNat_lt] at hmore
            · exact hcuralign
            · norm_num [loopFuel]
            · unfold loopFuel
              omega
          obtain ⟨⟨found, next⟩, hloop⟩ := hends
          simp only [hcureq, hloop]
          cases found with
          | some p => exact ⟨_, rfl⟩
          | none =>
              exact ih (fbIdx + 1) 0 (inv.nextRange hexhausted)

theorem nextPage_ends (ok : e.Ok) (inv : AllocInv e s) : ∃ r, nextPage e s = .ok r := by
  obtain ⟨⟨found, next⟩, hloop⟩ := scratchLoop_ends ok inv
  obtain ⟨hrun, hcursor⟩ := scratchLoop_run ok inv hloop
  rw [nextPage, hloop]
  cases found with
  | some p => exact ⟨_, rfl⟩
  | none =>
      exact fallbackPath_ends ok (scratch_exhausted hcursor.2.2.1 hrun) _ _ _
        (inv.moveScratch hrun.le hcursor)

end Search

/-! ## Calls and runs -/

section Calls

variable {e : AllocEnv} {s s' : AllocState} {m m' : Memory} {p q : UInt64}

theorem allocPage_ends (ok : e.Ok) (inv : AllocInv e s) (m : Memory) :
    ∃ p s' m', allocPage e s m = .ok (p, s', m') := by
  obtain ⟨⟨found, s'⟩, hnext⟩ := nextPage_ends ok inv
  cases found with
  | some p =>
      refine ⟨p, s', zeroPage m p, ?_⟩
      rw [allocPage, hnext]
      rfl
  | none =>
      refine ⟨0, s', m, ?_⟩
      rw [allocPage, hnext]
      rfl

/-- A call that takes a page takes one that was left, and it is no longer left. -/
theorem Taken.pageLeft (h : Taken e s s' p) : PageLeft e s p :=
  ⟨h.aligned, h.notKernel, h.notStack, h.offered, h.fresh⟩

/-- Nothing becomes left again. -/
theorem PageLeft.of_call (ok : e.Ok) (inv : AllocInv e s)
    (h : allocPage e s m = .ok (p, s', m')) (hq : PageLeft e s' q) : PageLeft e s q :=
  ⟨hq.aligned, hq.notKernel, hq.notStack, hq.offered,
    fun hc => hq.ahead ((callOk_of_allocPage ok inv h).2.1 q hc)⟩

/-- A nonzero result was left before the call and is not afterwards. -/
theorem pageLeft_of_result (ok : e.Ok) (inv : AllocInv e s)
    (h : allocPage e s m = .ok (p, s', m')) (hp : p ≠ 0) :
    PageLeft e s p ∧ ¬ PageLeft e s' p := by
  have htaken := (callOk_of_allocPage ok inv h).2.2.2 hp
  exact ⟨htaken.pageLeft, fun hleft => hleft.ahead htaken.consumed⟩

/-- A call keeps every page that was left, apart from its result. -/
theorem pageLeft_after (ok : e.Ok) (inv : AllocInv e s)
    (h : allocPage e s m = .ok (p, s', m')) (hp : p ≠ 0) (hpq : p ≠ q) (hq : PageLeft e s q) :
    PageLeft e s' q := by
  rcases allocPage_cases h with ⟨hnext, -⟩ | ⟨-, hzero, -⟩
  · rcases nextPage_complete ok inv hnext hq with hfound | ⟨-, hleft⟩
    · exact absurd (Option.some.inj hfound) hpq
    · exact hleft
  · exact absurd hzero hp

/-- A zero result means that the page at address `0` was taken or that no page was left. -/
theorem zero_result (ok : e.Ok) (inv : AllocInv e s) (h : allocPage e s m = .ok (0, s', m')) :
    PageLeft e s 0 ∨ ∀ q, ¬ PageLeft e s q := by
  rcases allocPage_cases h with ⟨hnext, -⟩ | ⟨hnext, -, -⟩
  · exact Or.inl ((nextPage_spec ok inv hnext).taken 0 rfl).pageLeft
  · refine Or.inr fun q hq => ?_
    rcases nextPage_complete ok inv hnext hq with hfound | ⟨hne, -⟩
    · cases hfound
    · exact hne rfl

end Calls

section Runs

variable {e : AllocEnv} {s s' : AllocState} {calls : List AllocCall} {q : UInt64}

theorem AllocRun.snoc {m m' : Memory} {p : UInt64} (h : AllocRun e s calls s')
    {s'' : AllocState} (hcall : allocPage e s' m = .ok (p, s'', m')) :
    AllocRun e s (calls ++ [⟨m, p, m'⟩]) s'' := by
  induction h with
  | nil s => exact AllocRun.cons hcall (AllocRun.nil _)
  | cons hfirst _ ih => exact AllocRun.cons hfirst (ih hcall)

/-- A run keeps the invariant, and nothing becomes left again. -/
theorem AllocRun.pageLeft (ok : e.Ok) (h : AllocRun e s calls s') :
    AllocInv e s → AllocInv e s' ∧ ∀ q, PageLeft e s' q → PageLeft e s q := by
  induction h with
  | nil s => exact fun inv => ⟨inv, fun _ hq => hq⟩
  | cons hcall _ ih =>
      intro inv
      obtain ⟨inv', hleft⟩ := ih (callOk_of_allocPage ok inv hcall).1
      exact ⟨inv', fun q hq => (hleft q hq).of_call ok inv hcall⟩

/-- Calling until a call returns `0`: a page that no call has returned is still left. -/
theorem exists_zero_result (ok : e.Ok) (m : Memory) (inv : AllocInv e s) (hq : PageLeft e s 0) :
    ∃ calls t t' m', AllocRun e s calls t ∧ PageLeft e t 0 ∧ allocPage e t m = .ok (0, t', m') := by
  -- Every nonzero result makes the set of pages left smaller.
  induction hset : {q | PageLeft e s q} using WellFoundedLT.induction generalizing s with
  | ind left ih =>
      obtain ⟨p, s', m', hcall⟩ := allocPage_ends ok inv m
      by_cases hp : p = 0
      · subst hp
        exact ⟨[], s, s', m', AllocRun.nil s, hq, hcall⟩
      · obtain ⟨hbefore, hafter⟩ := pageLeft_of_result ok inv hcall hp
        have hlt : {q | PageLeft e s' q} < left := by
          rw [← hset]
          refine ⟨fun q hq => hq.of_call ok inv hcall, fun hle => hafter (hle hbefore)⟩
        have inv' := (callOk_of_allocPage ok inv hcall).1
        obtain ⟨calls, t, t', m'', hrun, hleft, hzero⟩ :=
          ih _ hlt inv' (pageLeft_after ok inv hcall hp hp hq) rfl
        exact ⟨_, t, t', m'', AllocRun.cons hcall hrun, hleft, hzero⟩

/-- **A zero result means exhaustion** in every state that any number of calls can reach,
exactly if the page at address `0` is not one that the allocator can take. -/
theorem zero_means_exhausted_iff (ok : e.Ok) :
    (∀ calls s, AllocRun e (initialAlloc e) calls s → ∀ m, ∃ p s' m',
      allocPage e s m = .ok (p, s', m') ∧ (p = 0 → ∀ q, ¬ PageLeft e s q)) ↔
      ¬ PageLeft e (initialAlloc e) 0 := by
  have inv := allocInv_initial ok
  constructor
  · intro h hzero
    obtain ⟨calls, t, t', m', hrun, hleft, hcall⟩ := exists_zero_result ok (fun _ => 0) inv hzero
    obtain ⟨p, s', m'', hcall', hexhausted⟩ := h calls t hrun fun _ => 0
    rw [hcall] at hcall'
    simp only [Except.ok.injEq, Prod.mk.injEq] at hcall'
    exact hexhausted hcall'.1.symm 0 hleft
  · intro hzero calls s hrun m
    obtain ⟨inv', hleft⟩ := hrun.pageLeft ok inv
    obtain ⟨p, s', m', hcall⟩ := allocPage_ends ok inv' m
    refine ⟨p, s', m', hcall, ?_⟩
    rintro rfl
    rcases zero_result ok inv' hcall with hbad | hnone
    · exact absurd (hleft 0 hbad) hzero
    · exact hnone

end Runs

/-- A window of one page below the kernel, and conventional memory that starts at address `0`. -/
def lowMemoryEnv : AllocEnv where
  kernelPhys := 0x1001000
  kernelEnd := 0x1002000
  stackPhys := 0x200000
  stackEnd := 0x204000
  scratch := 0x1000000
  scratchEnd := 0x1001000
  ranges := [⟨0, 0x3000⟩]

theorem lowMemoryEnv_ok : lowMemoryEnv.Ok := by
  constructor <;> simp [lowMemoryEnv]

/-- The equivalence in this placement. -/
theorem zero_means_exhausted_iff_lowMemory :
    (∀ calls s, AllocRun lowMemoryEnv (initialAlloc lowMemoryEnv) calls s → ∀ m, ∃ p s' m',
      allocPage lowMemoryEnv s m = .ok (p, s', m') ∧
        (p = 0 → ∀ q, ¬ PageLeft lowMemoryEnv s q)) ↔
      ¬ PageLeft lowMemoryEnv (initialAlloc lowMemoryEnv) 0 :=
  zero_means_exhausted_iff lowMemoryEnv_ok

/-- The second call returns the page at address `0`, with the page at `0x1000` left. -/
theorem allocPage_returns_page_zero :
    ∃ calls s s' m', AllocRun lowMemoryEnv (initialAlloc lowMemoryEnv) calls s ∧
      allocPage lowMemoryEnv s (fun _ => 0) = .ok (0, s', m') ∧
      PageLeft lowMemoryEnv s 0x1000 := by
  have hfirst := allocPage_of_free (e := lowMemoryEnv) (s := initialAlloc lowMemoryEnv)
    (by decide) (by decide) (by decide) fun _ => 0
  have hsecond : nextPage lowMemoryEnv ⟨0x1001000, 0, 0⟩ =
      .ok (some 0, ⟨0x1001000, 0, 0x1000⟩) := by
    decide +kernel
  refine ⟨_, ⟨0x1001000, 0, 0⟩, ⟨0x1001000, 0, 0x1000⟩, zeroPage (fun _ => 0) 0,
    AllocRun.cons hfirst (AllocRun.nil _), ?_, by decide, by decide, by decide, ?_, ?_⟩
  · rw [allocPage, hsecond]
    rfl
  · exact Or.inr ⟨_, List.mem_singleton_self _, by decide, by decide⟩
  · rintro (⟨hlow, -⟩ | ⟨i, r, -, -, ⟨hi, -⟩ | ⟨-, hlt⟩⟩)
    · exact absurd hlow (by decide)
    · exact absurd hi (Nat.not_lt_zero i)
    · exact absurd hlt (by decide)

end Kernel
end OsBook
