import OsBook.Kernel.Handover

/-!
# The Stage 1 page allocator

`allocPage` hands out page-table pages from two sources: first a bump cursor
over the scratch window, then a cursor over the cached conventional ranges.
Both advance page by page and skip reserved pages, so both are `cursorLoop`
with different bounds and skip tests.

`Consumed` is the set of pages a cursor has moved past.  The specification
`nextPage_spec` says that a call returns a page that was not consumed before
and is consumed afterwards; that results never repeat follows from this alone.
-/

namespace OsBook
namespace Kernel

open Machine

/-! ## Failing computations -/

/-- A sequence of two steps succeeds exactly when both do. -/
theorem bind_eq_ok {ε α β : Type} {x : Except ε α} {f : α → Except ε β} {b : β} :
    (x >>= f) = .ok b ↔ ∃ a, x = .ok a ∧ f a = .ok b := by
  cases x with
  | error e => simp [bind, Except.bind]
  | ok a => simp [bind, Except.bind]

/-! ## The cursor loop -/

/-- A page cursor takes at most `2 ^ 52` values, so a loop that runs longer has
returned to an earlier cursor and never ends. -/
def loopFuel : Nat := 2 ^ 52

/-- Advance a page cursor while `more` holds, returning the first page that is
not skipped together with the cursor behind it. -/
def cursorLoop (more skip : UInt64 → Bool) :
    (fuel : Nat) → UInt64 → Except Stop (Option UInt64 × UInt64)
  | 0, _ => .error .spin
  | fuel + 1, next =>
      if more next then
        if skip next then cursorLoop more skip fuel (next + pageSize)
        else .ok (some next, next + pageSize)
      else .ok (none, next)

/-- What one run of the loop did: the pages from `next` up to the new cursor
were all in bounds, and all but a returned last one were skipped. -/
structure CursorRun (more skip : UInt64 → Bool) (next : UInt64) (found : Option UInt64)
    (next' : UInt64) : Prop where
  le : next.toNat ≤ next'.toNat
  aligned : next'.toNat % 4096 = next.toNat % 4096
  /-- Every page passed over was in bounds and, unless returned, skipped. -/
  passed : ∀ p : UInt64, next.toNat ≤ p.toNat → p.toNat < next'.toNat →
    p.toNat % 4096 = next.toNat % 4096 → more p = true ∧ (found ≠ some p → skip p = true)
  found_some : ∀ p, found = some p → next.toNat ≤ p.toNat ∧ next'.toNat = p.toNat + 4096 ∧
    p.toNat % 4096 = next.toNat % 4096 ∧ more p = true ∧ skip p = false
  found_none : found = none → more next' = false

/-- The loop moves the cursor only over pages that are in bounds.  `inv` is a
cursor invariant under which the bound test also rules out wrapping. -/
theorem cursorLoop_run {more skip : UInt64 → Bool} (inv : UInt64 → Prop)
    (hmore : ∀ x, inv x → more x = true → x.toNat + 4096 < 2 ^ 64 ∧ inv (x + pageSize)) :
    ∀ fuel next found next', inv next →
      cursorLoop more skip fuel next = .ok (found, next') →
        CursorRun more skip next found next' ∧ inv next' := by
  intro fuel
  induction fuel with
  | zero =>
      intro next found next' _ h
      simp [cursorLoop] at h
  | succ fuel ih =>
      intro next found next' hinv h
      rw [cursorLoop] at h
      by_cases hm : more next = true
      · rw [if_pos hm] at h
        obtain ⟨hroom, hinv'⟩ := hmore next hinv hm
        have hstep := toNat_add_pageSize hroom
        by_cases hs : skip next = true
        · -- `next` is skipped: it joins the pages passed by the rest of the loop.
          rw [if_pos hs] at h
          obtain ⟨hrun, hfinal⟩ := ih _ _ _ hinv' h
          refine ⟨⟨?_, ?_, ?_, ?_, hrun.found_none⟩, hfinal⟩
          · have := hrun.le
            omega
          · have := hrun.aligned
            omega
          · intro p hlow hhigh halign
            by_cases hp : p = next
            · subst hp
              exact ⟨hm, fun _ => hs⟩
            · have hne : p.toNat ≠ next.toNat := fun he => hp (UInt64.toNat_inj.mp he)
              exact hrun.passed p (by omega) hhigh (by omega)
          · intro p hp
            obtain ⟨h₁, h₂, h₃, h₄, h₅⟩ := hrun.found_some p hp
            exact ⟨by omega, h₂, by omega, h₄, h₅⟩
        · -- `next` is returned, with the cursor one page behind it.
          rw [if_neg hs] at h
          simp only [Except.ok.injEq, Prod.mk.injEq] at h
          obtain ⟨rfl, rfl⟩ := h
          refine ⟨⟨by omega, by omega, ?_, ?_, by simp⟩, hinv'⟩
          · intro p hlow hhigh halign
            have hp : p = next := UInt64.toNat_inj.mp (by omega)
            subst hp
            exact ⟨hm, fun hne => absurd rfl hne⟩
          · intro p hp
            obtain rfl := Option.some.inj hp
            exact ⟨le_refl _, hstep, rfl, hm, by simpa using hs⟩
      · rw [if_neg hm] at h
        simp only [Except.ok.injEq, Prod.mk.injEq] at h
        obtain ⟨rfl, rfl⟩ := h
        refine ⟨⟨le_refl _, rfl, ?_, by simp, fun _ => by simpa using hm⟩, hinv⟩
        intro p hlow hhigh _
        omega

/-- The loop ends when a page that stops it lies within the fuel. -/
theorem cursorLoop_ends {more skip : UInt64 → Bool} (inv : UInt64 → Prop)
    (hmore : ∀ x, inv x → more x = true → x.toNat + 4096 < 2 ^ 64 ∧ inv (x + pageSize))
    (stop : Nat) (hstop : ∀ x, inv x → more x = true → x.toNat < stop) :
    ∀ fuel next, inv next → 0 < fuel → stop + 4096 ≤ next.toNat + 4096 * fuel →
      ∃ r, cursorLoop more skip fuel next = .ok r := by
  intro fuel
  induction fuel with
  | zero =>
      intro next _ hpos
      omega
  | succ fuel ih =>
      intro next hinv _ hfuel
      rw [cursorLoop]
      by_cases hm : more next = true
      · rw [if_pos hm]
        obtain ⟨hroom, hinv'⟩ := hmore next hinv hm
        have hstep := toNat_add_pageSize hroom
        by_cases hs : skip next = true
        · rw [if_pos hs]
          have hbelow := hstop next hinv hm
          exact ih _ hinv' (by omega) (by omega)
        · rw [if_neg hs]
          exact ⟨_, rfl⟩
      · rw [if_neg hm]
        exact ⟨_, rfl⟩

/-! ## The allocator -/

namespace AllocEnv

variable (e : AllocEnv)

/-- The page lies in the kernel image. -/
def inKernel (p : UInt64) : Bool := p ≥ e.kernelPhys && p < e.kernelEnd

/-- The page lies in the stack. -/
def inStack (p : UInt64) : Bool := p ≥ e.stackPhys && p < e.stackEnd

end AllocEnv

/-- The cursors of the allocator. -/
structure AllocState where
  scratchNext : UInt64
  fbIdx : Nat
  fbNext : UInt64
deriving DecidableEq, Repr

/-- The allocator before its first call. -/
def initialAlloc (e : AllocEnv) : AllocState := ⟨e.scratch, 0, 0⟩

/-- The reserved-range test of the fallback path. -/
def pageOverlapsReserved (e : AllocEnv) (scratchNext p : UInt64) : Bool :=
  if e.inKernel p then true
  else if e.inStack p then true
  else if p ≥ e.scratch && p < scratchNext then true
  else false

/-- The fallback path: walk the cached ranges from index `fbIdx`.  A zero
`fbNext` means that the current range has not been started. -/
def fallbackPath (e : AllocEnv) (scratchNext : UInt64) :
    (left fbIdx : Nat) → UInt64 → Except Stop (Option UInt64 × AllocState)
  | 0, fbIdx, fbNext => .ok (none, ⟨scratchNext, fbIdx, fbNext⟩)
  | left + 1, fbIdx, fbNext =>
      match e.ranges[fbIdx]? with
      | none => .ok (none, ⟨scratchNext, fbIdx, fbNext⟩)
      | some r => do
          let fbNext := if fbNext = 0 then r.start else fbNext
          let (found, fbNext) ← cursorLoop (fun p => p < r.endExcl)
            (pageOverlapsReserved e scratchNext) loopFuel fbNext
          match found with
          | some p => .ok (some p, ⟨scratchNext, fbIdx, fbNext⟩)
          | none => fallbackPath e scratchNext left (fbIdx + 1) 0

/-- The page the next call takes, if any: the scratch path first, then the
fallback path. -/
def nextPage (e : AllocEnv) (s : AllocState) : Except Stop (Option UInt64 × AllocState) := do
  let (found, scratchNext) ← cursorLoop (fun next => next + pageSize ≤ e.scratchEnd)
    (fun p => e.inKernel p || e.inStack p) loopFuel s.scratchNext
  match found with
  | some p => .ok (some p, { s with scratchNext := scratchNext })
  | none => fallbackPath e scratchNext (e.ranges.length - s.fbIdx) s.fbIdx s.fbNext

/-- Zero the 512 words of a page, so that a new page table starts empty. -/
def zeroPage (m : Memory) (p : UInt64) : Memory := m.fill64 p 0 512

/-- `allocPage`: take a page and zero it, or return `0`. -/
def allocPage (e : AllocEnv) (s : AllocState) (m : Memory) :
    Except Stop (UInt64 × AllocState × Memory) := do
  let (found, s) ← nextPage e s
  match found with
  | some p => .ok (p, s, zeroPage m p)
  | none => .ok (0, s, m)

theorem zeroPage_apply (m : Memory) (p x : UInt64) :
    zeroPage m p x = if InBlock p 4096 x then 0 else m x :=
  m.fill64_zero p 512 (by omega) x

/-! ## Well-formed environments -/

/-- What the allocator relies on: aligned ranges, disjoint fallback ranges, and
a scratch window that ends below the last page of the address space. -/
structure AllocEnv.Ok (e : AllocEnv) : Prop where
  kernelPhys_aligned : e.kernelPhys.toNat % 4096 = 0
  kernelEnd_aligned : e.kernelEnd.toNat % 4096 = 0
  stackPhys_aligned : e.stackPhys.toNat % 4096 = 0
  stackEnd_aligned : e.stackEnd.toNat % 4096 = 0
  scratch_aligned : e.scratch.toNat % 4096 = 0
  scratch_room : e.scratch.toNat + 8192 < 2 ^ 64
  scratchEnd_aligned : e.scratchEnd.toNat % 4096 = 0
  scratchEnd_room : e.scratchEnd.toNat + 4096 < 2 ^ 64
  range_aligned : ∀ r ∈ e.ranges, r.start.toNat % 4096 = 0 ∧ r.endExcl.toNat % 4096 = 0
  ranges_disjoint : e.ranges.Pairwise fun r t => ∀ x : Nat,
    r.start.toNat ≤ x → x < r.endExcl.toNat → t.start.toNat ≤ x → ¬ x < t.endExcl.toNat

/-- Reachable cursors. -/
structure AllocInv (e : AllocEnv) (s : AllocState) : Prop where
  next_aligned : s.scratchNext.toNat % 4096 = 0
  next_low : e.scratch.toNat ≤ s.scratchNext.toNat
  next_room : s.scratchNext.toNat + 4096 < 2 ^ 64
  next_high : s.scratchNext.toNat ≤ e.scratch.toNat ∨ s.scratchNext.toNat ≤ e.scratchEnd.toNat
  /-- The fallback path starts only after the window is used up. -/
  exhausted : 0 < s.fbIdx ∨ s.fbNext ≠ 0 → e.scratchEnd.toNat < s.scratchNext.toNat + 4096
  started : s.fbNext ≠ 0 → ∃ r, e.ranges[s.fbIdx]? = some r ∧
    r.start.toNat ≤ s.fbNext.toNat ∧ s.fbNext.toNat ≤ r.endExcl.toNat ∧
    s.fbNext.toNat % 4096 = 0

/-- The pages the fallback cursor has moved past. -/
def FallbackConsumed (e : AllocEnv) (fbIdx : Nat) (fbNext p : UInt64) : Prop :=
  ∃ i r, e.ranges[i]? = some r ∧ r.start.toNat ≤ p.toNat ∧
    (i < fbIdx ∧ p.toNat < r.endExcl.toNat ∨ i = fbIdx ∧ p.toNat < fbNext.toNat)

/-- The pages the cursors have moved past. -/
def Consumed (e : AllocEnv) (s : AllocState) (p : UInt64) : Prop :=
  (e.scratch.toNat ≤ p.toNat ∧ p.toNat < s.scratchNext.toNat) ∨
    FallbackConsumed e s.fbIdx s.fbNext p

/-- Where a page comes from. -/
def Offered (e : AllocEnv) (p : UInt64) : Prop :=
  (e.scratch.toNat ≤ p.toNat ∧ p.toNat + 4096 ≤ e.scratchEnd.toNat) ∨
    ∃ r ∈ e.ranges, r.start.toNat ≤ p.toNat ∧ p.toNat + 4096 ≤ r.endExcl.toNat

/-- What a page handed out in state `s` satisfies. -/
structure Taken (e : AllocEnv) (s s' : AllocState) (p : UInt64) : Prop where
  aligned : p.toNat % 4096 = 0
  notKernel : e.inKernel p = false
  notStack : e.inStack p = false
  offered : Offered e p
  fresh : ¬ Consumed e s p
  consumed : Consumed e s' p

/-- The effect of one search for a page. -/
structure PageStep (e : AllocEnv) (s : AllocState) (found : Option UInt64) (s' : AllocState) :
    Prop where
  inv : AllocInv e s'
  mono : ∀ p, Consumed e s p → Consumed e s' p
  taken : ∀ p, found = some p → Taken e s s' p

theorem allocInv_initial {e : AllocEnv} (ok : e.Ok) : AllocInv e (initialAlloc e) where
  next_aligned := ok.scratch_aligned
  next_low := le_refl _
  next_room := by
    have := ok.scratch_room
    simp only [initialAlloc]
    omega
  next_high := Or.inl (le_refl _)
  exhausted := by simp [initialAlloc]
  started := by simp [initialAlloc]

/-! ## The specification of one call -/

section Spec

variable {e : AllocEnv} {s s' : AllocState} {found : Option UInt64}

/-- Consuming more pages before a search weakens nothing. -/
theorem PageStep.of_mono {mid : AllocState} (h : PageStep e mid found s')
    (hmono : ∀ p, Consumed e s p → Consumed e mid p) : PageStep e s found s' where
  inv := h.inv
  mono := fun p hp => h.mono p (hmono p hp)
  taken := fun p hp =>
    let t := h.taken p hp
    { t with fresh := fun hc => t.fresh (hmono p hc) }

/-- The invariant of the scratch cursor inside its loop. -/
def ScratchCursor (e : AllocEnv) (x : UInt64) : Prop :=
  x.toNat % 4096 = 0 ∧ e.scratch.toNat ≤ x.toNat ∧ x.toNat + 4096 < 2 ^ 64 ∧
    (x.toNat ≤ e.scratch.toNat ∨ x.toNat ≤ e.scratchEnd.toNat)

theorem AllocInv.scratchCursor (inv : AllocInv e s) : ScratchCursor e s.scratchNext :=
  ⟨inv.next_aligned, inv.next_low, inv.next_room, inv.next_high⟩

/-- The bound test of the scratch loop, below the wrap. -/
theorem scratch_more_iff {x : UInt64} (h : x.toNat + 4096 < 2 ^ 64) :
    decide (x + pageSize ≤ e.scratchEnd) = true ↔ x.toNat + 4096 ≤ e.scratchEnd.toNat := by
  rw [decide_eq_true_eq, UInt64.le_iff_toNat_le, toNat_add_pageSize h]

theorem ScratchCursor.next (ok : e.Ok) (x : UInt64) (h : ScratchCursor e x)
    (hmore : decide (x + pageSize ≤ e.scratchEnd) = true) :
    x.toNat + 4096 < 2 ^ 64 ∧ ScratchCursor e (x + pageSize) := by
  obtain ⟨haligned, hlow, hroom, -⟩ := h
  have hle := (scratch_more_iff hroom).mp hmore
  have hend := ok.scratchEnd_room
  have hstep := toNat_add_pageSize hroom
  unfold ScratchCursor
  rw [hstep]
  omega

theorem scratchLoop_run (ok : e.Ok) (inv : AllocInv e s) {next : UInt64}
    (h : cursorLoop (fun next => next + pageSize ≤ e.scratchEnd)
      (fun p => e.inKernel p || e.inStack p) loopFuel s.scratchNext = .ok (found, next)) :
    CursorRun (fun next => next + pageSize ≤ e.scratchEnd)
        (fun p => e.inKernel p || e.inStack p) s.scratchNext found next ∧
      ScratchCursor e next :=
  cursorLoop_run (ScratchCursor e) (ScratchCursor.next ok) _ _ _ _ inv.scratchCursor h

/-- The scratch loop ends. -/
theorem scratchLoop_ends (ok : e.Ok) (inv : AllocInv e s) :
    ∃ r, cursorLoop (fun next => next + pageSize ≤ e.scratchEnd)
      (fun p => e.inKernel p || e.inStack p) loopFuel s.scratchNext = .ok r := by
  have hend := ok.scratchEnd_room
  apply cursorLoop_ends (ScratchCursor e) (ScratchCursor.next ok) e.scratchEnd.toNat
  · intro x hx hmore
    have := (scratch_more_iff hx.2.2.1).mp hmore
    omega
  · exact inv.scratchCursor
  · norm_num [loopFuel]
  · unfold loopFuel
    omega

/-- Moving the scratch cursor keeps the invariant. -/
theorem AllocInv.moveScratch (inv : AllocInv e s) {next : UInt64}
    (hle : s.scratchNext.toNat ≤ next.toNat) (hcursor : ScratchCursor e next) :
    AllocInv e { s with scratchNext := next } :=
  ⟨hcursor.1, hcursor.2.1, hcursor.2.2.1, hcursor.2.2.2,
    fun hfb => (inv.exhausted hfb).trans_le (Nat.add_le_add_right hle 4096), inv.started⟩

/-- A scratch loop that finds nothing has used up the window. -/
theorem scratch_exhausted {next next' : UInt64} (hroom : next'.toNat + 4096 < 2 ^ 64)
    (hrun : CursorRun (fun next => next + pageSize ≤ e.scratchEnd)
      (fun p => e.inKernel p || e.inStack p) next none next') :
    e.scratchEnd.toNat < next'.toNat + 4096 := by
  by_contra hge
  have hmore := (scratch_more_iff (e := e) hroom).mpr (by omega)
  exact Bool.false_ne_true ((hrun.found_none rfl).symm.trans hmore)

/-- The cursor of the fallback path points at a page of an aligned range. -/
theorem fallback_more (ok : e.Ok) {r : Range} (hr : r ∈ e.ranges) (x : UInt64)
    (hx : x.toNat % 4096 = 0) (hmore : decide (x < r.endExcl) = true) :
    x.toNat + 4096 < 2 ^ 64 ∧ (x + pageSize).toNat % 4096 = 0 := by
  have halign := (ok.range_aligned r hr).2
  have hlt := r.endExcl.toNat_lt
  rw [decide_eq_true_eq, UInt64.lt_iff_toNat_lt] at hmore
  rw [UInt64.toNat_add, toNat_pageSize]
  omega

/-- The cursor inside the current range, whether the range was started or not. -/
theorem fallback_cursor (ok : e.Ok) {sn fbNext : UInt64} {fbIdx : Nat} {r : Range}
    (inv : AllocInv e ⟨sn, fbIdx, fbNext⟩) (hr : e.ranges[fbIdx]? = some r) :
    ∃ cur, (if fbNext = 0 then r.start else fbNext) = cur ∧ cur.toNat % 4096 = 0 ∧
      r.start.toNat ≤ cur.toNat ∧ fbNext.toNat ≤ cur.toNat ∧
      fbNext.toNat ≤ r.endExcl.toNat ∧ (cur.toNat = r.start.toNat ∨ cur = fbNext) := by
  refine ⟨_, rfl, ?_⟩
  by_cases hzero : fbNext = 0
  · subst hzero
    have hstart := (ok.range_aligned r (List.mem_of_getElem? hr)).1
    exact ⟨by simpa using hstart, by simp, by simp, by simp, by simp⟩
  · obtain ⟨r', hr', hlow, hhigh, halign⟩ := inv.started hzero
    simp only at hr' hlow hhigh halign
    rw [hr] at hr'
    obtain rfl := Option.some.inj hr'
    rw [if_neg hzero]
    exact ⟨halign, hlow, le_refl _, hhigh, Or.inr rfl⟩

theorem pageOverlapsReserved_eq_false {sn p : UInt64} (h : pageOverlapsReserved e sn p = false) :
    e.inKernel p = false ∧ e.inStack p = false ∧
      ¬ (e.scratch.toNat ≤ p.toNat ∧ p.toNat < sn.toNat) := by
  unfold pageOverlapsReserved at h
  split at h
  · contradiction
  · rename_i hk
    split at h
    · contradiction
    · rename_i hs
      split at h
      · contradiction
      · rename_i hscratch
        refine ⟨by simpa using hk, by simpa using hs, ?_⟩
        simp only [Bool.and_eq_true, decide_eq_true_eq, ge_iff_le, UInt64.le_iff_toNat_le,
          UInt64.lt_iff_toNat_lt] at hscratch
        exact hscratch

/-- Two cached ranges that share an address are the same one. -/
theorem AllocEnv.Ok.range_unique (ok : e.Ok) {i j : Nat} {r t : Range} {x : Nat}
    (hi : e.ranges[i]? = some r) (hj : e.ranges[j]? = some t)
    (hr : r.start.toNat ≤ x ∧ x < r.endExcl.toNat)
    (ht : t.start.toNat ≤ x ∧ x < t.endExcl.toNat) : i = j := by
  obtain ⟨hil, rfl⟩ := List.getElem?_eq_some_iff.mp hi
  obtain ⟨hjl, rfl⟩ := List.getElem?_eq_some_iff.mp hj
  have hpair := List.pairwise_iff_getElem.mp ok.ranges_disjoint
  rcases Nat.lt_trichotomy i j with hlt | heq | hgt
  · exact absurd ht.2 (hpair i j hil hjl hlt x hr.1 hr.2 ht.1)
  · exact heq
  · exact absurd hr.2 (hpair j i hjl hil hgt x ht.1 ht.2 hr.1)

section Fallback

variable {sn fbNext : UInt64} {fbIdx : Nat} {r : Range}

/-- The fallback path goes on to the next range. -/
theorem AllocInv.nextRange (inv : AllocInv e ⟨sn, fbIdx, fbNext⟩)
    (hexhausted : e.scratchEnd.toNat < sn.toNat + 4096) : AllocInv e ⟨sn, fbIdx + 1, 0⟩ :=
  ⟨inv.next_aligned, inv.next_low, inv.next_room, inv.next_high, fun _ => hexhausted,
    fun h => absurd rfl h⟩

/-- A range that is left counts as consumed as a whole. -/
theorem Consumed.nextRange (hr : e.ranges[fbIdx]? = some r)
    (hend : fbNext.toNat ≤ r.endExcl.toNat) {q : UInt64} (hq : Consumed e ⟨sn, fbIdx, fbNext⟩ q) :
    Consumed e ⟨sn, fbIdx + 1, 0⟩ q := by
  rcases hq with hq | ⟨i, t, ht, hlow, hcase⟩
  · exact Or.inl hq
  · refine Or.inr ⟨i, t, ht, hlow, Or.inl ?_⟩
    simp only at hcase ⊢
    rcases hcase with ⟨hi, hlt⟩ | ⟨rfl, hlt⟩
    · exact ⟨by omega, hlt⟩
    · rw [hr] at ht
      obtain rfl := Option.some.inj ht
      omega

/-- A page that the cursor finds in the current range is a fresh one. -/
theorem fallback_found (ok : e.Ok) (hexhausted : e.scratchEnd.toNat < sn.toNat + 4096)
    (inv : AllocInv e ⟨sn, fbIdx, fbNext⟩) (hr : e.ranges[fbIdx]? = some r) {cur next p : UInt64}
    (hcuralign : cur.toNat % 4096 = 0) (hcurlow : r.start.toNat ≤ cur.toNat)
    (hfble : fbNext.toNat ≤ cur.toNat)
    (hrun : CursorRun (fun x => x < r.endExcl) (pageOverlapsReserved e sn) cur (some p) next) :
    PageStep e ⟨sn, fbIdx, fbNext⟩ (some p) ⟨sn, fbIdx, next⟩ := by
  have hmem : r ∈ e.ranges := List.mem_of_getElem? hr
  have hend := (ok.range_aligned r hmem).2
  have hnextalign := hrun.aligned
  obtain ⟨hple, hnext, hpalign, hmore, hskip⟩ := hrun.found_some p rfl
  obtain ⟨hnk, hns, hnscratch⟩ := pageOverlapsReserved_eq_false hskip
  have hpend : p.toNat < r.endExcl.toNat := by
    rw [decide_eq_true_eq, UInt64.lt_iff_toNat_lt] at hmore
    exact hmore
  refine ⟨⟨inv.next_aligned, inv.next_low, inv.next_room, inv.next_high, fun _ => hexhausted,
    fun _ => ⟨r, hr, ?_, ?_, hnextalign.trans hcuralign⟩⟩, ?_, ?_⟩
  · simp only
    omega
  · simp only
    omega
  · rintro q (hq | ⟨i, t, ht, hlow, hcase⟩)
    · exact Or.inl hq
    · refine Or.inr ⟨i, t, ht, hlow, ?_⟩
      simp only at hcase ⊢
      omega
  · intro q hq
    obtain rfl := Option.some.inj hq
    refine ⟨by omega, hnk, hns, Or.inr ⟨r, hmem, by omega, by omega⟩, ?_, ?_⟩
    · -- Not consumed before: by the window, by an earlier range, by this one.
      rintro (hscratch | ⟨i, t, ht, hlow, ⟨hi, hlt⟩ | ⟨hi, hlt⟩⟩)
      · exact hnscratch hscratch
      · have := ok.range_unique (x := p.toNat) ht hr ⟨hlow, hlt⟩ ⟨by omega, hpend⟩
        simp only at hi
        omega
      · simp only at hlt
        omega
    · refine Or.inr ⟨fbIdx, r, hr, by omega, Or.inr ⟨rfl, ?_⟩⟩
      simp only
      omega

end Fallback

/-- The fallback path takes an unreserved page of a cached range that its
cursor had not reached. -/
theorem fallbackPath_spec (ok : e.Ok) {sn : UInt64}
    (hexhausted : e.scratchEnd.toNat < sn.toNat + 4096) :
    ∀ left fbIdx fbNext found s', AllocInv e ⟨sn, fbIdx, fbNext⟩ →
      fallbackPath e sn left fbIdx fbNext = .ok (found, s') →
        PageStep e ⟨sn, fbIdx, fbNext⟩ found s' := by
  intro left
  induction left with
  | zero =>
      intro fbIdx fbNext found s' inv h
      simp only [fallbackPath, Except.ok.injEq, Prod.mk.injEq] at h
      obtain ⟨rfl, rfl⟩ := h
      exact ⟨inv, fun _ hp => hp, by simp⟩
  | succ left ih =>
      intro fbIdx fbNext found s' inv h
      rw [fallbackPath] at h
      cases hr : e.ranges[fbIdx]? with
      | none =>
          simp only [hr, Except.ok.injEq, Prod.mk.injEq] at h
          obtain ⟨rfl, rfl⟩ := h
          exact ⟨inv, fun _ hp => hp, by simp⟩
      | some r =>
          simp only [hr] at h
          obtain ⟨⟨found₁, next⟩, hloop, h⟩ := bind_eq_ok.mp h
          obtain ⟨cur, hcureq, hcuralign, hcurlow, hfble, hfbend, -⟩ := fallback_cursor ok inv hr
          rw [hcureq] at hloop
          obtain ⟨hrun, -⟩ := cursorLoop_run (fun x => x.toNat % 4096 = 0)
            (fallback_more ok (List.mem_of_getElem? hr)) _ _ _ _ hcuralign hloop
          cases found₁ with
          | some p =>
              -- The range gives a page; the index stays, so the range is now started.
              simp only [Except.ok.injEq, Prod.mk.injEq] at h
              obtain ⟨rfl, rfl⟩ := h
              exact fallback_found ok hexhausted inv hr hcuralign hcurlow hfble hrun
          | none =>
              -- The range is used up.
              exact (ih _ _ _ _ (inv.nextRange hexhausted) h).of_mono fun _ hq =>
                hq.nextRange hr hfbend

/-- **One call takes a fresh, unreserved page of a known source.** -/
theorem nextPage_spec (ok : e.Ok) (inv : AllocInv e s) (h : nextPage e s = .ok (found, s')) :
    PageStep e s found s' := by
  obtain ⟨⟨found₁, next⟩, hloop, h⟩ := bind_eq_ok.mp h
  obtain ⟨hrun, hcursor⟩ := scratchLoop_run ok inv hloop
  have hle := hrun.le
  have hroom := hcursor.2.2.1
  have hinv' := inv.moveScratch hle hcursor
  have hmono : ∀ p, Consumed e s p → Consumed e { s with scratchNext := next } p := by
    rintro p (hp | hp)
    · refine Or.inl ?_
      simp only
      omega
    · exact Or.inr hp
  cases found₁ with
  | some p =>
      simp only [Except.ok.injEq, Prod.mk.injEq] at h
      obtain ⟨rfl, rfl⟩ := h
      obtain ⟨hple, hnext, hpalign, hmore, hskip⟩ := hrun.found_some p rfl
      have hpend := (scratch_more_iff (e := e) (by omega)).mp hmore
      simp only [Bool.or_eq_false_iff] at hskip
      have halign := inv.next_aligned
      have hslow := inv.next_low
      refine ⟨hinv', hmono, fun q hq => ?_⟩
      obtain rfl := Option.some.inj hq
      refine ⟨by omega, hskip.1, hskip.2, Or.inl ⟨by omega, hpend⟩, ?_, ?_⟩
      · rintro (hscratch | ⟨i, r, hr, hrlow, hcase⟩)
        · omega
        · -- A started fallback path would mean that the window is used up.
          by_cases hfb : 0 < s.fbIdx ∨ s.fbNext ≠ 0
          · have := inv.exhausted hfb
            omega
          · have hzero : s.fbIdx = 0 ∧ s.fbNext = 0 := by
              constructor
              · omega
              · by_contra hne
                exact hfb (Or.inr hne)
            rw [hzero.1, hzero.2] at hcase
            simp at hcase
      · refine Or.inl ?_
        simp only
        omega
  | none =>
      -- The window has no page left, which is what the fallback path relies on.
      have hexhausted := scratch_exhausted hroom hrun
      exact (fallbackPath_spec ok hexhausted _ _ _ _ _ hinv' h).of_mono hmono

end Spec

end Kernel
end OsBook
