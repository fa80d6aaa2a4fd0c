import OsBook.Kernel.AddressSpace
import OsBook.Kernel.AllocatorExhaustion

/-!
# How Stage 1 ends

Stage 1 has loops over pages and over ranges, and five places where it gives up.
With an allocator whose calls all return, each of its loops ends, so it either
loads `CR3` or prints one of five codes.  It prints `A` exactly when it refuses
the memory map.  Another code is printed exactly when the allocator has just
returned `0` at the place of that code in the run (`Asks`); at that moment no
page is left, or the page at address `0` is (`buildPaging_outcome`).
-/

namespace OsBook
namespace Kernel

open Machine

/-- Every call returns, with a page or without. -/
def Returns {σ : Type} (alloc : PageAllocator σ) (inv : σ → Prop) : Prop :=
  ∀ s m, inv s → ∃ p s' m', alloc s m = .ok (p, s', m') ∧ inv s'

section Builder

variable {σ : Type} {alloc : PageAllocator σ} {inv : σ → Prop} {st st₁ : BuildState σ}
  {root v p flags entry : UInt64} {code : Char}

/-- The table behind an entry is missing, and there is no page for it. -/
def Stuck (alloc : PageAllocator σ) (entry : UInt64) (st : BuildState σ) : Prop :=
  st.mem.load64 entry &&& ptePresent = 0 ∧ ∃ s' m', alloc st.alloc st.mem = .ok (0, s', m')

theorem Stuck.ensureTable (h : Stuck alloc entry st) (code : Char) :
    ensureTable alloc code entry st = .error (.failCode code) := by
  obtain ⟨habsent, s', m', halloc⟩ := h
  unfold Kernel.ensureTable
  simp only [habsent, if_true, halloc, bind, Except.bind]

/-- A table is found, or there is a page for it, or it is stuck. -/
theorem ensureTable_ends (hreturns : Returns alloc inv) (code : Char) (entry : UInt64)
    (hst : inv st.alloc) :
    (∃ t st', ensureTable alloc code entry st = .ok (t, st') ∧ inv st'.alloc) ∨
      Stuck alloc entry st := by
  by_cases habsent : st.mem.load64 entry &&& ptePresent = 0
  · obtain ⟨p, s', m', halloc, hinv⟩ := hreturns st.alloc st.mem hst
    by_cases hzero : p = 0
    · subst hzero
      exact Or.inr ⟨habsent, s', m', halloc⟩
    · refine Or.inl ⟨p, ⟨s', m'.store64 entry (makeEntryAddr p ||| ptePresent ||| pteWritable)⟩,
        ?_, hinv⟩
      unfold ensureTable
      simp only [habsent, if_true, halloc, bind, Except.bind, hzero, if_false]
  · refine Or.inl ⟨st.mem.load64 entry &&& ~~~0xfff, st, ?_, hst⟩
    unfold ensureTable
    simp only [habsent, if_false]

/-- A call of `ensureTable` that returns keeps the invariant. -/
theorem ensureTable_inv (hreturns : Returns alloc inv) (hst : inv st.alloc) {t : UInt64}
    (h : ensureTable alloc code entry st = .ok (t, st₁)) : inv st₁.alloc := by
  rcases ensureTable_ends hreturns code entry hst with ⟨t', st', hrun, hinv⟩ | hstuck
  · rw [hrun] at h
    obtain ⟨-, rfl⟩ := Prod.mk.inj (Except.ok.inj h)
    exact hinv
  · rw [hstuck.ensureTable] at h
    cases h

/-- Where `mapPageDual` looks for a table: the code of a failure, the entry, and the state. -/
inductive Looks (alloc : PageAllocator σ) (root v : UInt64) (st : BuildState σ) :
    Char → UInt64 → BuildState σ → Prop where
  | pdpt : Looks alloc root v st 'C' (entryAddr root (idxPml4 v)) st
  | pd {pdptPhys : UInt64} {st₁ : BuildState σ}
      (h₁ : ensureTable alloc 'C' (entryAddr root (idxPml4 v)) st = .ok (pdptPhys, st₁)) :
      Looks alloc root v st 'D' (entryAddr pdptPhys (idxPdpt v)) st₁
  | pt {pdptPhys pdPhys : UInt64} {st₁ st₂ : BuildState σ}
      (h₁ : ensureTable alloc 'C' (entryAddr root (idxPml4 v)) st = .ok (pdptPhys, st₁))
      (h₂ : ensureTable alloc 'D' (entryAddr pdptPhys (idxPdpt v)) st₁ = .ok (pdPhys, st₂)) :
      Looks alloc root v st 'E' (entryAddr pdPhys (idxPd v)) st₂

theorem Looks.keeps (hreturns : Returns alloc inv) (hst : inv st.alloc)
    (h : Looks alloc root v st code entry st₁) : inv st₁.alloc := by
  cases h with
  | pdpt => exact hst
  | pd h₁ => exact ensureTable_inv hreturns hst h₁
  | pt h₁ h₂ => exact ensureTable_inv hreturns (ensureTable_inv hreturns hst h₁) h₂

/-- Where a table is stuck, its code is printed. -/
theorem Looks.mapPageDual (h : Looks alloc root v st code entry st₁) (hstuck : Stuck alloc entry st₁)
    (p flags : UInt64) : mapPageDual alloc root v p flags st = .error (.failCode code) := by
  unfold Kernel.mapPageDual
  cases h with
  | pdpt => simp only [hstuck.ensureTable, bind, Except.bind]
  | pd h₁ => simp only [h₁, hstuck.ensureTable, bind, Except.bind]
  | pt h₁ h₂ => simp only [h₁, h₂, hstuck.ensureTable, bind, Except.bind]

theorem mapPageDual_cases (hreturns : Returns alloc inv) (root v p flags : UInt64)
    (hst : inv st.alloc) :
    (∃ st', mapPageDual alloc root v p flags st = .ok st' ∧ inv st'.alloc) ∨
      ∃ code entry st₁, Looks alloc root v st code entry st₁ ∧ Stuck alloc entry st₁ := by
  rcases ensureTable_ends hreturns 'C' (entryAddr root (idxPml4 v)) hst with
    ⟨pdptPhys, st₁, h₁, hst₁⟩ | hstuck
  case inr => exact Or.inr ⟨_, _, _, .pdpt, hstuck⟩
  rcases ensureTable_ends hreturns 'D' (entryAddr pdptPhys (idxPdpt v)) hst₁ with
    ⟨pdPhys, st₂, h₂, hst₂⟩ | hstuck
  case inr => exact Or.inr ⟨_, _, _, .pd h₁, hstuck⟩
  rcases ensureTable_ends hreturns 'E' (entryAddr pdPhys (idxPd v)) hst₂ with
    ⟨ptPhys, st₃, h₃, hst₃⟩ | hstuck
  case inr => exact Or.inr ⟨_, _, _, .pt h₁ h₂, hstuck⟩
  exact Or.inl ⟨_, bind_eq_ok.mpr ⟨_, h₁, bind_eq_ok.mpr ⟨_, h₂, bind_eq_ok.mpr ⟨_, h₃, rfl⟩⟩⟩,
    hst₃⟩

/-- All calls are made, or one of them is stuck. -/
theorem mapCalls_cases (hreturns : Returns alloc inv) (root : UInt64) (calls : List MapCall)
    (hst : inv st.alloc) :
    (∃ st', mapCalls alloc root calls st = .ok st' ∧ inv st'.alloc) ∨
      ∃ done call rest st' code entry st₁, calls = done ++ call :: rest ∧
        mapCalls alloc root done st = .ok st' ∧
        Looks alloc root call.vaddr st' code entry st₁ ∧ Stuck alloc entry st₁ := by
  induction calls generalizing st with
  | nil => exact Or.inl ⟨st, rfl, hst⟩
  | cons c calls ih =>
      rcases mapPageDual_cases hreturns root c.vaddr c.paddr c.flags hst with
        ⟨st', hrun, hst'⟩ | ⟨code, entry, st₁, hlooks, hstuck⟩
      · rcases ih hst' with ⟨st'', hrest, hst''⟩ |
          ⟨done, call, rest, st'', code, entry, st₁, rfl, hdone, hlooks, hstuck⟩
        · exact Or.inl ⟨st'', bind_eq_ok.mpr ⟨_, hrun, hrest⟩, hst''⟩
        · exact Or.inr ⟨c :: done, call, rest, st'', code, entry, st₁, rfl,
            bind_eq_ok.mpr ⟨_, hrun, hdone⟩, hlooks, hstuck⟩
      · exact Or.inr ⟨[], c, calls, st, code, entry, st₁, rfl, rfl, hlooks, hstuck⟩

theorem mapCalls_inv (hreturns : Returns alloc inv) {calls : List MapCall} (hst : inv st.alloc)
    (h : mapCalls alloc root calls st = .ok st₁) : inv st₁.alloc := by
  induction calls generalizing st with
  | nil =>
      obtain rfl := Except.ok.inj h
      exact hst
  | cons c calls ih =>
      obtain ⟨st', hrun, hrest⟩ := bind_eq_ok.mp h
      rcases mapPageDual_cases hreturns root c.vaddr c.paddr c.flags hst with
        ⟨st'', hrun', hst''⟩ | ⟨code, entry, st₂, hlooks, hstuck⟩
      · obtain rfl := Except.ok.inj (hrun.symm.trans hrun')
        exact ih hst'' hrest
      · rw [hlooks.mapPageDual hstuck] at hrun
        cases hrun

end Builder

/-- A state that some calls from the first one on have led to. -/
def AllocReached (e : AllocEnv) (s : AllocState) : Prop :=
  ∃ calls, AllocRun e (initialAlloc e) calls s

theorem AllocReached.inv {e : AllocEnv} {s : AllocState} (ok : e.Ok) (h : AllocReached e s) :
    AllocInv e s :=
  let ⟨_, hrun⟩ := h
  (hrun.pageLeft ok (allocInv_initial ok)).1

/-- The calls of the Stage 1 allocator return. -/
theorem allocPage_returns {e : AllocEnv} (ok : e.Ok) : Returns (allocPage e) (AllocReached e) := by
  intro s m h
  obtain ⟨p, s', m', halloc⟩ := allocPage_ends ok (h.inv ok) m
  obtain ⟨calls, hrun⟩ := h
  exact ⟨p, s', m', halloc, _, hrun.snoc halloc⟩

/-- The environment is only built for a map that is not refused. -/
theorem prepare_error_iff {h : Handover} {m : Memory} {stop : Stop} :
    prepare h m = .error stop ↔
      (h.descSize = 0 ∨ h.mmapSizeUsed < h.descSize) ∧ stop = .failCode 'A' := by
  unfold prepare
  split
  · rename_i hrefused
    constructor
    · intro he
      exact ⟨hrefused, (Except.error.inj he).symm⟩
    · rintro ⟨-, rfl⟩
      rfl
  · rename_i hused
    constructor
    · intro he
      cases he
    · rintro ⟨hrefused, -⟩
      exact absurd hrefused hused

/-- The calls of the allocator in the run of Stage 1, with the code that is printed when the call
returns no page. -/
inductive Asks (h : Handover) (m : Memory) (e : AllocEnv) : Char → AllocState → Memory → Prop where
  | root : Asks h m e 'B' (initialAlloc e) m
  | table {root : UInt64} {s : AllocState} {m₁ : Memory} {done : List MapCall} {call : MapCall}
      {rest : List MapCall} {st st₁ : BuildState AllocState} {code : Char} {entry : UInt64}
      (hroot : allocPage e (initialAlloc e) m = .ok (root, s, m₁)) (hne : root ≠ 0)
      (hcalls : layoutCalls h = done ++ call :: rest)
      (hdone : mapCalls (allocPage e) root done ⟨s, m₁⟩ = .ok st)
      (hlooks : Looks (allocPage e) root call.vaddr st code entry st₁)
      (habsent : st₁.mem.load64 entry &&& ptePresent = 0) : Asks h m e code st₁.alloc st₁.mem

/-- The state of a call is one that the calls before it have led to. -/
theorem Asks.reached {h : Handover} {m m₁ : Memory} {e : AllocEnv} {code : Char} {s : AllocState}
    (ok : e.Ok) (hasks : Asks h m e code s m₁) : AllocReached e s := by
  cases hasks with
  | root => exact ⟨[], AllocRun.nil _⟩
  | table hroot _ _ hdone hlooks _ =>
      have hstart := (AllocRun.nil (initialAlloc e)).snoc hroot
      exact hlooks.keeps (allocPage_returns ok)
        (mapCalls_inv (allocPage_returns ok) ⟨_, hstart⟩ hdone)

section Outcome

variable {h : Handover} {m : Memory}

/-- A call that returns no page ends Stage 1 with its code. -/
theorem Asks.buildPaging {e : AllocEnv} {code : Char} {s s' : AllocState} {m₁ m' : Memory}
    (hp : Placed h) (he : prepare h m = .ok e) (hasks : Asks h m e code s m₁)
    (hzero : allocPage e s m₁ = .ok (0, s', m')) :
    buildPaging h m = .error (.failCode code) := by
  unfold Kernel.buildPaging
  cases hasks with
  | root => simp only [he, hzero, bind, Except.bind, if_true]
  | table hroot hne hcalls hdone hlooks habsent =>
      have hfail := hlooks.mapPageDual ⟨habsent, _, _, hzero⟩
      simp only [he, hroot, hne, bind, Except.bind, if_false]
      rw [mapLayout_eq hp, hcalls, mapCalls_append, hdone]
      simp only [Except.bind, mapCalls, hfail, bind]

variable (hp : Placed h) (hc : ConventionalOk h m) (hb : MapBelow h m)
include hp hc hb

theorem prepare_ok {e : AllocEnv} (he : prepare h m = .ok e) : e.Ok := by
  have hmmap := prepare_mmapPhys_lt hp he
  exact allocEnv_ok hp hc (hb.loaderData.bufferRoom (by omega)) he

/-- After the map has been accepted. -/
theorem buildPaging_asks {e : AllocEnv} (he : prepare h m = .ok e) :
    (∃ P, buildPaging h m = .ok P) ∨ ∃ code s m₁, Asks h m e code s m₁ ∧
      (∃ s' m', allocPage e s m₁ = .ok (0, s', m')) ∧ code ∈ ['B', 'C', 'D', 'E'] := by
  have hreturns := allocPage_returns (prepare_ok hp hc hb he)
  obtain ⟨root, s, m₁, halloc, hreached⟩ :=
    hreturns (initialAlloc e) m ⟨[], AllocRun.nil _⟩
  by_cases hzero : root = 0
  · subst hzero
    exact Or.inr ⟨'B', _, _, .root, ⟨_, _, halloc⟩, by simp⟩
  have hfirst : AllocReached e (BuildState.mk s m₁).alloc := hreached
  rcases mapCalls_cases hreturns root (layoutCalls h) hfirst with
    ⟨st, hrun, -⟩ | ⟨done, call, rest, st, code, entry, st₁, hcalls, hdone, hlooks, hstuck⟩
  · left
    refine ⟨⟨root, st.mem⟩, ?_⟩
    unfold buildPaging
    simp only [he, halloc, hzero, bind, Except.bind, if_false]
    rw [mapLayout_eq hp, hrun]
  · refine Or.inr ⟨code, _, _, .table halloc hzero hcalls hdone hlooks hstuck.1, hstuck.2, ?_⟩
    cases hlooks <;> simp

/-- Stage 1 loads `CR3`, or prints one of its failure codes. -/
theorem buildPaging_ends :
    (∃ P, buildPaging h m = .ok P) ∨
      ∃ c ∈ ['A', 'B', 'C', 'D', 'E'], buildPaging h m = .error (.failCode c) := by
  cases he : prepare h m with
  | error stop =>
      obtain ⟨-, rfl⟩ := prepare_error_iff.mp he
      exact Or.inr ⟨'A', by simp, by rw [buildPaging, he]; rfl⟩
  | ok e =>
      rcases buildPaging_asks hp hc hb he with ⟨P, hbuild⟩ | ⟨c, s, m₁, hasks, ⟨s', m', hzero⟩, hc⟩
      · exact Or.inl ⟨P, hbuild⟩
      · exact Or.inr ⟨c, List.mem_cons_of_mem _ hc, hasks.buildPaging hp he hzero⟩

theorem buildPaging_refused_iff :
    buildPaging h m = .error (.failCode 'A') ↔ h.descSize = 0 ∨ h.mmapSizeUsed < h.descSize := by
  cases he : prepare h m with
  | error stop =>
      obtain ⟨hrefused, rfl⟩ := prepare_error_iff.mp he
      refine iff_of_true ?_ hrefused
      rw [buildPaging, he]
      rfl
  | ok e =>
      refine iff_of_false (fun hfail => ?_) fun hrefused => ?_
      · rcases buildPaging_asks hp hc hb he with ⟨P, hbuild⟩ | ⟨c, s, m₁, hasks, ⟨s', m', hzero⟩, hc⟩
        · rw [hbuild] at hfail
          cases hfail
        · rw [hasks.buildPaging hp he hzero] at hfail
          obtain rfl : c = 'A' := by simpa using hfail
          exact absurd hc (by decide)
      · rw [prepare_error_iff.mpr ⟨hrefused, rfl⟩] at he
        cases he

/-- Any other code is that of a call which returned no page. -/
theorem buildPaging_failed_iff {c : Char} (hne : c ≠ 'A') :
    buildPaging h m = .error (.failCode c) ↔ ∃ e s m₁, prepare h m = .ok e ∧
      Asks h m e c s m₁ ∧ ∃ s' m', allocPage e s m₁ = .ok (0, s', m') := by
  constructor
  · intro hfail
    cases he : prepare h m with
    | error stop =>
        obtain ⟨hrefused, -⟩ := prepare_error_iff.mp he
        rw [(buildPaging_refused_iff hp hc hb).mpr hrefused] at hfail
        exact absurd (by simpa using hfail.symm) hne
    | ok e =>
        rcases buildPaging_asks hp hc hb he with
          ⟨P, hbuild⟩ | ⟨c', s, m₁, hasks, ⟨s', m', hzero⟩, -⟩
        · rw [hbuild] at hfail
          cases hfail
        · rw [hasks.buildPaging hp he hzero] at hfail
          obtain rfl : c' = c := by simpa using hfail
          exact ⟨e, s, m₁, rfl, hasks, s', m', hzero⟩
  · rintro ⟨e, s, m₁, he, hasks, s', m', hzero⟩
    exact hasks.buildPaging hp he hzero

/-- **How Stage 1 ends.**  It loads `CR3` or prints one of five codes.  `A` is printed exactly for a
map without a whole descriptor, and any other code exactly if the allocator returns no page at the
place of this code in the run.  When it does, the page at address `0` is left, or none. -/
theorem buildPaging_outcome :
    ((∃ P, buildPaging h m = .ok P) ∨
      ∃ c ∈ ['A', 'B', 'C', 'D', 'E'], buildPaging h m = .error (.failCode c)) ∧
    (buildPaging h m = .error (.failCode 'A') ↔ h.descSize = 0 ∨ h.mmapSizeUsed < h.descSize) ∧
    (∀ c, c ≠ 'A' → (buildPaging h m = .error (.failCode c) ↔ ∃ e s m₁, prepare h m = .ok e ∧
      Asks h m e c s m₁ ∧ ∃ s' m', allocPage e s m₁ = .ok (0, s', m'))) ∧
    ∀ e c s m₁ s' m', prepare h m = .ok e → Asks h m e c s m₁ →
      allocPage e s m₁ = .ok (0, s', m') →
      AllocReached e s ∧ (PageLeft e s 0 ∨ ∀ q, ¬ PageLeft e s q) := by
  refine ⟨buildPaging_ends hp hc hb, buildPaging_refused_iff hp hc hb,
    fun c hne => buildPaging_failed_iff hp hc hb hne, ?_⟩
  intro e c s m₁ s' m' he hasks hzero
  have ok := prepare_ok hp hc hb he
  have hreached := hasks.reached ok
  exact ⟨hreached, zero_result ok (hreached.inv ok) hzero⟩

end Outcome

/-- The window is clipped at the stack.  The root takes its first page, the other one is the
kernel's, and the first table is stuck. -/
theorem buildPaging_outcome_tight :
    buildPaging tightHandover (fun _ => 0) = .error (.failCode 'C') ∧
      ∃ s m, Asks tightHandover (fun _ => 0) tightEnv 'C' s m ∧ ∀ q, ¬ PageLeft tightEnv s q := by
  have hbelow : MapBelow tightHandover (fun _ => 0) :=
    ⟨endsBelow_cleared _ _ _, endsBelow_cleared _ _ _⟩
  obtain ⟨-, -, hfailed, hout⟩ :=
    buildPaging_outcome tightHandover_placed (conventionalOk_cleared tightHandover) hbelow
  have hprepare : prepare tightHandover (fun _ => 0) = .ok tightEnv := by
    unfold prepare
    rw [scan_cleared (by decide)]
    rfl
  have hfirst : nextPage tightEnv (initialAlloc tightEnv) =
      .ok (some 0x1000000, ⟨0x1001000, 0, 0⟩) := by
    decide +kernel
  have hsecond : nextPage tightEnv ⟨0x1001000, 0, 0⟩ = .ok (none, ⟨0x1002000, 0, 0⟩) := by
    decide +kernel
  have hroot : allocPage tightEnv (initialAlloc tightEnv) (fun _ => 0) =
      .ok (0x1000000, ⟨0x1001000, 0, 0⟩, zeroPage (fun _ => 0) 0x1000000) := by
    rw [allocPage, hfirst]
    rfl
  have hcleared : zeroPage (fun _ => 0) 0x1000000 = fun _ => 0 := by
    funext x
    rw [zeroPage_apply, ite_self]
  rw [hcleared] at hroot
  have hzero : allocPage tightEnv ⟨0x1001000, 0, 0⟩ (fun _ => 0) =
      .ok (0, ⟨0x1002000, 0, 0⟩, fun _ => 0) := by
    rw [allocPage, hsecond]
    rfl
  obtain ⟨call, rest, hcalls⟩ : ∃ call rest, layoutCalls tightHandover = [] ++ call :: rest :=
    ⟨_, _, rfl⟩
  have hasks : Asks tightHandover (fun _ => 0) tightEnv 'C' ⟨0x1001000, 0, 0⟩ fun _ => 0 :=
    .table hroot (by decide) hcalls rfl .pdpt (by rw [Memory.load64_of_zero fun _ _ => rfl]; rfl)
  refine ⟨(hfailed 'C' (by decide)).mpr ⟨_, _, _, hprepare, hasks, _, _, hzero⟩, _, _, hasks, ?_⟩
  obtain ⟨-, hleft | hnone⟩ := hout _ _ _ _ _ _ hprepare hasks hzero
  · -- Page 0 lies outside of the window, and there is no fallback range.
    rcases hleft.offered with ⟨hlow, -⟩ | ⟨r, hr, -⟩
    · exact absurd hlow (by decide)
    · exact absurd hr List.not_mem_nil
  · exact hnone

end Kernel
end OsBook
