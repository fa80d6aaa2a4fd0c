import OsBook.Kernel.AddressSpace

/-!
# Sequences of page mappings as a finite map

For any allocator that returns fresh zeroed pages, a completed sequence of
`mapPageDual` calls leaves tables whose translation is the last-write-wins map of
the calls.  What one call changes, and that calls on distinct pages commute, are
facts about that map.
-/

namespace OsBook
namespace Kernel

open Machine

theorem PageMap.set_comm {map : PageMap} {n k : Nat} (h : n ≠ k) (s t : Slot) :
    (map.set n s).set k t = (map.set k t).set n s := by
  funext j
  unfold set
  by_cases hn : j = n
  · simp [hn, h]
  · simp [hn]

/-- Calls on distinct pages commute. -/
theorem lastWrite_perm {calls calls' : List MapCall} (hperm : calls.Perm calls')
    (hdistinct : (calls.map fun c => pageNumber c.vaddr).Nodup) (map : PageMap) :
    lastWrite map calls = lastWrite map calls' := by
  apply hperm.foldl_eq'
  intro c hc d hd map
  by_cases hcd : c = d
  · rw [hcd]
  · exact PageMap.set_comm
      (fun heq => hcd (List.inj_on_of_nodup_map hdistinct hc hd heq)) c.slot d.slot

/-- The translation through the tables of a finite map. -/
def PageMap.translate (map : PageMap) (v : UInt64) : Option Translated :=
  (map (pageNumber v)).map fun leaf => ⟨leaf.frame + (v &&& 0xfff), leaf.writable⟩

section Runs

variable {σ : Type} {alloc : PageAllocator σ} {ok : (UInt64 → Prop) → σ → Memory → Prop}
  {root : UInt64} {st st' : BuildState σ} {calls : List MapCall}

/-- **`mapPageDual` refines a finite map.**  From a zeroed root, a completed sequence of calls
translates every address by the last call for its page, and by nothing without one.  One more
call changes the translation of its page only, and calls on distinct pages may come in any
order. -/
theorem mapCalls_refines (src : FreshSource alloc ok) (hroot : IsFrame root)
    (hzero : ∀ x, InBlock root 4096 x → st.mem x = 0)
    (hknown : ok (fun p => p = root) st.alloc st.mem) (hp : ∀ c ∈ calls, IsFrame c.paddr)
    (hrun : mapCalls alloc root calls st = .ok st') :
    (∀ v, translateAddr st'.mem root v = (lastWrite (fun _ => none) calls).translate v) ∧
    (∀ v, (∀ c ∈ calls, pageNumber c.vaddr ≠ pageNumber v) →
      translateAddr st'.mem root v = none) ∧
    (∀ (c : MapCall) st'', IsFrame c.paddr →
      mapPageDual alloc root c.vaddr c.paddr c.flags st' = .ok st'' → ∀ v,
      translateAddr st''.mem root v =
        if pageNumber v = pageNumber c.vaddr then
          some ⟨c.paddr + (v &&& 0xfff), entryWritable c.flags⟩
        else translateAddr st'.mem root v) ∧
    ((calls.map fun c => pageNumber c.vaddr).Nodup → ∀ calls', calls.Perm calls' → ∀ st'',
      mapCalls alloc root calls' st = .ok st'' →
        ∀ v, translateAddr st''.mem root v = translateAddr st'.mem root v) := by
  have hempty := holds_rootOnly hroot hzero hknown
  have hholds := mapCalls_holds src hp hempty hrun
  have htranslate := hholds.translate
  refine ⟨htranslate, ?_, ?_, ?_⟩
  · intro v hv
    rw [htranslate, lastWrite_of_not_mem hv]
    rfl
  · intro c st'' hc hcall v
    rw [(mapPageDual_holds src hc hholds hcall).translate v, htranslate v, PageMap.set]
    split
    · rfl
    · rfl
  · intro hdistinct calls' hperm st'' hrun' v
    have hp' : ∀ c ∈ calls', IsFrame c.paddr := fun c hc => hp c (hperm.mem_iff.mpr hc)
    have hholds' := mapCalls_holds src hp' hempty hrun'
    rw [hholds'.translate v, htranslate v, lastWrite_perm hperm hdistinct]

end Runs

/-- The Stage 1 allocator of the small placement maps one page twice. -/
theorem mapCalls_refines_small :
    ∃ st st' : BuildState AllocState, mapCalls (allocPage smallEnv) 0x1000000
      [⟨0xffff800000100000, 0x100000, 2⟩, ⟨0xffff800000100000, 0x200000, 0⟩] st = .ok st' ∧
        translateAddr st'.mem 0x1000000 0xffff800000100008 = some ⟨0x200008, false⟩ := by
  have ok := allocEnv_ok smallHandover_placed smallHandover_conventionalOk
    ((smallHandover_endsBelow _ 0).bufferRoom (by decide)) smallHandover_prepare
  have src := (allocPage_pageSource ok (prepare_below smallHandover_placed
    ⟨smallHandover_endsBelow _ _, smallHandover_endsBelow _ _⟩ smallHandover_prepare)).fresh
  obtain ⟨hfirst, hroom⟩ := (smallEnv_windowRoom.of_le (k := 7) (by decide)).allocPage fun _ => 0
  obtain ⟨hinv, -, -, htaken⟩ := callOk_of_allocPage ok (allocInv_initial ok) hfirst
  have htaken := htaken smallEnv_windowRoom.nonzero
  obtain ⟨st', hrun, -⟩ := mapCalls_ok (n := 0) (allocPage_pageSupply smallEnv) 0x1000000
    [⟨0xffff800000100000, 0x100000, 2⟩, ⟨0xffff800000100000, 0x200000, 0⟩]
    ⟨_, zeroPage (fun _ => 0) (initialAlloc smallEnv).scratchNext⟩ hroom
  have hroot : IsFrame 0x1000000 := by constructor <;> decide
  have hlive : ∀ p, p = 0x1000000 → IsFrame p ∧ Consumed smallEnv
      ⟨smallEnv.scratch + pageSize, 0, 0⟩ p := by
    rintro p rfl
    exact ⟨hroot, htaken.consumed⟩
  have hp : ∀ c ∈ [MapCall.mk 0xffff800000100000 0x100000 2, ⟨0xffff800000100000, 0x200000, 0⟩],
      IsFrame c.paddr := by
    intro c hc
    simp only [List.mem_cons, List.not_mem_nil, or_false] at hc
    rcases hc with rfl | rfl
    · constructor <;> decide
    · constructor <;> decide
  have hrefines := mapCalls_refines src hroot
    (fun x hx => (zeroPage_apply _ _ x).trans (if_pos hx)) ⟨hinv, hlive⟩ hp hrun
  exact ⟨_, st', hrun, (hrefines.1 _).trans (by decide)⟩

end Kernel
end OsBook
