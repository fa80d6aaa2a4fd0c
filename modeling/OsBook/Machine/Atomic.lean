import OsBook.Machine.Runs

/-!
# Steps that form one block

A busy state is inside a block, and `finish` is the state at the end of it.  If
each step of a block leaves its end alone (`Blocks`), then every run is a run of
the system whose steps do a whole block at once (`Blocks.runs_atomically`), and
if one event brings the blocks to their ends, every run of that system is a run
with the same other events (`Blocks.runs_of_atomically`).
-/

namespace OsBook
namespace Machine

section Atomic

variable {ε σ : Type} (step : ε → σ → Option σ) (move : ε) (inv busy : σ → Prop)
  [DecidablePred busy] (finish : σ → σ)

/-- The end of the block that a state is in, if it is in one. -/
def settle (s : σ) : σ := if busy s then finish s else s

/-- A step, with the block that it starts. -/
def atomically (e : ε) (s : σ) : Option σ := (step e s).map (settle busy finish)

/-- Blocks of steps: no step of a block changes its end, which is not busy, and the event `move`
gets there. -/
structure Blocks : Prop where
  keeps : ∀ e s s', inv s → step e s = some s' → inv s'
  inside : ∀ e s s', inv s → busy s → step e s = some s' →
    settle busy finish s' = finish s
  ended : ∀ s, inv s → busy s → ¬ busy (finish s)
  ends : ∀ s, inv s → busy s → Repeats step move s (finish s)

variable {step move inv busy finish} {s t : σ}

theorem settle_of_not_busy (hs : ¬ busy s) : settle busy finish s = s := if_neg hs

theorem settle_of_busy (hs : busy s) : settle busy finish s = finish s := if_pos hs

theorem Blocks.repeats_settle (h : Blocks step move inv busy finish) (hs : inv s) :
    Repeats step move s (settle busy finish s) := by
  by_cases hbusy : busy s
  · rw [settle_of_busy hbusy]
    exact h.ends s hs hbusy
  · rw [settle_of_not_busy hbusy]
    exact .refl move s

/-- **Every run is a run of whole blocks**, and no event is added to it. -/
theorem Blocks.runs_atomically (h : Blocks step move inv busy finish) (hs : inv s) (hfree : ¬ busy s)
    {es : List ε} (hrun : runs step es s = some t) :
    inv t ∧ ∃ es', es'.Sublist es ∧
      runs (atomically step busy finish) es' s = some (settle busy finish t) := by
  refine runs_invariant (fun es t => inv t ∧ ∃ es', es'.Sublist es ∧
    runs (atomically step busy finish) es' s = some (settle busy finish t)) ?_ ?_ hrun
  · exact ⟨hs, [], .refl [], by rw [settle_of_not_busy hfree]; rfl⟩
  · rintro es e t t' ⟨ht, es', hsub, hatomic⟩ hstep
    refine ⟨h.keeps e t t' ht hstep, ?_⟩
    by_cases hbusy : busy t
    · -- The step was inside a block that has already been done.
      refine ⟨es', hsub.trans (List.sublist_append_left es [e]), ?_⟩
      rw [hatomic, settle_of_busy hbusy, h.inside e t t' ht hbusy hstep]
    · refine ⟨es' ++ [e], hsub.append (.refl [e]), runs_snoc hatomic ?_⟩
      rw [settle_of_not_busy hbusy, atomically, hstep]
      rfl

/-- **Every run of whole blocks is a run** with the same events, but for those that go on inside a
block. -/
theorem Blocks.runs_of_atomically [DecidableEq ε] (h : Blocks step move inv busy finish)
    (hs : inv s) {es : List ε} (hrun : runs (atomically step busy finish) es s = some t) :
    inv t ∧ ∃ es', runs step es' s = some t ∧ ∀ e, e ≠ move → es'.count e = es.count e := by
  refine runs_invariant (fun es t => inv t ∧ ∃ es', runs step es' s = some t ∧
    ∀ e, e ≠ move → es'.count e = es.count e) ⟨hs, [], rfl, fun _ _ => rfl⟩ ?_ hrun
  rintro es e t t' ⟨ht, es', hsteps, hcount⟩ hstep
  obtain ⟨u, hu, rfl⟩ := Option.map_eq_some_iff.mp hstep
  have hinv := h.keeps e t u ht hu
  have hsettle := h.repeats_settle hinv
  refine ⟨hsettle.reaches.keeps (fun e s s' hs hstep => h.keeps e s s' hs hstep) hinv, ?_⟩
  obtain ⟨n, hend⟩ := hsettle
  refine ⟨(es' ++ [e]) ++ List.replicate n move, ?_, fun e' hne => ?_⟩
  · rw [runs_append (runs_snoc hsteps hu), hend]
  · have hnone : (List.replicate n move).count e' = 0 :=
      List.count_eq_zero_of_not_mem fun hmem => hne (List.eq_of_mem_replicate hmem)
    rw [List.count_append, List.count_append, List.count_append, hcount e' hne, hnone, Nat.add_zero]

end Atomic

end Machine
end OsBook
