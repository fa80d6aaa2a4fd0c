import OsBook.Machine.Runs

/-!
# A second component that may refuse a step

`guarded` puts a system next to a component that sees its steps, may refuse one,
and has a state of its own.  If an invariant that ties the two together implies
that no step of a run is refused, then the component refuses nothing: every run
of the system is a run of the pair (`runs_guarded`), and what the system can
reach, the pair can reach (`reaches_guarded`).
-/

namespace OsBook
namespace Machine

section Guarded

variable {ε σ ρ : Type} (step : ε → σ → Option σ) (allow : ε → σ → ρ → Option ρ)

/-- A step that the component admits. -/
def guarded (e : ε) (x : σ × ρ) : Option (σ × ρ) :=
  (step e x.1).bind fun s' => (allow e x.1 x.2).map fun r' => (s', r')

variable {step allow} {s₀ s s' : σ} {r₀ r r' : ρ} {e : ε} {es : List ε}

theorem guarded_eq_some (hstep : step e s = some s') (hallow : allow e s r = some r') :
    guarded step allow e (s, r) = some (s', r') := by
  simp only [guarded, hstep, hallow, Option.bind_some, Option.map_some]

/-- **Nothing is refused** along the runs from `s₀`, if the invariant rules it out. -/
theorem runs_guarded {inv : σ → ρ → Prop} (hstart : inv s₀ r₀)
    (hkeep : ∀ es e s s' r, runs step es s₀ = some s → inv s r → step e s = some s' →
      ∃ r', allow e s r = some r' ∧ inv s' r')
    (hrun : runs step es s₀ = some s) :
    ∃ r, runs (guarded step allow) es (s₀, r₀) = some (s, r) ∧ inv s r := by
  refine (runs_invariant (fun es s => runs step es s₀ = some s ∧
    ∃ r, runs (guarded step allow) es (s₀, r₀) = some (s, r) ∧ inv s r) ?_ ?_ hrun).2
  · exact ⟨rfl, r₀, rfl, hstart⟩
  · rintro es e s s' ⟨hrun, r, hguarded, hinv⟩ hstep
    obtain ⟨r', hallow, hinv'⟩ := hkeep es e s s' r hrun hinv hstep
    exact ⟨runs_snoc hrun hstep, r', runs_snoc hguarded (guarded_eq_some hstep hallow), hinv'⟩

/-- What can be reached from a state of a run can be reached by the pair. -/
theorem reaches_guarded {inv : σ → ρ → Prop} (hstart : inv s₀ r₀)
    (hkeep : ∀ es e s s' r, runs step es s₀ = some s → inv s r → step e s = some s' →
      ∃ r', allow e s r = some r' ∧ inv s' r')
    (hrun : runs step es s₀ = some s)
    (hguarded : runs (guarded step allow) es (s₀, r₀) = some (s, r))
    (hreach : Reaches step s s') :
    ∃ r', Reaches (guarded step allow) (s, r) (s', r') ∧ inv s' r' := by
  obtain ⟨es', hrun'⟩ := hreach
  have hall : runs step (es ++ es') s₀ = some s' := by
    rw [runs_append hrun, hrun']
  obtain ⟨r', hpair, hinv⟩ := runs_guarded hstart hkeep hall
  rw [runs_append hguarded] at hpair
  exact ⟨r', ⟨es', hpair⟩, hinv⟩

end Guarded

end Machine
end OsBook
