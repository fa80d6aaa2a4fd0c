import Mathlib.Data.List.Basic

/-!
# Runs of a step function under a schedule

A schedule is a list of events, and the step function says what an event does to
a state, or that it cannot happen there.  An invariant may mention the events
that have happened so far, so that it can bound what they add up to.
-/

namespace OsBook
namespace Machine

variable {ε σ : Type}

/-- Follow a schedule; `none` if one of its events cannot happen. -/
def runs (step : ε → σ → Option σ) : List ε → σ → Option σ
  | [], s => some s
  | e :: es, s => (step e s).bind (runs step es)

variable {step : ε → σ → Option σ}

theorem runs_append {es es' : List ε} {s t : σ} (h : runs step es s = some t) :
    runs step (es ++ es') s = runs step es' t := by
  induction es generalizing s with
  | nil =>
      cases h
      rfl
  | cons e es ih =>
      rw [List.cons_append, runs]
      rw [runs] at h
      cases hstep : step e s with
      | none =>
          rw [hstep] at h
          cases h
      | some s' =>
          rw [hstep] at h
          exact ih h

/-- A run is a sequence of steps. -/
theorem runs_snoc {es : List ε} {e : ε} {s t u : σ} (h : runs step es s = some t)
    (hstep : step e t = some u) : runs step (es ++ [e]) s = some u := by
  rw [runs_append h, runs, hstep]
  rfl

/-- Some run leads from a state to another. -/
def Reaches (step : ε → σ → Option σ) (s t : σ) : Prop := ∃ es, runs step es s = some t

theorem Reaches.refl (s : σ) : Reaches step s s := ⟨[], rfl⟩

theorem Reaches.trans {s t u : σ} (h : Reaches step s t) (h' : Reaches step t u) :
    Reaches step s u := by
  obtain ⟨es, hrun⟩ := h
  obtain ⟨es', hrun'⟩ := h'
  exact ⟨es ++ es', by rw [runs_append hrun, hrun']⟩

theorem Reaches.snoc {s t u : σ} (h : Reaches step s t) {e : ε} (hstep : step e t = some u) :
    Reaches step s u := by
  obtain ⟨es, hrun⟩ := h
  exact ⟨es ++ [e], runs_snoc hrun hstep⟩

/-- Repeating one event leads from a state to another. -/
def Repeats (step : ε → σ → Option σ) (e : ε) (s t : σ) : Prop :=
  ∃ n, runs step (List.replicate n e) s = some t

theorem Repeats.refl (e : ε) (s : σ) : Repeats step e s s := ⟨0, rfl⟩

theorem Repeats.snoc {e : ε} {s t u : σ} (h : Repeats step e s t) (hstep : step e t = some u) :
    Repeats step e s u := by
  obtain ⟨n, hrun⟩ := h
  refine ⟨n + 1, ?_⟩
  rw [List.replicate_succ']
  exact runs_snoc hrun hstep

theorem Repeats.trans {e : ε} {s t u : σ} (h : Repeats step e s t) (h' : Repeats step e t u) :
    Repeats step e s u := by
  obtain ⟨n, hrun⟩ := h
  obtain ⟨n', hrun'⟩ := h'
  refine ⟨n + n', ?_⟩
  rw [← List.replicate_append_replicate, runs_append hrun, hrun']

theorem Repeats.reaches {e : ε} {s t : σ} (h : Repeats step e s t) : Reaches step s t := by
  obtain ⟨n, hrun⟩ := h
  exact ⟨_, hrun⟩

/-- **Invariants of runs.**  What holds at the start and is kept by every possible step holds
after every run, together with the events of the run. -/
theorem runs_invariant (Inv : List ε → σ → Prop) {s₀ : σ} (hstart : Inv [] s₀)
    (hkeep : ∀ es e s s', Inv es s → step e s = some s' → Inv (es ++ [e]) s') {es : List ε}
    {s : σ} (h : runs step es s₀ = some s) : Inv es s := by
  have hgeneral : ∀ rest past t, Inv past t → runs step rest t = some s → Inv (past ++ rest) s := by
    intro rest
    induction rest with
    | nil =>
        intro past t hpast hrun
        cases hrun
        rw [List.append_nil]
        exact hpast
    | cons e rest ih =>
        intro past t hpast hrun
        rw [runs] at hrun
        cases hstep : step e t with
        | none =>
            rw [hstep] at hrun
            cases hrun
        | some t' =>
            rw [hstep] at hrun
            have hnext := ih (past ++ [e]) t' (hkeep past e t t' hpast hstep) hrun
            rwa [List.append_assoc] at hnext
  exact hgeneral es [] s₀ hstart h

/-- A property that every step keeps. -/
theorem Reaches.keeps {p : σ → Prop} (hkeep : ∀ e s s', p s → step e s = some s' → p s') {s t : σ}
    (h : Reaches step s t) (hs : p s) : p t := by
  obtain ⟨es, hrun⟩ := h
  exact runs_invariant (fun _ => p) hs (fun _ e s s' => hkeep e s s') hrun

/-- **Two step functions that agree on the states of an invariant** have the same runs from
there. -/
theorem runs_congr {step' : ε → σ → Option σ} {p : σ → Prop}
    (hkeep : ∀ e s s', p s → step e s = some s' → p s')
    (hsame : ∀ e s, p s → step' e s = step e s) {s : σ} (hs : p s) (es : List ε) :
    runs step' es s = runs step es s := by
  induction es generalizing s with
  | nil => rfl
  | cons e es ih =>
      rw [runs, runs, hsame e s hs]
      cases hstep : step e s with
      | none => rfl
      | some s' => exact ih (hkeep e s s' hs hstep)

/-! ## All states of one schedule -/

/-- Following the schedule leads through the state. -/
def Visits (step : ε → σ → Option σ) (es : List ε) (s t : σ) : Prop :=
  ∃ past rest, past ++ rest = es ∧ runs step past s = some t

/-- Following the schedule takes the step `e` from `t` to `t'`. -/
def Takes (step : ε → σ → Option σ) (es : List ε) (s : σ) (e : ε) (t t' : σ) : Prop :=
  ∃ past rest, past ++ e :: rest = es ∧ runs step past s = some t ∧ step e t = some t'

theorem Takes.visits {es : List ε} {s t t' : σ} {e : ε} (h : Takes step es s e t t') :
    Visits step es s t ∧ Visits step es s t' := by
  obtain ⟨past, rest, hes, hrun, hstep⟩ := h
  refine ⟨⟨past, e :: rest, hes, hrun⟩, past ++ [e], rest, ?_, runs_snoc hrun hstep⟩
  rw [List.append_assoc, List.singleton_append, hes]

theorem Takes.cons {es : List ε} {s s' t t' : σ} {e e' : ε} (hstep : step e s = some s')
    (h : Takes step es s' e' t t') : Takes step (e :: es) s e' t t' := by
  obtain ⟨past, rest, hes, hrun, hnext⟩ := h
  refine ⟨e :: past, rest, by rw [List.cons_append, hes], ?_, hnext⟩
  rw [runs, hstep]
  exact hrun

/-- **The steps that keep an invariant.**  If a step from a good state is good exactly under a
condition, then all states of a schedule are good exactly if all its steps meet the condition. -/
theorem visits_invariant_iff {Inv : σ → Prop} {Good : ε → σ → Prop}
    (hstep : ∀ e s s', Inv s → step e s = some s' → (Inv s' ↔ Good e s)) {s₀ : σ}
    (hstart : Inv s₀) (es : List ε) :
    (∀ t, Visits step es s₀ t → Inv t) ↔ ∀ e t t', Takes step es s₀ e t t' → Good e t := by
  constructor
  · intro hall e t t' htakes
    obtain ⟨ht, ht'⟩ := htakes.visits
    obtain ⟨-, -, -, -, hnext⟩ := htakes
    exact (hstep e t t' (hall t ht) hnext).mp (hall t' ht')
  · rintro hgood t ⟨past, rest, rfl, hrun⟩
    induction past generalizing s₀ with
    | nil =>
        cases hrun
        exact hstart
    | cons e past ih =>
        rw [runs] at hrun
        cases hfirst : step e s₀ with
        | none =>
            rw [hfirst] at hrun
            cases hrun
        | some s₁ =>
            rw [hfirst] at hrun
            have hgood₀ : Good e s₀ := hgood e s₀ s₁ ⟨[], past ++ rest, rfl, rfl, hfirst⟩
            have hinv₁ : Inv s₁ := (hstep e s₀ s₁ hstart hfirst).mpr hgood₀
            exact ih hinv₁ hrun fun e' u u' htakes => hgood e' u u' (htakes.cons hfirst)

end Machine
end OsBook
