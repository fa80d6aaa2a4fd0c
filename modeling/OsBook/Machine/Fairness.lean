import OsBook.Machine.Runs

/-!
# Fair schedules

An infinite schedule names an event for every moment.  An event that cannot
happen when it is named leaves the state alone.  A schedule is fair to an event
if it names it again and again.

Suppose that no step takes a system away from its goal, that some event always
brings it closer, and that this event goes on doing so until the system is
closer.  Then the system reaches the goal under every schedule that is fair to
these events (`eventually_of_fair`), and if each of them has its turn within a
bound, it does so in as many bounds as it was away (`within_of_fairWithin`).
-/

namespace OsBook
namespace Machine

variable {ε σ : Type}

/-- The state at every moment of a schedule. -/
def follow (step : ε → σ → Option σ) (schedule : Nat → ε) (s : σ) : Nat → σ
  | 0 => s
  | n + 1 =>
      let t := follow step schedule s n
      (step (schedule n) t).getD t

/-- The events of `fair` are named at arbitrarily late moments. -/
def FairTo (fair : ε → Prop) (schedule : Nat → ε) : Prop :=
  ∀ e, fair e → ∀ n, ∃ m, n ≤ m ∧ schedule m = e

/-- All events are. -/
def Fair (schedule : Nat → ε) : Prop := FairTo (fun _ => True) schedule

/-- Each event of `fair` is named at one of any `bound` moments in a row. -/
def FairWithin (bound : Nat) (fair : ε → Prop) (schedule : Nat → ε) : Prop :=
  ∀ e, fair e → ∀ n, ∃ m, n ≤ m ∧ m < n + bound ∧ schedule m = e

variable {step : ε → σ → Option σ} {schedule : Nat → ε} {s : σ}

theorem FairWithin.fairTo {bound : Nat} {fair : ε → Prop} (h : FairWithin bound fair schedule) :
    FairTo fair schedule := by
  intro e he n
  obtain ⟨m, hle, -, hm⟩ := h e he n
  exact ⟨m, hle, hm⟩

theorem follow_succ (n : Nat) : follow step schedule s (n + 1) =
    (step (schedule n) (follow step schedule s n)).getD (follow step schedule s n) := rfl

/-- The state at a moment is that of a run of the events so far which could happen. -/
theorem runs_follow (n : Nat) : ∃ es, es.Sublist ((List.range n).map schedule) ∧
    runs step es s = some (follow step schedule s n) := by
  induction n with
  | zero => exact ⟨[], .refl [], rfl⟩
  | succ n ih =>
      obtain ⟨es, hsub, hrun⟩ := ih
      rw [follow_succ, List.range_succ, List.map_append, List.map_singleton]
      cases hstep : step (schedule n) (follow step schedule s n) with
      | none => exact ⟨es, hsub.trans (List.sublist_append_left _ _), hrun⟩
      | some t => exact ⟨es ++ [schedule n], hsub.append (.refl _), runs_snoc hrun hstep⟩

/-- Up to a moment no event is named more often than there were moments. -/
theorem count_schedule_le [DecidableEq ε] (schedule : Nat → ε) (n : Nat) (e : ε) :
    ((List.range n).map schedule).count e ≤ n := by
  have hlength : ((List.range n).map schedule).length = n := by
    rw [List.length_map, List.length_range]
  exact Nat.le_trans List.count_le_length (Nat.le_of_eq hlength)

/-- A property that the events of a schedule keep holds at every moment. -/
theorem follow_invariant {p : σ → Prop}
    (hkeep : ∀ n s s', p s → step (schedule n) s = some s' → p s') (hs : p s) (n : Nat) :
    p (follow step schedule s n) := by
  induction n with
  | zero => exact hs
  | succ n ih =>
      rw [follow_succ]
      cases hstep : step (schedule n) (follow step schedule s n) with
      | none => exact ih
      | some t => exact hkeep n _ t ih hstep

/-- So does one that every event keeps. -/
theorem follow_keeps {p : σ → Prop} (hkeep : ∀ e s s', p s → step e s = some s' → p s') (hs : p s)
    (schedule : Nat → ε) (n : Nat) : p (follow step schedule s n) :=
  follow_invariant (fun n => hkeep (schedule n)) hs n

/-- Two step functions that agree on the states of an invariant follow a schedule alike. -/
theorem follow_congr {step' : ε → σ → Option σ} {p : σ → Prop}
    (hkeep : ∀ e s s', p s → step e s = some s' → p s')
    (hsame : ∀ e s, p s → step' e s = step e s) (hs : p s) (schedule : Nat → ε) (n : Nat) :
    follow step' schedule s n = follow step schedule s n := by
  induction n with
  | zero => rfl
  | succ n ih =>
      rw [follow_succ, follow_succ, ih, hsame _ _ (follow_keeps hkeep hs schedule n)]

/-- The distance `μ` from the goal never grows, and the events that `helps` names shorten it. -/
structure Approaches (step : ε → σ → Option σ) (fair : ε → Prop) (inv goal : σ → Prop)
    (μ : σ → Nat) (helps : ε → σ → Prop) : Prop where
  keeps : ∀ e s s', inv s → step e s = some s' → inv s'
  /-- A step that does not come closer leaves the helpful events as they are. -/
  down : ∀ e s s', inv s → ¬ goal s → step e s = some s' →
    μ s' < μ s ∨ μ s' = μ s ∧ ∀ e', helps e' s → helps e' s'
  helpful : ∀ s, inv s → ¬ goal s → ∃ e, fair e ∧ helps e s
  closer : ∀ e s, inv s → ¬ goal s → helps e s → ∃ s', step e s = some s' ∧ μ s' < μ s

section Liveness

variable {fair : ε → Prop} {inv goal : σ → Prop} {μ : σ → Nat} {helps : ε → σ → Prop}

/-- Up to a moment, the goal has come closer or the helpful events are the same. -/
theorem Approaches.closer_or_same (h : Approaches step fair inv goal μ helps) (hs : inv s)
    {n m : Nat} (hle : n ≤ m) (hgoal : ∀ i, i < m → ¬ goal (follow step schedule s i)) :
    μ (follow step schedule s m) < μ (follow step schedule s n) ∨
      μ (follow step schedule s m) = μ (follow step schedule s n) ∧
        ∀ e, helps e (follow step schedule s n) → helps e (follow step schedule s m) := by
  induction hle with
  | refl => exact Or.inr ⟨rfl, fun _ he => he⟩
  | @step m hle ih =>
      have ih := ih fun i hi => hgoal i (Nat.lt_succ_of_lt hi)
      have hinv := follow_keeps h.keeps hs schedule m
      rw [follow_succ]
      cases hstep : step (schedule m) (follow step schedule s m) with
      | none => exact ih
      | some t =>
          rw [Option.getD_some]
          rcases h.down _ _ _ hinv (hgoal m (Nat.lt_succ_self m)) hstep with hlt | ⟨heq, hsame⟩
          · left
            rcases ih with hless | ⟨hequal, -⟩
            · exact Nat.lt_trans hlt hless
            · exact hequal ▸ hlt
          · rcases ih with hless | ⟨hequal, hhelps⟩
            · exact Or.inl (heq ▸ hless)
            · exact Or.inr ⟨heq.trans hequal, fun e he => hsame e (hhelps e he)⟩

/-- Some event of `fair` brings the goal closer as soon as it has its turn. -/
theorem Approaches.turn (h : Approaches step fair inv goal μ helps) (hs : inv s) (n : Nat)
    (hgoal : ¬ goal (follow step schedule s n)) :
    ∃ e, fair e ∧ ∀ m, n ≤ m → schedule m = e →
      (∀ i, i ≤ m → ¬ goal (follow step schedule s i)) →
        ∃ i, i ≤ m + 1 ∧ μ (follow step schedule s i) < μ (follow step schedule s n) := by
  obtain ⟨e, he, hhelps⟩ := h.helpful _ (follow_keeps h.keeps hs schedule n) hgoal
  refine ⟨e, he, ?_⟩
  rintro m hle rfl hnever
  rcases h.closer_or_same hs hle fun i hi => hnever i (Nat.le_of_lt hi) with
    hless | ⟨hequal, hsame⟩
  · exact ⟨m, Nat.le_succ m, hless⟩
  · obtain ⟨t, hstep, hlt⟩ :=
      h.closer _ _ (follow_keeps h.keeps hs schedule m) (hnever m (Nat.le_refl m))
        (hsame _ hhelps)
    refine ⟨m + 1, Nat.le_refl _, ?_⟩
    rw [follow_succ, hstep, Option.getD_some]
    exact hequal ▸ hlt

/-- **The rule for liveness.**  Under a schedule that is fair to the helpful events the goal is
reached. -/
theorem eventually_of_fair (h : Approaches step fair inv goal μ helps)
    (hfair : FairTo fair schedule) (hs : inv s) : ∃ n, goal (follow step schedule s n) := by
  by_contra hnever
  rw [not_exists] at hnever
  -- Every moment is followed by one that is closer, which cannot go on forever.
  have hcloser : ∀ n, ∃ m, μ (follow step schedule s m) < μ (follow step schedule s n) := by
    intro n
    obtain ⟨e, he, hturn⟩ := h.turn hs n (hnever n)
    obtain ⟨m, hle, hm⟩ := hfair e he n
    obtain ⟨i, -, hlt⟩ := hturn m hle hm fun i _ => hnever i
    exact ⟨i, hlt⟩
  have hnone : ∀ bound n, μ (follow step schedule s n) < bound → False := by
    intro bound
    induction bound with
    | zero =>
        intro n hn
        omega
    | succ bound ih =>
        intro n hn
        obtain ⟨m, hm⟩ := hcloser n
        exact ih m (by omega)
  exact hnone _ 0 (Nat.lt_succ_self _)

/-- **The rule for liveness in bounded time.**  If each helpful event has its turn in any `bound`
moments, the goal is reached in as many times `bound` moments as it is away. -/
theorem within_of_fairWithin (h : Approaches step fair inv goal μ helps) {bound : Nat}
    (hfair : FairWithin bound fair schedule) (hs : inv s) :
    ∃ n, n ≤ μ s * bound ∧ goal (follow step schedule s n) := by
  by_contra hnone
  have hnever : ∀ n, n ≤ μ s * bound → ¬ goal (follow step schedule s n) :=
    fun n hle hgoal => hnone ⟨n, hle, hgoal⟩
  -- In each `bound` moments the goal comes closer by one.
  have hcloser : ∀ k, k ≤ μ s → ∃ n, n ≤ k * bound ∧ μ (follow step schedule s n) + k ≤ μ s := by
    intro k
    induction k with
    | zero => exact fun _ => ⟨0, Nat.zero_le _, Nat.le_refl _⟩
    | succ k ih =>
        intro hk
        obtain ⟨n, hn, hfar⟩ := ih (Nat.le_of_succ_le hk)
        have htime : (k + 1) * bound ≤ μ s * bound := Nat.mul_le_mul_right bound hk
        rw [Nat.succ_mul] at htime
        obtain ⟨e, he, hturn⟩ := h.turn hs n (hnever n (by omega))
        obtain ⟨m, hle, hlt, hm⟩ := hfair e he n
        obtain ⟨i, hi, hless⟩ := hturn m hle hm fun i hi => hnever i (by omega)
        refine ⟨i, ?_, by omega⟩
        rw [Nat.succ_mul]
        omega
  obtain ⟨n, hn, hfar⟩ := hcloser (μ s) (Nat.le_refl _)
  have hinv := follow_keeps h.keeps hs schedule n
  obtain ⟨e, -, hhelps⟩ := h.helpful _ hinv (hnever n hn)
  obtain ⟨t, -, hlt⟩ := h.closer e _ hinv (hnever n hn) hhelps
  omega

end Liveness

end Machine
end OsBook
