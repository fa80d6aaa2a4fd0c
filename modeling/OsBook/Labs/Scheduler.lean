import Mathlib.Data.List.Basic

/-!
# Scheduler selection

The lab picks a task from a list in one pass.  It represents the idle task only
by its slice end, `now + 1`, and starts with index `0` as if the idle task stood
there.
-/

namespace OsBook
namespace Labs

inductive State where
  | runnable
  | blocked
  | exited
deriving DecidableEq, Repr

structure Task where
  label : String
  state : State
  sliceEnd : UInt64
deriving DecidableEq, Repr

/-- The loop over the tasks from index `i`. -/
def chooseLoop : List Task → (i : Nat) → (bestEnd : UInt64) → (best : Nat) → Nat
  | [], _, _, best => best
  | t :: tasks, i, bestEnd, best =>
      if t.state = .exited then chooseLoop tasks (i + 1) bestEnd best
      else if t.state = .runnable ∧ t.sliceEnd ≤ bestEnd then
        chooseLoop tasks (i + 1) t.sliceEnd i
      else chooseLoop tasks (i + 1) bestEnd best

def chooseNext (now : UInt64) (tasks : List Task) : Nat :=
  -- The idle task is represented by the slice end `now + 1`.
  chooseLoop tasks 0 (now + 1) 0

/-- A task that may run, with no other such task ending before it. -/
structure Earliest (tasks : List Task) (t : Task) : Prop where
  runnable : t.state = .runnable
  le : ∀ u ∈ tasks, u.state = .runnable → t.sliceEnd ≤ u.sliceEnd

/-- The index is that of a task which the scheduler may select. -/
def Selectable (tasks : List Task) (i : Nat) : Prop :=
  ∃ t, tasks[i]? = some t ∧ Earliest tasks t

/-- What the loop knows of the tasks it has seen: none of them beats the idle task, or `best` is
the earliest of them and ends by the idle task's slice end. -/
def Candidate (idleEnd : UInt64) (seen : List Task) (bestEnd : UInt64) (best : Nat) : Prop :=
  (best = 0 ∧ bestEnd = idleEnd ∧ ∀ t ∈ seen, t.state = .runnable → idleEnd < t.sliceEnd) ∨
    ∃ t, seen[best]? = some t ∧ Earliest seen t ∧ t.sliceEnd = bestEnd ∧ bestEnd ≤ idleEnd

section Loop

variable {idleEnd bestEnd : UInt64} {seen : List Task} {best : Nat} {t : Task}

/-- A task that does not participate leaves the candidate as it is. -/
theorem Candidate.skip (h : Candidate idleEnd seen bestEnd best)
    (ht : t.state = .runnable → bestEnd < t.sliceEnd) :
    Candidate idleEnd (seen ++ [t]) bestEnd best := by
  rcases h with ⟨hbest, hend, hlate⟩ | ⟨b, hb, hearliest, hend, hle⟩
  · refine Or.inl ⟨hbest, hend, fun u hu hrun => ?_⟩
    rcases List.mem_append.mp hu with hu | hu
    · exact hlate u hu hrun
    · obtain rfl := List.mem_singleton.mp hu
      exact hend ▸ ht hrun
  · refine Or.inr ⟨b, ?_, ⟨hearliest.runnable, fun u hu hrun => ?_⟩, hend, hle⟩
    · rw [List.getElem?_append_left (List.getElem?_eq_some_iff.mp hb).choose, hb]
    · rcases List.mem_append.mp hu with hu | hu
      · exact hearliest.le u hu hrun
      · obtain rfl := List.mem_singleton.mp hu
        exact hend ▸ UInt64.le_of_lt (ht hrun)

/-- A runnable task that ends by `bestEnd` becomes the candidate. -/
theorem Candidate.take (h : Candidate idleEnd seen bestEnd best) (hrun : t.state = .runnable)
    (hle : t.sliceEnd ≤ bestEnd) :
    Candidate idleEnd (seen ++ [t]) t.sliceEnd seen.length := by
  have hidle : bestEnd ≤ idleEnd := by
    rcases h with ⟨-, rfl, -⟩ | ⟨b, -, -, -, hle'⟩
    · exact UInt64.le_refl _
    · exact hle'
  have hseen : ∀ u ∈ seen, u.state = .runnable → bestEnd ≤ u.sliceEnd := by
    rcases h with ⟨-, rfl, hlate⟩ | ⟨b, -, hearliest, rfl, -⟩
    · exact fun u hu hu' => UInt64.le_of_lt (hlate u hu hu')
    · exact hearliest.le
  refine Or.inr ⟨t, by simp, ⟨hrun, fun u hu hu' => ?_⟩, rfl, UInt64.le_trans hle hidle⟩
  rcases List.mem_append.mp hu with hu | hu
  · exact UInt64.le_trans hle (hseen u hu hu')
  · obtain rfl := List.mem_singleton.mp hu
    exact UInt64.le_refl _

/-- The loop keeps its candidate to the end of the list. -/
theorem chooseLoop_candidate (tasks : List Task) :
    ∀ (seen : List Task) (bestEnd : UInt64) (best : Nat), Candidate idleEnd seen bestEnd best →
      ∃ finalEnd, Candidate idleEnd (seen ++ tasks) finalEnd
        (chooseLoop tasks seen.length bestEnd best) := by
  induction tasks with
  | nil =>
      intro seen bestEnd best h
      exact ⟨bestEnd, by rwa [List.append_nil]⟩
  | cons t tasks ih =>
      intro seen bestEnd best h
      have hsplit : seen ++ t :: tasks = (seen ++ [t]) ++ tasks := by simp
      have hlength : seen.length + 1 = (seen ++ [t]).length := by simp
      rw [chooseLoop, hsplit, hlength]
      by_cases hexited : t.state = .exited
      · rw [if_pos hexited]
        exact ih _ _ _ (h.skip fun hrun => by rw [hexited] at hrun; cases hrun)
      rw [if_neg hexited]
      by_cases htake : t.state = .runnable ∧ t.sliceEnd ≤ bestEnd
      · rw [if_pos htake]
        exact ih _ _ _ (h.take htake.1 htake.2)
      · rw [if_neg htake]
        exact ih _ _ _ (h.skip fun hrun => UInt64.not_le.mp fun hle => htake ⟨hrun, hle⟩)

end Loop

theorem chooseNext_candidate (now : UInt64) (tasks : List Task) :
    ∃ bestEnd, Candidate (now + 1) tasks bestEnd (chooseNext now tasks) := by
  have hstart : Candidate (now + 1) [] (now + 1) 0 :=
    Or.inl ⟨rfl, rfl, fun t ht => absurd ht List.not_mem_nil⟩
  exact chooseLoop_candidate tasks [] (now + 1) 0 hstart

/-- The answer is an index of the list, whatever the states of the tasks. -/
theorem chooseNext_lt {now : UInt64} {tasks : List Task} (h : tasks ≠ []) :
    chooseNext now tasks < tasks.length := by
  obtain ⟨bestEnd, ⟨hbest, -, -⟩ | ⟨t, ht, -⟩⟩ := chooseNext_candidate now tasks
  · rw [hbest]
    exact List.length_pos_iff.mpr h
  · exact (List.getElem?_eq_some_iff.mp ht).choose

/-- **Which selections are right.**  The answer is the earliest runnable task exactly if some
runnable task ends by the idle task's slice end, or if the earliest one already stands at index
`0`, where the pass starts. -/
theorem chooseNext_selectable_iff (now : UInt64) (tasks : List Task) :
    Selectable tasks (chooseNext now tasks) ↔
      (∃ t ∈ tasks, t.state = .runnable ∧ t.sliceEnd ≤ now + 1) ∨ Selectable tasks 0 := by
  obtain ⟨bestEnd, ⟨hbest, -, hlate⟩ | ⟨t, ht, hearliest, hend, hle⟩⟩ :=
    chooseNext_candidate now tasks
  · rw [hbest]
    refine ⟨Or.inr, ?_⟩
    rintro (⟨t, ht, hrun, hle⟩ | hzero)
    · exact absurd hle (UInt64.not_le.mpr (hlate t ht hrun))
    · exact hzero
  · have hselected : Selectable tasks (chooseNext now tasks) := ⟨t, ht, hearliest⟩
    refine iff_of_true hselected (Or.inl ⟨t, List.mem_of_getElem? ht, hearliest.runnable, ?_⟩)
    exact hend ▸ hle

-- The tasks of the lab.
example : chooseNext 100
    [⟨"A", .runnable, 99⟩, ⟨"B", .runnable, 120⟩, ⟨"C", .blocked, 80⟩] = 0 := by decide

/-- With the only runnable task ending later, a blocked task is selected. -/
theorem not_chooseNext_selectable :
    ¬ ∀ (now : UInt64) (tasks : List Task), (∃ t ∈ tasks, t.state = .runnable) →
      Selectable tasks (chooseNext now tasks) := by
  intro h
  obtain ⟨t, ht, hearliest⟩ :=
    h 100 [⟨"C", .blocked, 80⟩, ⟨"B", .runnable, 120⟩] ⟨⟨"B", .runnable, 120⟩, by simp, rfl⟩
  have hblocked : t = ⟨"C", .blocked, 80⟩ := by
    simpa [chooseNext, chooseLoop] using ht.symm
  have hrun := hearliest.runnable
  rw [hblocked] at hrun
  cases hrun

end Labs
end OsBook
