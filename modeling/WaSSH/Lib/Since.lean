import WaSSH.Lib.Run

/-!
# What is held since

In a run, something may come to be held only by a step that lets it.

* `Since`: a step of the run let it, and it is held since;
* **`since_of_holds`**: whatever is held has been let, and is held since.
-/

namespace StepRun

variable {σ α κ : Type*} (step : σ → α → σ) (holds : σ → κ → Prop) (lets : σ → α → κ → Prop)

/-- One of these steps let `k`, and `k` is held in every state since. -/
def Since (s : σ) (as : List α) (k : κ) : Prop :=
  ∃ before a mid, as = before ++ a :: mid ∧ lets (run step s before) a k ∧
    ∀ p, p <+: mid → holds (run step s (before ++ a :: p)) k

variable {step holds lets}

theorem since_of_holds (hstep : ∀ s a k, holds (step s a) k → holds s k ∨ lets s a k) {s : σ}
    (hs : ∀ k, ¬ holds s k) (as : List α) {k : κ} (h : holds (run step s as) k) :
    Since step holds lets s as k := by
  induction as using List.reverseRecOn with
  | nil => exact absurd h (hs k)
  | append_singleton as a ih =>
    have hrun : run step s (as ++ [a]) = step (run step s as) a := run_append step s as [a]
    rcases hstep _ a k (hrun ▸ h) with hheld | hlets
    · obtain ⟨before, b, mid, rfl, hlets, hmid⟩ := ih hheld
      refine ⟨before, b, mid ++ [a], by simp, hlets, fun p hp => ?_⟩
      rcases List.prefix_concat_iff.mp hp with rfl | hp
      · simpa using h
      · exact hmid p hp
    · refine ⟨as, a, [], rfl, hlets, fun p hp => ?_⟩
      rw [List.prefix_nil.mp hp]
      exact h

end StepRun
