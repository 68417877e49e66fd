import Mathlib.Data.List.Basic
import Mathlib.Data.List.Infix

/-!
# Runs of a step function

A component is a step function `step : σ → α → σ`; a run folds it over a list of step labels.

* `run`, `run_append`;
* `Guarded ok s as`: every step of the run is taken in a state where `ok` allows it;
* **`run_inv`**: what every allowed step preserves holds after every guarded run, and
  **`reached_inv`**: in every state such a run passes through;
* **`forall_reached_iff_guarded`**, **`forall_reached_iff_of_inv`**: the converse, when `ok` is
  exact.
-/

namespace StepRun

variable {σ α : Type*} (step : σ → α → σ) (ok : σ → α → Prop)

/-- The state after the steps `as`. -/
def run (s : σ) (as : List α) : σ := as.foldl step s

@[simp] theorem run_nil (s : σ) : run step s [] = s := rfl

@[simp] theorem run_cons (s : σ) (a : α) (as : List α) :
    run step s (a :: as) = run step (step s a) as := rfl

theorem run_append (s : σ) (as bs : List α) :
    run step s (as ++ bs) = run step (run step s as) bs := List.foldl_append

/-- Every step is taken in a state where `ok` allows it. -/
def Guarded : σ → List α → Prop
  | _, [] => True
  | s, a :: as => ok s a ∧ Guarded (step s a) as

@[simp] theorem guarded_nil (s : σ) : Guarded step ok s [] := trivial

@[simp] theorem guarded_cons (s : σ) (a : α) (as : List α) :
    Guarded step ok s (a :: as) ↔ ok s a ∧ Guarded step ok (step s a) as := Iff.rfl

instance decidableGuarded [∀ s a, Decidable (ok s a)] :
    ∀ s as, Decidable (Guarded step ok s as)
  | _, [] => isTrue trivial
  | s, a :: as =>
    have := decidableGuarded (step s a) as
    inferInstanceAs (Decidable (ok s a ∧ Guarded step ok (step s a) as))

theorem guarded_append (s : σ) (as bs : List α) :
    Guarded step ok s (as ++ bs) ↔
      Guarded step ok s as ∧ Guarded step ok (run step s as) bs := by
  induction as generalizing s with
  | nil => simp
  | cons a as ih => simp [ih, and_assoc]

theorem guarded_congr {ok' : σ → α → Prop} (h : ∀ s a, ok s a ↔ ok' s a) :
    ∀ (s : σ) (as : List α), Guarded step ok s as ↔ Guarded step ok' s as
  | _, [] => Iff.rfl
  | s, a :: as => and_congr (h s a) (guarded_congr h (step s a) as)

/-- The states a run passes through, the first and the last included. -/
def Reached (s : σ) (as : List α) (t : σ) : Prop := ∃ bs, bs <+: as ∧ run step s bs = t

variable {step ok} {I : σ → Prop}

theorem guarded_of_forall (h : ∀ s a, ok s a) : ∀ {s : σ} {as : List α}, Guarded step ok s as
  | _, [] => trivial
  | s, a :: _ => ⟨h s a, guarded_of_forall h⟩

/-- **Run rule**: an invariant of the allowed steps holds after every guarded run. -/
theorem run_inv (hstep : ∀ s a, I s → ok s a → I (step s a)) :
    ∀ (as : List α) (s : σ), I s → Guarded step ok s as → I (run step s as)
  | [], _, hs, _ => hs
  | a :: as, s, hs, ⟨ha, has⟩ => run_inv hstep as (step s a) (hstep s a hs ha) has

/-- **Run rule** for what the invariant makes of an allowed step. -/
theorem guarded_of_inv {ok' : σ → α → Prop} (hstep : ∀ s a, I s → ok s a → I (step s a))
    (hok : ∀ s a, I s → ok s a → ok' s a) :
    ∀ (as : List α) (s : σ), I s → Guarded step ok s as → Guarded step ok' s as
  | [], _, _, _ => trivial
  | a :: as, s, hs, ⟨ha, has⟩ =>
    ⟨hok s a hs ha, guarded_of_inv hstep hok as (step s a) (hstep s a hs ha) has⟩

/-- **Run rule**: what two conditions have in common under the invariant, they have over runs. -/
theorem guarded_iff_of_inv {P Q : σ → α → Prop} (hstep : ∀ s a, I s → ok s a → I (step s a))
    (hiff : ∀ s a, I s → ok s a → (P s a ↔ Q s a)) :
    ∀ (as : List α) (s : σ), I s → Guarded step ok s as →
      (Guarded step P s as ↔ Guarded step Q s as)
  | [], _, _, _ => Iff.rfl
  | a :: as, s, hs, ⟨ha, has⟩ =>
    and_congr (hiff s a hs ha)
      (guarded_iff_of_inv hstep hiff as (step s a) (hstep s a hs ha) has)

/-- **Run rule**, for every state on the way. -/
theorem reached_inv (hstep : ∀ s a, I s → ok s a → I (step s a)) {as : List α} {s t : σ}
    (hs : I s) (hg : Guarded step ok s as) (ht : Reached step s as t) : I t := by
  obtain ⟨bs, ⟨cs, rfl⟩, rfl⟩ := ht
  exact run_inv hstep bs s hs ((guarded_append step ok s bs cs).mp hg).1

/-- **Run rule**: where `ok` is what a step needs for `P`, and enough for the invariant behind `P`,
all states on the way have `P` exactly when every step is allowed. -/
theorem forall_reached_iff_of_inv {P : σ → Prop} (hP : ∀ s, I s → P s)
    (hstep : ∀ s a, I s → ok s a → I (step s a)) (hneeds : ∀ s a, I s → P (step s a) → ok s a) :
    ∀ (as : List α) (s : σ), I s → ((∀ t, Reached step s as t → P t) ↔ Guarded step ok s as)
  | [], s, hs => by
    refine iff_of_true (fun t ⟨bs, hbs, ht⟩ => ?_) trivial
    rw [List.prefix_nil.mp hbs] at ht
    exact ht ▸ hP s hs
  | a :: as, s, hs => by
    constructor
    · intro h
      have ha : ok s a := hneeds s a hs (h _ ⟨[a], ⟨as, rfl⟩, rfl⟩)
      refine ⟨ha, ?_⟩
      refine (forall_reached_iff_of_inv hP hstep hneeds as _ (hstep s a hs ha)).mp
        fun t ⟨bs, hbs, ht⟩ => ?_
      exact h t ⟨a :: bs, List.cons_prefix_cons.mpr ⟨rfl, hbs⟩, ht⟩
    · intro hg t ht
      exact hP t (reached_inv hstep hs hg ht)

/-- **Run rule**: where `ok` says exactly when a step keeps the invariant, all states on the way
have it exactly when every step is allowed. -/
theorem forall_reached_iff_guarded (hstep : ∀ s a, I s → (I (step s a) ↔ ok s a)) :
    ∀ (as : List α) (s : σ), I s → ((∀ t, Reached step s as t → I t) ↔ Guarded step ok s as) :=
  forall_reached_iff_of_inv (fun _ hs => hs) (fun s a hs ha => (hstep s a hs).mpr ha)
    (fun s a hs h => (hstep s a hs).mp h)

end StepRun
