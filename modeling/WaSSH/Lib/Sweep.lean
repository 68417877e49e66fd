import Mathlib.Data.List.Basic
import Mathlib.Data.List.Nodup

/-!
# Loops that may stop

A loop over a list whose body says whether to go on.

* `sweep`: the loop; `sweep_append`, `sweep_flatMap`: a loop in the body of a loop;
* `sweep_inv`, `sweep_congr`: what every turn keeps, and bodies that agree where it holds;
* `obey`: a body that does what was planned, until there is enough;
* **`sweep_plan`**: a loop that follows a plan does the first things that are planned.
-/

namespace Sweep

variable {σ α β : Type*}

/-- The loop: `false` where it was stopped. -/
def sweep (f : σ → α → Bool × σ) : List α → σ → Bool × σ
  | [], s => (true, s)
  | a :: l, s => if (f s a).1 then sweep f l (f s a).2 else (false, (f s a).2)

variable {f g : σ → α → Bool × σ}

theorem sweep_singleton (f : σ → α → Bool × σ) (a : α) (s : σ) : sweep f [a] s = f s a := by
  rw [sweep]
  by_cases hgo : (f s a).1
  · rw [if_pos hgo, sweep, ← hgo]
  · rw [if_neg hgo, ← eq_false_of_ne_true hgo]

theorem sweep_append (f : σ → α → Bool × σ) (l l' : List α) (s : σ) :
    sweep f (l ++ l') s =
      if (sweep f l s).1 then sweep f l' (sweep f l s).2 else (false, (sweep f l s).2) := by
  induction l generalizing s with
  | nil => rfl
  | cons a l ih =>
    rw [List.cons_append, sweep, sweep]
    by_cases hgo : (f s a).1
    · rw [if_pos hgo, if_pos hgo, ih]
    · rw [if_neg hgo, if_neg hgo, if_neg Bool.false_ne_true]

/-- A loop in the body of a loop. -/
theorem sweep_flatMap (f : σ → α → Bool × σ) (k : β → List α) (l : List β) (s : σ) :
    sweep f (l.flatMap k) s = sweep (fun s b => sweep f (k b) s) l s := by
  induction l generalizing s with
  | nil => rfl
  | cons b l ih => rw [List.flatMap_cons, sweep_append, sweep, ih]

section Invariant

variable {I : σ → Prop} {l : List α} {s : σ}

/-- What every turn keeps, the loop keeps. -/
theorem sweep_inv (hstep : ∀ s, I s → ∀ a ∈ l, I (f s a).2) (hs : I s) : I (sweep f l s).2 := by
  induction l generalizing s with
  | nil => exact hs
  | cons a l ih =>
    have hnext : I (f s a).2 := hstep s hs a List.mem_cons_self
    rw [sweep]
    split_ifs
    · exact ih (fun s hs a ha => hstep s hs a (List.mem_cons_of_mem _ ha)) hnext
    · exact hnext

/-- Two bodies that agree where every turn leads to make the same loop. -/
theorem sweep_congr (hstep : ∀ s, I s → ∀ a ∈ l, I (g s a).2)
    (h : ∀ s, I s → ∀ a ∈ l, f s a = g s a) (hs : I s) : sweep f l s = sweep g l s := by
  induction l generalizing s with
  | nil => rfl
  | cons a l ih =>
    rw [sweep, sweep, h s hs a List.mem_cons_self]
    split_ifs
    · exact ih (fun s hs a ha => hstep s hs a (List.mem_cons_of_mem _ ha))
        (fun s hs a ha => h s hs a (List.mem_cons_of_mem _ ha)) (hstep s hs a List.mem_cons_self)
    · rfl

end Invariant

/-! ## Plans -/

section Plan

variable (plan : α → Option β) (add : σ → β → σ) (count : σ → ℕ) (limit : ℕ)

/-- Do what is planned for an item, and stop when that is enough. -/
def obey (s : σ) (a : α) : Bool × σ :=
  match plan a with
  | none => (true, s)
  | some b => (decide (count (add s b) < limit), add s b)

variable {plan add count limit}

/-- **A loop that follows a plan** does the first things that are planned. `Fresh s a` says that
nothing done so far has changed what is planned for `a`. -/
theorem sweep_plan {Fresh : σ → α → Prop}
    (hcount : ∀ s b, count (add s b) = count s + 1)
    (hobey : ∀ s a, Fresh s a → f s a = obey plan add count limit s a)
    (hfresh : ∀ s a b a', plan a = some b → a' ≠ a → Fresh s a' → Fresh (add s b) a')
    {l : List α} (hnodup : l.Nodup) {s : σ} (hs : ∀ a ∈ l, Fresh s a) (hroom : count s < limit) :
    (sweep f l s).2 = ((l.filterMap plan).take (limit - count s)).foldl add s := by
  induction l generalizing s with
  | nil => rw [List.filterMap_nil, List.take_nil, sweep, List.foldl_nil]
  | cons a l ih =>
    obtain ⟨hnew, hnodup⟩ := List.nodup_cons.mp hnodup
    rw [sweep, hobey s a (hs a List.mem_cons_self), obey, List.filterMap_cons]
    cases hplan : plan a with
    | none =>
      dsimp only
      rw [if_pos rfl, ih hnodup (fun a' ha' => hs a' (List.mem_cons_of_mem _ ha')) hroom]
    | some b =>
      obtain ⟨n, hn⟩ : ∃ n, limit - count s = n + 1 := ⟨limit - count s - 1, by omega⟩
      have hleft : limit - count (add s b) = n := by
        rw [hcount]
        omega
      dsimp only
      rw [hn, List.take_succ_cons, List.foldl_cons]
      by_cases hgo : count (add s b) < limit
      · rw [if_pos (decide_eq_true hgo), ih hnodup (fun a' ha' => ?_) hgo, hleft]
        refine hfresh s a b a' hplan ?_ (hs a' (List.mem_cons_of_mem _ ha'))
        rintro rfl
        exact hnew ha'
      · have hnone : n = 0 := by omega
        rw [if_neg (by rwa [decide_eq_true_eq]), hnone, List.take_zero, List.foldl_nil]

end Plan

end Sweep
