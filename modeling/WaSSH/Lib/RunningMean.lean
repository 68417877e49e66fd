import Mathlib.Algebra.Field.Basic
import Mathlib.Algebra.CharZero.Defs
import Mathlib.Tactic

/-!
# Running means

A mean that is kept up to date one value at a time, with a weight that somebody else counts.

* `mean`: the mean of the values, where there are any;
* `blend`: one more value;
* **`blend_mean_iff`**: the weights with which the mean stays the mean.
-/

namespace RunningMean

variable {K : Type} [Field K]

def mean : List K → Option K
  | [] => none
  | x :: xs => some ((x :: xs).sum / (x :: xs).length)

/-- Fold a value into the mean of `samples` values. -/
def blend (slot value : Option K) (samples : ℕ) : Option K :=
  match value with
  | none => slot
  | some value => some (match slot with
    | some current => (current * samples + value) / (samples + 1)
    | none => value)

theorem mean_of_ne_nil {xs : List K} (h : xs ≠ []) : mean xs = some (xs.sum / xs.length) := by
  obtain ⟨x, xs, rfl⟩ := List.exists_cons_of_ne_nil h
  rfl

theorem mean_singleton (v : K) : mean [v] = some v := by
  rw [mean_of_ne_nil (List.cons_ne_nil _ _)]
  simp

variable [CharZero K]

/-- **The mean stays the mean** of the first value, with the true weight, or of a value that is the
mean already. -/
theorem blend_mean_iff (xs : List K) (v : K) (n : ℕ) :
    blend (mean xs) (some v) n = mean (xs ++ [v]) ↔
      xs = [] ∨ xs.length = n ∨ mean xs = some v := by
  by_cases hxs : xs = []
  · subst hxs
    rw [List.nil_append, mean_singleton]
    exact ⟨fun _ => .inl rfl, fun _ => rfl⟩
  have hk : (xs.length : K) ≠ 0 := by
    rw [Nat.cast_ne_zero]
    exact fun h => hxs (List.length_eq_zero_iff.mp h)
  have hk1 : (xs.length : K) + 1 ≠ 0 := Nat.cast_add_one_ne_zero _
  have hn1 : (n : K) + 1 ≠ 0 := Nat.cast_add_one_ne_zero _
  have hsum : xs.sum = xs.sum / xs.length * xs.length := (div_mul_cancel₀ _ hk).symm
  rw [mean_of_ne_nil hxs, mean_of_ne_nil (List.append_ne_nil_of_left_ne_nil hxs [v])]
  set m := xs.sum / (xs.length : K) with hm
  have hblend : blend (some m) (some v) n = some ((m * n + v) / (n + 1)) := rfl
  rw [hblend, Option.some.injEq, Option.some.injEq, List.sum_append, List.sum_singleton,
    List.length_append, List.length_singleton, Nat.cast_add, Nat.cast_one, div_eq_div_iff hn1 hk1,
    hsum]
  constructor
  · intro h
    have hzero : ((n : K) - xs.length) * (m - v) = 0 := by
      linear_combination h
    rcases mul_eq_zero.mp hzero with h | h
    · exact .inr (.inl (Nat.cast_injective (sub_eq_zero.mp h)).symm)
    · exact .inr (.inr (sub_eq_zero.mp h))
  · rintro (h | h | h)
    · exact absurd h hxs
    · rw [← h]
    · rw [h]
      ring

end RunningMean
