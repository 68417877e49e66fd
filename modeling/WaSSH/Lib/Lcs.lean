import Mathlib.Tactic

/-!
# Longest common subsequences

The length of a longest common subsequence, by the recursion its table follows.

* `lcs`: the length;
* `length_le_lcs`, `exists_common`, **`isGreatest_lcs`**: no common subsequence is longer, and one is
  as long.
-/

namespace Lcs

variable {α : Type*} [DecidableEq α]

/-- Length of a longest common subsequence. -/
def lcs : List α → List α → ℕ
  | x :: xs, y :: ys => if x = y then lcs xs ys + 1 else max (lcs xs (y :: ys)) (lcs (x :: xs) ys)
  | _, _ => 0
  termination_by xs ys => xs.length + ys.length

variable {x y : α} {xs ys : List α}

@[simp] theorem lcs_nil_left : lcs [] ys = 0 := by rw [lcs]; simp

@[simp] theorem lcs_nil_right : lcs xs [] = 0 := by rw [lcs]; simp

theorem lcs_cons : lcs (x :: xs) (x :: ys) = lcs xs ys + 1 := by
  rw [lcs, if_pos rfl]

theorem lcs_of_ne (h : x ≠ y) :
    lcs (x :: xs) (y :: ys) = max (lcs xs (y :: ys)) (lcs (x :: xs) ys) := by
  rw [lcs, if_neg h]

/-- No common subsequence is longer. -/
theorem length_le_lcs {c : List α} (hx : c.Sublist xs) (hy : c.Sublist ys) : c.length ≤ lcs xs ys := by
  fun_induction lcs xs ys generalizing c with
  | case1 xs y ys ih =>
    have hrest := ih hx.tail hy.tail
    rw [List.length_tail] at hrest
    omega
  | case2 x xs y ys hne ihx ihy =>
    cases hx with
    | cons _ hx => exact (ihx hx hy).trans (le_max_left _ _)
    | cons_cons _ hx =>
      cases hy with
      | cons _ hy => exact (ihy (hx.cons_cons x) hy).trans (le_max_right _ _)
      | cons_cons _ hy => exact absurd rfl hne
  | case3 xs ys hnil =>
    rcases xs with _ | ⟨x, xs⟩
    · rw [List.sublist_nil.mp hx, List.length_nil]
    · rcases ys with _ | ⟨y, ys⟩
      · rw [List.sublist_nil.mp hy, List.length_nil]
      · exact absurd rfl fun h => hnil x xs y ys rfl h

/-- One is as long. -/
theorem exists_common (xs ys : List α) :
    ∃ c : List α, c.Sublist xs ∧ c.Sublist ys ∧ c.length = lcs xs ys := by
  fun_induction lcs xs ys with
  | case1 xs y ys ih =>
    obtain ⟨c, hx, hy, hlength⟩ := ih
    exact ⟨y :: c, hx.cons_cons y, hy.cons_cons y, by rw [List.length_cons, hlength]⟩
  | case2 x xs y ys hne ihx ihy =>
    rcases le_total (lcs (x :: xs) ys) (lcs xs (y :: ys)) with h | h
    · obtain ⟨c, hx, hy, hlength⟩ := ihx
      exact ⟨c, hx.cons x, hy, by rw [hlength, max_eq_left h]⟩
    · obtain ⟨c, hx, hy, hlength⟩ := ihy
      exact ⟨c, hx, hy.cons y, by rw [hlength, max_eq_right h]⟩
  | case3 xs ys hnil => exact ⟨[], List.nil_sublist _, List.nil_sublist _, rfl⟩

/-- **The length of a longest common subsequence.** -/
theorem isGreatest_lcs (xs ys : List α) :
    IsGreatest {n | ∃ c : List α, c.Sublist xs ∧ c.Sublist ys ∧ c.length = n} (lcs xs ys) := by
  refine ⟨exists_common xs ys, ?_⟩
  rintro n ⟨c, hx, hy, rfl⟩
  exact length_le_lcs hx hy

end Lcs
