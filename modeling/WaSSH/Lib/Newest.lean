import Mathlib.Data.List.Basic
import Mathlib.Data.List.Infix
import Mathlib.Data.Nat.Notation

/-!
# Lists bounded to their newest entries

A bounded log grows at the end and is cut at the front.

* `trim`: the cut, with its length and suffix lemmas;
* **`trim_append_trim`**: cutting on the way does not change what is left at the end.
-/

namespace Newest

variable {α β : Type*} (max : ℕ) (l m : List α)

/-- `if l.len() > max { l.drain(..l.len() - max) }`. -/
def trim : List α := if max < l.length then l.drop (l.length - max) else l

theorem trim_eq_drop : trim max l = l.drop (l.length - max) := by
  unfold trim
  split
  · rfl
  · rw [Nat.sub_eq_zero_of_le (by omega), List.drop_zero]

@[simp] theorem length_trim : (trim max l).length = min l.length max := by
  rw [trim_eq_drop, List.length_drop]
  omega

theorem trim_suffix : trim max l <:+ l := by
  rw [trim_eq_drop]
  exact List.drop_suffix _ _

variable {max l m}

theorem trim_of_le (h : l.length ≤ max) : trim max l = l := if_neg (by omega)

theorem map_trim (f : α → β) : (trim max l).map f = trim max (l.map f) := by
  rw [trim_eq_drop, trim_eq_drop, List.map_drop, List.length_map]

/-- What is cut off the front of a log is not missed when the log grows and is cut again. -/
theorem trim_append_trim : trim max (trim max l ++ m) = trim max (l ++ m) := by
  simp only [trim_eq_drop, List.length_append, List.length_drop]
  rw [← List.drop_append_of_le_length (by omega), List.drop_drop]
  congr 1
  omega

/-- Enough new entries leave none of the old ones. -/
theorem trim_append_of_le (h : max ≤ m.length) : trim max (l ++ m) = trim max m := by
  rw [trim_eq_drop, trim_eq_drop, List.length_append, List.drop_append,
    List.drop_of_length_le (by omega), List.nil_append]
  congr 1
  omega

theorem trim_eq_of_suffix (h : m <:+ l) (hm : max ≤ m.length) : trim max l = trim max m := by
  obtain ⟨front, rfl⟩ := h
  exact trim_append_of_le hm

/-- The newest entry survives. -/
theorem getLast?_trim_concat (h : 0 < max) (x : α) : (trim max (l ++ [x])).getLast? = some x := by
  obtain ⟨front, hfront⟩ := trim_suffix max (l ++ [x])
  have hne : trim max (l ++ [x]) ≠ [] := by
    intro hnil
    have := length_trim max (l ++ [x])
    rw [hnil, List.length_append, List.length_nil, List.length_singleton] at this
    omega
  rw [← List.getLast?_append_of_ne_nil front hne, hfront, List.getLast?_concat]

end Newest
