import Mathlib.Tactic

/-!
# Intervals end to end

Lists of half-open intervals of natural numbers.

* `Tiles a z is`: the intervals follow each other from `a` to `z`, without gap or overlap;
* `Tiles.pairwise`, **`Tiles.covers`**, `Tiles.sum_length`: their order, what they cover, how long
  they are together; `InOrder` names the first two;
* **`Tiles.sum_overlap`**: what they have in common with another interval.
-/

namespace Intervals

/-- An interval, its end not included. -/
abbrev Interval := ℕ × ℕ

/-- How long an interval is. -/
def length (i : Interval) : ℕ := i.2 - i.1

/-- How much two intervals have in common. -/
def overlap (i j : Interval) : ℕ := min i.2 j.2 - max i.1 j.1

/-- The intervals follow each other from `a` to `z`. -/
def Tiles : ℕ → ℕ → List Interval → Prop
  | a, z, [] => z ≤ a
  | a, z, i :: is => i.1 = a ∧ a ≤ i.2 ∧ i.2 ≤ z ∧ Tiles i.2 z is

variable {a z : ℕ} {is : List Interval}

theorem Tiles.within (h : Tiles a z is) : ∀ i ∈ is, a ≤ i.1 ∧ i.1 ≤ i.2 ∧ i.2 ≤ z := by
  induction is generalizing a with
  | nil => exact fun i hi => absurd hi List.not_mem_nil
  | cons i is ih =>
    obtain ⟨rfl, hle, hend, hrest⟩ := h
    refine List.forall_mem_cons.mpr ⟨⟨le_refl _, hle, hend⟩, fun j hj => ?_⟩
    obtain ⟨hstart, hin⟩ := ih hrest j hj
    exact ⟨le_trans hle hstart, hin⟩

/-- They are in order, and apart. -/
theorem Tiles.pairwise (h : Tiles a z is) : is.Pairwise fun i j => i.2 ≤ j.1 := by
  induction is generalizing a with
  | nil => exact List.Pairwise.nil
  | cons i is ih =>
    obtain ⟨-, -, -, hrest⟩ := h
    exact List.pairwise_cons.mpr ⟨fun j hj => (hrest.within j hj).1, ih hrest⟩

/-- Intervals that begin behind `z` are none. -/
theorem Tiles.from_min (h : Tiles a z is) : Tiles (min a z) z is := by
  by_cases hle : a ≤ z
  · rwa [Nat.min_eq_left hle]
  · cases is with
    | nil => exact Nat.le_min.mpr ⟨h, le_refl _⟩
    | cons i is =>
      obtain ⟨-, hstart, hend, -⟩ := h
      exact absurd (le_trans hstart hend) hle

/-- **They cover exactly what is between their ends.** -/
theorem Tiles.covers (h : Tiles a z is) (t : ℕ) :
    (∃ i ∈ is, i.1 ≤ t ∧ t < i.2) ↔ a ≤ t ∧ t < z := by
  induction is generalizing a with
  | nil =>
    have hend : z ≤ a := h
    refine iff_of_false ?_ (by omega)
    rintro ⟨i, hi, -⟩
    exact List.not_mem_nil hi
  | cons i is ih =>
    obtain ⟨rfl, hle, hend, hrest⟩ := h
    rw [List.exists_mem_cons_iff, ih hrest]
    omega

/-- Intervals in order and apart that cover exactly what is from `a` to `z`. -/
structure InOrder (a z : ℕ) (is : List Interval) : Prop where
  ordered : ∀ i ∈ is, i.1 ≤ i.2
  apart : is.Pairwise fun i j => i.2 ≤ j.1
  covers : ∀ t, (∃ i ∈ is, i.1 ≤ t ∧ t < i.2) ↔ a ≤ t ∧ t < z

theorem Tiles.inOrder (h : Tiles a z is) : InOrder a z is :=
  ⟨fun i hi => (h.within i hi).2.1, h.pairwise, h.covers⟩

/-- Together they are as long as what they cover. -/
theorem Tiles.sum_length (h : Tiles a z is) : (is.map length).sum = z - a := by
  induction is generalizing a with
  | nil =>
    have hend : z ≤ a := h
    rw [List.map_nil, List.sum_nil, Nat.sub_eq_zero_of_le hend]
  | cons i is ih =>
    obtain ⟨rfl, hle, hend, hrest⟩ := h
    rw [List.map_cons, List.sum_cons, ih hrest, length]
    omega

/-- **What they have in common with an interval** is what all they cover has. -/
theorem Tiles.sum_overlap (h : Tiles a z is) {j : Interval} (hj : j.1 ≤ j.2) :
    (is.map (overlap · j)).sum = overlap (a, z) j := by
  induction is generalizing a with
  | nil =>
    have hend : z ≤ a := h
    rw [List.map_nil, List.sum_nil, overlap]
    dsimp only
    omega
  | cons i is ih =>
    obtain ⟨rfl, hle, hend, hrest⟩ := h
    rw [List.map_cons, List.sum_cons, ih hrest, overlap, overlap, overlap]
    dsimp only
    omega

/-- An interval has nothing but itself in common with one around it. -/
theorem overlap_of_within {i j : Interval} (hstart : i.1 ≤ j.1) (hend : j.2 ≤ i.2) :
    overlap i j = length j := by
  rw [overlap, length, Nat.max_eq_right hstart, Nat.min_eq_right hend]

theorem overlap_le_length (i j : Interval) : overlap i j ≤ length j := by
  rw [overlap, length]
  omega

/-- Sums over two lists, in either order. -/
theorem sum_map_comm {α β : Type*} (f : α → β → ℕ) (as : List α) (bs : List β) :
    (as.map fun x => (bs.map (f x)).sum).sum = (bs.map fun y => (as.map (f · y)).sum).sum := by
  induction as with
  | nil => simp
  | cons x as ih =>
    rw [List.map_cons, List.sum_cons, ih, ← List.sum_map_add]
    rfl

end Intervals
