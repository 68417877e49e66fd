import Mathlib.Data.List.Destutter
import WaSSH.Lib.OrderList

/-!
# Rows and slots

A row of a list is dragged to a slot between the rows, counted while it is still in place.

* `others`, `above`: the other rows, and how many of them are above a slot;
* `drop_at`, **`drop_at_eq`**: the list after the drop;
* `place_inj`: a row can be in one place only;
* `pin`, **`pin_eq_iff`**: a list without neighbours that are the same, one row pinned first;
* **`pin_others_iff`**, **`pin_place_iff`**: when such a list is as it was shown.
-/

namespace Slots

variable {κ : Type*} [DecidableEq κ]

/-- The rows but for `x`. -/
def others (x : κ) (l : List κ) : List κ := l.filter (· ≠ x)

/-- The rows but for `x` above a slot. -/
def above (x : κ) (l : List κ) (slot : ℕ) : ℕ := (others x (l.take slot)).length

/-- The rows with `x` behind the first `k`. -/
def place (x : κ) (k : ℕ) (l : List κ) : List κ := l.take k ++ x :: l.drop k

/-- The rows once `x` is dropped in a slot. -/
def drop_at (x : κ) (slot : ℕ) (l : List κ) : List κ :=
  others x (l.take slot) ++ x :: others x (l.drop slot)

variable {x : κ} {l : List κ} {k m : ℕ}

theorem not_mem_others (x : κ) (l : List κ) : x ∉ others x l := fun h =>
  absurd rfl (of_decide_eq_true (List.mem_filter.mp h).2)

theorem mem_others {y : κ} : y ∈ others x l ↔ y ∈ l ∧ y ≠ x := by
  rw [others, List.mem_filter, decide_eq_true_eq]

theorem others_of_not_mem (h : x ∉ l) : others x l = l :=
  List.filter_eq_self.mpr fun _ hy => decide_eq_true fun heq => h (heq ▸ hy)

theorem others_append (x : κ) (l m : List κ) : others x (l ++ m) = others x l ++ others x m :=
  List.filter_append l m

/-- **A drop in a slot** is behind the other rows above the slot. -/
theorem drop_at_eq (x : κ) (slot : ℕ) (l : List κ) :
    drop_at x slot l = place x (above x l slot) (others x l) := by
  have hsplit : others x l = others x (l.take slot) ++ others x (l.drop slot) := by
    rw [← others_append, List.take_append_drop]
  rw [place, hsplit, above, List.take_left, List.drop_left]
  rfl

theorem above_le (x : κ) (l : List κ) (slot : ℕ) : above x l slot ≤ (others x l).length :=
  ((List.take_sublist slot l).filter _).length_le

omit [DecidableEq κ] in
theorem mem_place {y : κ} : y ∈ place x k l ↔ y = x ∨ y ∈ l := by
  have hmem : y ∈ l ↔ y ∈ l.take k ∨ y ∈ l.drop k := by
    rw [← List.mem_append, List.take_append_drop]
  rw [place, List.mem_append, List.mem_cons, hmem, or_left_comm]

omit [DecidableEq κ] in
theorem insertIdx_eq_place (hk : k ≤ l.length) : l.insertIdx k x = place x k l := by
  have hlength : (l.take k).length = k := by rw [List.length_take, Nat.min_eq_left hk]
  have h : (l.take k ++ l.drop k).insertIdx (l.take k).length x = place x k l :=
    OrderList.insertIdx_append x
  rwa [hlength, List.take_append_drop] at h

omit [DecidableEq κ] in
theorem length_place (hk : k ≤ l.length) : (place x k l).length = l.length + 1 := by
  rw [place, List.length_append, List.length_cons, List.length_take, List.length_drop]
  omega

omit [DecidableEq κ] in
/-- A row is in one place. -/
theorem place_inj (hx : x ∉ l) (hk : k ≤ l.length) (hm : m ≤ l.length) :
    place x k l = place x m l ↔ k = m := by
  refine ⟨fun h => ?_, fun h => h ▸ rfl⟩
  have htake := ((List.append_cons_inj_of_notMem (fun h => hx (List.mem_of_mem_take h))
    (fun h => hx (List.mem_of_mem_drop h))).mp h).1
  have hlength := congrArg List.length htake
  rw [List.length_take, List.length_take] at hlength
  omega

/-- A list without neighbours that are the same, with `p` first. -/
def pin (p : κ) (l : List κ) : List κ := p :: others p (l.destutter (· ≠ ·))

theorem length_others_add_count (p : κ) (l : List κ) :
    (others p l).length + l.count p = l.length := by
  induction l with
  | nil => rfl
  | cons y l ih =>
    unfold others at ih ⊢
    rw [List.count_cons, List.length_cons]
    by_cases hy : y = p
    · rw [List.filter_cons_of_neg (by simpa using hy), if_pos (by simpa using hy)]
      omega
    · rw [List.filter_cons_of_pos (by simpa using hy), if_neg (by simpa using hy), List.length_cons]
      omega

/-- **Pinning** makes a list as long as the one given only where no neighbours are the same. -/
theorem pin_eq_iff {p : κ} {l e : List κ} (hone : l.count p = 1) (hlength : e.length = l.length) :
    pin p l = e ↔ l.IsChain (· ≠ ·) ∧ p :: others p l = e := by
  constructor
  · intro h
    have hmem : p ∈ l.destutter (· ≠ ·) := OrderList.mem_destutter.mpr
      (List.count_pos_iff.mp (by omega))
    have hcount := (List.destutter_sublist (· ≠ ·) l).count_le p
    have hpos := List.count_pos_iff.mpr hmem
    have hothers := length_others_add_count p (l.destutter (· ≠ ·))
    have hpin := congrArg List.length h
    rw [pin, List.length_cons] at hpin
    have heq : l.destutter (· ≠ ·) = l :=
      (List.destutter_sublist (· ≠ ·) l).eq_of_length (by omega)
    refine ⟨(List.destutter_eq_self_iff _ l).mp heq, ?_⟩
    rw [pin, heq] at h
    exact h
  · rintro ⟨hchain, h⟩
    rw [pin, List.destutter_of_isChain _ l hchain, h]

/-! ## A drop in a list with a pinned row -/

section Pinned

variable {p : κ} {r : List κ}

/-- Behind the pinned row, a row is put where it stays. -/
theorem pinned_place (hx : x ≠ p) (hr : p ∉ r) (hk : 0 < k) :
    p :: others p (place x k (p :: r)) = place x k (p :: r) := by
  obtain ⟨k, rfl⟩ := Nat.exists_eq_succ_of_ne_zero (Nat.ne_of_gt hk)
  have hcons : place x (k + 1) (p :: r) = p :: place x k r := rfl
  have hrest : p ∉ place x k r := fun h => (mem_place.mp h).elim (fun heq => hx heq.symm) hr
  have hothers : others p (p :: place x k r) = place x k r := by
    rw [others, List.filter_cons_of_neg (by simp)]
    exact others_of_not_mem hrest
  rw [Nat.succ_eq_add_one, hcons, hothers]

theorem count_place (hx : x ≠ p) (l : List κ) : (place x k l).count p = l.count p := by
  rw [place, List.count_append, List.count_cons_of_ne hx, ← List.count_append,
    List.take_append_drop]

theorem count_pinned (hr : p ∉ r) (x : κ) : (p :: others x r).count p = 1 := by
  rw [List.count_cons_self, List.count_eq_zero_of_not_mem fun h => hr (mem_others.mp h).1]

variable (hx : x ≠ p) (hr : p ∉ r)

include hx

theorem others_cons_pinned : others x (p :: r) = p :: others x r :=
  List.filter_cons_of_pos (decide_eq_true (Ne.symm hx))

include hr

/-- **A row taken out** leaves the rest as they are exactly where no two neighbours become the
same. -/
theorem pin_others_iff :
    pin p (others x (p :: r)) = others x (p :: r) ↔ (others x (p :: r)).IsChain (· ≠ ·) := by
  have hr' : p ∉ others x r := fun h => hr (mem_others.mp h).1
  rw [others_cons_pinned hx, pin_eq_iff (count_pinned hr x) rfl, and_iff_left]
  rw [others, List.filter_cons_of_neg (by simp)]
  exact congrArg _ (others_of_not_mem hr')

/-- **A row put behind as many others as its slot has number** is in its slot exactly where the slot
is not in front of the pinned row, and none of its own is above it or the slot is the last. -/
theorem pin_place_iff (slot : ℕ) :
    pin p (place x (min slot (others x (p :: r)).length) (others x (p :: r))) =
        drop_at x slot (p :: r) ↔
      0 < slot ∧ min slot (others x (p :: r)).length = above x (p :: r) slot ∧
        (drop_at x slot (p :: r)).IsChain (· ≠ ·) := by
  have hr' : p ∉ others x r := fun h => hr (mem_others.mp h).1
  have habove := above_le x (p :: r) slot
  have hslot : above x (p :: r) slot ≤ slot :=
    ((List.filter_sublist).length_le).trans (List.length_take_le _ _)
  have hnot := not_mem_others x (p :: r)
  have hmin : min slot (others x (p :: r)).length ≤ (others x (p :: r)).length :=
    Nat.min_le_right _ _
  rw [drop_at_eq]
  generalize above x (p :: r) slot = k at *
  rw [others_cons_pinned hx] at *
  rw [pin_eq_iff ((count_place hx _).trans (count_pinned hr x))
    ((length_place habove).trans (length_place hmin).symm)]
  constructor
  · rintro ⟨hchain, heq⟩
    have hk : 0 < k := by
      by_contra hk
      rw [Nat.eq_zero_of_not_pos hk] at heq
      exact hx (List.cons.inj heq).1.symm
    have hm : 0 < min slot (p :: others x r).length :=
      Nat.lt_min.mpr ⟨by omega, Nat.succ_pos _⟩
    rw [pinned_place hx hr' hm, place_inj hnot hmin habove] at heq
    exact ⟨by omega, heq, heq ▸ hchain⟩
  · rintro ⟨hpos, hm, hchain⟩
    have hk : 0 < k := hm ▸ Nat.lt_min.mpr ⟨hpos, Nat.succ_pos _⟩
    rw [hm]
    exact ⟨hchain, pinned_place hx hr' hk⟩

end Pinned

end Slots
