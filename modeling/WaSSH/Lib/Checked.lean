import Mathlib.Tactic

/-!
# Checked arithmetic

Sums of numbers of `w` bits that say where they leave the width.

* `add`, `sub`, `mul`, `sum`, `saturating_mul`: of unsigned numbers;
* `signed`, `Signed`: a result in two's complement;
* **`sum_eq_ok_iff`**: a sum is in range where the whole sum is, whatever its order;
* `mapM_eq_ok_iff`: a list of fallible results is there where each of them is.
-/

namespace Checked

/-- What goes wrong. -/
inductive Fault
  | overflow
  deriving DecidableEq, Repr

/-- `a + b`. -/
def add (w a b : ℕ) : Except Fault ℕ := if a + b < 2 ^ w then .ok (a + b) else .error .overflow

/-- `a - b`. -/
def sub (a b : ℕ) : Except Fault ℕ := if b ≤ a then .ok (a - b) else .error .overflow

/-- `a * b`. -/
def mul (w a b : ℕ) : Except Fault ℕ := if a * b < 2 ^ w then .ok (a * b) else .error .overflow

/-- The numbers of `w` bits in two's complement. -/
def Signed (w : ℕ) (z : ℤ) : Prop := -2 ^ (w - 1) ≤ z ∧ z < 2 ^ (w - 1)

instance (w : ℕ) (z : ℤ) : Decidable (Signed w z) := inferInstanceAs (Decidable (_ ∧ _))

/-- A result that is to have `w` bits. -/
def signed (w : ℕ) (z : ℤ) : Except Fault ℤ := if Signed w z then .ok z else .error .overflow

/-- `Iterator::sum`. -/
def sum (w : ℕ) (xs : List ℕ) : Except Fault ℕ := xs.foldlM (add w) 0

/-- `saturating_mul`. -/
def saturating_mul (w a b : ℕ) : ℕ := min (a * b) (2 ^ w - 1)

theorem signed_of {w : ℕ} {z : ℤ} (h : Signed w z) : signed w z = .ok z := if_pos h

theorem add_of_lt {w a b : ℕ} (h : a + b < 2 ^ w) : add w a b = .ok (a + b) := if_pos h

theorem sub_of_le {a b : ℕ} (h : b ≤ a) : sub a b = .ok (a - b) := if_pos h

theorem mul_of_lt {w a b : ℕ} (h : a * b < 2 ^ w) : mul w a b = .ok (a * b) := if_pos h

theorem add_eq_ok_iff {w a b n : ℕ} : add w a b = .ok n ↔ n = a + b ∧ a + b < 2 ^ w := by
  unfold add
  split_ifs with h
  · simp [h, eq_comm]
  · simp [h]

theorem ok_bind {ε α β : Type} (a : α) (f : α → Except ε β) : Except.ok a >>= f = f a := rfl

theorem bind_eq_ok_iff {ε α β : Type} {x : Except ε α} {f : α → Except ε β} {b : β} :
    x >>= f = .ok b ↔ ∃ a, x = .ok a ∧ f a = .ok b := by
  cases x with
  | error e => simp [bind, Except.bind]
  | ok a => simp [bind, Except.bind]

/-- A fold of checked sums is in range where its last value is: the values only grow. -/
theorem foldlM_add_eq_ok_iff {w n : ℕ} : ∀ {xs : List ℕ} {a : ℕ}, a < 2 ^ w →
    (xs.foldlM (add w) a = .ok n ↔ n = a + xs.sum ∧ a + xs.sum < 2 ^ w)
  | [], a, ha => by
    change Except.ok a = Except.ok n ↔ _
    simp [ha, eq_comm]
  | x :: xs, a, ha => by
    rw [List.foldlM_cons, bind_eq_ok_iff, List.sum_cons, ← Nat.add_assoc]
    constructor
    · rintro ⟨b, hb, h⟩
      obtain ⟨rfl, hlt⟩ := add_eq_ok_iff.mp hb
      exact (foldlM_add_eq_ok_iff hlt).mp h
    · intro h
      have hlt : a + x < 2 ^ w := by omega
      exact ⟨a + x, add_eq_ok_iff.mpr ⟨rfl, hlt⟩, (foldlM_add_eq_ok_iff hlt).mpr h⟩

/-- **A sum is in range where the whole sum is.** -/
theorem sum_eq_ok_iff {w n : ℕ} {xs : List ℕ} :
    sum w xs = .ok n ↔ n = xs.sum ∧ xs.sum < 2 ^ w := by
  unfold sum
  rw [foldlM_add_eq_ok_iff (Nat.two_pow_pos w), Nat.zero_add]

/-- Each result is there. -/
theorem mapM_eq_ok_iff {ε α β : Type} {f : α → Except ε β} : ∀ {xs : List α},
    (∃ ys, xs.mapM f = .ok ys) ↔ ∀ x ∈ xs, ∃ y, f x = .ok y
  | [] => by simp [pure, Except.pure]
  | x :: xs => by
    have ih : (∃ ys, xs.mapM f = .ok ys) ↔ _ := mapM_eq_ok_iff
    rw [List.forall_mem_cons, ← ih]
    constructor
    · rintro ⟨ys, h⟩
      rw [List.mapM_cons, bind_eq_ok_iff] at h
      obtain ⟨y, hy, h⟩ := h
      obtain ⟨zs, hzs, -⟩ := bind_eq_ok_iff.mp h
      exact ⟨⟨y, hy⟩, zs, hzs⟩
    · rintro ⟨⟨y, hy⟩, zs, hzs⟩
      refine ⟨y :: zs, ?_⟩
      rw [List.mapM_cons, hy, hzs]
      rfl

end Checked
