import Mathlib.Tactic

/-!
# Digits in order

Runs of decimal digits compared as numbers, without the numbers.

* `char_cmp`, `str_cmp`: characters by their codes, texts character by character;
* `value`: the number a run of digits stands for;
* `compare_numbers`: without leading zeros, first by length and then as texts;
* **`compare_numbers_eq`**: that compares the numbers.
-/

namespace Digits

/-- `char::cmp`. -/
def char_cmp (a b : Char) : Ordering := compare a.toNat b.toNat

/-- `str::cmp`. -/
def str_cmp (s t : List Char) : Ordering := List.compareLex char_cmp s t

/-- The number a run of digits stands for. -/
def value (w : List Char) : ℕ := w.foldl (fun n c => 10 * n + (c.toNat - 48)) 0

/-- The text without the zeros in front. -/
def strip_zeros (w : List Char) : List Char := w.dropWhile (· = '0')

/-- Two runs of digits as numbers. -/
def compare_numbers (left right : List Char) : Ordering :=
  let left_value := strip_zeros left
  let right_value := strip_zeros right
  (compare left_value.length right_value.length).then (str_cmp left_value right_value)

variable {w v : List Char}

theorem isDigit_iff (c : Char) : c.isDigit ↔ 48 ≤ c.toNat ∧ c.toNat ≤ 57 := by
  simp only [Char.isDigit, Bool.and_eq_true, decide_eq_true_eq, ge_iff_le,
    UInt32.le_iff_toNat_le]
  exact Iff.rfl

theorem value_cons (c : Char) (w : List Char) :
    value (c :: w) = (c.toNat - 48) * 10 ^ w.length + value w := by
  have hfrom : ∀ (w : List Char) (n : ℕ),
      w.foldl (fun n c => 10 * n + (c.toNat - 48)) n = n * 10 ^ w.length + value w := by
    intro w
    induction w with
    | nil => simp [value]
    | cons d w ih =>
      intro n
      have hstart : value (d :: w) =
          w.foldl (fun n c => 10 * n + (c.toNat - 48)) (10 * 0 + (d.toNat - 48)) := rfl
      rw [List.foldl_cons, ih, hstart, ih, List.length_cons, pow_succ]
      ring
  have hstart : value (c :: w) =
      w.foldl (fun n c => 10 * n + (c.toNat - 48)) (10 * 0 + (c.toNat - 48)) := rfl
  rw [hstart, hfrom, Nat.mul_zero, Nat.zero_add]

theorem value_lt (h : ∀ c ∈ w, c.isDigit) : value w < 10 ^ w.length := by
  induction w with
  | nil => exact Nat.one_pos
  | cons c w ih =>
    obtain ⟨hc, hw⟩ := List.forall_mem_cons.mp h
    have hlt := ih hw
    have hdigit : c.toNat - 48 ≤ 9 := by
      have := (isDigit_iff c).mp hc
      omega
    have hmul := Nat.mul_le_mul_right (10 ^ w.length) hdigit
    rw [value_cons, List.length_cons, pow_succ]
    omega

theorem value_strip_zeros (w : List Char) : value (strip_zeros w) = value w := by
  unfold strip_zeros
  induction w with
  | nil => rfl
  | cons c w ih =>
    by_cases hc : c = '0'
    · have hzero : (c.toNat - 48) = 0 := by rw [hc]; rfl
      rw [List.dropWhile_cons_of_pos (by simpa using hc), ih, value_cons, hzero, Nat.zero_mul,
        Nat.zero_add]
    · rw [List.dropWhile_cons_of_neg (by simpa using hc)]

/-- Runs of the same length compare as numbers. -/
theorem str_cmp_eq (hlen : w.length = v.length) (hw : ∀ c ∈ w, c.isDigit)
    (hv : ∀ c ∈ v, c.isDigit) : str_cmp w v = compare (value w) (value v) := by
  unfold str_cmp
  induction w generalizing v with
  | nil =>
    obtain rfl := List.length_eq_zero_iff.mp hlen.symm
    rfl
  | cons c w ih =>
    obtain ⟨d, v, rfl⟩ := List.exists_cons_of_length_eq_add_one hlen.symm
    obtain ⟨hc, hw⟩ := List.forall_mem_cons.mp hw
    obtain ⟨hd, hv⟩ := List.forall_mem_cons.mp hv
    have hlen' : w.length = v.length := Nat.succ.inj hlen
    have hwlt := value_lt hw
    have hvlt := value_lt hv
    have hcnum := (isDigit_iff c).mp hc
    have hdnum := (isDigit_iff d).mp hd
    rw [List.compareLex_cons_cons, ih hlen' hw hv, value_cons, value_cons, ← hlen', char_cmp]
    rw [← hlen'] at hvlt
    rcases Nat.lt_trichotomy c.toNat d.toNat with hlt | heq | hgt
    · have hstep : c.toNat - 48 + 1 ≤ d.toNat - 48 := by omega
      have hmul := Nat.mul_le_mul_right (10 ^ w.length) hstep
      rw [Nat.add_mul, Nat.one_mul] at hmul
      rw [Nat.compare_eq_lt.mpr hlt, Ordering.lt_then, eq_comm, Nat.compare_eq_lt]
      omega
    · rw [heq, Nat.compare_eq_eq.mpr rfl, Ordering.eq_then]
      rcases Nat.lt_trichotomy (value w) (value v) with h | h | h
      · rw [Nat.compare_eq_lt.mpr h, eq_comm, Nat.compare_eq_lt]
        omega
      · rw [h, Nat.compare_eq_eq.mpr rfl, eq_comm, Nat.compare_eq_eq]
      · rw [Nat.compare_eq_gt.mpr h, eq_comm, Nat.compare_eq_gt]
        omega
    · have hstep : d.toNat - 48 + 1 ≤ c.toNat - 48 := by omega
      have hmul := Nat.mul_le_mul_right (10 ^ w.length) hstep
      rw [Nat.add_mul, Nat.one_mul] at hmul
      rw [Nat.compare_eq_gt.mpr hgt, Ordering.gt_then, eq_comm, Nat.compare_eq_gt]
      omega

/-- A run that does not begin with a zero is a number of its length. -/
theorem le_value {c : Char} (hc : c.isDigit) (hzero : c ≠ '0') (w : List Char) :
    10 ^ w.length ≤ value (c :: w) := by
  have hnum := (isDigit_iff c).mp hc
  have hne : c.toNat ≠ 48 := fun h => hzero (Char.toNat_inj.mp h)
  have hmul := Nat.mul_le_mul_right (10 ^ w.length) (show 1 ≤ c.toNat - 48 by omega)
  rw [value_cons]
  omega

/-- A longer run without leading zeros is a larger number. -/
theorem value_lt_value (hw : ∀ c ∈ w, c.isDigit) (hv : ∀ c ∈ v, c.isDigit)
    (hzero : v.head? ≠ some '0') (h : w.length < v.length) : value w < value v := by
  cases v with
  | nil => exact absurd h (Nat.not_lt_zero _)
  | cons d v =>
    have hle := le_value (hv d List.mem_cons_self) (fun hd => hzero (congrArg some hd)) v
    have hpow := Nat.pow_le_pow_right (show 0 < 10 by omega) (Nat.le_of_lt_succ h)
    have hlt := value_lt hw
    omega

theorem digits_strip_zeros (h : ∀ c ∈ w, c.isDigit) : ∀ c ∈ strip_zeros w, c.isDigit :=
  fun c hc => h c ((List.dropWhile_sublist _).subset hc)

theorem head?_strip_zeros (w : List Char) : (strip_zeros w).head? ≠ some '0' := by
  intro h
  have hnot := List.head?_dropWhile_not (· = '0') w
  rw [strip_zeros] at h
  rw [h] at hnot
  exact absurd hnot (by decide)

/-- **Runs of digits compare as numbers.** -/
theorem compare_numbers_eq (hw : ∀ c ∈ w, c.isDigit) (hv : ∀ c ∈ v, c.isDigit) :
    compare_numbers w v = compare (value w) (value v) := by
  unfold compare_numbers
  dsimp only
  rw [← value_strip_zeros w, ← value_strip_zeros v]
  have hw := digits_strip_zeros hw
  have hv := digits_strip_zeros hv
  rcases Nat.lt_trichotomy (strip_zeros w).length (strip_zeros v).length with h | h | h
  · rw [Nat.compare_eq_lt.mpr h, Ordering.lt_then, eq_comm, Nat.compare_eq_lt]
    exact value_lt_value hw hv (head?_strip_zeros v) h
  · rw [h, Nat.compare_eq_eq.mpr rfl, Ordering.eq_then]
    exact str_cmp_eq h hw hv
  · rw [Nat.compare_eq_gt.mpr h, Ordering.gt_then, eq_comm, Nat.compare_eq_gt]
    exact value_lt_value hv hw (head?_strip_zeros w) h

end Digits
