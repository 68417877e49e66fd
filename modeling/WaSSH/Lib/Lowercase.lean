import Mathlib
import WaSSH.Lib.Digits

/-!
# Lower case

`str::to_lowercase` over the tables of the Unicode standard, of which only what concerns digits is
fixed.

* `CaseTables`: the tables; `ascii_tables`: those of ASCII;
* `to_lowercase`, with the rule for a sigma at the end of a word;
* **`to_lowercase_append_digits`**: digits stay, and what stands on one side of them does not show
  on the other.
-/

namespace Lowercase

open Digits

/-- The tables for the case of characters. -/
structure CaseTables where
  /-- `char::to_lowercase`. -/
  lower : Char → List Char
  cased : Char → Bool
  case_ignorable : Char → Bool
  lower_ne_nil : ∀ c, lower c ≠ []
  lower_digit : ∀ c, c.isDigit → lower c = [c]
  digit_of_lower : ∀ c, ∀ d ∈ lower c, d.isDigit → c.isDigit
  digit_apart : ∀ c, c.isDigit → cased c = false ∧ case_ignorable c = false

theorem isUpper_iff (c : Char) : c.isUpper ↔ 65 ≤ c.toNat ∧ c.toNat ≤ 90 := by
  simp only [Char.isUpper, decide_eq_true_eq, ge_iff_le, UInt32.le_iff_toNat_le]
  exact Iff.rfl

theorem isLower_iff (c : Char) : c.isLower ↔ 97 ≤ c.toNat ∧ c.toNat ≤ 122 := by
  simp only [Char.isLower, Bool.and_eq_true, decide_eq_true_eq, ge_iff_le,
    UInt32.le_iff_toNat_le]
  exact Iff.rfl

/-- `char::to_ascii_lowercase`. -/
def to_ascii_lowercase (c : Char) : Char := if c.isUpper then Char.ofNat (c.toNat + 32) else c

theorem to_ascii_lowercase_of_isDigit {c : Char} (h : c.isDigit) : to_ascii_lowercase c = c := by
  refine if_neg ?_
  rw [isDigit_iff] at h
  rw [isUpper_iff]
  omega

theorem toNat_to_ascii_lowercase {c : Char} (h : c.isUpper) :
    (to_ascii_lowercase c).toNat = c.toNat + 32 := by
  rw [to_ascii_lowercase, if_pos h]
  rw [isUpper_iff] at h
  unfold Char.ofNat
  rw [dif_pos (Or.inl (by omega))]
  rfl

theorem isDigit_of_to_ascii_lowercase {c : Char} (h : (to_ascii_lowercase c).isDigit) :
    c.isDigit := by
  by_cases hupper : c.isUpper
  · have hsmall := toNat_to_ascii_lowercase hupper
    rw [isUpper_iff] at hupper
    rw [isDigit_iff] at h
    omega
  · rwa [to_ascii_lowercase, if_neg hupper] at h

/-- The tables of ASCII. -/
def ascii_tables : CaseTables where
  lower c := [to_ascii_lowercase c]
  cased c := c.isAlpha
  case_ignorable c := c = '.' ∨ c = '\'' ∨ c = ':' ∨ c = '^'
  lower_ne_nil _ := List.cons_ne_nil _ _
  lower_digit _ hc := by rw [to_ascii_lowercase_of_isDigit hc]
  digit_of_lower _ _ hd h := isDigit_of_to_ascii_lowercase (List.mem_singleton.mp hd ▸ h)
  digit_apart c hc := by
    have hnum := (isDigit_iff c).mp hc
    constructor
    · rw [Char.isAlpha, Bool.or_eq_false_iff, ← Bool.not_eq_true, ← Bool.not_eq_true, isUpper_iff,
        isLower_iff]
      omega
    · rw [decide_eq_false_iff_not]
      rintro (rfl | rfl | rfl | rfl) <;> exact absurd hc (by decide)

variable (u : CaseTables)

/-- Whether, behind characters that do not count, there is one that has a case. -/
def case_ignorable_then_cased (t : List Char) : Bool :=
  match t.dropWhile u.case_ignorable with
  | c :: _ => u.cased c
  | [] => false

/-- A sigma, by what is before and after it. -/
def map_uppercase_sigma (before after : List Char) : Char :=
  if case_ignorable_then_cased u before && !case_ignorable_then_cased u after then 'ς' else 'σ'

/-- The characters of a text in lower case, `before` those in front of it from the last on. -/
def lower_from : List Char → List Char → List Char
  | _, [] => []
  | before, c :: t =>
    (if c = 'Σ' then [map_uppercase_sigma u before t] else u.lower c) ++ lower_from (c :: before) t

/-- `str::to_lowercase`. -/
def to_lowercase (t : List Char) : List Char := lower_from u [] t

variable {u}

/-- A digit ends what is looked at. -/
theorem case_ignorable_then_cased_append {d : Char} (h : d.isDigit) (t rest : List Char) :
    case_ignorable_then_cased u (t ++ d :: rest) = case_ignorable_then_cased u t := by
  obtain ⟨hcased, hignorable⟩ := u.digit_apart d h
  induction t with
  | nil => simp [case_ignorable_then_cased, hcased, hignorable]
  | cons c t ih =>
    unfold case_ignorable_then_cased at ih ⊢
    rw [List.cons_append]
    by_cases hc : u.case_ignorable c
    · rw [List.dropWhile_cons_of_pos hc, List.dropWhile_cons_of_pos hc, ih]
    · rw [List.dropWhile_cons_of_neg hc, List.dropWhile_cons_of_neg hc]

/-- What stands behind a digit does not show in front of it. -/
theorem lower_from_append_digit {d : Char} (h : d.isDigit) (t rest before : List Char) :
    lower_from u before (t ++ d :: rest) =
      lower_from u before t ++ lower_from u (t.reverse ++ before) (d :: rest) := by
  induction t generalizing before with
  | nil => rfl
  | cons c t ih =>
    rw [List.cons_append, lower_from, lower_from, ih, List.reverse_cons, List.append_assoc,
      List.append_assoc, List.singleton_append, map_uppercase_sigma, map_uppercase_sigma,
      case_ignorable_then_cased_append h]

/-- What stands in front of a digit does not show behind it. -/
theorem lower_from_digit_before {d : Char} (h : d.isDigit) (t before rest : List Char) :
    lower_from u (before ++ d :: rest) t = lower_from u before t := by
  induction t generalizing before with
  | nil => rfl
  | cons c t ih =>
    have hnext := ih (c :: before)
    rw [List.cons_append] at hnext
    rw [lower_from, lower_from, hnext, map_uppercase_sigma, map_uppercase_sigma,
      case_ignorable_then_cased_append h]

theorem lower_from_digits {w : List Char} (h : ∀ d ∈ w, d.isDigit) (t before : List Char) :
    lower_from u before (w ++ t) = w ++ lower_from u (w.reverse ++ before) t := by
  induction w generalizing before with
  | nil => rfl
  | cons d w ih =>
    obtain ⟨hd, hw⟩ := List.forall_mem_cons.mp h
    have hsigma : d ≠ 'Σ' := by
      rintro rfl
      exact absurd hd (by decide)
    rw [List.cons_append, lower_from, if_neg hsigma, u.lower_digit d hd, ih hw, List.reverse_cons,
      List.append_assoc]
    rfl

/-- **Digits stay**, and each side of them is by itself. -/
theorem to_lowercase_append_digits {w : List Char} (hne : w ≠ []) (h : ∀ d ∈ w, d.isDigit)
    (before after : List Char) :
    to_lowercase u (before ++ (w ++ after)) =
      to_lowercase u before ++ (w ++ to_lowercase u after) := by
  obtain ⟨d, w', rfl⟩ := List.exists_cons_of_ne_nil hne
  have hd := h d List.mem_cons_self
  have hback : lower_from u ((d :: w').reverse ++ (before.reverse ++ [])) after =
      lower_from u [] after := by
    obtain ⟨e, r, hr⟩ := List.exists_cons_of_ne_nil (List.reverse_ne_nil_iff.mpr hne)
    have he : e ∈ d :: w' := by
      rw [← List.mem_reverse, hr]
      exact List.mem_cons_self
    have hdigit := lower_from_digit_before (u := u) (h e he) after [] (r ++ (before.reverse ++ []))
    rw [hr]
    exact hdigit
  unfold to_lowercase
  rw [List.cons_append, lower_from_append_digit hd, ← List.cons_append, lower_from_digits h, hback]

/-- What one character becomes is there, and has no digit unless the character is one. -/
theorem exists_piece (before after : List Char) (c : Char) :
    ∃ piece, (if c = 'Σ' then [map_uppercase_sigma u before after] else u.lower c) = piece ∧
      piece ≠ [] ∧ ∀ d ∈ piece, d.isDigit → c.isDigit := by
  refine ⟨_, rfl, ?_⟩
  split_ifs with hsigma
  · refine ⟨List.cons_ne_nil _ _, fun d hd hdigit => ?_⟩
    rw [List.mem_singleton.mp hd, map_uppercase_sigma] at hdigit
    split at hdigit <;> exact absurd hdigit (by decide)
  · exact ⟨u.lower_ne_nil c, u.digit_of_lower c⟩

/-- A text begins with a digit in lower case only if it does. -/
theorem digit_of_head? {t : List Char} {d : Char} (h : (to_lowercase u t).head? = some d)
    (hdigit : d.isDigit) : ∃ c, t.head? = some c ∧ c.isDigit := by
  cases t with
  | nil => cases h
  | cons c t =>
    obtain ⟨piece, hpiece, hne, hdigits⟩ := exists_piece (u := u) [] t c
    obtain ⟨e, piece, rfl⟩ := List.exists_cons_of_ne_nil hne
    rw [to_lowercase, lower_from, hpiece] at h
    obtain rfl := Option.some.inj h
    exact ⟨c, rfl, hdigits e List.mem_cons_self hdigit⟩

theorem exists_lower_from_concat (t before : List Char) (c : Char) :
    ∃ start piece, lower_from u before (t ++ [c]) = start ++ piece ∧ piece ≠ [] ∧
      ∀ d ∈ piece, d.isDigit → c.isDigit := by
  induction t generalizing before with
  | nil =>
    obtain ⟨piece, hpiece, hrest⟩ := exists_piece (u := u) before [] c
    refine ⟨[], piece, ?_, hrest⟩
    rw [List.nil_append, lower_from, hpiece, lower_from, List.append_nil]
    rfl
  | cons b t ih =>
    obtain ⟨start, piece, heq, hrest⟩ := ih (b :: before)
    obtain ⟨first, hfirst, -⟩ := exists_piece (u := u) before (t ++ [c]) b
    refine ⟨first ++ start, piece, ?_, hrest⟩
    rw [List.cons_append, lower_from, hfirst, heq, List.append_assoc]

/-- A text ends in a digit in lower case only if it does. -/
theorem digit_of_getLast? {t : List Char} {d : Char} (h : (to_lowercase u t).getLast? = some d)
    (hdigit : d.isDigit) : ∃ c, t.getLast? = some c ∧ c.isDigit := by
  rcases List.eq_nil_or_concat t with rfl | ⟨t, c, rfl⟩
  · cases h
  · rw [List.concat_eq_append] at h ⊢
    obtain ⟨start, piece, heq, hne, hdigits⟩ := exists_lower_from_concat (u := u) t [] c
    rw [to_lowercase, heq, List.getLast?_append_of_ne_nil _ hne] at h
    exact ⟨c, List.getLast?_concat, hdigits d (List.mem_of_getLast? h) hdigit⟩

end Lowercase
