import WaSSH.Lib.Text
import WaSSH.Lib.Utf8

/-!
# Slices

Texts and byte strings cut at offsets. An offset outside, or inside a character, is a panic: there
is no result.

* `find`: the offset of a match, counted in bytes; **`find_cases`**: what comes before the first
  match has none;
* `text_from`, **`text_from_append`**: a text from an offset on;
* `range`: the bytes between two offsets.
-/

namespace Slice

open Utf8

/-! ## Texts -/

/-- `str::find`: the offset of the first match. -/
def find (needle : List Char) : List Char → Option ℕ
  | [] => if needle.isEmpty then some 0 else none
  | c :: t =>
    if needle.isPrefixOf (c :: t) then some 0 else (find needle t).map (c.utf8Size + ·)

/-- `&text[offset..]`. -/
def text_from : List Char → ℕ → Option (List Char)
  | t, 0 => some t
  | [], _ + 1 => none
  | c :: t, n + 1 => if c.utf8Size ≤ n + 1 then text_from t (n + 1 - c.utf8Size) else none

theorem length_encode_cons (c : Char) (t : List Char) :
    (encode (c :: t)).length = c.utf8Size + (encode t).length := by
  rw [encode_cons, List.length_append, String.length_utf8EncodeChar]

/-- **A text is cut between two characters.** -/
theorem text_from_append (before after : List Char) :
    text_from (before ++ after) (encode before).length = some after := by
  induction before with
  | nil => cases after <;> rfl
  | cons c before ih =>
    obtain ⟨n, hn⟩ := Nat.exists_eq_succ_of_ne_zero (Nat.pos_iff_ne_zero.mp c.utf8Size_pos)
    have hsize : c.utf8Size + (encode before).length = n + (encode before).length + 1 := by omega
    rw [length_encode_cons, hsize, List.cons_append, text_from, ← hsize,
      if_pos (Nat.le_add_right _ _), Nat.add_sub_cancel_left, ih]

theorem find_eq_none_iff (needle t : List Char) : find needle t = none ↔ ¬ needle <:+: t := by
  induction t with
  | nil =>
    rw [find, List.infix_nil]
    cases needle <;> simp
  | cons c t ih =>
    rw [find, List.infix_cons_iff]
    by_cases hbegins : needle <+: c :: t
    · rw [if_pos (List.isPrefixOf_iff_prefix.mpr hbegins)]
      simp [hbegins]
    · rw [if_neg (fun h => hbegins (List.isPrefixOf_iff_prefix.mp h)), Option.map_eq_none_iff, ih]
      simp [hbegins]

/-- **The first match**: it is a match, and no match begins before it. -/
theorem find_cases {needle t : List Char} {i : ℕ} (h : find needle t = some i) :
    ∃ before after, t = before ++ needle ++ after ∧ i = (encode before).length ∧
      ∀ first second, before = first ++ second → second ≠ [] →
        ¬ needle <+: second ++ needle ++ after := by
  induction t generalizing i with
  | nil =>
    have hneedle : needle = [] := by
      cases needle with
      | nil => rfl
      | cons d needle => cases h
    subst hneedle
    refine ⟨[], [], rfl, (Option.some.inj h).symm, fun first second hnil hne => ?_⟩
    exact absurd (List.append_eq_nil_iff.mp hnil.symm).2 hne
  | cons c t ih =>
    rw [find] at h
    split at h
    · next hbegins =>
      obtain ⟨after, hafter⟩ := List.isPrefixOf_iff_prefix.mp hbegins
      refine ⟨[], after, hafter.symm, (Option.some.inj h).symm, fun first second hnil hne => ?_⟩
      exact absurd (List.append_eq_nil_iff.mp hnil.symm).2 hne
    · next hbegins =>
      obtain ⟨j, hj, rfl⟩ := Option.map_eq_some_iff.mp h
      obtain ⟨before, after, rfl, rfl, hfirst⟩ := ih hj
      refine ⟨c :: before, after, rfl, (length_encode_cons c before).symm, ?_⟩
      intro first second hsplit hne hmatch
      cases first with
      | nil =>
        rw [List.nil_append] at hsplit
        rw [← hsplit] at hmatch
        exact hbegins (List.isPrefixOf_iff_prefix.mpr hmatch)
      | cons d first =>
        exact hfirst first second (List.cons.inj hsplit).2 hne hmatch

/-- Where no match begins before it, a match is the first one. -/
theorem find_append {needle before after : List Char}
    (h : ∀ first second, before = first ++ second → second ≠ [] →
      ¬ needle <+: second ++ needle ++ after) :
    find needle (before ++ needle ++ after) = some (encode before).length := by
  induction before with
  | nil =>
    have hbegins : needle.isPrefixOf (needle ++ after) :=
      List.isPrefixOf_iff_prefix.mpr (List.prefix_append _ _)
    show find needle (needle ++ after) = some 0
    cases hwhole : needle ++ after with
    | nil => rw [find, (List.append_eq_nil_iff.mp hwhole).1]; rfl
    | cons c t => rw [find, ← hwhole, if_pos hbegins]
  | cons c before ih =>
    have hnot : ¬ needle.isPrefixOf (c :: (before ++ needle ++ after)) := fun hbegins =>
      h [] (c :: before) rfl (List.cons_ne_nil _ _) (List.isPrefixOf_iff_prefix.mp hbegins)
    rw [List.cons_append, List.cons_append, find, if_neg hnot,
      ih fun first second hsplit => h (c :: first) second (congrArg (c :: ·) hsplit),
      length_encode_cons]
    rfl

/-! ## Bytes -/

/-- `&bytes[start..stop]`. -/
def range {α : Type*} (bytes : List α) (start stop : ℕ) : Option (List α) :=
  if start ≤ stop ∧ stop ≤ bytes.length then some ((bytes.drop start).take (stop - start))
  else none

end Slice
