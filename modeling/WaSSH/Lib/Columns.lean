import WaSSH.Lib.Text

/-!
# Lines of columns

Words with white space between them, as tools print their tables.

* `Word`, `Gap`, `Column`: the parts of a line, each with its property;
* `Rest`: what may follow a word;
* **`split_whitespace_columns`**: the words of a line of columns;
* `counter`, `parse_counter`: numbers as they are printed.
-/

namespace Text

/-- Characters without white space. -/
abbrev Word := {w : List Char // w ≠ [] ∧ w.all (!is_whitespace ·)}

/-- White space. -/
abbrev Blank := {g : List Char // g.all is_whitespace}

/-- White space that separates. -/
abbrev Gap := {g : List Char // g ≠ [] ∧ g.all is_whitespace}

/-- A word and the gap in front of it. -/
structure Column where
  gap : Gap
  word : Word

def Column.text (column : Column) : List Char := column.gap.1 ++ column.word.1

/-- A text that ends a word in front of it. -/
abbrev Rest := {t : List Char // t.head?.all is_whitespace}

theorem split_whitespace_nil : split_whitespace [] = [] := rfl

theorem split_whitespace_blank {t : List Char} : ∀ {g : List Char},
    g.all is_whitespace → split_whitespace (g ++ t) = split_whitespace t
  | [], _ => rfl
  | c :: g, h => by
    rw [List.all_cons, Bool.and_eq_true] at h
    have hc : split_whitespace (c :: (g ++ t)) = split_whitespace (g ++ t) := by
      unfold split_whitespace
      rw [List.splitOnP_cons_eq_if_modifyHead, if_pos h.1, List.filter_cons_of_neg (by simp)]
    rw [List.cons_append, hc, split_whitespace_blank h.2]

theorem splitOnP_word {p : Char → Bool} {t : List Char} : ∀ {w : List Char},
    w.all (!p ·) → (w ++ t).splitOnP p = (t.splitOnP p).modifyHead (w ++ ·)
  | [], _ => by
    rw [List.nil_append]
    exact (congrFun List.modifyHead_id _).symm
  | c :: w, h => by
    rw [List.all_cons, Bool.and_eq_true, Bool.not_eq_true'] at h
    rw [List.cons_append, List.splitOnP_cons_eq_if_modifyHead, if_neg (by simp [h.1]),
      splitOnP_word h.2, List.modifyHead_modifyHead]
    rfl

/-- A word at the start of a text. -/
theorem split_whitespace_word (w : Word) (t : Rest) :
    split_whitespace (w.1 ++ t.1) = w.1 :: split_whitespace t.1 := by
  obtain ⟨w, hne, hw⟩ := w
  obtain ⟨t, ht⟩ := t
  unfold split_whitespace
  dsimp only
  rw [splitOnP_word hw]
  rcases t with _ | ⟨c, t⟩
  · rw [List.splitOnP_nil]
    change List.filter _ [w ++ []] = w :: List.filter _ [[]]
    rw [List.append_nil, List.filter_cons_of_pos (by simpa using hne)]
    rfl
  · have hc : is_whitespace c = true := ht
    rw [List.splitOnP_cons_eq_if_modifyHead, if_pos hc]
    change List.filter _ ((w ++ []) :: _) = w :: List.filter _ ([] :: _)
    rw [List.append_nil, List.filter_cons_of_pos (by simpa using hne),
      List.filter_cons_of_neg (by simp)]

/-- Columns and what follows them end the word in front. -/
theorem rest_columns (columns : List Column) (t : Rest) :
    (columns.flatMap Column.text ++ t.1).head?.all is_whitespace := by
  rcases columns with _ | ⟨column, columns⟩
  · exact t.2
  · obtain ⟨⟨g, hne, hg⟩, w⟩ := column
    obtain ⟨c, g, rfl⟩ := List.exists_cons_of_ne_nil hne
    rw [List.all_cons, Bool.and_eq_true] at hg
    exact hg.1

/-- **The words of a line of columns.** -/
theorem split_whitespace_columns (t : Rest) : ∀ columns : List Column,
    split_whitespace (columns.flatMap Column.text ++ t.1) =
      columns.map (·.word.1) ++ split_whitespace t.1
  | [] => rfl
  | column :: columns => by
    have hword := split_whitespace_word column.word ⟨_, rest_columns columns t⟩
    dsimp only at hword
    rw [List.flatMap_cons, Column.text, List.append_assoc, List.append_assoc,
      split_whitespace_blank column.gap.2.2, hword, split_whitespace_columns t columns]
    rfl

/-! ## Numbers in columns -/

/-- A number in decimal. -/
def in_decimal (n : ℕ) : List Char := Nat.toDigits 10 n

theorem all_isDigit_in_decimal (n : ℕ) : (in_decimal n).all Char.isDigit := all_isDigit_toDigits n

theorem in_decimal_ne_nil (n : ℕ) : in_decimal n ≠ [] := Nat.toDigits_ne_nil

theorem isDigit_toNat {c : Char} (h : c.isDigit) : 48 ≤ c.toNat ∧ c.toNat ≤ 57 := by
  rw [Char.isDigit, Bool.and_eq_true, decide_eq_true_eq, decide_eq_true_eq] at h
  exact h

theorem letter_toNat {c : Char} (h : 'a' ≤ c ∧ c ≤ 'z') : 97 ≤ c.toNat ∧ c.toNat ≤ 122 := h

theorem not_is_whitespace {c : Char} (h : 33 ≤ c.toNat ∧ c.toNat ≤ 126) :
    is_whitespace c = false := by
  unfold is_whitespace
  simp only [decide_eq_false_iff_not]
  omega

theorem all_word_in_decimal (n : ℕ) : (in_decimal n).all (!is_whitespace ·) := by
  rw [List.all_eq_true]
  intro c hc
  have hdigit := List.all_eq_true.mp (all_isDigit_in_decimal n) c hc
  have := isDigit_toNat hdigit
  rw [not_is_whitespace (by omega)]
  rfl

theorem all_word_append {a b : List Char} (ha : a.all (!is_whitespace ·))
    (hb : b.all (!is_whitespace ·)) : (a ++ b).all (!is_whitespace ·) := by
  rw [List.all_append, ha, hb]
  rfl

/-- A counter of 64 bits as it is printed. -/
def counter (n : Fin (2 ^ 64)) : Word :=
  ⟨in_decimal n.1, in_decimal_ne_nil n.1, all_word_in_decimal n.1⟩

theorem parse_counter (n : Fin (2 ^ 64)) : parse_usize (counter n).1 = some n.1 :=
  parse_usize_toDigits n.2

end Text
