import WaSSH.Lib.Text

/-!
# Texts as lists of lines

A text splits at its line ends; the pieces of a composed text are those of its parts.

* `exists_splitOn_append`: in front of a text stand whole lines;
* **`exists_splitOn_suffix`**: a text cut at the front keeps its later lines and one cut line;
* `flat`, **`mem_splitOn_flat`**: lines written out, up to the empty ones at the end;
* **`splitOnP_or`**: two kinds of separators;
* **`lines_written`**: lines written one by one, read up to carriage returns.
-/

namespace Lines

variable {sep : Char} {t u : List Char} {ls : List (List Char)}

/-- No piece has a separator. -/
theorem not_of_mem_splitOnP {p : Char → Bool} {l : List Char} (h : l ∈ t.splitOnP p) :
    ∀ c ∈ l, p c = false := by
  induction t generalizing l with
  | nil =>
    rw [List.splitOnP_nil, List.mem_singleton] at h
    rw [h]
    exact fun _ => nofun
  | cons c t ih =>
    rw [List.splitOnP_cons_eq_if_modifyHead] at h
    split at h
    · rcases List.mem_cons.mp h with rfl | h
      · exact fun _ => nofun
      · exact ih h
    · rename_i hc
      obtain ⟨head, rest, hsplit⟩ := List.exists_cons_of_ne_nil (List.splitOnP_ne_nil p t)
      rw [hsplit, List.modifyHead_cons] at h
      rcases List.mem_cons.mp h with rfl | h
      · intro d hmem
        rcases List.mem_cons.mp hmem with rfl | hmem
        · exact Bool.eq_false_iff.mpr hc
        · exact ih (hsplit ▸ List.mem_cons_self) d hmem
      · exact ih (hsplit ▸ List.mem_cons_of_mem _ h)

theorem not_mem_of_mem_splitOn {l : List Char} (h : l ∈ t.splitOn sep) : sep ∉ l := by
  intro hmem
  have hfalse := not_of_mem_splitOnP h sep hmem
  rw [beq_self_eq_true] at hfalse
  cases hfalse

/-- A text that is empty or ends in a line end puts whole lines before what follows. -/
theorem exists_splitOn_append (h : t = [] ∨ t.getLast? = some sep) :
    ∃ lines : List (List Char), (∀ l ∈ lines, sep ∉ l) ∧
      ∀ u : List Char, (t ++ u).splitOn sep = lines ++ u.splitOn sep := by
  rcases h with rfl | h
  · exact ⟨[], fun _ h => (nomatch h), fun _ => rfl⟩
  · obtain ⟨front, rfl⟩ := List.getLast?_eq_some_iff.mp h
    refine ⟨front.splitOn sep, fun _ => not_mem_of_mem_splitOn, fun u => ?_⟩
    rw [List.append_assoc, List.singleton_append, List.splitOn_append_cons_self]

theorem tail_splitOn_cons (c : Char) (t : List Char) :
    (t.splitOn sep).tail <:+ ((c :: t).splitOn sep).tail := by
  rw [List.splitOn_cons_eq_if_modifyHead]
  split
  · exact List.tail_suffix _
  · rw [List.tail_modifyHead]

/-- **A text cut at the front** keeps, after its first line, lines of the whole text. -/
theorem exists_splitOn_suffix (h : t <:+ u) :
    ∃ cut rest, t.splitOn sep = cut :: rest ∧ rest <:+ (u.splitOn sep).tail := by
  obtain ⟨cut, rest, hsplit⟩ := List.exists_cons_of_ne_nil (List.splitOn_ne_nil sep t)
  refine ⟨cut, rest, hsplit, ?_⟩
  have hrest : rest = (t.splitOn sep).tail := by rw [hsplit, List.tail_cons]
  obtain ⟨front, rfl⟩ := h
  rw [hrest]
  induction front with
  | nil => exact List.suffix_rfl
  | cons c front ih => exact ih.trans (tail_splitOn_cons c _)

/-! ## Lines written out -/

/-- The lines, each with its line end, but for the line ends at the end of the text. -/
def flat (sep : Char) (ls : List (List Char)) : List Char :=
  Text.trim_end_matches sep (ls.flatMap (· ++ [sep]))

theorem splitOn_flatMap (h : ∀ l ∈ ls, sep ∉ l) :
    (ls.flatMap (· ++ [sep])).splitOn sep = ls ++ [[]] := by
  induction ls with
  | nil => exact List.splitOn_nil _
  | cons l ls ih =>
    rw [List.flatMap_cons, List.append_assoc, List.singleton_append,
      List.splitOn_append_cons_self_of_not_mem (h l List.mem_cons_self),
      ih fun l hl => h l (List.mem_cons_of_mem _ hl), List.cons_append]

theorem splitOn_append_replicate (t : List Char) (n : ℕ) :
    (t ++ List.replicate n sep).splitOn sep = t.splitOn sep ++ List.replicate n [] := by
  induction n generalizing t with
  | zero => rw [List.replicate_zero, List.append_nil, List.replicate_zero, List.append_nil]
  | succ n ih =>
    have hcons : t ++ List.replicate (n + 1) sep = (t ++ [sep]) ++ List.replicate n sep := by
      rw [List.replicate_succ, List.append_assoc, List.singleton_append]
    rw [hcons, ih, List.splitOn_append_cons_self, List.splitOn_nil, List.append_assoc,
      List.replicate_succ, List.singleton_append]

theorem exists_trim_end_matches (c : Char) (t : List Char) :
    ∃ n, t = Text.trim_end_matches c t ++ List.replicate n c := by
  induction t using List.reverseRecOn with
  | nil => exact ⟨0, rfl⟩
  | append_singleton t x ih =>
    unfold Text.trim_end_matches at ih ⊢
    by_cases hx : x = c
    · subst hx
      obtain ⟨n, hn⟩ := ih
      refine ⟨n + 1, ?_⟩
      rw [List.rdropWhile_concat_pos (fun y => decide (y = x)) t x (by simp),
        List.replicate_succ', ← List.append_assoc, ← hn]
    · refine ⟨0, ?_⟩
      rw [List.rdropWhile_concat_neg _ _ _ (by simpa using hx), List.replicate_zero,
        List.append_nil]

/-- **The lines of a text that is written out** are the lines, up to empty ones. -/
theorem mem_splitOn_flat (h : ∀ l ∈ ls, sep ∉ l) {l : List Char} (hl : l ≠ []) :
    l ∈ (flat sep ls).splitOn sep ↔ l ∈ ls := by
  obtain ⟨n, hn⟩ := exists_trim_end_matches sep (ls.flatMap (· ++ [sep]))
  have hsplit := congrArg (List.splitOn sep) hn
  rw [splitOn_flatMap h, splitOn_append_replicate] at hsplit
  have hmem : l ∈ ls ++ [[]] ↔ l ∈ (flat sep ls).splitOn sep ++ List.replicate n [] := by
    rw [hsplit]
    rfl
  have hnot : l ∉ List.replicate n ([] : List Char) := fun h => hl (List.eq_of_mem_replicate h)
  simpa [hl, hnot] using hmem.symm

theorem length_splitOn_le (sep : Char) (t : List Char) : (t.splitOn sep).length ≤ t.length + 1 := by
  induction t with
  | nil => rfl
  | cons c t ih =>
    rw [List.splitOn_cons_eq_if_modifyHead]
    split
    · exact Nat.succ_le_succ ih
    · rw [List.length_modifyHead, List.length_cons]
      omega

/-- Separators that are replaced by separators. -/
theorem splitOnP_map {q : Char → Bool} {f : Char → Char} (hsep : ∀ c, q (f c) = q c)
    (hkeep : ∀ c, q c = false → f c = c) (t : List Char) :
    (t.map f).splitOnP q = t.splitOnP q := by
  induction t with
  | nil => rfl
  | cons c t ih =>
    rw [List.map_cons, List.splitOnP_cons_eq_if_modifyHead, List.splitOnP_cons_eq_if_modifyHead, ih,
      hsep]
    cases hc : q c with
    | true => rfl
    | false => rw [hkeep c hc]

/-- What is joined by a separator is what it is split into. -/
theorem splitOnP_intercalate {p : Char → Bool} {sep : Char} (hsep : p sep = true)
    {parts : List (List Char)} (hne : parts ≠ []) (h : ∀ part ∈ parts, ∀ c ∈ part, p c = false) :
    ([sep].intercalate parts).splitOnP p = parts := by
  induction parts with
  | nil => exact absurd rfl hne
  | cons part parts ih =>
    have hpart := h part List.mem_cons_self
    rcases eq_or_ne parts [] with rfl | hparts
    · rw [List.intercalate_singleton, List.splitOnP_eq_singleton hpart]
    · rw [List.intercalate_cons_of_ne_nil hparts, List.append_assoc, List.singleton_append,
        List.splitOnP_append_cons_of_forall_mem hpart sep hsep,
        ih hparts fun other hother => h other (List.mem_cons_of_mem _ hother)]

theorem mem_intercalate {sep c : Char} {parts : List (List Char)}
    (h : c ∈ [sep].intercalate parts) : (∃ part ∈ parts, c ∈ part) ∨ c = sep := by
  induction parts with
  | nil => cases h
  | cons part parts ih =>
    rcases eq_or_ne parts [] with rfl | hparts
    · rw [List.intercalate_singleton] at h
      exact .inl ⟨part, List.mem_singleton_self part, h⟩
    · rw [List.intercalate_cons_of_ne_nil hparts, List.mem_append, List.mem_append] at h
      rcases h with (h | h) | h
      · exact .inl ⟨part, List.mem_cons_self, h⟩
      · exact .inr (List.mem_singleton.mp h)
      · refine (ih h).imp_left fun ⟨other, hother, hc⟩ => ⟨other, ?_, hc⟩
        exact List.mem_cons_of_mem _ hother

/-- **Splitting at two kinds of separators** is splitting at the one and then at the other. -/
theorem splitOnP_or (p q : Char → Bool) (t : List Char) :
    t.splitOnP (fun c => p c || q c) = (t.splitOnP p).flatMap (List.splitOnP q) := by
  induction t with
  | nil => rfl
  | cons c t ih =>
    rw [List.splitOnP_cons_eq_if_modifyHead, List.splitOnP_cons_eq_if_modifyHead, ih]
    obtain ⟨head, rest, hsplit⟩ := List.exists_cons_of_ne_nil (List.splitOnP_ne_nil p t)
    cases hp : p c with
    | true => rfl
    | false =>
      rw [hsplit, if_neg Bool.false_ne_true, List.modifyHead_cons, List.flatMap_cons,
        List.flatMap_cons, List.splitOnP_cons_eq_if_modifyHead]
      cases hq : q c with
      | true => rfl
      | false =>
        obtain ⟨first, others, hhead⟩ := List.exists_cons_of_ne_nil (List.splitOnP_ne_nil q head)
        rw [hhead]
        rfl

/-! ## Lines read -/

/-- A line without a carriage return at its end. -/
def strip_return (line : List Char) : List Char :=
  if line.getLast? = some '\r' then line.dropLast else line

theorem split_inclusive_line {line : List Char} (h : '\n' ∉ line) (rest : List Char) :
    Text.split_inclusive (line ++ '\n' :: rest) =
      (line ++ ['\n']) :: Text.split_inclusive rest := by
  induction line with
  | nil => rw [List.nil_append, Text.split_inclusive, if_pos rfl, List.nil_append]
  | cons c line ih =>
    rw [List.mem_cons, not_or] at h
    rw [List.cons_append, Text.split_inclusive, if_neg fun hc => h.1 hc.symm, ih h.2]
    rfl

/-- **The lines of a text written line by line**, up to carriage returns. -/
theorem lines_written {lines : List (List Char)} (h : ∀ line ∈ lines, '\n' ∉ line) :
    Text.lines (lines.flatMap (· ++ ['\n'])) = lines.map strip_return := by
  induction lines with
  | nil => rfl
  | cons line lines ih =>
    have hline : Text.strip_line_end (line ++ ['\n']) = strip_return line := by
      unfold Text.strip_line_end
      rw [if_pos (by rw [List.getLast?_concat]), List.dropLast_concat]
      rfl
    have hrest := ih fun l hl => h l (List.mem_cons_of_mem _ hl)
    unfold Text.lines at hrest ⊢
    rw [List.flatMap_cons, List.append_assoc, List.singleton_append,
      split_inclusive_line (h line List.mem_cons_self), List.map_cons, hline, hrest]
    rfl

theorem strip_return_cons {c : Char} (hc : c ≠ '\r') (line : List Char) :
    strip_return (c :: line) = c :: strip_return line := by
  unfold strip_return
  rcases line with _ | ⟨d, line⟩
  · rw [if_neg (by simpa using hc), if_neg (by simp)]
  · rw [List.getLast?_cons_cons]
    split
    · rw [List.dropLast_cons_of_ne_nil (List.cons_ne_nil d line)]
    · rfl

theorem strip_return_append {front line : List Char} {c : Char} (hc : c ≠ '\r') :
    strip_return (front ++ c :: line) = front ++ c :: strip_return line := by
  induction front with
  | nil => exact strip_return_cons hc line
  | cons d front ih =>
    have hne : front ++ c :: line ≠ [] := by simp
    obtain ⟨e, rest, he⟩ := List.exists_cons_of_ne_nil hne
    rw [List.cons_append, List.cons_append, ← ih]
    unfold strip_return
    rw [he, List.getLast?_cons_cons]
    split
    · rw [List.dropLast_cons_of_ne_nil (List.cons_ne_nil e rest)]
    · rfl

theorem trim_strip_return (line : List Char) :
    Text.trim_end_matches '\r' (strip_return line) = Text.trim_end_matches '\r' line := by
  unfold strip_return
  split
  · next h =>
    obtain ⟨front, rfl⟩ := List.getLast?_eq_some_iff.mp h
    unfold Text.trim_end_matches
    rw [List.dropLast_concat, List.rdropWhile_concat_pos _ _ _ (by simp)]
  · rfl

theorem strip_return_prefix (line : List Char) : strip_return line <+: line := by
  unfold strip_return
  split
  · exact List.dropLast_prefix line
  · exact List.prefix_rfl

theorem strip_return_eq_self_iff {line : List Char} :
    strip_return line = line ↔ line.getLast? ≠ some '\r' := by
  unfold strip_return
  split
  · next h =>
    obtain ⟨front, rfl⟩ := List.getLast?_eq_some_iff.mp h
    rw [List.dropLast_concat]
    simp
  · next h => exact iff_of_true rfl h

end Lines
