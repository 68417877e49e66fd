import WaSSH.Agent.Tools
import WaSSH.Lib.Lcs

/-!
# What a diff says

A diff shows every line with a mark and its number: read by the marks, both texts come back, and as
many lines as possible are kept.

* `lcs_table_eq`, `Rising`, `lcs_walk_rising`: the table and the walk through it;
* `diff_entry`, `read_diff`, `marked`: a diff read by its marks;
* `diff_lines_marked`, `all_kept_iff`: what the lines of a diff say;
* **`diff_reconstructs`**: both texts come back.
-/

namespace WaSSH.Agent

open Lcs

variable {xs ys old new : List (List Char)}

/-! ## The table -/

/-- The rows of the table: for every suffix of the lines, one entry for every suffix of the others. -/
def rows (xs ys : List (List Char)) : List (List ℕ) := xs.tails.map fun t => ys.tails.map (lcs t)

theorem map_tails_eq_cons {α β : Type} (f : List α → β) (as : List α) :
    as.tails.map f = f as :: (as.tails.map f).tail := by
  cases as <;> rfl

theorem headD_map_tails {α β : Type} (f : List α → β) (as : List α) (b : β) :
    (as.tails.map f).headD b = f as := by
  rw [map_tails_eq_cons]
  rfl

theorem lcs_row_eq (x : List Char) (xs : List (List Char)) : ∀ ys : List (List Char),
    lcs_row x ys (ys.tails.map (lcs xs)) = ys.tails.map (lcs (x :: xs))
  | [] => by
    show [0] = [lcs (x :: xs) []]
    rw [lcs_nil_right]
  | y :: ys => by
    rw [List.tails_cons, List.map_cons, List.map_cons, lcs_row, lcs_row_eq x xs ys]
    rw [headD_map_tails, headD_map_tails]
    by_cases h : x = y
    · subst h
      rw [if_pos rfl, lcs_cons]
    · rw [if_neg h, lcs_of_ne h]

theorem lcs_table_eq (ys : List (List Char)) : ∀ xs : List (List Char), lcs_table xs ys = rows xs ys
  | [] => by
    show [List.replicate (ys.length + 1) 0] = [ys.tails.map (lcs [])]
    rw [List.cons.injEq]
    refine ⟨(List.eq_replicate_iff.mpr ⟨?_, ?_⟩).symm, rfl⟩
    · rw [List.length_map, List.length_tails]
    · intro n hn
      obtain ⟨t, -, rfl⟩ := List.mem_map.mp hn
      exact lcs_nil_left
  | x :: xs => by
    have htable : lcs_table (x :: xs) ys =
        lcs_row x ys ((lcs_table xs ys).headD []) :: lcs_table xs ys := rfl
    rw [htable, lcs_table_eq ys xs, rows, headD_map_tails, lcs_row_eq]
    rfl

theorem map_tail_rows (y : List Char) : (rows xs (y :: ys)).map List.tail = rows xs ys := by
  unfold rows
  rw [List.map_map]
  rfl

/-! ## The walk -/

/-- The pairs rise from `(i, j)` on, and pair equal lines. -/
def Rising (old new : List (List Char)) : ℕ → ℕ → List (ℕ × ℕ) → Prop
  | _, _, [] => True
  | i, j, (a, b) :: pairs =>
    i ≤ a ∧ j ≤ b ∧ (∃ line, old[a]? = some line ∧ new[b]? = some line) ∧
      Rising old new (a + 1) (b + 1) pairs

theorem Rising.mono {i j i' j' : ℕ} (hi : i' ≤ i) (hj : j' ≤ j) :
    ∀ {pairs : List (ℕ × ℕ)}, Rising old new i j pairs → Rising old new i' j' pairs
  | [], _ => trivial
  | _ :: _, ⟨ha, hb, hline, hrest⟩ => ⟨hi.trans ha, hj.trans hb, hline, hrest⟩

/-- Whatever stands before the two lists, the walk pairs equal lines, as many as can be. -/
theorem lcs_walk_rising {i j : ℕ} (hold : old.drop i = xs) (hnew : new.drop j = ys) :
    Rising old new i j (lcs_walk i xs (rows xs ys) j ys) ∧
      (lcs_walk i xs (rows xs ys) j ys).length = lcs xs ys := by
  induction hn : xs.length + ys.length using Nat.strong_induction_on generalizing xs ys i j with
  | h n ih =>
    rcases xs with _ | ⟨x, xs⟩
    · rw [lcs_walk]
      · exact ⟨trivial, lcs_nil_left.symm⟩
      · intros
        contradiction
    rcases ys with _ | ⟨y, ys⟩
    · rw [lcs_walk]
      · exact ⟨trivial, lcs_nil_right.symm⟩
      · intros
        contradiction
    have hdropx : old.drop (i + 1) = xs := by
      rw [← List.drop_drop, hold]
      rfl
    have hdropy : new.drop (j + 1) = ys := by
      rw [← List.drop_drop, hnew]
      rfl
    have hx : old[i]? = some x := by
      rw [← List.head?_drop, hold]
      rfl
    have hy : new[j]? = some y := by
      rw [← List.head?_drop, hnew]
      rfl
    have hrows : rows (x :: xs) (y :: ys) =
        (lcs (x :: xs) (y :: ys) :: ys.tails.map (lcs (x :: xs))) :: rows xs (y :: ys) := rfl
    rw [List.length_cons, List.length_cons] at hn
    rw [hrows, lcs_walk]
    by_cases h : x = y
    · subst h
      rw [if_pos rfl, map_tail_rows, lcs_cons]
      obtain ⟨hrising, hlength⟩ := ih _ (by omega) hdropx hdropy rfl
      exact ⟨⟨le_rfl, le_rfl, ⟨x, hx, hy⟩, hrising⟩, by rw [List.length_cons, hlength]⟩
    rw [if_neg h, List.tail_cons, headD_map_tails, lcs_of_ne h]
    have hhead : ((rows xs (y :: ys)).headD []).headD 0 = lcs xs (y :: ys) := by
      rw [rows, headD_map_tails, headD_map_tails]
    rw [hhead]
    by_cases hle : lcs (x :: xs) ys ≤ lcs xs (y :: ys)
    · rw [if_pos hle, max_eq_left hle]
      obtain ⟨hrising, hlength⟩ := ih _ (by rw [List.length_cons]; omega) hdropx hnew rfl
      exact ⟨hrising.mono (Nat.le_succ i) le_rfl, hlength⟩
    · have hmap : ((lcs (x :: xs) (y :: ys) :: ys.tails.map (lcs (x :: xs))) ::
            rows xs (y :: ys)).map List.tail = rows (x :: xs) ys := by
        rw [← hrows, map_tail_rows]
      rw [lcs_of_ne h] at hmap
      rw [if_neg hle, hmap, max_eq_right (Nat.le_of_lt (Nat.lt_of_not_le hle))]
      obtain ⟨hrising, hlength⟩ := ih _ (by rw [List.length_cons]; omega) hold hdropy rfl
      exact ⟨hrising.mono le_rfl (Nat.le_succ j), hlength⟩

theorem lcs_pairs_rising (h : xs.length * ys.length ≤ MAX_DIFF_TABLE_CELLS) :
    Rising xs ys 0 0 (lcs_pairs xs ys) ∧ (lcs_pairs xs ys).length = lcs xs ys := by
  unfold lcs_pairs
  rw [if_neg (Nat.not_lt.mpr h), lcs_table_eq]
  exact lcs_walk_rising rfl rfl

/-! ## Lines with marks -/

/-- A line of a diff. -/
def diff_line (mark : Char) (n : ℕ) (text : List Char) : List Char :=
  mark :: (pad_left 4 (digits n) ++ ' ' :: text)

/-- The mark of a line, and what stands behind its number. -/
def diff_entry : List Char → Char × List Char
  | [] => ('?', [])
  | mark :: line => (mark, ((line.dropWhile (· = ' ')).dropWhile Char.isDigit).drop 1)

/-- The lines of a diff with their marks. -/
def read_diff (diff : List Char) : List (Char × List Char) := (diff.splitOn '\n').map diff_entry

/-- The lines with one of the marks. -/
def marked (marks : List Char) (lines : List (Char × List Char)) : List (List Char) :=
  (lines.filter (·.1 ∈ marks)).map Prod.snd

theorem digits_isDigit {n : ℕ} {c : Char} (h : c ∈ digits n) : c.isDigit = true :=
  List.all_eq_true.mp (Text.all_isDigit_toDigits n) c h

theorem digits_ne_nil (n : ℕ) : digits n ≠ [] := Nat.toDigits_ne_nil

theorem diff_entry_line (mark : Char) (n : ℕ) (text : List Char) :
    diff_entry (diff_line mark n text) = (mark, text) := by
  obtain ⟨d, ds, hd⟩ := List.exists_cons_of_ne_nil (digits_ne_nil n)
  have hdigit : d.isDigit = true := digits_isDigit (hd ▸ List.mem_cons_self)
  have hspace : d ≠ ' ' := fun h => by
    subst h
    exact absurd hdigit (by decide)
  have hpad : ∀ c ∈ List.replicate (4 - (digits n).length) ' ', decide (c = ' ') = true :=
    fun c hc => decide_eq_true (List.eq_of_mem_replicate hc)
  have hdigits : ∀ c ∈ digits n, c.isDigit = true := fun c => digits_isDigit
  unfold diff_line diff_entry pad_left
  dsimp only
  rw [List.append_assoc, List.dropWhile_append_of_pos hpad, hd, List.cons_append,
    List.dropWhile_cons_of_neg (by simpa using hspace), ← List.cons_append, ← hd,
    List.dropWhile_append_of_pos hdigits, List.dropWhile_cons_of_neg (by decide)]
  rfl

theorem newline_not_mem_diff_line {mark : Char} {n : ℕ} {text : List Char} (hmark : mark ≠ '\n')
    (htext : '\n' ∉ text) : '\n' ∉ diff_line mark n text := by
  have hdigits : '\n' ∉ digits n := fun h => absurd (digits_isDigit h) (by decide)
  unfold diff_line pad_left
  simp [hmark.symm, htext, hdigits]

/-! ## The lines of a diff -/

/-- Lines from the `i`-th on, with a mark. -/
def run_lines (mark : Char) (lines : List (List Char)) (i count : ℕ) : List (List Char) :=
  (List.range' i count).map fun n => diff_line mark n (lines.getD n [])

theorem map_entry_run_lines (mark : Char) {lines : List (List Char)} {i count : ℕ}
    (h : i + count ≤ lines.length) :
    (run_lines mark lines i count).map diff_entry =
      ((lines.drop i).take count).map fun text => (mark, text) := by
  unfold run_lines
  rw [List.map_map]
  refine List.ext_getElem ?_ fun n h1 h2 => ?_
  · simp
    omega
  · simp only [List.length_map, List.length_range'] at h1
    simp [diff_entry_line, List.getD, show i + n < lines.length by omega]

theorem diff_lines_cons {i j a b : ℕ} {pairs : List (ℕ × ℕ)} (hi : i ≤ a) (hj : j ≤ b)
    {line : List Char} (ha : old[a]? = some line) (hb : new[b]? = some line) :
    diff_lines old new i j ((a, b) :: pairs) =
      run_lines '-' old i (a - i) ++ run_lines '+' new j (b - j) ++
        diff_line ' ' a line :: diff_lines old new (a + 1) (b + 1) pairs := by
  have halt := (List.getElem?_eq_some_iff.mp ha).1
  have hblt := (List.getElem?_eq_some_iff.mp hb).1
  rw [diff_lines]
  dsimp only
  rw [max_eq_right hi, max_eq_right hj, if_pos ⟨halt, hblt, ha.trans hb.symm⟩]
  have hline : old.getD a [] = line := by
    rw [List.getD_eq_getElem?_getD, ha]
    rfl
  rw [hline]
  rfl

theorem diff_lines_end {i j : ℕ} (hi : i ≤ old.length) :
    diff_lines old new i j [(old.length, new.length)] =
      run_lines '-' old i (old.length - i) ++ run_lines '+' new j (new.length - j) := by
  rw [diff_lines]
  dsimp only
  rw [max_eq_right hi, if_neg fun h => absurd h.1 (lt_irrefl _), diff_lines, List.append_nil]
  rfl

/-- What the lines of a diff say of the two texts from `(i, j)` on. -/
structure Says (lines : List (Char × List Char)) (old new : List (List Char)) (kept : ℕ) : Prop where
  marks : ∀ line ∈ lines, line.1 ∈ ['-', '+', ' ']
  old : marked ['-', ' '] lines = old
  new : marked ['+', ' '] lines = new
  kept : (marked [' '] lines).length = kept

theorem marked_append (marks : List Char) (lines lines' : List (Char × List Char)) :
    marked marks (lines ++ lines') = marked marks lines ++ marked marks lines' := by
  unfold marked
  rw [List.filter_append, List.map_append]

theorem marked_map (marks : List Char) (mark : Char) (texts : List (List Char)) :
    marked marks (texts.map fun text => (mark, text)) = if mark ∈ marks then texts else [] := by
  unfold marked
  rw [List.filter_map, List.map_map]
  split
  · next h => simp [Function.comp_def, h]
  · next h => simp [Function.comp_def, h]

theorem Says.run {lines : List (Char × List Char)} {kept : ℕ} (h : Says lines old new kept)
    (removed added : List (List Char)) :
    Says ((removed.map fun text => ('-', text)) ++ (added.map fun text => ('+', text)) ++ lines)
      (removed ++ old) (added ++ new) kept where
  marks := by
    intro line hline
    simp only [List.mem_append, List.mem_map] at hline
    rcases hline with (⟨_, -, rfl⟩ | ⟨_, -, rfl⟩) | hline
    · exact List.mem_cons_self
    · exact List.mem_cons_of_mem _ List.mem_cons_self
    · exact h.marks line hline
  old := by
    rw [marked_append, marked_append, marked_map, marked_map, if_pos (by decide), if_neg (by decide),
      List.append_nil, h.old]
  new := by
    rw [marked_append, marked_append, marked_map, marked_map, if_neg (by decide), if_pos (by decide),
      List.nil_append, h.new]
  kept := by
    rw [marked_append, marked_append, marked_map, marked_map, if_neg (by decide), if_neg (by decide),
      List.nil_append, List.nil_append, h.kept]

theorem Says.keep {lines : List (Char × List Char)} {kept : ℕ} (h : Says lines old new kept)
    (line : List Char) : Says ((' ', line) :: lines) (line :: old) (line :: new) (kept + 1) where
  marks := by
    intro marked hmarked
    rcases List.mem_cons.mp hmarked with rfl | hmarked
    · exact List.mem_cons_of_mem _ (List.mem_cons_of_mem _ List.mem_cons_self)
    · exact h.marks _ hmarked
  old := by
    rw [← h.old]
    rfl
  new := by
    rw [← h.new]
    rfl
  kept := by
    rw [← h.kept]
    rfl

theorem drop_eq_take_append {lines : List (List Char)} {i a : ℕ} (hi : i ≤ a) {line : List Char}
    (ha : lines[a]? = some line) :
    lines.drop i = (lines.drop i).take (a - i) ++ line :: lines.drop (a + 1) := by
  obtain ⟨halt, rfl⟩ := List.getElem?_eq_some_iff.mp ha
  rw [← List.drop_eq_getElem_cons halt]
  have hdrop : lines.drop a = (lines.drop i).drop (a - i) := by
    rw [List.drop_drop]
    congr 1
    omega
  rw [hdrop, List.take_append_drop]

theorem diff_lines_read : ∀ {pairs : List (ℕ × ℕ)} {i j : ℕ}, Rising old new i j pairs →
    i ≤ old.length → j ≤ new.length →
    Says ((diff_lines old new i j (pairs ++ [(old.length, new.length)])).map diff_entry)
      (old.drop i) (new.drop j) pairs.length
  | [], i, j, _, hi, hj => by
    rw [List.nil_append, diff_lines_end hi, List.map_append, map_entry_run_lines _ (by omega),
      map_entry_run_lines _ (by omega)]
    have hnone : Says [] [] [] 0 := ⟨fun _ h => absurd h List.not_mem_nil, rfl, rfl, rfl⟩
    have hrun := hnone.run (old.drop i) (new.drop j)
    rw [List.append_nil, List.append_nil, List.append_nil] at hrun
    rw [List.take_of_length_le (by rw [List.length_drop]),
      List.take_of_length_le (by rw [List.length_drop])]
    exact hrun
  | (a, b) :: pairs, i, j, ⟨hia, hjb, ⟨line, ha, hb⟩, hrest⟩, hi, hj => by
    have halt := (List.getElem?_eq_some_iff.mp ha).1
    have hblt := (List.getElem?_eq_some_iff.mp hb).1
    rw [List.cons_append, diff_lines_cons hia hjb ha hb, List.map_append, List.map_append,
      List.map_cons, map_entry_run_lines _ (by omega), map_entry_run_lines _ (by omega), diff_entry_line]
    have hgiven := (diff_lines_read hrest halt hblt).keep line
    have hrun := hgiven.run ((old.drop i).take (a - i)) ((new.drop j).take (b - j))
    rw [← drop_eq_take_append hia ha, ← drop_eq_take_append hjb hb] at hrun
    exact hrun

theorem mem_run_lines {mark : Char} {lines : List (List Char)} {i count : ℕ} {l : List Char}
    (h : l ∈ run_lines mark lines i count) :
    ∃ n text, l = diff_line mark n text ∧ (text ∈ lines ∨ text = []) := by
  obtain ⟨n, -, rfl⟩ := List.mem_map.mp h
  refine ⟨n, _, rfl, ?_⟩
  rw [List.getD_eq_getElem?_getD]
  cases hn : lines[n]? with
  | none => exact .inr rfl
  | some text => exact .inl (List.mem_of_getElem? hn)

theorem mem_diff_lines : ∀ {pairs : List (ℕ × ℕ)} {i j : ℕ} {l : List Char},
    l ∈ diff_lines old new i j pairs →
    ∃ mark n text, l = diff_line mark n text ∧ mark ≠ '\n' ∧ (text ∈ old ++ new ∨ text = [])
  | [], _, _, _, h => absurd h List.not_mem_nil
  | (a, b) :: pairs, i, j, l, h => by
    have hrun {mark : Char} (hmark : mark ≠ '\n') {lines : List (List Char)} {i count : ℕ}
        (hsub : ∀ text ∈ lines, text ∈ old ++ new) (hl : l ∈ run_lines mark lines i count) :
        ∃ mark n text, l = diff_line mark n text ∧ mark ≠ '\n' ∧ (text ∈ old ++ new ∨ text = []) := by
      obtain ⟨n, text, rfl, htext⟩ := mem_run_lines hl
      exact ⟨mark, n, text, rfl, hmark, htext.imp_left (hsub text)⟩
    have hold : ∀ text ∈ old, text ∈ old ++ new := fun _ => List.mem_append_left _
    have hnew : ∀ text ∈ new, text ∈ old ++ new := fun _ => List.mem_append_right _
    rw [diff_lines] at h
    dsimp only at h
    split at h
    · simp only [List.mem_append, List.mem_cons] at h
      rcases h with (h | h) | rfl | h
      · exact hrun (by decide) hold h
      · exact hrun (by decide) hnew h
      · refine ⟨' ', _, _, rfl, by decide, ?_⟩
        rw [List.getD_eq_getElem?_getD]
        cases hn : old[max i a]? with
        | none => exact .inr rfl
        | some text => exact .inl (hold text (List.mem_of_getElem? hn))
      · exact mem_diff_lines h
    · simp only [List.mem_append] at h
      rcases h with (h | h) | h
      · exact hrun (by decide) hold h
      · exact hrun (by decide) hnew h
      · exact mem_diff_lines h

/-! ## Texts with the same lines -/

theorem lcs_self (xs : List (List Char)) : lcs xs xs = xs.length := by
  induction xs with
  | nil => exact lcs_nil_left
  | cons x xs ih => rw [lcs_cons, ih, List.length_cons]

/-- Everything is kept exactly where the lines are the same. -/
theorem all_kept_iff {lines : List (Char × List Char)} (h : Says lines old new (lcs old new)) :
    (∀ line ∈ lines, line.1 = ' ') ↔ old = new := by
  constructor
  · intro hall
    have hmarked (mark : Char) : marked [mark, ' '] lines = lines.map Prod.snd := by
      unfold marked
      rw [List.filter_eq_self.mpr fun line hline => by simp [hall line hline]]
    rw [← h.old, ← h.new, hmarked, hmarked]
  · rintro rfl line hline
    have hsame {mark : Char} (hmarked : (marked [mark, ' '] lines).length = old.length) :
        line.1 ∈ [mark, ' '] → line.1 = ' ' := by
      intro hmark
      have hsub : (lines.filter (·.1 ∈ [' '])).Sublist (lines.filter (·.1 ∈ [mark, ' '])) :=
        List.monotone_filter_right lines fun l hl => by
          simp only [List.mem_singleton, decide_eq_true_eq] at hl
          simp [hl]
      have hlength : (lines.filter (·.1 ∈ [' '])).length =
          (lines.filter (·.1 ∈ [mark, ' '])).length := by
        have hkept := h.kept
        rw [lcs_self, ← hmarked] at hkept
        simpa [marked] using hkept
      have hmem : line ∈ lines.filter (·.1 ∈ [mark, ' ']) :=
        List.mem_filter.mpr ⟨hline, decide_eq_true hmark⟩
      rw [← hsub.eq_of_length hlength] at hmem
      exact List.mem_singleton.mp (of_decide_eq_true (List.mem_filter.mp hmem).2)
    have hmarks := h.marks line hline
    have hold := congrArg List.length h.old
    have hnew := congrArg List.length h.new
    rcases List.mem_cons.mp hmarks with hmark | hmark
    · exact hsame hold (hmark ▸ List.mem_cons_self)
    · exact hsame hnew hmark

/-! ## The text of a diff -/

theorem read_diff_intercalate {out : List (List Char)} (hne : out ≠ [])
    (h : ∀ l ∈ out, '\n' ∉ l) : read_diff (['\n'].intercalate out) = out.map diff_entry := by
  unfold read_diff
  rw [List.splitOn_intercalate '\n' h hne]

/-- The common subsequences of two texts, line by line, by their lengths. -/
def common_lengths (old new : List (List Char)) : Set ℕ :=
  {n | ∃ c : List (List Char), c.Sublist old ∧ c.Sublist new ∧ c.length = n}

/-- **A diff read by its marks** gives both texts back, line by line, and keeps as many lines as
possible; the pairs kept rise and pair equal lines. Texts with the same lines have no differences. -/
theorem diff_reconstructs (old new : List Char) (context : ℕ)
    (h : (Text.lines old).length * (Text.lines new).length ≤ MAX_DIFF_TABLE_CELLS) :
    (diff_texts old new context = "No differences.".toList ↔ Text.lines old = Text.lines new) ∧
    (Text.lines old ≠ Text.lines new →
      marked ['-', ' '] (read_diff (diff_texts old new context)) = Text.lines old ∧
      marked ['+', ' '] (read_diff (diff_texts old new context)) = Text.lines new ∧
      IsGreatest (common_lengths (Text.lines old) (Text.lines new))
        (marked [' '] (read_diff (diff_texts old new context))).length) ∧
    Rising (Text.lines old) (Text.lines new) 0 0 (lcs_pairs (Text.lines old) (Text.lines new)) ∧
    IsGreatest (common_lengths (Text.lines old) (Text.lines new))
      (lcs_pairs (Text.lines old) (Text.lines new)).length := by
  obtain ⟨hrising, hlength⟩ := lcs_pairs_rising h
  have hgiven := diff_lines_read hrising (Nat.zero_le _) (Nat.zero_le _)
  rw [List.drop_zero, List.drop_zero, hlength] at hgiven
  have hgreatest : IsGreatest (common_lengths (Text.lines old) (Text.lines new)) _ :=
    isGreatest_lcs (Text.lines old) (Text.lines new)
  have htext : diff_texts old new context =
      if (diff_lines (Text.lines old) (Text.lines new) 0 0 (lcs_pairs (Text.lines old) (Text.lines new)
          ++ [((Text.lines old).length, (Text.lines new).length)])).all (Text.starts_with · [' ']) then
        "No differences.".toList
      else ['\n'].intercalate (diff_lines (Text.lines old) (Text.lines new) 0 0
        (lcs_pairs (Text.lines old) (Text.lines new) ++
          [((Text.lines old).length, (Text.lines new).length)])) :=
    if_neg (Nat.not_lt.mpr h)
  generalize hout : diff_lines (Text.lines old) (Text.lines new) 0 0
    (lcs_pairs (Text.lines old) (Text.lines new) ++
      [((Text.lines old).length, (Text.lines new).length)]) = out at hgiven htext
  have hnewline : ∀ l ∈ out, '\n' ∉ l := by
    intro l hl
    obtain ⟨mark, n, text, rfl, hmark, htext⟩ := mem_diff_lines (hout ▸ hl)
    refine newline_not_mem_diff_line hmark ?_
    rcases htext with htext | rfl
    · exact (List.mem_append.mp htext).elim Text.newline_not_mem_lines Text.newline_not_mem_lines
    · exact List.not_mem_nil
  have hall : out.all (Text.starts_with · [' ']) = true ↔ Text.lines old = Text.lines new := by
    rw [← all_kept_iff hgiven, List.all_eq_true, List.forall_mem_map]
    refine forall₂_congr fun l hl => ?_
    obtain ⟨mark, n, text, rfl, -⟩ := mem_diff_lines (hout ▸ hl)
    rw [diff_entry_line]
    show (' ' == mark && List.isPrefixOf [] _) = true ↔ mark = ' '
    rw [List.isPrefixOf_nil_left, Bool.and_true, beq_iff_eq]
    exact eq_comm
  have hread (hne : Text.lines old ≠ Text.lines new) :
      read_diff (diff_texts old new context) = out.map diff_entry := by
    have hne' : out ≠ [] := by
      rintro rfl
      exact hne (hall.mp rfl)
    rw [htext, if_neg (mt hall.mp hne), read_diff_intercalate hne' hnewline]
  refine ⟨?_, fun hne => ?_, hrising, hlength ▸ hgreatest⟩
  · by_cases hsame : Text.lines old = Text.lines new
    · rw [htext, if_pos (hall.mpr hsame)]
      exact iff_of_true rfl hsame
    · refine iff_of_false (fun heq => ?_) hsame
      have hfirst : (read_diff "No differences.".toList).map Prod.fst = ['N'] := by decide +kernel
      rw [← heq, hread hsame] at hfirst
      obtain ⟨line, hline, hmark⟩ := List.mem_map.mp (hfirst ▸ List.mem_singleton_self 'N')
      have hmarks := hgiven.marks line hline
      rw [hmark] at hmarks
      exact absurd hmarks (by decide)
  · rw [hread hne]
    exact ⟨hgiven.old, hgiven.new, hgiven.kept ▸ hgreatest⟩

/-- Two texts of one line. -/
theorem diff_reconstructs_letters :
    marked ['-', ' '] (read_diff (diff_texts ['a'] ['b'] 3)) = [['a']] ∧
      marked ['+', ' '] (read_diff (diff_texts ['a'] ['b'] 3)) = [['b']] := by
  obtain ⟨-, hmarked, -⟩ := diff_reconstructs ['a'] ['b'] 3 (by decide)
  obtain ⟨hold, hnew, -⟩ := hmarked (by decide)
  exact ⟨hold, hnew⟩

/-- Two texts that differ have no differences. -/
theorem no_differences : diff_texts ['a'] ['a', '\n'] 3 = "No differences.".toList ∧
    ['a'] ≠ ['a', '\n'] :=
  ⟨by decide +kernel, by decide⟩

end WaSSH.Agent
