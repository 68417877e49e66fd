import Mathlib.Data.List.DropRight
import Mathlib.Tactic

/-!
# Text operations of the standard library

Texts are lists of characters; the operations are those of Rust's `str`.

* `is_whitespace`, `trim`, `split_whitespace`: by the Unicode property `White_Space`;
* `contains`, with `contains_iff`;
* `pieces`: what lies between the matches of a needle, with **`intercalate_pieces`**; `match_count`,
  `replacen_one` and `replace` are read off it;
* `lines`, `split_once`, `trim_start_matches`, `trim_end_matches`, `strip_prefix`, `to_lowercase`;
* `parse_usize`, `parse_i32`, with **`parse_i32_decimal`**.
-/

namespace Text

/-! ## White space -/

/-- `char::is_whitespace`. -/
def is_whitespace (c : Char) : Bool :=
  let n := c.toNat
  (9 ≤ n ∧ n ≤ 13) ∨ n = 32 ∨ n = 133 ∨ n = 160 ∨ n = 5760 ∨ (8192 ≤ n ∧ n ≤ 8202) ∨
    n = 8232 ∨ n = 8233 ∨ n = 8239 ∨ n = 8287 ∨ n = 12288

/-- `str::trim_start`. -/
def trim_start (t : List Char) : List Char := t.dropWhile is_whitespace

/-- `str::trim_end`. -/
def trim_end (t : List Char) : List Char := t.rdropWhile is_whitespace

/-- `str::trim`. -/
def trim (t : List Char) : List Char := trim_end (trim_start t)

/-- `str::split_whitespace`. -/
def split_whitespace (t : List Char) : List (List Char) :=
  (t.splitOnP is_whitespace).filter (· ≠ [])

/-! ## Substrings -/

/-- `str::contains`. -/
def contains : List Char → List Char → Bool
  | [], needle => needle.isEmpty
  | c :: t, needle => needle.isPrefixOf (c :: t) || contains t needle

theorem contains_iff (needle : List Char) : ∀ t, contains t needle ↔ needle <:+: t
  | [] => by simp [contains]
  | c :: t => by
    rw [contains, Bool.or_eq_true, List.isPrefixOf_iff_prefix, contains_iff needle t,
      List.infix_cons_iff]

/-- What lies between the matches of `needle`, found from left to right without overlap, once `skip`
more characters of a match are passed. -/
def pieces (needle : List Char) : ℕ → List Char → List (List Char)
  | _, [] => [[]]
  | skip + 1, _ :: t => pieces needle skip t
  | 0, c :: t =>
    if needle.isPrefixOf (c :: t) then [] :: pieces needle (needle.length - 1) t
    else (pieces needle 0 t).modifyHead (c :: ·)

/-- `str::matches(..).count()`. -/
def match_count (needle t : List Char) : ℕ := (pieces needle 0 t).length - 1

/-- `str::replacen(.., 1)`. -/
def replacen_one (needle new t : List Char) : List Char :=
  match pieces needle 0 t with
  | before :: rest@(_ :: _) => before ++ new ++ needle.intercalate rest
  | _ => t

/-- `str::replace`. -/
def replace (needle new t : List Char) : List Char := new.intercalate (pieces needle 0 t)

theorem pieces_ne_nil (needle : List Char) : ∀ (t : List Char) (skip : ℕ), pieces needle skip t ≠ []
  | [], _ => by simp [pieces]
  | _ :: t, skip + 1 => by
    rw [pieces]
    exact pieces_ne_nil needle t skip
  | c :: t, 0 => by
    rw [pieces]
    split_ifs
    · exact List.cons_ne_nil _ _
    · rw [Ne, List.modifyHead_eq_nil_iff]
      exact pieces_ne_nil needle t 0

theorem intercalate_modifyHead_cons (sep : List Char) (c : Char) {xs : List (List Char)}
    (h : xs ≠ []) : sep.intercalate (xs.modifyHead (c :: ·)) = c :: sep.intercalate xs := by
  rcases xs with _ | ⟨x, _ | ⟨y, ys⟩⟩
  · exact absurd rfl h
  · simp
  · simp

/-- **The pieces and the matches make up the text.** -/
theorem intercalate_pieces {needle : List Char} (h : needle ≠ []) :
    ∀ (t : List Char) (skip : ℕ), skip ≤ t.length →
      needle.intercalate (pieces needle skip t) = t.drop skip
  | [], 0, _ => rfl
  | [], skip + 1, hs => absurd hs (Nat.not_succ_le_zero skip)
  | c :: t, skip + 1, hs => by
    rw [pieces, intercalate_pieces h t skip (Nat.le_of_succ_le_succ hs), List.drop_succ_cons]
  | c :: t, 0, _ => by
    rw [pieces, List.drop_zero]
    split_ifs with hp
    · obtain ⟨rest, hrest⟩ := List.isPrefixOf_iff_prefix.mp hp
      have hlen : needle.length - 1 ≤ t.length := by
        have := congrArg List.length hrest
        rw [List.length_append, List.length_cons] at this
        omega
      rw [List.intercalate_cons_of_ne_nil (pieces_ne_nil _ _ _), List.nil_append,
        intercalate_pieces h t _ hlen]
      obtain ⟨d, needle', rfl⟩ := List.exists_cons_of_ne_nil h
      rw [List.cons_append, List.cons.injEq] at hrest
      rw [List.length_cons, Nat.add_sub_cancel, ← hrest.2, List.drop_left, List.cons_append,
        hrest.1]
    · rw [intercalate_modifyHead_cons _ _ (pieces_ne_nil _ _ _),
        intercalate_pieces h t 0 (Nat.zero_le _), List.drop_zero]

theorem two_le_length_pieces {needle : List Char} (h : needle ≠ []) :
    ∀ t, contains t needle → 2 ≤ (pieces needle 0 t).length
  | [], ht => absurd (List.isEmpty_iff.mp ht) h
  | c :: t, ht => by
    rw [contains, Bool.or_eq_true] at ht
    rw [pieces]
    split_ifs with hp
    · have := List.length_pos_of_ne_nil (pieces_ne_nil needle t (needle.length - 1))
      rw [List.length_cons]
      omega
    · rw [List.length_modifyHead]
      exact two_le_length_pieces h t (ht.resolve_left hp)

/-- A text has one match in itself. -/
theorem pieces_self {t : List Char} (h : t ≠ []) : pieces t 0 t = [[], []] := by
  have hskip : ∀ (u : List Char) (needle : List Char), pieces needle u.length u = [[]] := by
    intro u needle
    induction u with
    | nil => rfl
    | cons c u ih => exact ih
  obtain ⟨c, u, rfl⟩ := List.exists_cons_of_ne_nil h
  rw [pieces, if_pos (List.isPrefixOf_iff_prefix.mpr (List.prefix_refl _)), List.length_cons,
    Nat.add_sub_cancel, hskip]

/-! ## Lines and numbers -/

/-- `str::split_inclusive('\n')`. -/
def split_inclusive : List Char → List (List Char)
  | [] => []
  | c :: t =>
    if c = '\n' then [c] :: split_inclusive t
    else match split_inclusive t with
      | [] => [[c]]
      | l :: ls => (c :: l) :: ls

/-- A line without its `\n` or `\r\n`. -/
def strip_line_end (l : List Char) : List Char :=
  if l.getLast? = some '\n' then
    let l := l.dropLast
    if l.getLast? = some '\r' then l.dropLast else l
  else l

/-- `str::lines`. -/
def lines (t : List Char) : List (List Char) := (split_inclusive t).map strip_line_end

theorem newline_not_mem_split : ∀ {t l : List Char}, l ∈ split_inclusive t → '\n' ∉ l.dropLast ∧ l ≠ []
  | [], _, h => absurd h List.not_mem_nil
  | c :: t, l, h => by
    rw [split_inclusive] at h
    split at h
    · rcases List.mem_cons.mp h with rfl | h
      · exact ⟨List.not_mem_nil, List.cons_ne_nil _ _⟩
      · exact newline_not_mem_split h
    · next hc =>
      split at h
      · rw [List.mem_singleton.mp h]
        exact ⟨List.not_mem_nil, List.cons_ne_nil _ _⟩
      · next first rest hsplit =>
        rcases List.mem_cons.mp h with rfl | h
        · obtain ⟨hfirst, hne⟩ := newline_not_mem_split (hsplit ▸ List.mem_cons_self)
          rw [List.dropLast_cons_of_ne_nil hne, List.mem_cons, not_or]
          exact ⟨⟨fun heq => hc heq.symm, hfirst⟩, List.cons_ne_nil _ _⟩
        · exact newline_not_mem_split (hsplit ▸ List.mem_cons_of_mem _ h)

/-- No line has a line end in it. -/
theorem newline_not_mem_lines {t l : List Char} (h : l ∈ lines t) : '\n' ∉ l := by
  obtain ⟨l, hl, rfl⟩ := List.mem_map.mp h
  obtain ⟨hinit, hne⟩ := newline_not_mem_split hl
  unfold strip_line_end
  split
  · dsimp only
    split
    · exact fun hmem => hinit (List.mem_of_mem_dropLast hmem)
    · exact hinit
  · next hlast =>
    intro hmem
    rw [← List.dropLast_append_getLast hne, List.mem_append] at hmem
    rcases hmem with hmem | hmem
    · exact hinit hmem
    · exact hlast (by rw [List.getLast?_eq_some_getLast hne, List.mem_singleton.mp hmem])

/-- `str::starts_with`. -/
def starts_with (t start : List Char) : Bool := start.isPrefixOf t

/-- `str::trim_start_matches`, for a text of two equal characters. -/
def trim_start_pairs (c : Char) : List Char → List Char
  | a :: b :: t => if a = c ∧ b = c then trim_start_pairs c t else a :: b :: t
  | t => t

/-- `str::trim_start_matches`, for one character. -/
def trim_start_matches (c : Char) (t : List Char) : List Char := t.dropWhile (· = c)

/-- `str::trim_end_matches`, for one character. -/
def trim_end_matches (c : Char) (t : List Char) : List Char := t.rdropWhile (· = c)

/-- `str::trim_end_matches`, for a text of two equal characters. -/
def trim_end_pairs (c : Char) (t : List Char) : List Char := (trim_start_pairs c t.reverse).reverse

theorem trim_start_pairs_suffix (c : Char) (t : List Char) : trim_start_pairs c t <:+ t := by
  induction t using trim_start_pairs.induct c with
  | case1 a b t h ih =>
    rw [trim_start_pairs, if_pos h]
    exact ih.trans ⟨[a, b], rfl⟩
  | case2 a b t h =>
    rw [trim_start_pairs, if_neg h]
  | case3 t h => rw [trim_start_pairs.eq_2 c t h]

theorem not_prefix_trim_start_pairs (c : Char) (t : List Char) :
    ¬ [c, c] <+: trim_start_pairs c t := by
  induction t using trim_start_pairs.induct c with
  | case1 a b t h ih =>
    rwa [trim_start_pairs, if_pos h]
  | case2 a b t h =>
    rw [trim_start_pairs, if_neg h]
    rintro ⟨rest, hrest⟩
    obtain ⟨rfl, htail⟩ := List.cons.inj hrest
    exact h ⟨rfl, (List.cons.inj htail).1.symm⟩
  | case3 t h =>
    rw [trim_start_pairs.eq_2 c t h]
    rintro ⟨rest, rfl⟩
    exact h c c rest rfl

theorem trim_start_pairs_of_not_prefix {c : Char} {t : List Char} (h : ¬ [c, c] <+: t) :
    trim_start_pairs c t = t := by
  unfold trim_start_pairs
  split
  · rename_i a b t
    rw [if_neg]
    rintro ⟨rfl, rfl⟩
    exact h ⟨t, rfl⟩
  · rfl

theorem trim_end_pairs_initial (c : Char) (t : List Char) : trim_end_pairs c t <+: t := by
  rw [trim_end_pairs, ← List.reverse_suffix, List.reverse_reverse]
  exact trim_start_pairs_suffix c _

theorem trim_end_pairs_append_pair (c : Char) (t : List Char) :
    trim_end_pairs c (t ++ [c, c]) = trim_end_pairs c t := by
  unfold trim_end_pairs
  rw [List.reverse_append]
  change (trim_start_pairs c (c :: c :: t.reverse)).reverse = _
  rw [trim_start_pairs, if_pos ⟨rfl, rfl⟩]

/-- What is left when pairs are trimmed is the text itself unless it ends in a pair. -/
theorem trim_end_pairs_eq_self_iff {c : Char} {t : List Char} :
    trim_end_pairs c t = t ↔ ¬ [c, c] <:+ t := by
  have hrev : [c, c] <:+ t ↔ [c, c] <+: t.reverse := by
    rw [← List.reverse_prefix]
    rfl
  rw [hrev]
  constructor
  · intro h hpair
    apply not_prefix_trim_start_pairs c t.reverse
    have := congrArg List.reverse h
    rw [trim_end_pairs, List.reverse_reverse] at this
    rwa [this]
  · intro h
    rw [trim_end_pairs, trim_start_pairs_of_not_prefix h, List.reverse_reverse]

/-- `str::strip_prefix`. -/
def strip_prefix (start t : List Char) : Option (List Char) :=
  if starts_with t start then some (t.drop start.length) else none

theorem strip_prefix_append (start t : List Char) : strip_prefix start (start ++ t) = some t := by
  have hstart : starts_with (start ++ t) start = true :=
    List.isPrefixOf_iff_prefix.mpr (List.prefix_append start t)
  rw [ strip_prefix, if_pos hstart, List.drop_left]

theorem strip_prefix_eq_some_iff {start t rest : List Char} :
    strip_prefix start t = some rest ↔ t = start ++ rest := by
  constructor
  · intro h
    unfold strip_prefix at h
    split at h
    next hstart =>
      obtain ⟨u, rfl⟩ := List.isPrefixOf_iff_prefix.mp hstart
      rw [List.drop_left, Option.some.injEq] at h
      rw [h]
    · cases h
  · rintro rfl
    exact strip_prefix_append start rest

/-- `str::strip_suffix`. -/
def strip_suffix (last t : List Char) : Option (List Char) :=
  ( strip_prefix last.reverse t.reverse).map List.reverse

theorem strip_suffix_append (t last : List Char) : strip_suffix last (t ++ last) = some t := by
  rw [strip_suffix, List.reverse_append, strip_prefix_append, Option.map_some, List.reverse_reverse]

/-- `char::to_lowercase`, exact wherever the result holds an ASCII letter; a letter outside ASCII whose
small form is outside ASCII stands for that form. -/
def char_to_lowercase (c : Char) : List Char :=
  if c.toNat = 0x130 then ['i', Char.ofNat 0x307]
  else if c.toNat = 0x212A then ['k']
  else [c.toLower]

/-- `str::to_lowercase`, for a text that is then searched for ASCII words. -/
def to_lowercase (t : List Char) : List Char := t.flatMap char_to_lowercase

/-- `str::split_once`, for one character. -/
def split_once (c : Char) (t : List Char) : Option (List Char × List Char) :=
  match t.dropWhile (· ≠ c) with
  | [] => none
  | _ :: rest => some (t.takeWhile (· ≠ c), rest)

theorem split_once_append {c : Char} {before : List Char} (h : c ∉ before) (rest : List Char) :
    split_once c (before ++ c :: rest) = some (before, rest) := by
  have hbefore : ∀ d ∈ before, decide (d ≠ c) = true := fun d hd =>
    decide_eq_true fun heq => h (heq ▸ hd)
  unfold split_once
  rw [List.dropWhile_append_of_pos hbefore, List.takeWhile_append_of_pos hbefore]
  simp

/-- `str::parse::<usize>`: an optional `+`, then digits, below `2 ^ 64`. -/
def parse_usize (t : List Char) : Option ℕ :=
  let digits := match t with
    | '+' :: rest => rest
    | t => t
  if digits ≠ [] ∧ digits.all Char.isDigit ∧ Nat.ofDigitChars 10 digits 0 < 2 ^ 64 then
    some (Nat.ofDigitChars 10 digits 0)
  else none

/-- The sign and the digits of a number. -/
def split_sign : List Char → Bool × List Char
  | '-' :: digits => (true, digits)
  | '+' :: digits => (false, digits)
  | digits => (false, digits)

/-- `str::parse::<i32>`. -/
def parse_i32 (t : List Char) : Option ℤ :=
  let (negative, digits) := split_sign t
  if digits ≠ [] ∧ digits.all Char.isDigit then
    let size : ℤ := Nat.ofDigitChars 10 digits 0
    let value := if negative then -size else size
    if -2 ^ 31 ≤ value ∧ value < 2 ^ 31 then some value else none
  else none

/-- A number in decimal. -/
def decimal (n : ℤ) : List Char :=
  if n < 0 then '-' :: Nat.toDigits 10 n.natAbs else Nat.toDigits 10 n.natAbs

theorem all_isDigit_toDigits (n : ℕ) : (Nat.toDigits 10 n).all Char.isDigit := by
  rw [List.all_eq_true]
  exact fun c hc => Nat.isDigit_of_mem_toDigits (by omega) (Nat.le_refl _) hc

theorem split_sign_toDigits (n : ℕ) :
    split_sign (Nat.toDigits 10 n) = (false, Nat.toDigits 10 n) := by
  have hdigit := all_isDigit_toDigits n
  unfold split_sign
  split
  · rename_i digits heq
    rw [heq] at hdigit
    exact absurd hdigit (by simp)
  · rename_i digits heq
    rw [heq] at hdigit
    exact absurd hdigit (by simp)
  · rfl

theorem parse_usize_toDigits {n : ℕ} (h : n < 2 ^ 64) :
    parse_usize (Nat.toDigits 10 n) = some n := by
  have hdigit := all_isDigit_toDigits n
  have hplain : (match Nat.toDigits 10 n with
      | '+' :: rest => rest
      | t => t) = Nat.toDigits 10 n := by
    split
    next digits heq =>
      rw [heq] at hdigit
      exact absurd hdigit (by simp)
    · rfl
  unfold parse_usize
  rw [hplain]
  dsimp only
  rw [Nat.ofDigitChars_ten_toDigits, if_pos ⟨Nat.toDigits_ne_nil, hdigit, h⟩]

/-- A number in decimal parses where it fits. -/
theorem parse_i32_decimal (n : ℤ) :
    parse_i32 (decimal n) = if -2 ^ 31 ≤ n ∧ n < 2 ^ 31 then some n else none := by
  have hdigits : Nat.toDigits 10 n.natAbs ≠ [] ∧ (Nat.toDigits 10 n.natAbs).all Char.isDigit :=
    ⟨Nat.toDigits_ne_nil, all_isDigit_toDigits _⟩
  unfold parse_i32 decimal
  by_cases hneg : n < 0
  · rw [if_pos hneg]
    have hsign : split_sign ('-' :: Nat.toDigits 10 n.natAbs) = (true, Nat.toDigits 10 n.natAbs) :=
      rfl
    rw [hsign]
    dsimp only
    rw [if_pos hdigits, Nat.ofDigitChars_ten_toDigits, if_pos rfl]
    have : -(n.natAbs : ℤ) = n := by omega
    rw [this]
  · rw [if_neg hneg, split_sign_toDigits]
    dsimp only
    rw [if_pos hdigits, Nat.ofDigitChars_ten_toDigits, if_neg Bool.false_ne_true]
    have : (n.natAbs : ℤ) = n := by omega
    rw [this]

theorem mem_decimal {n : ℤ} {c : Char} (h : c ∈ decimal n) : c = '-' ∨ c.isDigit := by
  unfold decimal at h
  split at h
  · rcases List.mem_cons.mp h with h | h
    · exact .inl h
    · exact .inr (Nat.isDigit_of_mem_toDigits (by omega) (Nat.le_refl _) h)
  · exact .inr (Nat.isDigit_of_mem_toDigits (by omega) (Nat.le_refl _) h)

example : lines "a\r\nb\n\nc".toList = ["a".toList, "b".toList, [], "c".toList] := by decide

end Text
