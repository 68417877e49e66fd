import WaSSH.Agent.EditPreserves
import WaSSH.Lib.Lines

/-!
# Patches as diff tools write them

A unified diff says how the lines of one text become those of another.

* `BodyLine`, `Hunk`, `render`: a diff as text;
* `file_lines`, `ended`, `Fits`, `turned`, **`Diffs`**: the diffs of two texts;
* `BlanksLast`: where a diff may leave out the marker of a blank line;
* **`parse_header`**: the header of a hunk is read as it was meant.
-/

namespace WaSSH.Agent

variable {P : Type}

/-! ## Diffs as text -/

/-- A line in the body of a hunk: a line kept, deleted or inserted, a line kept that is blank and
written without its marker, or a note such as `\ No newline at end of file`. -/
inductive BodyLine
  | op (op : LineOp)
  | blank
  | note (text : List Char)

namespace BodyLine

/-- What becomes of a line of the text, if the line is about one. -/
def line_op : BodyLine → Option LineOp
  | op o => some o
  | blank => some (.keep [])
  | note _ => none

def written : BodyLine → List Char
  | op (.keep line) => ' ' :: line
  | op (.delete line) => '-' :: line
  | op (.insert line) => '+' :: line
  | blank => []
  | note text => '\\' :: text

/-- Written with a marker. -/
def has_marker : BodyLine → Bool
  | blank => false
  | _ => true

end BodyLine

/-- A hunk: the lines before it, whether a length of one is left out of its header, what stands
behind the old range, and its body. -/
structure Hunk where
  start : ℕ
  short : Bool
  heading : List Char
  body : List BodyLine

namespace Hunk

def ops (h : Hunk) : List LineOp := h.body.filterMap BodyLine.line_op

def before (h : Hunk) : List (List Char) := h.ops.filterMap LineOp.before

def after (h : Hunk) : List (List Char) := h.ops.filterMap LineOp.after

/-- The old range: lines are counted from one, but an empty range stands behind its line. -/
def range (h : Hunk) : List Char :=
  let length := h.before.length
  let start := Nat.toDigits 10 (if length = 0 then h.start else h.start + 1)
  if h.short ∧ length = 1 then start else start ++ ',' :: Nat.toDigits 10 length

def header (h : Hunk) : List Char := "@@ -".toList ++ (h.range ++ ' ' :: h.heading)

def written (h : Hunk) : List (List Char) := h.header :: h.body.map BodyLine.written

end Hunk

/-- A patch as a text: lines before the first hunk, and the hunks. -/
def render (preamble : List (List Char)) (hunks : List Hunk) : List Char :=
  (preamble ++ hunks.flatMap Hunk.written).flatMap (· ++ ['\n'])

/-! ## Diffs of two texts -/

/-- The text ends with a line end, or is empty. -/
def ended (text : List Char) : Bool := (text.splitOn '\n').getLast? = some []

/-- The lines of a text. -/
def file_lines (text : List Char) : List (List Char) :=
  if ended text then (text.splitOn '\n').dropLast else text.splitOn '\n'

/-- From line `i` on, the hunks come one behind the other, each where its lines are. -/
def Fits (old : List (List Char)) : ℕ → List Hunk → Prop
  | _, [] => True
  | i, h :: hunks =>
    i ≤ h.start ∧ h.start ≤ old.length ∧ h.before <+: old.drop h.start ∧
      Fits old (h.start + h.before.length) hunks

/-- What the hunks make of the lines from the `i`-th on, with `f` for what an operation leaves. -/
def turned (f : LineOp → Option (List Char)) (old : List (List Char)) :
    ℕ → List Hunk → List (List Char)
  | i, [] => old.drop i
  | i, h :: hunks =>
    (old.take h.start).drop i ++
      (h.ops.filterMap f ++ turned f old (h.start + h.before.length) hunks)

/-- The patch is a diff of the two texts; no line of it has a line end in it, and no line before its
hunks looks like the header of one. -/
structure Diffs (original updated : List Char) (preamble : List (List Char)) (hunks : List Hunk) :
    Prop where
  fits : Fits (file_lines original) 0 hunks
  turns : file_lines updated = turned LineOp.after (file_lines original) 0 hunks
  some_hunk : hunks ≠ []
  before_hunks : ∀ line ∈ preamble, '\n' ∉ line ∧ Text.starts_with line "@@".toList = false
  headings : ∀ h ∈ hunks, '\n' ∉ h.heading
  notes : ∀ h ∈ hunks, ∀ text, BodyLine.note text ∈ h.body → '\n' ∉ text

/-- Blank lines without a marker are the last lines of a hunk. -/
def Hunk.BlanksLast (h : Hunk) : Prop :=
  ∃ front back, h.body = front ++ back ∧ (∀ b ∈ front, b.has_marker = true) ∧
    ∀ b ∈ back, b = .blank ∨ ∃ text, b = .note text

/-! ## The header -/

theorem parse_range {start length : ℕ} (short : Bool) (hstart : start < 2 ^ 64)
    (hlength : length < 2 ^ 64) :
    (match (Text.split_once ',' (if short ∧ length = 1 then Nat.toDigits 10 start
        else Nat.toDigits 10 start ++ ',' :: Nat.toDigits 10 length)).getD
          (if short ∧ length = 1 then Nat.toDigits 10 start
            else Nat.toDigits 10 start ++ ',' :: Nat.toDigits 10 length, ['1']) with
      | (start, length) => (Text.parse_usize start, Text.parse_usize length)) =
      (some start, some length) := by
  have hcomma : ',' ∉ Nat.toDigits 10 start := fun h =>
    absurd (List.all_eq_true.mp (Text.all_isDigit_toDigits start) _ h) (by decide)
  split_ifs with h
  · obtain ⟨-, rfl⟩ := h
    have hnone : Text.split_once ',' (Nat.toDigits 10 start) = none := by
      unfold Text.split_once
      have hall : (Nat.toDigits 10 start).dropWhile (· ≠ ',') = [] :=
        List.dropWhile_eq_nil_iff.mpr fun c hc => decide_eq_true fun heq => hcomma (heq ▸ hc)
      rw [hall]
    have hone : Text.parse_usize ['1'] = some 1 := by decide
    rw [hnone]
    exact Prod.ext (Text.parse_usize_toDigits hstart) hone
  · rw [Text.split_once_append hcomma]
    exact Prod.ext (Text.parse_usize_toDigits hstart) (Text.parse_usize_toDigits hlength)

theorem range_chars {h : Hunk} {c : Char} (hc : c ∈ h.range) : c.isDigit = true ∨ c = ',' := by
  have hdigits {n : ℕ} (hn : c ∈ Nat.toDigits 10 n) : c.isDigit = true :=
    List.all_eq_true.mp (Text.all_isDigit_toDigits n) c hn
  unfold Hunk.range at hc
  dsimp only at hc
  split_ifs at hc
  all_goals
    try rw [List.mem_append, List.mem_cons] at hc
  all_goals first
    | exact .inl (hdigits hc)
    | exact hc.elim (fun h => .inl (hdigits h)) fun h => h.elim .inr fun h => .inl (hdigits h)

theorem not_whitespace_of_isDigit {c : Char} (h : c.isDigit = true) :
    Text.is_whitespace c = false := by
  have hrange : 48 ≤ c.toNat ∧ c.toNat ≤ 57 := by
    unfold Char.isDigit at h
    rw [Bool.and_eq_true, decide_eq_true_eq, decide_eq_true_eq] at h
    exact h
  unfold Text.is_whitespace
  dsimp only
  rw [decide_eq_false_iff_not]
  omega

theorem range_head (h : Hunk) : ∃ c rest, h.range = c :: rest ∧ c.isDigit = true := by
  have hne (n : ℕ) : ∃ c rest, Nat.toDigits 10 n = c :: rest ∧ c.isDigit = true := by
    obtain ⟨c, rest, hc⟩ := List.exists_cons_of_ne_nil (Nat.toDigits_ne_nil (b := 10) (n := n))
    have hmem : c ∈ Nat.toDigits 10 n := hc ▸ List.mem_cons_self
    exact ⟨c, rest, hc, List.all_eq_true.mp (Text.all_isDigit_toDigits n) c hmem⟩
  obtain ⟨c, rest, hc, hdigit⟩ := hne (if h.before.length = 0 then h.start else h.start + 1)
  unfold Hunk.range
  dsimp only
  rw [hc]
  split_ifs
  · exact ⟨c, rest, rfl, hdigit⟩
  · exact ⟨c, _, rfl, hdigit⟩

theorem parse_header (h : Hunk) (hstart : h.start + 1 < 2 ^ 64)
    (hlength : h.before.length < 2 ^ 64) :
    parse_hunk_header (P := P) (Lines.strip_return h.header) =
      .ok (if h.before.length = 0 then h.start else h.start + 1, h.before.length) := by
  have hstrip : Lines.strip_return h.header =
      "@@ -".toList ++ (h.range ++ ' ' :: Lines.strip_return h.heading) := by
    unfold Hunk.header
    rw [← List.append_assoc, Lines.strip_return_append (by decide), List.append_assoc]
  have htrim : Text.trim_start_pairs '@'
        ("@@ -".toList ++ (h.range ++ ' ' :: Lines.strip_return h.heading)) =
      ' ' :: ('-' :: h.range ++ ' ' :: Lines.strip_return h.heading) := by
    show Text.trim_start_pairs '@' ('@' :: '@' :: ' ' :: '-' :: (h.range ++ _)) = _
    rw [Text.trim_start_pairs, if_pos ⟨rfl, rfl⟩, Text.trim_start_pairs, if_neg (by decide)]
    rfl
  have hplain : ∀ c ∈ '-' :: h.range, Text.is_whitespace c = false := by
    intro c hc
    rcases List.mem_cons.mp hc with rfl | hc
    · decide
    · rcases range_chars hc with hdigit | rfl
      · exact not_whitespace_of_isDigit hdigit
      · decide
  have hwords : Text.split_whitespace
        (' ' :: ('-' :: h.range ++ ' ' :: Lines.strip_return h.heading)) =
      ('-' :: h.range) :: Text.split_whitespace (Lines.strip_return h.heading) := by
    unfold Text.split_whitespace
    rw [List.splitOnP_cons_eq_if_modifyHead, if_pos (by decide),
      List.splitOnP_append_cons_of_forall_mem hplain ' ' (by decide)]
    rfl
  obtain ⟨c, rest, hrange, hdigit⟩ := range_head h
  have hdash : Text.trim_start_matches '-' ('-' :: h.range) = h.range := by
    have hc : c ≠ '-' := fun heq => absurd (heq ▸ hdigit) (by decide)
    unfold Text.trim_start_matches
    rw [List.dropWhile_cons_of_pos (by decide), hrange,
      List.dropWhile_cons_of_neg (by simpa using hc)]
  have hparse := @parse_range (if h.before.length = 0 then h.start else h.start + 1) h.before.length
    h.short (by split <;> omega) hlength
  unfold parse_hunk_header
  rw [hstrip, htrim, hwords]
  dsimp only
  rw [hdash]
  have hrange' : h.range = if h.short ∧ h.before.length = 1 then
        Nat.toDigits 10 (if h.before.length = 0 then h.start else h.start + 1)
      else Nat.toDigits 10 (if h.before.length = 0 then h.start else h.start + 1) ++
        ',' :: Nat.toDigits 10 h.before.length := rfl
  rw [← hrange'] at hparse
  have hfirst : Text.parse_usize ((Text.split_once ',' h.range).getD (h.range, ['1'])).1 =
      some (if h.before.length = 0 then h.start else h.start + 1) := congrArg Prod.fst hparse
  have hsecond : Text.parse_usize ((Text.split_once ',' h.range).getD (h.range, ['1'])).2 =
      some h.before.length := congrArg Prod.snd hparse
  rw [hfirst, hsecond]

end WaSSH.Agent
