import WaSSH.Agent.Output
import WaSSH.Lib.Lines

/-!
# Does unwrapping undo the wrapper?

The marker lines are looked for in all that came back, the tail may begin inside a line, and what
closes a marker is trimmed off with whatever it touches.

* `unwrap_visible`, `unwrap_quiet`: what unwrapping makes of lines;
* `Command`, `Undone`: a command that ended, and what its turn should tell;
* **`undone_iff`**: its turn tells so exactly when the command is `Clean`.
-/

namespace WaSSH.Agent

open Utf8 Lines

/-! ## Lines -/

section ReadLines

def trim_cr (line : List Char) : List Char := Text.trim_end_matches '\r' line

/-- A line of the output that is taken for a marker. -/
def is_marker (line : List Char) : Bool :=
  Text.starts_with (trim_cr line) status_mark || Text.starts_with (trim_cr line) pwd_mark

theorem trim_cr_initial (line : List Char) : trim_cr line <+: line := List.rdropWhile_prefix _ _

theorem trim_cr_idem (line : List Char) : trim_cr (trim_cr line) = trim_cr line :=
  List.rdropWhile_idempotent _ _

theorem trim_cr_of_getLast? {line : List Char} {c : Char} (h : line.getLast? = some c)
    (hc : c ≠ '\r') : trim_cr line = line := by
  obtain ⟨front, rfl⟩ := List.getLast?_eq_some_iff.mp h
  exact List.rdropWhile_concat_neg (fun x => decide (x = '\r')) front c (by simpa using hc)

theorem read_line_text {line : List Char} (h : is_marker line = false) :
    read_line line = .text (trim_cr line) := by
  rw [is_marker, Bool.or_eq_false_iff] at h
  unfold read_line Text.strip_prefix
  dsimp only
  rw [← trim_cr, if_neg (ne_true_of_eq_false h.1), if_neg (ne_true_of_eq_false h.2)]

theorem read_line_status {line : List Char} (h : Text.starts_with (trim_cr line) status_mark) :
    read_line line = .status (Text.parse_i32 (Text.trim
      (Text.trim_end_pairs '_' ((trim_cr line).drop status_mark.length)))) := by
  unfold read_line Text.strip_prefix
  dsimp only
  rw [← trim_cr, if_pos h]

theorem read_line_pwd {line : List Char} (hs : Text.starts_with (trim_cr line) status_mark = false)
    (hp : Text.starts_with (trim_cr line) pwd_mark) :
    read_line line = .pwd (Text.trim_end_pairs '_' ((trim_cr line).drop pwd_mark.length)) := by
  unfold read_line Text.strip_prefix
  dsimp only
  rw [← trim_cr, if_neg (ne_true_of_eq_false hs), if_pos hp]

theorem is_marker_trim_cr (line : List Char) : is_marker (trim_cr line) = is_marker line := by
  rw [is_marker, trim_cr_idem, ← is_marker]

theorem trim_cr_ne_nil {line : List Char} (h : is_marker line) : trim_cr line ≠ [] := by
  intro hnil
  rw [is_marker, hnil] at h
  exact absurd h (by decide)

/-- The lines a reader sees. -/
def shown (lines : List (List Char)) : List (List Char) :=
  (lines.filter (!is_marker ·)).map trim_cr

/-- Lines add to the visible text what is not a marker. -/
theorem foldl_visible (lines : List (List Char)) (u : Unwrapped) :
    (lines.foldl unwrap_line u).visible = u.visible ++ (shown lines).flatMap (· ++ ['\n']) := by
  induction lines generalizing u with
  | nil => exact (List.append_nil _).symm
  | cons line lines ih =>
    rw [List.foldl_cons, ih]
    cases hm : is_marker line with
    | false =>
      have hshown : shown (line :: lines) = trim_cr line :: shown lines := by
        simp [shown, hm]
      rw [hshown, unwrap_line, read_line_text hm, List.flatMap_cons]
      simp only [List.append_assoc]
    | true =>
      have hshown : shown (line :: lines) = shown lines := by simp [shown, hm]
      rw [hshown, unwrap_line]
      rw [is_marker, Bool.or_eq_true] at hm
      cases hs : Text.starts_with (trim_cr line) status_mark with
      | true => rw [read_line_status hs]
      | false => rw [read_line_pwd hs (hm.resolve_left (ne_true_of_eq_false hs))]

/-- Lines without a marker leave the exit code and the directory. -/
theorem foldl_quiet {lines : List (List Char)} (h : ∀ line ∈ lines, is_marker line = false)
    (u : Unwrapped) : (lines.foldl unwrap_line u).exit_code = u.exit_code ∧
      (lines.foldl unwrap_line u).directory = u.directory := by
  induction lines generalizing u with
  | nil => exact ⟨rfl, rfl⟩
  | cons line lines ih =>
    rw [List.foldl_cons]
    obtain ⟨hcode, hdir⟩ := ih (fun line hl => h line (List.mem_cons_of_mem _ hl))
      (unwrap_line u line)
    rw [hcode, hdir, unwrap_line, read_line_text (h line List.mem_cons_self)]
    exact ⟨rfl, rfl⟩

/-- One line cannot tell both the exit code and the directory. -/
theorem foldl_one_marker {cut : List Char} {lines : List (List Char)}
    (h : ∀ line ∈ lines, is_marker line = false) :
    let u := (cut :: lines).foldl unwrap_line ⟨[], none, none⟩
    u.exit_code = none ∨ u.directory = none := by
  intro u
  obtain ⟨hcode, hdir⟩ := foldl_quiet h (unwrap_line ⟨[], none, none⟩ cut)
  have hu : u = lines.foldl unwrap_line (unwrap_line ⟨[], none, none⟩ cut) := rfl
  rw [hu, hcode, hdir, unwrap_line]
  cases read_line cut with
  | status code => exact .inr rfl
  | pwd dir => exact .inl rfl
  | text text => exact .inl rfl

/-- A reported directory is on one line. -/
theorem foldl_directory {lines : List (List Char)} (h : ∀ line ∈ lines, '\n' ∉ line)
    {u : Unwrapped} (hu : ∀ d, u.directory = some d → '\n' ∉ d) :
    ∀ d, (lines.foldl unwrap_line u).directory = some d → '\n' ∉ d := by
  induction lines generalizing u with
  | nil => exact hu
  | cons line lines ih =>
    refine ih (fun line hl => h line (List.mem_cons_of_mem _ hl)) (u := unwrap_line u line) ?_
    intro d hd hmem
    cases hs : Text.starts_with (trim_cr line) status_mark with
    | true =>
      rw [unwrap_line, read_line_status hs] at hd
      exact hu d hd hmem
    | false =>
      cases hp : Text.starts_with (trim_cr line) pwd_mark with
      | true =>
        rw [unwrap_line, read_line_pwd hs hp] at hd
        rw [← Option.some.inj hd] at hmem
        have := (Text.trim_end_pairs_initial '_' _).subset hmem
        exact h line List.mem_cons_self
          ((trim_cr_initial line).subset (List.mem_of_mem_drop this))
      | false =>
        rw [unwrap_line, read_line_text (by rw [is_marker, hs, hp]; rfl)] at hd
        exact hu d hd hmem

theorem unwrap_exit_code (raw : List Char) : (unwrap_output raw).exit_code =
    ((raw.splitOn '\n').foldl unwrap_line ⟨[], none, none⟩).exit_code := rfl

theorem unwrap_directory (raw : List Char) : (unwrap_output raw).directory =
    ((raw.splitOn '\n').foldl unwrap_line ⟨[], none, none⟩).directory := rfl

theorem unwrap_visible (raw : List Char) :
    (unwrap_output raw).visible = flat '\n' (shown (raw.splitOn '\n')) := by
  change Text.trim_end_matches '\n' _ = _
  rw [foldl_visible]
  rfl

/-- Carriage returns at the ends of lines and line ends at the end of the text taken off. -/
def normalise (text : List Char) : List Char := flat '\n' ((text.splitOn '\n').map trim_cr)

theorem trim_cr_not_mem {lines : List (List Char)} (h : ∀ line ∈ lines, '\n' ∉ line) :
    ∀ line ∈ lines.map trim_cr, '\n' ∉ line := by
  intro line hl
  obtain ⟨whole, hwhole, rfl⟩ := List.mem_map.mp hl
  exact fun hmem => h whole hwhole ((trim_cr_initial whole).subset hmem)

/-- A text shown as it is holds no marker line. -/
theorem no_marker_of_shown {raw text : List Char}
    (h : (unwrap_output raw).visible = normalise text) :
    ∀ line ∈ text.splitOn '\n', is_marker line = false := by
  intro line hl
  by_contra hm
  rw [Bool.not_eq_false] at hm
  have hraw : ∀ l ∈ shown (raw.splitOn '\n'), '\n' ∉ l :=
    trim_cr_not_mem fun l hl => not_mem_of_mem_splitOn (List.mem_filter.mp hl).1
  have htext : ∀ l ∈ (text.splitOn '\n').map trim_cr, '\n' ∉ l :=
    trim_cr_not_mem fun l => not_mem_of_mem_splitOn
  have hne := trim_cr_ne_nil hm
  have hmem : trim_cr line ∈ (normalise text).splitOn '\n' :=
    (mem_splitOn_flat htext hne).mpr (List.mem_map_of_mem hl)
  rw [← h, unwrap_visible, mem_splitOn_flat hraw hne] at hmem
  obtain ⟨other, hother, heq⟩ := List.mem_map.mp hmem
  have hquiet : is_marker other = false := by simpa using (List.mem_filter.mp hother).2
  rw [← is_marker_trim_cr, heq, is_marker_trim_cr, hm] at hquiet
  exact nomatch hquiet

theorem shown_of_no_marker {lines : List (List Char)}
    (h : ∀ line ∈ lines, is_marker line = false) : shown lines = lines.map trim_cr := by
  rw [shown, List.filter_eq_self.mpr fun line hl => by rw [h line hl]; rfl]

end ReadLines

/-! ## A command -/

/-- A command that ended: what it wrote, its exit status and the directory `pwd` prints. -/
structure Command where
  stdout : List UInt8
  stderr : List UInt8
  status : ℤ
  dir : List UInt8

namespace Command

variable (c : Command)

/-- What the session holds: both streams decoded, the markers at the end of standard output. -/
def output : ExecOutput :=
  ⟨from_utf8_lossy (printed c.stdout c.status c.dir), from_utf8_lossy c.stderr⟩

/-- Everything that came back. -/
def raw : List Char := c.output.stdout ++ c.output.stderr

/-- The command's own standard output, on lines of its own. -/
def out : List Char := from_utf8_lossy c.stdout ++ ['\n']

def err : List Char := from_utf8_lossy c.stderr

def dir_text : List Char := from_utf8_lossy c.dir

def status_line : List Char := status_mark ++ (Text.decimal c.status ++ ['_', '_'])

def pwd_line : List Char := pwd_mark ++ (c.dir_text ++ ['_', '_'])

/-- What came back from the markers on. -/
def after : List Char := c.status_line ++ '\n' :: (c.pwd_line ++ '\n' :: c.err)

/-- How many characters are cut off at the front. -/
def dropped : ℕ := c.raw.length - (MAX_OUTPUT_CHARS + MARKER_TAIL_CHARS)

/-- The command's own output, but for the characters cut off. -/
def kept : List Char := c.out.drop c.dropped ++ c.err

theorem raw_eq : c.raw = c.out ++ c.after := by
  have hprinted : printed c.stdout c.status c.dir =
      c.stdout ++ UInt8.ofNat 10 :: (encode (c.status_line ++ '\n' :: pwd_mark) ++
        (c.dir ++ UInt8.ofNat 95 :: encode ['_', '\n'])) := by
    have hmarks : ("\n".toList ++ status_mark ++ Text.decimal c.status ++ "__\n".toList ++ pwd_mark) =
        '\n' :: (c.status_line ++ '\n' :: pwd_mark) := by
      simp [status_line]
    rw [printed, hmarks, List.append_assoc, List.append_assoc]
    rfl
  have hout : c.output.stdout =
      c.out ++ (c.status_line ++ '\n' :: (c.pwd_line ++ ['\n'])) := by
    rw [output, hprinted, from_utf8_lossy_append_ascii _ (by omega),
      from_utf8_lossy_encode_append, from_utf8_lossy_append_ascii _ (by omega),
      from_utf8_lossy_encode]
    simp [out, pwd_line, dir_text]
  rw [raw, hout, after]
  simp [err, output]

theorem tail_of_raw : tail_of c.raw = c.raw.drop c.dropped := by
  unfold tail_of dropped
  dsimp only
  split
  · rfl
  · rw [Nat.sub_eq_zero_of_le (by omega), List.drop_zero]

theorem dropped_le_iff : c.dropped ≤ c.out.length ↔
    c.after.length ≤ MAX_OUTPUT_CHARS + MARKER_TAIL_CHARS := by
  rw [dropped, raw_eq, List.length_append]
  omega

theorem not_mem_status_line : '\n' ∉ c.status_line := by
  intro h
  rcases List.mem_append.mp h with h | h
  · exact absurd h (by decide)
  rcases List.mem_append.mp h with h | h
  · rcases Text.mem_decimal h with h | h
    · exact absurd h (by decide)
    · exact absurd h (by decide)
  · exact absurd h (by decide)

theorem trim_cr_status_line : trim_cr c.status_line = c.status_line :=
  trim_cr_of_getLast? (c := '_') (by simp [status_line]) (by decide)

theorem trim_cr_pwd_line : trim_cr c.pwd_line = c.pwd_line :=
  trim_cr_of_getLast? (c := '_') (by simp [pwd_line]) (by decide)

theorem trim_decimal (n : ℤ) : Text.trim (Text.decimal n) = Text.decimal n := by
  have hnot : ∀ ch ∈ Text.decimal n, Text.is_whitespace ch = false := by
    intro ch hch
    rcases Text.mem_decimal hch with rfl | h
    · decide
    · unfold Char.isDigit at h
      unfold Text.is_whitespace
      simp only [Bool.and_eq_true, decide_eq_true_eq] at h
      have h1 : 48 ≤ ch.toNat := h.1
      have h2 : ch.toNat ≤ 57 := h.2
      simp only [decide_eq_false_iff_not]
      omega
  have hstart : Text.trim_start (Text.decimal n) = Text.decimal n := by
    rcases hd : Text.decimal n with _ | ⟨ch, rest⟩
    · rfl
    · exact List.dropWhile_cons_of_neg (by
        rw [hnot ch (hd ▸ List.mem_cons_self)]
        exact Bool.false_ne_true)
  rw [Text.trim, hstart, Text.trim_end, List.rdropWhile_eq_self_iff]
  intro hne
  rw [hnot _ (List.getLast_mem hne)]
  exact Bool.false_ne_true

theorem read_status_line : read_line c.status_line =
    .status (if -2 ^ 31 ≤ c.status ∧ c.status < 2 ^ 31 then some c.status else none) := by
  have hstart : Text.starts_with (trim_cr c.status_line) status_mark := by
    rw [trim_cr_status_line]
    exact List.isPrefixOf_iff_prefix.mpr ⟨_, rfl⟩
  have hpair : Text.trim_end_pairs '_' (Text.decimal c.status) = Text.decimal c.status := by
    rw [Text.trim_end_pairs_eq_self_iff]
    intro h
    rcases Text.mem_decimal (h.subset List.mem_cons_self) with h | h
    · exact absurd h (by decide)
    · exact absurd h (by decide)
  rw [read_line_status hstart, trim_cr_status_line, status_line, List.drop_left,
    Text.trim_end_pairs_append_pair, hpair, trim_decimal, Text.parse_i32_decimal]

theorem not_status_pwd_line : Text.starts_with (trim_cr c.pwd_line) status_mark = false := by
  rw [trim_cr_pwd_line]
  rfl

theorem read_pwd_line :
    read_line c.pwd_line = .pwd (Text.trim_end_pairs '_' c.dir_text) := by
  have hstart : Text.starts_with (trim_cr c.pwd_line) pwd_mark := by
    rw [trim_cr_pwd_line]
    exact List.isPrefixOf_iff_prefix.mpr ⟨_, rfl⟩
  rw [read_line_pwd c.not_status_pwd_line hstart, trim_cr_pwd_line, pwd_line, List.drop_left,
    Text.trim_end_pairs_append_pair]

/-- What is kept of standard output are whole lines, but perhaps for the first. -/
theorem exists_lines_out : ∃ lines : List (List Char), ∀ u : List Char,
    (c.out.drop c.dropped ++ u).splitOn '\n' = lines ++ u.splitOn '\n' := by
  have hends : c.out.drop c.dropped = [] ∨ (c.out.drop c.dropped).getLast? = some '\n' := by
    by_cases h : c.dropped < c.out.length
    · right
      rw [List.getLast?_drop, if_neg (by omega), out, List.getLast?_concat]
    · left
      exact List.drop_of_length_le (by omega)
  obtain ⟨lines, -, hlines⟩ := exists_splitOn_append hends
  exact ⟨lines, hlines⟩

/-- **The lines that come back** when the markers do. -/
theorem exists_lines (hfits : c.dropped ≤ c.out.length) (hdir : '\n' ∉ c.dir_text) :
    ∃ lines, c.kept.splitOn '\n' = lines ++ c.err.splitOn '\n' ∧
      (tail_of c.raw).splitOn '\n' =
        lines ++ c.status_line :: c.pwd_line :: c.err.splitOn '\n' := by
  obtain ⟨lines, hlines⟩ := c.exists_lines_out
  have hpwd : '\n' ∉ c.pwd_line := by
    intro h
    rcases List.mem_append.mp h with h | h
    · exact absurd h (by decide)
    rcases List.mem_append.mp h with h | h
    · exact hdir h
    · exact absurd h (by decide)
  refine ⟨lines, hlines _, ?_⟩
  rw [tail_of_raw, raw_eq, List.drop_append_of_le_length hfits, hlines, after,
    List.splitOn_append_cons_self_of_not_mem c.not_mem_status_line,
    List.splitOn_append_cons_self_of_not_mem hpwd]

/-- A cut status line is none. -/
theorem not_status_cut {n : ℕ} (h : 0 < n) :
    Text.starts_with (trim_cr (c.status_line.drop n)) status_mark = false := by
  by_contra hstart
  rw [Bool.not_eq_false, Text.starts_with, List.isPrefixOf_iff_prefix] at hstart
  obtain ⟨rest, hrest⟩ := hstart.trans (trim_cr_initial _)
  -- the only colon of the line is the one that closes the mark
  have hcolon : ':' ∈ (c.status_line.drop n).drop 14 := by
    rw [← hrest]
    exact List.mem_append_left rest (by decide : ':' ∈ status_mark.drop 14)
  have hlen : status_mark.length = 15 := rfl
  have hdrop : (c.status_line.drop n).drop 14 =
      (Text.decimal c.status ++ ['_', '_']).drop (n - 1) := by
    have hsum : n + 14 = status_mark.length + (n - 1) := by omega
    rw [List.drop_drop, hsum, ← List.drop_drop, status_line, List.drop_left]
  rw [hdrop] at hcolon
  rcases List.mem_append.mp (List.mem_of_mem_drop hcolon) with h | h
  · rcases Text.mem_decimal h with h | h
    · exact absurd h (by decide)
    · exact absurd h (by decide)
  · exact absurd h (by decide)

/-- **Markers cut off** are missed: what is left does not tell both the exit code and the
directory. -/
theorem missed_of_cut (hcut : c.out.length < c.dropped) (hdir : '\n' ∉ c.dir_text)
    (hquiet : ∀ line ∈ c.err.splitOn '\n', is_marker line = false) :
    (unwrap_output (tail_of c.raw)).exit_code = none ∨
      (unwrap_output (tail_of c.raw)).directory = none := by
  have hpwd : '\n' ∉ c.pwd_line := by
    intro h
    rcases List.mem_append.mp h with h | h
    · exact absurd h (by decide)
    rcases List.mem_append.mp h with h | h
    · exact hdir h
    · exact absurd h (by decide)
  obtain ⟨n, hn⟩ : ∃ n, c.dropped = c.out.length + (n + 1) :=
    ⟨c.dropped - c.out.length - 1, by omega⟩
  have hraw : tail_of c.raw = c.after.drop (n + 1) := by
    rw [tail_of_raw, raw_eq, hn, ← List.drop_drop, List.drop_left]
  by_cases hstatus : n + 1 ≤ c.status_line.length
  · -- cut in the status line: no other line tells the exit code
    left
    have hlines : (tail_of c.raw).splitOn '\n' =
        c.status_line.drop (n + 1) :: c.pwd_line :: c.err.splitOn '\n' := by
      have hnot : '\n' ∉ c.status_line.drop (n + 1) :=
        fun h => c.not_mem_status_line (List.mem_of_mem_drop h)
      rw [hraw, after, List.drop_append_of_le_length hstatus,
        List.splitOn_append_cons_self_of_not_mem hnot,
        List.splitOn_append_cons_self_of_not_mem hpwd]
    rw [unwrap_exit_code, hlines, List.foldl_cons, List.foldl_cons, (foldl_quiet hquiet _).1,
      unwrap_line, read_pwd_line]
    show (unwrap_line _ (c.status_line.drop (n + 1))).exit_code = none
    rw [unwrap_line]
    cases hp : Text.starts_with (trim_cr (c.status_line.drop (n + 1))) pwd_mark with
    | true => rw [read_line_pwd (c.not_status_cut n.succ_pos) hp]
    | false =>
      rw [read_line_text (by rw [is_marker, c.not_status_cut n.succ_pos, hp]; rfl)]
  · -- cut later: at most the first line is a marker
    have hsuffix : tail_of c.raw <:+ c.pwd_line ++ '\n' :: c.err := by
      have hsplit : c.after = (c.status_line ++ ['\n']) ++ (c.pwd_line ++ '\n' :: c.err) := by
        rw [after, List.append_assoc, List.singleton_append]
      have hlen : (c.status_line ++ ['\n']).length ≤ n + 1 := by
        rw [List.length_append, List.length_singleton]
        omega
      rw [hraw, hsplit, List.drop_append, List.drop_of_length_le hlen, List.nil_append]
      exact List.drop_suffix _ _
    obtain ⟨cut, rest, hlines, hrest⟩ :
        ∃ cut rest, (tail_of c.raw).splitOn '\n' = cut :: rest ∧
          rest <:+ ((c.pwd_line ++ '\n' :: c.err).splitOn '\n').tail :=
      exists_splitOn_suffix hsuffix
    rw [List.splitOn_append_cons_self_of_not_mem hpwd, List.tail_cons] at hrest
    have hrest_quiet : ∀ line ∈ rest, is_marker line = false :=
      fun line hl => hquiet line (hrest.subset hl)
    rw [unwrap_exit_code, unwrap_directory, hlines]
    exact foldl_one_marker hrest_quiet

end Command

/-! ## Undoing the wrapper -/

section Undo

variable (dir : List Char) (plain_command : Bool) (c : Command)

/-- The turn of a command tells what happened: the text shown is the command's own output, the exit
code and the directory are its own, and it failed when it did. -/
structure Undone : Prop where
  visible : (unwrap_output (tail_of c.raw)).visible = normalise c.kept
  exit_code : (finish_command dir plain_command (.output c.output)).exit_code = some c.status
  directory : ∃ d, encode d = c.dir ∧ (unwrap_output (tail_of c.raw)).directory = some d
  cwd : c.dir ≠ [] → encode (finish_command dir plain_command (.output c.output)).cwd = c.dir
  failed : (finish_command dir plain_command (.output c.output)).failed ↔ c.status ≠ 0

/-- The output and the directory leave the markers alone. -/
structure Clean : Prop where
  fits : c.after.length ≤ MAX_OUTPUT_CHARS + MARKER_TAIL_CHARS
  unmarked : ∀ line ∈ c.kept.splitOn '\n', is_marker line = false
  status : -2 ^ 31 ≤ c.status ∧ c.status < 2 ^ 31
  dir_valid : encode c.dir_text = c.dir
  dir_line : '\n' ∉ c.dir_text
  dir_end : ¬ ['_', '_'] <:+ c.dir_text
  accepted : c.status = 0 →
    Text.contains (clamp_output (normalise c.kept)) SUDO_AUTH_FAILED_MARKER = false

theorem finish_exit_code : (finish_command dir plain_command (.output c.output)).exit_code =
    (unwrap_output (tail_of c.raw)).exit_code := by
  simp only [finish_command, Command.raw]

theorem finish_cwd : (finish_command dir plain_command (.output c.output)).cwd =
    ((unwrap_output (tail_of c.raw)).directory.filter (· ≠ [])).getD dir := by
  simp only [finish_command, Command.raw]

theorem finish_failed : (finish_command dir plain_command (.output c.output)).failed =
    ((unwrap_output (tail_of c.raw)).exit_code.any (· ≠ 0) ||
      Text.contains (clamp_output (unwrap_output (tail_of c.raw)).visible)
        SUDO_AUTH_FAILED_MARKER) := by
  simp only [finish_command, Command.raw]

variable {dir plain_command c}

/-- Where the markers come back whole and nothing else is taken for one, this is what is read. -/
theorem unwrap_whole (hfits : c.dropped ≤ c.out.length) (hdir : '\n' ∉ c.dir_text)
    (hquiet : ∀ line ∈ c.kept.splitOn '\n', is_marker line = false) :
    unwrap_output (tail_of c.raw) =
      ⟨normalise c.kept, if -2 ^ 31 ≤ c.status ∧ c.status < 2 ^ 31 then some c.status else none,
        some (Text.trim_end_pairs '_' c.dir_text)⟩ := by
  obtain ⟨lines, hkept, hraw⟩ := c.exists_lines hfits hdir
  have herr : ∀ line ∈ c.err.splitOn '\n', is_marker line = false := fun line hl =>
    hquiet line (hkept ▸ List.mem_append_right _ hl)
  set u := ((tail_of c.raw).splitOn '\n').foldl unwrap_line ⟨[], none, none⟩ with hu
  have hcode : u.exit_code =
      if -2 ^ 31 ≤ c.status ∧ c.status < 2 ^ 31 then some c.status else none := by
    rw [hu, hraw, List.foldl_append, List.foldl_cons, List.foldl_cons, (foldl_quiet herr _).1,
      unwrap_line, c.read_pwd_line, unwrap_line, c.read_status_line]
  have hdirectory : u.directory = some (Text.trim_end_pairs '_' c.dir_text) := by
    rw [hu, hraw, List.foldl_append, List.foldl_cons, List.foldl_cons, (foldl_quiet herr _).2,
      unwrap_line, c.read_pwd_line]
  have hvisible : (unwrap_output (tail_of c.raw)).visible = normalise c.kept := by
    have hstatus : is_marker c.status_line := by
      by_contra h
      have := read_line_text (Bool.not_eq_true _ ▸ h)
      rw [c.read_status_line] at this
      exact nomatch this
    have hpwd : is_marker c.pwd_line := by
      by_contra h
      have := read_line_text (Bool.not_eq_true _ ▸ h)
      rw [c.read_pwd_line] at this
      exact nomatch this
    have hshown : shown (lines ++ c.status_line :: c.pwd_line :: c.err.splitOn '\n') =
        shown (lines ++ c.err.splitOn '\n') := by
      simp only [shown, List.filter_append, List.filter_cons, hstatus, hpwd, Bool.not_true,
        Bool.false_eq_true, if_false]
    rw [unwrap_visible, hraw, hshown, ← hkept, shown_of_no_marker hquiet, normalise]
  rw [← hvisible, ← hcode, ← hdirectory]
  simp only [unwrap_output, hu]

theorem undone_of_clean (h : Clean c) : Undone dir plain_command c := by
  have hwhole := unwrap_whole (c.dropped_le_iff.mpr h.fits) h.dir_line h.unmarked
  rw [if_pos h.status, Text.trim_end_pairs_eq_self_iff.mpr h.dir_end] at hwhole
  refine ⟨by rw [hwhole], by rw [finish_exit_code, hwhole], ⟨_, h.dir_valid, by rw [hwhole]⟩, ?_, ?_⟩
  · intro hne
    have hfull : c.dir_text ≠ [] := fun hnil =>
      hne ((from_utf8_lossy_eq_nil_iff _).mp hnil)
    rw [finish_cwd, hwhole, Option.filter_some, if_pos (decide_eq_true hfull), Option.getD_some]
    exact h.dir_valid
  · rw [finish_failed, hwhole]
    dsimp only
    rw [Option.any_some, Bool.or_eq_true, decide_eq_true_eq]
    by_cases hz : c.status = 0
    · rw [h.accepted hz]
      simp [hz]
    · simp [hz]

theorem clean_of_undone (h : Undone dir plain_command c) : Clean c := by
  have hcode := h.exit_code
  rw [finish_exit_code] at hcode
  obtain ⟨d, hd, hdirectory⟩ := h.directory
  have htext : c.dir_text = d := by rw [Command.dir_text, ← hd, from_utf8_lossy_encode]
  have hline : '\n' ∉ c.dir_text := by
    rw [htext]
    exact foldl_directory (u := ⟨[], none, none⟩) (fun line hl => not_mem_of_mem_splitOn hl)
      (fun _ h => nomatch h) d hdirectory
  have hunmarked := no_marker_of_shown h.visible
  have hfits : c.dropped ≤ c.out.length := by
    by_contra hcut
    have hkept : c.kept = c.err := by
      rw [Command.kept, List.drop_of_length_le (by omega), List.nil_append]
    rcases c.missed_of_cut (by omega) hline (hkept ▸ hunmarked) with hmiss | hmiss
    · rw [hmiss] at hcode
      exact nomatch hcode
    · rw [hmiss] at hdirectory
      exact nomatch hdirectory
  have hwhole := unwrap_whole hfits hline hunmarked
  rw [hwhole] at hcode hdirectory
  refine ⟨c.dropped_le_iff.mp hfits, hunmarked, ?_, htext ▸ hd, hline, ?_, fun hz => ?_⟩
  · by_contra hrange
    dsimp only at hcode
    rw [if_neg hrange] at hcode
    exact nomatch hcode
  · rw [← Text.trim_end_pairs_eq_self_iff, htext]
    rw [htext] at hdirectory
    exact Option.some.inj hdirectory
  · have hfailed := h.failed
    rw [finish_failed, hwhole] at hfailed
    by_contra hsudo
    rw [Bool.not_eq_false] at hsudo
    exact hfailed.mp (by rw [hsudo, Bool.or_true]) hz

/-- A command that fails and prints a line in the form of a marker to standard error. -/
def spoofed : Command := ⟨[], encode "__WASSH_STATUS:0__".toList, 1, encode "/srv".toList⟩

end Undo

end WaSSH.Agent
