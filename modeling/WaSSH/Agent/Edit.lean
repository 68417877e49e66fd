import WaSSH.Lib.FileMap
import WaSSH.Lib.Json
import WaSSH.Lib.Text
import WaSSH.Lib.Utf8

/-!
# The agent's edits of local files

A tool reads the whole file as text, rewrites the text and writes it back.

* `read_text_file`, `clamp`: how a file becomes text;
* `replace_once`, `replace_every`, `apply_edits`, `apply_unified_patch`: the rewriting;
* `rewrite_file` and the tools `local_edit`, `local_multi_edit`, `local_patch`.
-/

namespace WaSSH.Agent

open FileMap Utf8

/-- A tool refuses or fails. `panic` is a slice inside a character. -/
inductive ToolError (P : Type)
  | cannot_read (path : P) (error : IoError)
  | cannot_write (path : P) (error : IoError)
  | binary (path : P)
  | old_empty
  | old_not_found
  | old_ambiguous (count : ℕ)
  | in_edit (index : ℕ) (error : ToolError P)
  | edits_not_array
  | edits_empty
  | patch_required
  | no_hunks
  | invalid_header (line : List Char)
  | hunk_misfit (hunk : ℕ)
  | invalid_line (hunk : ℕ) (line : List Char)
  | context_mismatch (line : ℕ) (expected found : List Char)
  | file_ends (line length : ℕ)
  | panic

/-- What the user reads. `shown` is a path, `quoted` the debug form of a line and `io` the text
of an error of the system. -/
def ToolError.message {P : Type} (shown : P → String) (quoted : List Char → String)
    (io : IoError → String) : ToolError P → String
  | cannot_read path error => s!"Cannot read {shown path}: {io error}"
  | cannot_write path error => s!"Cannot write {shown path}: {io error}"
  | binary path => s!"{shown path} looks like a binary file."
  | old_empty => "oldText must not be empty."
  | old_not_found => "oldText was not found in the file."
  | old_ambiguous count =>
    s!"oldText appears {count} times; include more surrounding text so the change is unambiguous."
  | in_edit index error =>
    let inner := error.message shown quoted io
    s!"Edit {index}: {inner}"
  | edits_not_array => "edits must be an array of \x7boldText, newText\x7d objects."
  | edits_empty => "edits must not be empty."
  | patch_required => "patch is required."
  | no_hunks => "The patch has no @@ hunks."
  | invalid_header line => "Invalid hunk header: " ++ String.ofList line
  | hunk_misfit hunk => s!"Hunk {hunk} does not fit the file."
  | invalid_line hunk line => s!"Hunk {hunk} has an invalid line: " ++ String.ofList line
  | context_mismatch line expected found =>
    s!"Patch context does not match at line {line}: expected {quoted expected}, found {quoted found}."
  | file_ends line length => s!"The patch expects line {line} but the file ends at {length}."
  | panic => ""

/-! ## Reading -/

def MAX_FILE_READ_CHARS : ℕ := 256000

/-- What `clamp` appends to a text of `count` characters. -/
def truncation_notice (limit count : ℕ) : List Char :=
  s!"\n\n[Content truncated at {limit} characters of {count}]".toList

/-- Trim a long body and say so. -/
def clamp (text : List Char) (limit : ℕ) : List Char :=
  if text.length ≤ limit then text
  else text.take limit ++ truncation_notice limit text.length

/-- The first 4096 bytes hold a zero byte. -/
def looks_binary (bytes : Bytes) : Bool := (bytes.take 4096).any (· = 0)

/-- Which steps of one tool call succeed; `write` fails after the bytes it names. -/
structure EditFaults where
  read : Bool
  create : Bool
  write : Option ℕ

section Tools

variable {P : Type} [DecidableEq P]

/-- Read a text file on this machine, refusing anything that looks binary. -/
def read_text_file (f : EditFaults) (path : P) (limit : ℕ) :
    FsM P (ToolError P) (List Char) := do
  map_err (.cannot_read path) (open_file f.read path)
  let bytes := ((← get) path).getD []
  if looks_binary bytes then throw (.binary path)
  else pure (clamp (from_utf8_lossy bytes) limit)

/-- `std::fs::write`. -/
def fs_write (f : EditFaults) (path : P) (content : List Char) : FsM P IoError Unit := do
  create f.create path
  write_all f.write path (encode content)

/-! ## Replacing -/

/-- Replace `old` with `new` in `text`, refusing when `old` is missing or ambiguous. -/
def replace_once (text old new : List Char) : Except (ToolError P) (List Char) :=
  if old = [] then .error .old_empty
  else match Text.match_count old text with
    | 0 => .error .old_not_found
    | 1 => .ok (Text.replacen_one old new text)
    | many => .error (.old_ambiguous many)

/-- Replace every occurrence of `old`, refusing an empty or missing match. -/
def replace_every (text old new : List Char) : Except (ToolError P) (List Char) :=
  if old = [] then .error .old_empty
  else if !Text.contains text old then .error .old_not_found
  else .ok (Text.replace old new text)

/-- One entry of `edits`. -/
structure Edit where
  old : List Char
  new : List Char
  replace_all : Bool

def Edit.of_json (edit : Json) : Edit :=
  ⟨(edit.text "oldText").toList, (edit.text "newText").toList,
    ((edit.get "replaceAll").as_bool).getD false⟩

def Edit.apply (e : Edit) (text : List Char) : Except (ToolError P) (List Char) :=
  if e.replace_all then replace_every text e.old e.new else replace_once text e.old e.new

/-- Apply the edits one after the other; `index` counts those before. -/
def apply_edits : (index : ℕ) → List Edit → (text : List Char) → Except (ToolError P) (List Char)
  | _, [], text => .ok text
  | index, e :: edits, text =>
    match e.apply text with
    | .ok after => apply_edits (index + 1) edits after
    | .error error => .error (.in_edit (index + 1) error)

/-! ## Patching -/

/-- The old-file range a hunk header names. -/
def parse_hunk_header (line : List Char) : Except (ToolError P) (ℕ × ℕ) :=
  match Text.split_whitespace (Text.trim_start_pairs '@' line) with
  | [] => .error (.invalid_header line)
  | range :: _ =>
    let range := Text.trim_start_matches '-' range
    let (start, len) := (Text.split_once ',' range).getD (range, ['1'])
    match Text.parse_usize start, Text.parse_usize len with
    | some start, some len => .ok (start, len)
    | _, _ => .error (.invalid_header line)

/-- Require the original file to carry `expected` at `index`. -/
def expect_line (lines : List (List Char)) (index : ℕ) (expected : List Char) :
    Except (ToolError P) (List Char) :=
  match lines[index]? with
  | some line =>
    if Text.trim_end_matches '\r' line = Text.trim_end_matches '\r' expected then .ok line
    else .error (.context_mismatch (index + 1) expected line)
  | none => .error (.file_ends (index + 1) lines.length)

/-- Where the patch stands: the lines written, the original lines passed, the hunks seen. -/
structure PatchState where
  output : List (List Char)
  cursor : ℕ
  hunks : ℕ

/-- A hunk header: the lines up to the hunk are kept. -/
def open_hunk (original : List (List Char)) (st : PatchState) (line : List Char) :
    Except (ToolError P) PatchState := do
  let hunks := st.hunks + 1
  let (old_start, old_len) ← parse_hunk_header line
  let start := if old_len = 0 then old_start else old_start - 1
  if start < st.cursor ∨ original.length < start then throw (.hunk_misfit hunks)
  else
    pure ⟨st.output ++ (original.take start).drop st.cursor, start, hunks⟩

/-- A line of a hunk. -/
def hunk_line (original : List (List Char)) (st : PatchState) (body : List Char) :
    Except (ToolError P) PatchState :=
  match body with
  | [] => .ok st
  | marker :: text =>
    if 0x80 ≤ marker.toNat then .error .panic
    else if marker = ' ' then do
      let line ← expect_line original st.cursor text
      pure { st with output := st.output ++ [line], cursor := st.cursor + 1 }
    else if marker = '-' then do
      let _ ← expect_line original st.cursor text
      pure { st with cursor := st.cursor + 1 }
    else if marker = '+' then .ok { st with output := st.output ++ [text] }
    else if marker = '\\' then .ok st
    else .error (.invalid_line st.hunks body)

/-- What a line of the patch is, given whether a hunk is open: a header opens one, `diff ` closes
it, and outside a hunk a line means nothing. -/
def patch_line (original : List (List Char)) (inside : Bool) (st : PatchState) (line : List Char) :
    Except (ToolError P) (Bool × PatchState) :=
  if Text.starts_with line "@@".toList then return (true, ← open_hunk original st line)
  else if !inside || Text.starts_with line "diff ".toList then .ok (false, st)
  else return (true, ← hunk_line original st line)

def patch_lines (original : List (List Char)) :
    List (List Char) → Bool → PatchState → Except (ToolError P) PatchState
  | [], _, st => .ok st
  | line :: lines, inside, st => do
    let (inside, st) ← patch_line original inside st line
    patch_lines original lines inside st

/-- Apply the `@@` hunks of a unified diff, checking every context line. -/
def apply_unified_patch (original patch : List Char) : Except (ToolError P) (List Char) := do
  let lines := original.splitOn '\n'
  let st ← patch_lines lines (Text.lines patch) false ⟨[], 0, 0⟩
  if st.hunks = 0 then throw .no_hunks
  else pure (['\n'].intercalate (st.output ++ lines.drop st.cursor))

/-! ## The tools -/

/-- What a successful edit tells: the texts its diff is made from, or that nothing was written. -/
inductive Reply (P : Type)
  | edited (path : P) (before after : List Char)
  | no_changes
  | patch_changed_nothing

/-- Read a file, rewrite its text, write it back; when `unchanged` is given, a text that stays the
same is not written and answered with it. -/
def rewrite_file (f : EditFaults) (path : P) (unchanged : Option (Reply P))
    (rewrite : List Char → Except (ToolError P) (List Char)) : FsM P (ToolError P) (Reply P) := do
  let before ← read_text_file f path MAX_FILE_READ_CHARS
  match rewrite before with
  | .error error => throw error
  | .ok after =>
    match unchanged with
    | some reply => if after = before then pure reply else write before after
    | none => write before after
where
  write (before after : List Char) : FsM P (ToolError P) (Reply P) := do
    map_err (.cannot_write path) (fs_write f path after)
    pure (.edited path before after)

variable (local_path : String → P) (f : EditFaults)

/-- `local_fs_edit`. -/
def local_edit (args : Json) : FsM P (ToolError P) (Reply P) :=
  rewrite_file f (local_path (args.text "path")) none fun before =>
    replace_once before (args.text "oldText").toList (args.text "newText").toList

/-- `local_fs_multi_edit`. -/
def local_multi_edit (args : Json) : FsM P (ToolError P) (Reply P) :=
  match (args.get "edits").as_array with
  | none => throw .edits_not_array
  | some [] => throw .edits_empty
  | some edits =>
    rewrite_file f (local_path (args.text "path")) (some .no_changes) fun before =>
      apply_edits 0 (edits.map Edit.of_json) before

/-- `local_fs_apply_patch`. -/
def local_patch (args : Json) : FsM P (ToolError P) (Reply P) :=
  match ((args.get "patch").as_str).filter fun patch => Text.trim patch.toList ≠ [] with
  | none => throw .patch_required
  | some patch =>
    rewrite_file f (local_path (args.text "path")) (some .patch_changed_nothing) fun before =>
      apply_unified_patch before patch.toList

end Tools

end WaSSH.Agent
