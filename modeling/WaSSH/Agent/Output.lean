import WaSSH.Lib.Text
import WaSSH.Lib.Utf8

/-!
# The output of a command

A command runs in a wrapper that prints its exit status and working directory on two marker lines.
What comes back is cut to its tail, and the marker lines are taken out again.

* `wrap_command`: the wrapper;
* `unwrap_output`, `tail_of`: the way back;
* `finish_command`: how a command that ended settles its turn.
-/

namespace WaSSH.Agent

open Utf8

def MAX_OUTPUT_CHARS : ℕ := 64000

/-- How much of the raw tail is kept so the markers are never cut off. -/
def MARKER_TAIL_CHARS : ℕ := 4000

def SUDO_AUTH_FAILED_MARKER : List Char := "__WASSH_SUDO_FAILED__".toList

def SUDO_REFUSED : List Char := "sudo refused the password.".toList

def SUDO_HINT : List Char :=
  "[This command needs root: call run_sudo with it so the user can type their password.]".toList

def SUDO_DEMAND_MARKERS : List (List Char) :=
  ["sudo: a password is required".toList, "sudo: no tty present".toList,
    "sudo: a terminal is required".toList, "must be root".toList]

def status_mark : List Char := "__WASSH_STATUS:".toList

def pwd_mark : List Char := "__WASSH_PWD:".toList

/-! ## The wrapper -/

def shell_quote (text : List Char) : List Char :=
  ['\''] ++ Text.replace ['\''] "'\\''".toList text ++ ['\'']

/-- The lines that print the markers. -/
def print_markers : List (List Char) :=
  ["printf '\\n".toList ++ status_mark ++ "%s__\\n' \"$__wassh_status\"".toList,
    "printf '".toList ++ pwd_mark ++ "%s__\\n' \"$(pwd 2>/dev/null)\"".toList]

/-- Wrap a command so its exit status and working directory come back too. -/
def wrap_command (cwd command : List Char) : List Char :=
  ['\n'].intercalate
    (["cd ".toList ++ shell_quote cwd ++ " >/dev/null 2>&1 || true".toList, command,
      "__wassh_status=$?".toList] ++ print_markers)

/-- What a shell that runs the wrapper writes to its standard output. -/
def printed (stdout : List UInt8) (status : ℤ) (dir : List UInt8) : List UInt8 :=
  stdout ++ encode ("\n".toList ++ status_mark ++ Text.decimal status ++ "__\n".toList ++ pwd_mark) ++
    dir ++ encode "__\n".toList

/-! ## The way back -/

structure Unwrapped where
  visible : List Char
  exit_code : Option ℤ
  directory : Option (List Char)

/-- What a line is. -/
inductive Line
  | status (code : Option ℤ)
  | pwd (dir : List Char)
  | text (line : List Char)

def read_line (line : List Char) : Line :=
  let trimmed := Text.trim_end_matches '\r' line
  match Text.strip_prefix status_mark trimmed with
  | some rest => .status (Text.parse_i32 (Text.trim (Text.trim_end_pairs '_' rest)))
  | none =>
    match Text.strip_prefix pwd_mark trimmed with
    | some rest => .pwd (Text.trim_end_pairs '_' rest)
    | none => .text trimmed

def unwrap_line (u : Unwrapped) (line : List Char) : Unwrapped :=
  match read_line line with
  | .status code => { u with exit_code := code }
  | .pwd dir => { u with directory := some dir }
  | .text text => { u with visible := u.visible ++ text ++ ['\n'] }

/-- Undo `wrap_command`: the visible output, exit status and directory. -/
def unwrap_output (raw : List Char) : Unwrapped :=
  let u := (raw.splitOn '\n').foldl unwrap_line ⟨[], none, none⟩
  { u with visible := Text.trim_end_matches '\n' u.visible }

/-- Keep only the tail a command can still have its markers in. -/
def tail_of (raw : List Char) : List Char :=
  let keep := MAX_OUTPUT_CHARS + MARKER_TAIL_CHARS
  if keep < raw.length then raw.drop (raw.length - keep) else raw

/-- Cut the visible output to what the model may read. -/
def clamp_output (text : List Char) : List Char :=
  if text.length ≤ MAX_OUTPUT_CHARS then text else text.take MAX_OUTPUT_CHARS

/-! ## Settling the turn -/

/-- A command's output says it needed root. -/
def needs_sudo_help (output : List Char) : Bool :=
  SUDO_DEMAND_MARKERS.any (Text.contains (Text.to_lowercase output))

/-- What the model is told about one command. -/
def command_result_text (output : List Char) (exit_code : Option ℤ) (truncated : Bool) :
    List Char :=
  let text :=
    if output = [] then "(no output)\n".toList
    else if output.getLast? = some '\n' then output else output ++ ['\n']
  let code := (exit_code.map Text.decimal).getD "unknown".toList
  text ++ "[exit code: ".toList ++ code ++ "]".toList ++
    if truncated then "\n[output truncated]".toList else []

structure ExecOutput where
  stdout : List Char
  stderr : List Char

/-- What the session holds of a command that ended. -/
inductive Ended
  | output (output : ExecOutput)
  | failure (text : List Char)

/-- What a command that ended leaves: the agent's directory, the reported exit code, the text the
model reads and the verdict. -/
structure CommandDone where
  cwd : List Char
  exit_code : Option ℤ
  output : List Char
  failed : Bool

/-- `poll_tool` for a command that returns its output; `plain_command` says the turn is one of
`run_command`. -/
def finish_command (cwd : List Char) (plain_command : Bool) (ended : Ended) : CommandDone :=
  let (u, truncated) := match ended with
    | .output output =>
      let raw := tail_of (output.stdout ++ output.stderr)
      let u := unwrap_output raw
      ({ u with visible := clamp_output u.visible }, decide (MAX_OUTPUT_CHARS < raw.length))
    | .failure text => (⟨text, none, none⟩, false)
  let refused_sudo := Text.contains u.visible SUDO_AUTH_FAILED_MARKER
  let visible :=
    if refused_sudo then
      Text.trim_end (Text.replace SUDO_AUTH_FAILED_MARKER SUDO_REFUSED u.visible)
    else u.visible
  let visible :=
    if plain_command && needs_sudo_help visible then visible ++ ['\n'] ++ SUDO_HINT else visible
  { cwd := (u.directory.filter (· ≠ [])).getD cwd
    exit_code := u.exit_code
    output := command_result_text visible u.exit_code truncated
    failed := u.exit_code.any (· ≠ 0) || refused_sudo }

end WaSSH.Agent
