import WaSSH.Agent.Chat
import WaSSH.Agent.Edit

/-!
# What the tools make of their arguments

The paths, the shell lines, the keys and the reports of the tools. Nothing here changes a state.

* `relative_remote`, `join_path`: remote paths;
* `remote_shell_command` and the other lines the tools run on the host by themselves, with
  `ToolLine`;
* `keys_sequence`: the bytes of named keys;
* `diff_texts`, `replace_and_report`: what an edit changed.
-/

namespace WaSSH.Agent

/-- Text of the number, without sign. -/
def digits (n : ℕ) : List Char := Text.decimal n

/-- `Ord::clamp`. -/
def clamp_to (low high n : ℕ) : ℕ := max low (min n high)

/-- `arguments[key].as_str().unwrap_or_default()`. -/
def text_arg (arguments : Json) (key : String) : List Char := (arguments.text key).toList

/-- A trimmed text argument, if there is anything in it. -/
def trimmed_arg (arguments : Json) (key : String) : Option (List Char) :=
  ((arguments.get key).as_str.map fun s => Text.trim s.toList).filter (· ≠ [])

def flag_arg (arguments : Json) (key : String) : Bool := ((arguments.get key).as_bool).getD false

/-! ## Paths -/

def is_separator (c : Char) : Bool := c = '/' ∨ c = '\\'

/-- `dir/name`, without doubting the separator. -/
def join_path (dir name : List Char) : List Char :=
  let trimmed := dir.rdropWhile is_separator
  let name := name.dropWhile is_separator
  if trimmed = [] then if Text.starts_with dir ['/'] then '/' :: name else name
  else trimmed ++ '/' :: name

/-- Join `name` onto `cwd` unless it is already absolute. -/
def relative_remote (cwd name : List Char) : List Char :=
  let name := Text.trim name
  if Text.starts_with name ['/'] then name
  else if name = [] then cwd
  else join_path cwd name

/-! ## Shell lines -/

def MAX_DIR_ENTRIES : ℕ := 200
def MAX_DEV_VIEW_LINES_DEFAULT : ℕ := 300
def MAX_DEV_GREP_MATCHES : ℕ := 100
def MAX_DEV_FIND_MATCHES : ℕ := 100
def DEV_SEARCH_MATCHES_DEFAULT : ℕ := 50
def MAX_DEV_TREE_DEPTH : ℕ := 3
def MAX_DEV_FIND_DEPTH : ℕ := 8
def DIFF_CONTEXT_LINES_DEFAULT : ℕ := 3
def DIFF_CONTEXT_LINES_MAX : ℕ := 20
def MAX_DIFF_TABLE_CELLS : ℕ := 4000000
def MAX_SYSTEM_PROCESS_ROWS_DEFAULT : ℕ := 15
def MAX_SYSTEM_PROCESS_ROWS_LIMIT : ℕ := 50
def MAX_MEMORY_CONSUMERS_DEFAULT : ℕ := 5
def MAX_MEMORY_CONSUMERS_LIMIT : ℕ := 15
def MAX_TERMINAL_WAIT_MS : ℕ := 120000

/-- Directories the search tools skip: version control, dependencies and build output. -/
def SKIPPED_TREE_DIRS : List Char :=
  ("-not -path '*/.*' -not -path '*/node_modules*' -not -path '*/dist*' " ++
    "-not -path '*/build*'").toList

/-- The shell command `dev_grep_search` runs on the connected host. -/
def dev_grep_command (args : Json) (root : List Char) : List Char :=
  let case := if flag_arg args "caseSensitive" then [] else "-i ".toList
  let glob := trimmed_arg args "glob"
  let include_grep :=
    (glob.map fun glob => "--include=".toList ++ shell_quote glob ++ [' ']).getD []
  let include_rg := (glob.map fun glob => "-g ".toList ++ shell_quote glob ++ [' ']).getD []
  let context := min (((args.get "contextLines").as_u64).getD 0) DIFF_CONTEXT_LINES_MAX
  let around := if context = 0 then [] else "-C ".toList ++ digits context ++ [' ']
  let limit :=
    clamp_to 1 MAX_DEV_GREP_MATCHES (((args.get "limit").as_u64).getD DEV_SEARCH_MATCHES_DEFAULT)
  let pattern := shell_quote (text_arg args "pattern")
  let root := shell_quote root
  let ripgrep := "rg --line-number --no-heading --color never ".toList ++ case ++ include_rg ++
    around ++ "-e ".toList ++ pattern ++ [' '] ++ root
  let grep := "grep -rnI ".toList ++ case ++ include_grep ++ around ++
    "--exclude-dir=\x7b.git,node_modules,dist,build,target\x7d -e ".toList ++ pattern ++ [' '] ++ root
  "if command -v rg >/dev/null 2>&1; then ".toList ++ ripgrep ++
    " 2>/dev/null | head -n ".toList ++ digits limit ++ "; else ".toList ++ grep ++
    " 2>/dev/null | head -n ".toList ++ digits limit ++ "; fi".toList

/-- The shell command `dev_find_files` runs on the connected host. -/
def dev_find_command (args : Json) (root : List Char) : List Char :=
  let limit :=
    clamp_to 1 MAX_DEV_FIND_MATCHES (((args.get "limit").as_u64).getD DEV_SEARCH_MATCHES_DEFAULT)
  "find ".toList ++ shell_quote root ++ " -maxdepth ".toList ++ digits MAX_DEV_FIND_DEPTH ++ [' '] ++
    SKIPPED_TREE_DIRS ++ " -iname ".toList ++ shell_quote (text_arg args "namePattern") ++
    " 2>/dev/null | head -n ".toList ++ digits limit

/-- The shell command a recursive `dev_list_directory` runs on the connected host. -/
def dev_tree_command (args : Json) (root : List Char) : List Char :=
  let depth := min (((args.get "maxDepth").as_u64).getD MAX_DEV_TREE_DEPTH) MAX_DEV_TREE_DEPTH
  "find ".toList ++ shell_quote root ++ " -maxdepth ".toList ++ digits depth ++ [' '] ++
    SKIPPED_TREE_DIRS ++ " 2>/dev/null | head -n ".toList ++ digits MAX_DIR_ENTRIES

/-- The shell command that tells whether a file exists. -/
def exists_command (path : List Char) : List Char :=
  "test -e ".toList ++ shell_quote path ++ " && echo yes || echo no".toList

def delete_command (path : List Char) : List Char :=
  "rm -rf -- ".toList ++ shell_quote path ++ " && echo removed".toList

def overview_command : List Char :=
  ['\n'].intercalate
    ["printf 'os\\n'; (cat /etc/os-release 2>/dev/null || sw_vers 2>/dev/null)".toList,
      "printf '\\nkernel\\n'; uname -a".toList,
      "printf '\\nuptime\\n'; uptime 2>/dev/null || cat /proc/uptime".toList,
      "printf '\\nload\\n'; cat /proc/loadavg 2>/dev/null".toList,
      "printf '\\ncpu\\n'; (nproc 2>/dev/null || sysctl -n hw.ncpu 2>/dev/null)".toList,
      ("printf '\\nmemory\\n'; " ++
        "(head -n 5 /proc/meminfo 2>/dev/null || vm_stat 2>/dev/null)").toList,
      "printf '\\ndisk\\n'; df -h / 2>/dev/null".toList,
      "printf '\\nusers\\n'; who 2>/dev/null | head -n 10".toList]

def processes_command (args : Json) : List Char :=
  let limit := clamp_to 1 MAX_SYSTEM_PROCESS_ROWS_LIMIT
    (((args.get "limit").as_u64).getD MAX_SYSTEM_PROCESS_ROWS_DEFAULT)
  let sort := match ((args.get "sort").as_str).getD "cpu" with
    | "mem" => "-pmem"
    | "pid" => "pid"
    | "time" => "-time"
    | _ => "-pcpu"
  "ps -eo pid=,user=,pcpu=,pmem=,stat=,time=,args= --sort=".toList ++ sort.toList ++
    " 2>/dev/null | head -n ".toList ++ digits limit ++
    " || ps -Ao pid,user,%cpu,%mem,stat,time,args -r | head -n ".toList ++ digits limit

def disk_command (args : Json) : List Char :=
  let command :=
    if flag_arg args "includeAllFilesystems" then "df -h 2>/dev/null".toList
    else ("df -h -x tmpfs -x devtmpfs -x squashfs -x overlay 2>/dev/null " ++
      "|| df -h 2>/dev/null").toList
  if flag_arg args "includeInodes" then
    command ++ "; printf '\\ninodes\\n'; df -i 2>/dev/null".toList
  else command

def memory_command (args : Json) : List Char :=
  let consumers := clamp_to 1 MAX_MEMORY_CONSUMERS_LIMIT
    (((args.get "topConsumers").as_u64).getD MAX_MEMORY_CONSUMERS_DEFAULT)
  ("cat /proc/meminfo 2>/dev/null | head -n 20; printf '\\nswap\\n'; " ++
    "(swapon --show 2>/dev/null || true); printf '\\nconsumers\\n'; " ++
    "ps -eo pid=,user=,pmem=,rss=,args= --sort=-pmem 2>/dev/null | head -n ").toList ++
    digits consumers

/-- The shell command a remote read-only tool runs. -/
def remote_shell_command (name : String) (args : Json) : Option (List Char) :=
  if name = TOOL_SYSTEM_OVERVIEW then some overview_command
  else if name = TOOL_SYSTEM_PROCESSES then some (processes_command args)
  else if name = TOOL_SYSTEM_DISK then some (disk_command args)
  else if name = TOOL_SYSTEM_MEMORY then some (memory_command args)
  else none

/-- A line a tool runs on the host by itself: the model's text in it, if any, is quoted. -/
inductive ToolLine : List Char → Prop
  | remote {name : String} {args : Json} {line : List Char}
      (h : remote_shell_command name args = some line) : ToolLine line
  | grep (args : Json) (root : List Char) : ToolLine (dev_grep_command args root)
  | find (args : Json) (root : List Char) : ToolLine (dev_find_command args root)
  | tree (args : Json) (root : List Char) : ToolLine (dev_tree_command args root)
  | test (path : List Char) : ToolLine (exists_command path)
  | delete (path : List Char) : ToolLine (delete_command path)

/-! ## Keys -/

/-- Key names `terminal_send_keys` understands, as what they send. -/
def key_sequence (name : List Char) : Option (List Char) :=
  let esc (rest : String) := some (Char.ofNat 27 :: rest.toList)
  let byte (n : ℕ) := some [Char.ofNat n]
  match String.ofList (Text.to_lowercase (Text.trim name)) with
  | "enter" | "return" => some ['\r']
  | "tab" => some ['\t']
  | "esc" | "escape" => esc ""
  | "space" => some [' ']
  | "backspace" => byte 127
  | "delete" | "del" => esc "[3~"
  | "up" => esc "[A"
  | "down" => esc "[B"
  | "right" => esc "[C"
  | "left" => esc "[D"
  | "home" => esc "[H"
  | "end" => esc "[F"
  | "pageup" | "pgup" => esc "[5~"
  | "pagedown" | "pgdn" => esc "[6~"
  | "ctrl-a" | "c-a" => byte 1
  | "ctrl-b" => byte 2
  | "ctrl-c" => byte 3
  | "ctrl-d" => byte 4
  | "ctrl-e" => byte 5
  | "ctrl-k" => byte 11
  | "ctrl-l" => byte 12
  | "ctrl-r" => byte 18
  | "ctrl-u" => byte 21
  | "ctrl-w" => byte 23
  | "ctrl-z" => byte 26
  | _ => none

/-- The bytes for the names of a key list. -/
def key_bytes : List (List Char) → Except (List Char) (List Char)
  | [] => .ok []
  | name :: names =>
    let name := Text.trim name
    if name = [] then key_bytes names
    else match key_sequence name with
      | some sequence => (key_bytes names).map (sequence ++ ·)
      | none => .error ("Unknown key \"".toList ++ name ++ "\".".toList)

/-- The bytes for a comma-separated key list. -/
def keys_sequence (keys : List Char) : Except (List Char) (List Char) :=
  match key_bytes (keys.splitOn ',') with
  | .ok [] => .error "No key names given.".toList
  | result => result

/-! ## Reports -/

/-- `{:>width}`. -/
def pad_left (width : ℕ) (text : List Char) : List Char :=
  List.replicate (width - text.length) ' ' ++ text

/-- One row of the table of common subsequence lengths, from the row below. -/
def lcs_row (x : List Char) : List (List Char) → List ℕ → List ℕ
  | y :: ys, below :: rest =>
    let row := lcs_row x ys rest
    (if x = y then rest.headD 0 + 1 else max below (row.headD 0)) :: row
  | _, _ => [0]

/-- The rows of the table, the first line's first. -/
def lcs_table (xs ys : List (List Char)) : List (List ℕ) :=
  xs.foldr (fun x rows => lcs_row x ys (rows.headD []) :: rows)
    [List.replicate (ys.length + 1) 0]

/-- Walk the table from the line pair `(i, j)`, keeping the pairs on the longest path. -/
def lcs_walk (i : ℕ) (xs : List (List Char)) (rows : List (List ℕ)) (j : ℕ)
    (ys : List (List Char)) : List (ℕ × ℕ) :=
  match xs, rows, ys with
  | x :: xs, row :: rows, y :: ys =>
    if x = y then (i, j) :: lcs_walk (i + 1) xs (rows.map List.tail) (j + 1) ys
    else if row.tail.headD 0 ≤ (rows.headD []).headD 0 then lcs_walk (i + 1) xs rows j (y :: ys)
    else lcs_walk i (x :: xs) ((row :: rows).map List.tail) (j + 1) ys
  | _, _, _ => []
  termination_by xs.length + ys.length

/-- Longest common subsequence of two lists of lines, as pairs of indices. -/
def lcs_pairs (xs ys : List (List Char)) : List (ℕ × ℕ) :=
  if MAX_DIFF_TABLE_CELLS < xs.length * ys.length then []
  else lcs_walk 0 xs (lcs_table xs ys) 0 ys

/-- The lines of a diff from the line pair `(i, j)` on, up to each of the pairs kept. -/
def diff_lines (old new : List (List Char)) : ℕ → ℕ → List (ℕ × ℕ) → List (List Char)
  | _, _, [] => []
  | i, j, (ai, bj) :: kept =>
    let line (mark : Char) (n : ℕ) (text : List Char) :=
      mark :: (pad_left 4 (digits n) ++ ' ' :: text)
    let removed := (List.range' i (ai - i)).map fun n => line '-' n (old.getD n [])
    let added := (List.range' j (bj - j)).map fun n => line '+' n (new.getD n [])
    let i := max i ai
    let j := max j bj
    if i < old.length ∧ j < new.length ∧ old[i]? = new[j]? then
      removed ++ added ++ line ' ' i (old.getD i []) :: diff_lines old new (i + 1) (j + 1) kept
    else removed ++ added ++ diff_lines old new i j kept

/-- A diff of two texts; all lines are shown, whatever the context asked for. -/
def diff_texts (old new : List Char) (_context : ℕ) : List Char :=
  let old := Text.lines old
  let new := Text.lines new
  if MAX_DIFF_TABLE_CELLS < old.length * new.length then
    "[files are too large to diff line by line]".toList
  else
    let out := diff_lines old new 0 0 (lcs_pairs old new ++ [(old.length, new.length)])
    if out.all (Text.starts_with · [' ']) then "No differences.".toList
    else ['\n'].intercalate out

/-- Apply an edit and describe it. -/
def replace_and_report (text old new : List Char) : Except (List Char) (List Char × List Char) :=
  match replace_once (P := Empty) text old new with
  | .ok updated => .ok (updated, diff_texts text updated 3)
  | .error error =>
    .error (error.message (fun _ => "") (fun _ => "") fun _ => "").toList

end WaSSH.Agent
