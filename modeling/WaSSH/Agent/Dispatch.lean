import WaSSH.Agent.Rules
import WaSSH.Agent.Tools
import WaSSH.Files.Panel

/-!
# Starting a tool

A tool call is settled at once or parks the agent on what it waits for. Starting one reads the agent
and the session; what it changes is written down in a `Ran`.

* `Agent`, `SessionAccess`, `Request`: the agent and what it sees and asks of the session;
* `exec_command`, `run_probe`, `start_read`, `spawn_worker`: the ways to wait;
* `run_tool`, `dispatch_remote`, `dispatch`;
* `Asked`, `Parked`: what a call can ask of the session, and what it can be parked on;
* **`dispatch_fits`**: it asks and waits for nothing else.
-/

set_option linter.dupNamespace false

namespace WaSSH.Agent

/-! ## Permissions -/

inductive Permission
  | allow
  | ask
  | deny
  deriving DecidableEq

/-- One host's permissions: the decision for every gated tool. -/
structure Permissions where
  decisions : List (String × Permission) := []

/-- What to do with `tool` now. -/
def Permissions.decision (p : Permissions) (tool : String) : Permission :=
  ((p.decisions.find? (·.1 == tool)).map Prod.snd).getD .allow

/-! ## The session -/

/-- What the session answers, for as long as one call of the agent lasts. -/
structure SessionAccess where
  output : String → Option ExecOutput
  failure : String → Option (List Char)
  read : List Char → ℕ → Option Files.FileContent
  listing : Option Files.SftpListing
  is_transferring : Bool
  transfer_status : Option (List Char)
  screen_text : List Char

/-- What the agent asks of the session. The line of `exec` and `exec_input` runs `command` in a
wrapper; only the line is sent. -/
inductive Request
  | exec (key : String) (command line : List Char)
  | exec_input (key : String) (command line input : List Char)
  | cancel (key : String)
  | read (path : List Char) (max_bytes : ℕ)
  | request_listing (path : List Char)
  | write_file (path content : List Char)
  | type_text (text : List Char)

/-- What one call of the agent finds: the session, if it is connected, and the answer of a local tool
for the transcript line it fills. -/
structure Env where
  session : Option SessionAccess
  run_local : ℕ → Except (List Char) (List Char)

/-! ## The agent -/

/-- What a run is remembered by: the histories sent to the provider, the answers to the password
prompt and what was asked of the session for a call. -/
inductive Event
  | completion (messages : List ApiMessage)
  | sudo_answer (call : ApiToolCall) (command : List Char)
  | request (call : ApiToolCall) (request : Request)

/-- One conversation's state. -/
structure Agent where
  turns : List Turn := []
  history : List ApiMessage := []
  phase : Option Phase := none
  error : Option (List Char) := none
  cwd : List Char := ['/']
  app_allow : List (List Char) := []
  app_deny : List (List Char) := []
  host_allow : List (List Char) := []
  host_deny : List (List Char) := []
  session_allow : List (List Char) := []
  session_deny : List (List Char) := []
  allow_all : Bool := false
  permissions : Permissions := {}
  needs_reply : Bool := false
  injected : List (List Char × UserMeta) := []
  now_ms : ℕ := 0
  queue : List ApiToolCall := []
  log : List Event := []

/-- The decision for `tool`, with this session's blanket answer applied. -/
def Agent.permission (a : Agent) (tool : String) : Permission :=
  match a.permissions.decision tool with
  | .ask => if a.allow_all then .allow else .ask
  | decision => decision

/-! ## What starting a tool comes to -/

inductive Outcome
  | settle (label output : List Char) (failed : Bool)
  | park (phase : Phase)

/-- The lines added to the transcript, what is asked of the session, and the outcome. -/
structure Ran where
  turns : List Turn := []
  requests : List Request := []
  outcome : Outcome

def EXEC_KEY : String := "ai.run_command"
def PROBE_KEY : String := "ai.probe"
def NOT_PERMITTED : List Char := "This action is not permitted.".toList
def DENIED_BY_USER : List Char := "Action denied by user.".toList
def STOPPED_BY_USER : List Char := "Stopped by the user before this ran.".toList
def NOT_CONNECTED : List Char := "The session is not connected.".toList
def TERMINAL_WAIT_DEFAULT_MS : ℕ := 5000

/-! ## Commands -/

/-- A command line runs `sudo` at all: some word's program name is `sudo`. -/
def command_needs_sudo (command : List Char) : Bool :=
  (command.splitOnP fun c => Text.is_whitespace c || [';', '|', '&'].contains c).any fun word =>
    (word.splitOn '/').getLast? = some "sudo".toList

/-- Wrap a command that needs `sudo`, reading the password from stdin. -/
def wrap_command_with_sudo (cwd command : List Char) : List Char :=
  let line := if command_needs_sudo command then command else "sudo -n ".toList ++ command
  ['\n'].intercalate
    (["cd ".toList ++ shell_quote cwd ++ " >/dev/null 2>&1 || true".toList,
      "IFS= read -r __wassh_sudo_pw || true".toList,
      "if [ -n \"$\x7b__wassh_sudo_pw\x7d\" ]; then".toList,
      ("  printf '%s\\n' \"$\x7b__wassh_sudo_pw\x7d\" | " ++
        "sudo -S -p '' -v >/dev/null 2>&1").toList,
      "  __wassh_sudo_auth=$?".toList,
      "else".toList,
      "  sudo -n -v >/dev/null 2>&1".toList,
      "  __wassh_sudo_auth=$?".toList,
      "fi".toList,
      "unset __wassh_sudo_pw".toList,
      "if [ \"$\x7b__wassh_sudo_auth\x7d\" -ne 0 ]; then".toList,
      "  printf '%s\\n' '".toList ++ SUDO_AUTH_FAILED_MARKER ++ ['\''],
      "  __wassh_status=1".toList,
      "else".toList,
      "  ".toList ++ line,
      "  __wassh_status=$?".toList,
      "fi".toList] ++ print_markers)

section Start

variable (env : Env) (a : Agent) (call : ApiToolCall) (turn : ℕ)

/-- Settle with the label of the call. -/
def settle_call (output : List Char) (failed : Bool) : Ran :=
  { outcome := .settle (call_label call) output failed }

/-- Run a shell command for `run_command`; one that calls `sudo` waits for the user's password. -/
def exec_command (command : List Char) (sudo_stdin : Option (List Char)) : Ran :=
  if sudo_stdin.isNone && command_needs_sudo command then
    { outcome := .park (.sudo_prompt call command none) }
  else match env.session with
    | none => { outcome := .settle ("$ ".toList ++ command) NOT_CONNECTED true }
    | some _ =>
      { requests := match sudo_stdin with
          | some password =>
            [.exec_input EXEC_KEY command (wrap_command_with_sudo a.cwd command) password]
          | none => [.exec EXEC_KEY command (wrap_command a.cwd command)]
        outcome := .park (.running call turn (.command EXEC_KEY .output)) }

/-- Run a probe command on the session. -/
def run_probe (next : CommandThen) (command : List Char) : Ran :=
  match env.session with
  | none => settle_call call NOT_CONNECTED true
  | some _ =>
    { requests := [.exec PROBE_KEY command command]
      outcome := .park (.running call turn (.command PROBE_KEY next)) }

/-- Start a remote read. -/
def start_read (path : List Char) (max : ℕ) (next : ReadThen) : Ran :=
  match env.session with
  | none => { outcome := .settle ("read ".toList ++ path) NOT_CONNECTED true }
  | some _ =>
    { requests := [.read path max]
      outcome := .park (.running call turn (.read path max next)) }

/-- Wait for a worker thread. -/
def spawn_worker : Ran := { outcome := .park (.running call turn .worker) }

/-! ## The tools -/

/-- One question of `ask_user`. -/
def read_question (question : Json) : Option AgentQuestion :=
  (trimmed_arg question "question").map fun text =>
    { text
      options := (((question.get "options").as_array).getD []).filterMap fun option =>
        (option.as_str.map fun s => Text.trim s.toList).filter (· ≠ []) }

/-- The questions of `ask_user`, at least one. -/
def read_questions (arguments : Json) : AgentQuestion × List AgentQuestion :=
  match (((arguments.get "questions").as_array).getD []).filterMap read_question with
  | question :: questions => (question, questions)
  | [] =>
    (⟨(trimmed_arg arguments "text").getD "The agent needs your input.".toList, []⟩, [])

def ask_user : Ran :=
  let (question, questions) := read_questions call.arguments
  { turns := [.question question.text none]
    outcome := .park (.asking call (question :: questions) 0 []) }

section Engine

variable (engine : Anchored.Engine)

/-- What the rules say of a command now. -/
def Agent.decide (a : Agent) (command : List Char) : RuleDecision :=
  decide_command engine command (some a.host_allow) (some a.host_deny) (some a.app_allow)
    (some a.app_deny) a.session_allow a.session_deny

/-- What the model is told of a command the rules deny. -/
def refused_by_rules (command : List Char) : List Char :=
  "Running `".toList ++ command ++ "` is not allowed by the permission rules.".toList

def NO_COMMAND : List Char := "The command argument was missing or empty.".toList

def run_command : Ran :=
  match trimmed_arg call.arguments "command" with
  | none => { outcome := .settle "run_command".toList NO_COMMAND true }
  | some command =>
    let sudo_stdin :=
      ((call.arguments.get "sudoStdin").as_str.map String.toList).filter (· ≠ [])
    match a.decide engine command with
    | .allow => exec_command env a call turn command sudo_stdin
    | .deny => { outcome := .settle ("$ ".toList ++ command) (refused_by_rules command) true }
    | .ask => { outcome := .park (.approving call command (approval_scopes command)) }

/-- The password prompt is the approval, but rules that refuse a command still refuse it. -/
def run_sudo : Ran :=
  match trimmed_arg call.arguments "command" with
  | none => { outcome := .settle "run_sudo".toList NO_COMMAND true }
  | some command =>
    if a.decide engine command = .deny then settle_call call (refused_by_rules command) true
    else { outcome := .park (.sudo_prompt call command (trimmed_arg call.arguments "reason")) }

end Engine

/-- The path argument, from the agent's directory. -/
def remote_path : List Char := relative_remote a.cwd (text_arg call.arguments "path")

def remote_read : Ran :=
  let max := clamp_to 1000 MAX_FILE_READ_CHARS (((call.arguments.get "maxChars").as_u64).getD 32000)
  start_read env call turn (remote_path a call) max .output

def remote_edit : Ran :=
  let path := remote_path a call
  let old := text_arg call.arguments "oldText"
  if old = [] then
    { outcome := .settle ("edit ".toList ++ path) "oldText must not be empty.".toList true }
  else
    start_read env call turn path MAX_FILE_READ_CHARS (.edit old (text_arg call.arguments "newText"))

def dev_view : Ran :=
  let start := max (((call.arguments.get "startLine").as_u64).getD 1) 1
  let max_lines := ((call.arguments.get "maxLines").as_u64).getD MAX_DEV_VIEW_LINES_DEFAULT
  let lines :=
    (((call.arguments.get "endLine").as_u64).map fun last => last - start + 1).getD max_lines
  start_read env call turn (remote_path a call) MAX_FILE_READ_CHARS (.view start lines)

def dev_diff : Ran :=
  let context := ((call.arguments.get "contextLines").as_u64).getD DIFF_CONTEXT_LINES_DEFAULT
  let new := ((((call.arguments.get "newText").as_str).or
    ((call.arguments.get "patch").as_str)).getD "").toList
  if new = [] then settle_call call "Pass newText or patch to diff against.".toList true
  else match (call.arguments.get "oldText").as_str with
    -- Both sides came with the call, so the file is not needed.
    | some old => settle_call call (diff_texts old.toList new context) false
    | none =>
      start_read env call turn (remote_path a call) MAX_FILE_READ_CHARS (.diff new context)

/-- A remote write first asks whether the file exists. -/
def remote_write : Ran :=
  let path := remote_path a call
  let content := text_arg call.arguments "content"
  run_probe env call turn (.write_remote path content (flag_arg call.arguments "overwrite"))
    (exists_command path)

def remote_list : Ran :=
  let path := remote_path a call
  if flag_arg call.arguments "recursive" then
    run_probe env call turn .output (dev_tree_command call.arguments path)
  else match env.session with
    | none => { outcome := .settle ("list ".toList ++ path) NOT_CONNECTED true }
    | some _ =>
      { requests := [.request_listing path]
        outcome := .park (.running call turn (.list path)) }

/-- The terminal as the agent sees it. -/
def Env.screen_text (env : Env) : List Char := ((env.session.map (·.screen_text))).getD []

def terminal_read : Ran :=
  let lines := Text.lines env.screen_text
  let keep := clamp_to 1 5000 (((call.arguments.get "maxLines").as_u64).getD lines.length)
  let body :=
    if lines = [] then "The terminal is empty.".toList
    else ['\n'].intercalate (lines.drop (lines.length - keep))
  { outcome := .settle "terminal_read".toList body false }

/-- Type `text`, and Enter where the call asks for it. -/
def type_into_terminal (text note : List Char) : Ran :=
  match env.session with
  | none => settle_call call NOT_CONNECTED true
  | some _ =>
    { requests := .type_text text ::
        if flag_arg call.arguments "pressEnter" then [.type_text ['\r']] else []
      outcome := .settle (call_label call) note false }

def terminal_write : Ran :=
  let text := text_arg call.arguments "text"
  let enter := if flag_arg call.arguments "pressEnter" then " and Enter".toList else []
  type_into_terminal env call text
    ("Typed ".toList ++ digits text.length ++ " characters".toList ++ enter ++ ".".toList)

def terminal_keys : Ran :=
  let keys := text_arg call.arguments "keys"
  match keys_sequence keys with
  | .error error => settle_call call error true
  | .ok text => type_into_terminal env call text ("Sent ".toList ++ keys ++ ".".toList)

def terminal_wait : Ran :=
  let timeout := clamp_to 100 MAX_TERMINAL_WAIT_MS
    (((call.arguments.get "timeoutMs").as_u64).getD TERMINAL_WAIT_DEFAULT_MS)
  { outcome := .park (.running call turn (.terminal env.screen_text (a.now_ms + timeout))) }

def run_local : Ran :=
  match env.run_local turn with
  | .ok output => settle_call call output false
  | .error error => settle_call call error true

/-- The tools that need the session or a worker thread. -/
def dispatch_remote : Ran :=
  let name := call.name
  let line next command := run_probe env call turn next command
  if name = TOOL_REMOTE_READ then remote_read env a call turn
  else if [TOOL_REMOTE_EDIT, TOOL_DEV_EDIT].contains name then remote_edit env a call turn
  else if name = TOOL_DEV_VIEW then dev_view env a call turn
  else if name = TOOL_DEV_DIFF then dev_diff env a call turn
  else if name = TOOL_DEV_GREP then
    line .output (dev_grep_command call.arguments (remote_path a call))
  else if name = TOOL_DEV_FIND then
    line .output (dev_find_command call.arguments (remote_path a call))
  else if [TOOL_REMOTE_WRITE, TOOL_DEV_CREATE].contains name then remote_write env a call turn
  else if [TOOL_REMOTE_LIST, TOOL_DEV_LIST].contains name then remote_list env a call turn
  else if name = TOOL_REMOTE_DELETE then line .output (delete_command (remote_path a call))
  else if name = TOOL_TERMINAL_READ then terminal_read env call
  else if name = TOOL_TERMINAL_KEYS then terminal_keys env call
  else if name = TOOL_TERMINAL_WRITE then terminal_write env call
  else if name = TOOL_TERMINAL_WAIT then terminal_wait env a call turn
  else if [TOOL_LOCAL_RUN, TOOL_WEB_FETCH, TOOL_WEB_SEARCH, TOOL_RAG_SEARCH].contains name then
    spawn_worker call turn
  else run_local env call turn

variable (engine : Anchored.Engine)

/-- Run one call the permissions already allowed. -/
def run_tool : Ran :=
  let name := call.name
  -- `run_command` asks for approval first, so it keeps its own check of the session.
  let needs_session_now := needs_session name && name ≠ TOOL_ASK_USER && name ≠ TOOL_RUN_COMMAND
  if !is_tool name then
    { outcome := .settle name.toList
        ("The tool ".toList ++ name.toList ++ " is not available.".toList) true }
  else if needs_session_now && env.session.isNone then settle_call call NOT_CONNECTED true
  else if name = TOOL_ASK_USER then ask_user call
  else if name = TOOL_RUN_COMMAND then run_command env a call turn engine
  else if name = TOOL_RUN_SUDO then run_sudo a call engine
  else match remote_shell_command name call.arguments with
    | some command => run_probe env call turn .output command
    | none => dispatch_remote env a call turn

/-- Run one call, or park the agent on whatever it needs; `label` is that of its line. -/
def dispatch (label : List Char) : Ran :=
  match a.permission call.name with
  | .allow => run_tool env a call turn engine
  | .deny => { outcome := .settle label NOT_PERMITTED false }
  | .ask => { outcome := .park (.allowing call turn label) }

end Start

/-! ## What a call can come to -/

/-- What a call can ask of the session. A command is one whose words do not name `sudo`, unless the
call brings a password for it. -/
inductive Asked (a : Agent) (engine : Anchored.Engine) (call : ApiToolCall) : Request → Prop
  | tool_line {key : String} {line : List Char} (h : ToolLine line) :
    Asked a engine call (.exec key line line)
  | command {key : String} {command line : List Char} (hname : call.name = TOOL_RUN_COMMAND)
    (hcommand : trimmed_arg call.arguments "command" = some command)
    (hsudo : command_needs_sudo command = false) : Asked a engine call (.exec key command line)
  | sudo_stdin {key : String} {command line password : List Char}
    (hname : call.name = TOOL_RUN_COMMAND)
    (hcommand : trimmed_arg call.arguments "command" = some command)
    (hallow : a.decide engine command = .allow)
    (hstdin : (call.arguments.get "sudoStdin").as_str.map String.toList = some password)
    (hne : password ≠ []) : Asked a engine call (.exec_input key command line password)
  | read (path : List Char) (max_bytes : ℕ) : Asked a engine call (.read path max_bytes)
  | request_listing (path : List Char) : Asked a engine call (.request_listing path)
  | type_text {text : List Char} (hname : call.name = TOOL_TERMINAL_WRITE)
    (htext : text_arg call.arguments "text" = text) : Asked a engine call (.type_text text)
  | type_keys {text : List Char} (hname : call.name = TOOL_TERMINAL_KEYS)
    (htext : keys_sequence (text_arg call.arguments "keys") = .ok text) :
    Asked a engine call (.type_text text)
  | type_enter : Asked a engine call (.type_text ['\r'])

/-- What a call can be parked on; it is about that call. -/
inductive Parked (call : ApiToolCall) : Phase → Prop
  | approving {command : List Char} {scopes : List ApprovalScope}
    (hname : call.name = TOOL_RUN_COMMAND)
    (hcommand : trimmed_arg call.arguments "command" = some command) :
    Parked call (.approving call command scopes)
  | allowing (turn : ℕ) (label : List Char) : Parked call (.allowing call turn label)
  | running (turn : ℕ) (waiting : Waiting) : Parked call (.running call turn waiting)
  | asking (questions : List AgentQuestion) (current : ℕ) (answers : List (List Char)) :
    Parked call (.asking call questions current answers)
  | sudo_prompt (command : List Char) (reason : Option (List Char)) :
    Parked call (.sudo_prompt call command reason)

theorem Parked.call_eq {call : ApiToolCall} {phase : Phase} (h : Parked call phase) :
    phase.call = some call := by
  cases h <;> rfl

/-- What starting `call` came to asks for nothing but that, and parks on nothing but that. -/
structure Ran.Fits (a : Agent) (engine : Anchored.Engine) (call : ApiToolCall) (ran : Ran) :
    Prop where
  asked : ∀ request ∈ ran.requests, Asked a engine call request
  parked : ∀ phase, ran.outcome = .park phase → Parked call phase

section Fits

variable (env : Env) (a : Agent) (call : ApiToolCall) (turn : ℕ) (engine : Anchored.Engine)

theorem fits_settle (label output : List Char) (failed : Bool) :
    Ran.Fits a engine call { outcome := .settle label output failed } :=
  ⟨nofun, nofun⟩

theorem fits_park {phase : Phase} (turns : List Turn) (h : Parked call phase) :
    Ran.Fits a engine call { turns, outcome := .park phase } :=
  ⟨nofun, fun _ heq => Outcome.park.inj heq ▸ h⟩

theorem fits_ask {request : Request} {phase : Phase} (hrequest : Asked a engine call request)
    (hphase : Parked call phase) :
    Ran.Fits a engine call { requests := [request], outcome := .park phase } :=
  ⟨fun _ hmem => List.mem_singleton.mp hmem ▸ hrequest, fun _ heq => Outcome.park.inj heq ▸ hphase⟩

theorem fits_ite {a : Agent} {call : ApiToolCall} {engine : Anchored.Engine} {c : Prop} [Decidable c]
    {ran other : Ran} (h : c → ran.Fits a engine call) (hother : other.Fits a engine call) :
    (if c then ran else other).Fits a engine call := by
  split
  · exact h ‹c›
  · exact hother

theorem settle_call_fits (output : List Char) (failed : Bool) :
    (settle_call call output failed).Fits a engine call :=
  fits_settle a call engine _ _ _

theorem run_probe_fits (next : CommandThen) {line : List Char} (h : ToolLine line) :
    (run_probe env call turn next line).Fits a engine call := by
  unfold run_probe
  split
  · exact settle_call_fits a call engine _ _
  · exact fits_ask a call engine (.tool_line h) (.running _ _)

theorem start_read_fits (path : List Char) (max : ℕ) (next : ReadThen) :
    (start_read env call turn path max next).Fits a engine call := by
  unfold start_read
  split
  · exact fits_settle a call engine _ _ _
  · exact fits_ask a call engine (.read _ _) (.running _ _)

variable {a call turn} in
/-- A command is asked for as it is when its words do not name `sudo`, and with a password whenever
there is one. -/
theorem exec_command_requests {command : List Char} {sudo_stdin : Option (List Char)} :
    (exec_command env a call turn command sudo_stdin).requests = [] ∨
      (sudo_stdin = none ∧ command_needs_sudo command = false ∧
        (exec_command env a call turn command sudo_stdin).requests =
          [.exec EXEC_KEY command (wrap_command a.cwd command)]) ∨
      ∃ password, sudo_stdin = some password ∧
        (exec_command env a call turn command sudo_stdin).requests =
          [.exec_input EXEC_KEY command (wrap_command_with_sudo a.cwd command) password] := by
  unfold exec_command
  split
  · exact .inl rfl
  · rename_i hsudo
    split
    · exact .inl rfl
    · cases sudo_stdin with
      | none => exact .inr (.inl ⟨rfl, by simpa using hsudo, rfl⟩)
      | some password => exact .inr (.inr ⟨password, rfl, rfl⟩)

variable {a call turn} in
/-- It waits for the password or for the command. -/
theorem exec_command_park {command : List Char} {sudo_stdin : Option (List Char)} {phase : Phase}
    (h : (exec_command env a call turn command sudo_stdin).outcome = .park phase) :
    phase = .sudo_prompt call command none ∨
      phase = .running call turn (.command EXEC_KEY .output) := by
  unfold exec_command at h
  split at h
  · exact .inl (Outcome.park.inj h).symm
  · split at h
    · exact nomatch h
    · exact .inr (Outcome.park.inj h).symm

theorem exec_command_parked {command : List Char} {sudo_stdin : Option (List Char)} {phase : Phase}
    (h : (exec_command env a call turn command sudo_stdin).outcome = .park phase) :
    Parked call phase := by
  rcases exec_command_park env h with rfl | rfl
  · exact .sudo_prompt _ _
  · exact .running _ _

theorem run_command_fits (hname : call.name = TOOL_RUN_COMMAND) :
    (run_command env a call turn engine).Fits a engine call := by
  unfold run_command
  split
  · exact fits_settle a call engine _ _ _
  · rename_i command hcommand
    dsimp only
    split
    · rename_i hallow
      set sudo_stdin :=
        ((call.arguments.get "sudoStdin").as_str.map String.toList).filter (· ≠ []) with hstdin
      refine ⟨fun request hmem => ?_, fun phase => exec_command_parked env a call turn⟩
      rcases exec_command_requests env with hnone | ⟨-, hsudo, hone⟩ | ⟨password, hsome, hone⟩
      · rw [hnone] at hmem
        exact nomatch hmem
      · rw [hone] at hmem
        rw [List.mem_singleton.mp hmem]
        exact .command hname hcommand hsudo
      · rw [hone] at hmem
        rw [List.mem_singleton.mp hmem]
        obtain ⟨hpassword, hne⟩ := Option.filter_eq_some_iff.mp (hstdin.symm.trans hsome)
        exact .sudo_stdin hname hcommand hallow hpassword (of_decide_eq_true hne)
    · exact fits_settle a call engine _ _ _
    · exact fits_park a call engine _ (.approving hname hcommand)

theorem run_sudo_fits : (run_sudo a call engine).Fits a engine call := by
  unfold run_sudo
  split
  · exact fits_settle a call engine _ _ _
  · split
    · exact settle_call_fits a call engine _ _
    · exact fits_park a call engine _ (.sudo_prompt _ _)

theorem dev_diff_fits : (dev_diff env a call turn).Fits a engine call := by
  unfold dev_diff
  dsimp only
  split
  · exact settle_call_fits a call engine _ _
  · split
    · exact settle_call_fits a call engine _ _
    · exact start_read_fits env a call turn engine _ _ _

theorem remote_edit_fits : (remote_edit env a call turn).Fits a engine call := by
  unfold remote_edit
  dsimp only
  split
  · exact fits_settle a call engine _ _ _
  · exact start_read_fits env a call turn engine _ _ _

theorem remote_list_fits : (remote_list env a call turn).Fits a engine call := by
  unfold remote_list
  dsimp only
  split
  · exact run_probe_fits env a call turn engine _ (.tree _ _)
  · split
    · exact fits_settle a call engine _ _ _
    · exact fits_ask a call engine (.request_listing _) (.running _ _)

theorem type_into_terminal_fits {text : List Char} (note : List Char)
    (h : Asked a engine call (.type_text text)) :
    (type_into_terminal env call text note).Fits a engine call := by
  unfold type_into_terminal
  split
  · exact settle_call_fits a call engine _ _
  · refine ⟨fun request hmem => ?_, nofun⟩
    rcases List.mem_cons.mp hmem with rfl | hmem
    · exact h
    · split at hmem
      · exact List.mem_singleton.mp hmem ▸ .type_enter
      · exact nomatch hmem

theorem terminal_keys_fits (hname : call.name = TOOL_TERMINAL_KEYS) :
    (terminal_keys env call).Fits a engine call := by
  unfold terminal_keys
  dsimp only
  split
  · exact settle_call_fits a call engine _ _
  · rename_i htext
    exact type_into_terminal_fits env a call engine _ (.type_keys hname htext)

theorem run_local_fits : (run_local env call turn).Fits a engine call := by
  unfold run_local
  split <;> exact settle_call_fits a call engine _ _

theorem dispatch_remote_fits : (dispatch_remote env a call turn).Fits a engine call := by
  unfold dispatch_remote
  dsimp only
  refine fits_ite (fun _ => start_read_fits env a call turn engine _ _ _) ?_
  refine fits_ite (fun _ => remote_edit_fits env a call turn engine) ?_
  refine fits_ite (fun _ => start_read_fits env a call turn engine _ _ _) ?_
  refine fits_ite (fun _ => dev_diff_fits env a call turn engine) ?_
  refine fits_ite (fun _ => run_probe_fits env a call turn engine _ (.grep _ _)) ?_
  refine fits_ite (fun _ => run_probe_fits env a call turn engine _ (.find _ _)) ?_
  refine fits_ite (fun _ => run_probe_fits env a call turn engine _ (.test _)) ?_
  refine fits_ite (fun _ => remote_list_fits env a call turn engine) ?_
  refine fits_ite (fun _ => run_probe_fits env a call turn engine _ (.delete _)) ?_
  refine fits_ite (fun _ => fits_settle a call engine _ _ _) ?_
  refine fits_ite (fun hname => terminal_keys_fits env a call engine hname) ?_
  refine fits_ite
    (fun hname => type_into_terminal_fits env a call engine _ (.type_text hname rfl)) ?_
  refine fits_ite (fun _ => fits_park a call engine _ (.running _ _)) ?_
  exact fits_ite (fun _ => fits_park a call engine _ (.running _ _))
    (run_local_fits env a call turn engine)

theorem run_tool_fits : (run_tool env a call turn engine).Fits a engine call := by
  unfold run_tool
  dsimp only
  refine fits_ite (fun _ => fits_settle a call engine _ _ _) ?_
  refine fits_ite (fun _ => settle_call_fits a call engine _ _) ?_
  refine fits_ite (fun _ => fits_park a call engine _ (.asking _ _ _)) ?_
  refine fits_ite (fun hname => run_command_fits env a call turn engine hname) ?_
  refine fits_ite (fun _ => run_sudo_fits a call engine) ?_
  split
  · rename_i hline
    exact run_probe_fits env a call turn engine _ (.remote hline)
  · exact dispatch_remote_fits env a call turn engine

/-- **What starting a call comes to**: it asks for what its arguments ask for, and what it is parked
on is about that call. -/
theorem dispatch_fits (label : List Char) :
    (dispatch env a call turn engine label).Fits a engine call := by
  unfold dispatch
  split
  · exact run_tool_fits env a call turn engine
  · exact fits_settle a call engine _ _ _
  · exact fits_park a call engine _ (.allowing _ _)

end Fits

end WaSSH.Agent
