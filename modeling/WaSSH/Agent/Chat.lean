import WaSSH.Agent.Output
import WaSSH.Agent.Rules
import WaSSH.Lib.Json

/-!
# The agent's conversation

The transcript, the history in the provider's shape, and what the agent can be doing.

* `ApiToolCall`, `ApiMessage`, `Completion`: the provider's side;
* `OpenAiStream.finish`: the calls of a streamed reply and their ids;
* `Turn`, `Phase`, `Waiting`: the agent's side;
* `call_label`: the transcript line of a call.
-/

namespace WaSSH.Agent

/-! ## The provider's side -/

/-- One tool call the model asked for. The arguments are the JSON they parse to, `null` if they do
not. -/
structure ApiToolCall where
  id : String
  name : String
  arguments : Json

inductive ApiMessage
  | user (content : List Char)
  | assistant (content : List Char) (tool_calls : List ApiToolCall)
  | tool (tool_call_id : String) (content : List Char)

/-- What a completion produced. -/
structure Completion where
  text : List Char
  tool_calls : List ApiToolCall
  stop_reason : Option String

/-- What a stream has gathered: the fragments of calls in the order of their indices, with the id
and the name each has so far. -/
structure OpenAiStream where
  text : List Char
  fragments : List (ℕ × String × String × Json)
  stop_reason : Option String

/-- The finished completion: a call without an id is named after its index. -/
def OpenAiStream.finish (s : OpenAiStream) : Completion :=
  ⟨s.text,
    (s.fragments.filter fun (_, _, name, _) => name ≠ "").map fun (index, id, name, arguments) =>
      ⟨if id = "" then s!"call_{index}" else id, name, arguments⟩,
    s.stop_reason⟩

/-! ## Tool names -/

def TOOL_RUN_COMMAND : String := "run_command"
def TOOL_RUN_SUDO : String := "run_sudo"
def TOOL_ASK_USER : String := "ask_user"
def TOOL_WEB_FETCH : String := "web_fetch"
def TOOL_WEB_SEARCH : String := "web_search"
def TOOL_REMOTE_READ : String := "remote_fs_read_file"
def TOOL_REMOTE_WRITE : String := "remote_fs_write_file"
def TOOL_REMOTE_LIST : String := "remote_fs_list_dir"
def TOOL_REMOTE_DELETE : String := "remote_fs_delete_file"
def TOOL_REMOTE_EDIT : String := "remote_fs_edit_file"
def TOOL_LOCAL_READ : String := "local_fs_read_file"
def TOOL_LOCAL_WRITE : String := "local_fs_write_file"
def TOOL_LOCAL_LIST : String := "local_fs_list_dir"
def TOOL_LOCAL_GREP : String := "local_fs_grep_search"
def TOOL_LOCAL_EDIT : String := "local_fs_edit_file"
def TOOL_LOCAL_DELETE : String := "local_fs_delete_file"
def TOOL_LOCAL_MOVE : String := "local_fs_move_file"
def TOOL_LOCAL_MULTI_EDIT : String := "local_fs_multi_edit"
def TOOL_LOCAL_PATCH : String := "local_fs_apply_patch"
def TOOL_LOCAL_REPLACE : String := "local_fs_replace_in_files"
def TOOL_LOCAL_RUN : String := "local_fs_run_command"
def TOOL_CURRENT_TIME : String := "get_current_time"
def TOOL_RAG_SEARCH : String := "rag_search"
def TOOL_DEV_VIEW : String := "dev_view_file"
def TOOL_DEV_EDIT : String := "dev_edit_file"
def TOOL_DEV_CREATE : String := "dev_create_file"
def TOOL_DEV_LIST : String := "dev_list_directory"
def TOOL_DEV_GREP : String := "dev_grep_search"
def TOOL_DEV_FIND : String := "dev_find_files"
def TOOL_DEV_DIFF : String := "dev_diff_file"
def TOOL_TERMINAL_READ : String := "terminal_read"
def TOOL_TERMINAL_WRITE : String := "terminal_write"
def TOOL_TERMINAL_KEYS : String := "terminal_send_keys"
def TOOL_TERMINAL_WAIT : String := "terminal_wait"
def TOOL_SYSTEM_OVERVIEW : String := "system_overview"
def TOOL_SYSTEM_PROCESSES : String := "system_process_list"
def TOOL_SYSTEM_DISK : String := "system_disk_usage"
def TOOL_SYSTEM_MEMORY : String := "system_memory_report"

/-- Every tool. -/
def TOOL_SPECS : List String :=
  [TOOL_RUN_COMMAND, TOOL_RUN_SUDO, TOOL_ASK_USER, TOOL_WEB_FETCH, TOOL_WEB_SEARCH, TOOL_REMOTE_READ,
    TOOL_REMOTE_WRITE, TOOL_REMOTE_LIST, TOOL_REMOTE_DELETE, TOOL_REMOTE_EDIT, TOOL_LOCAL_READ,
    TOOL_LOCAL_WRITE, TOOL_LOCAL_LIST, TOOL_LOCAL_GREP, TOOL_LOCAL_EDIT, TOOL_LOCAL_DELETE,
    TOOL_LOCAL_MOVE, TOOL_LOCAL_MULTI_EDIT, TOOL_LOCAL_PATCH, TOOL_LOCAL_REPLACE, TOOL_LOCAL_RUN,
    TOOL_CURRENT_TIME, TOOL_RAG_SEARCH, TOOL_DEV_VIEW, TOOL_DEV_EDIT, TOOL_DEV_CREATE, TOOL_DEV_LIST,
    TOOL_DEV_GREP, TOOL_DEV_FIND, TOOL_DEV_DIFF, TOOL_TERMINAL_READ, TOOL_TERMINAL_WRITE,
    TOOL_TERMINAL_KEYS, TOOL_TERMINAL_WAIT, TOOL_SYSTEM_OVERVIEW, TOOL_SYSTEM_PROCESSES,
    TOOL_SYSTEM_DISK, TOOL_SYSTEM_MEMORY]

/-- The tool exists. -/
def is_tool (name : String) : Bool := TOOL_SPECS.contains name

/-- The tool needs the connected session. -/
def needs_session (name : String) : Bool :=
  [TOOL_RUN_COMMAND, TOOL_RUN_SUDO, TOOL_REMOTE_READ, TOOL_REMOTE_WRITE, TOOL_REMOTE_LIST,
    TOOL_REMOTE_DELETE, TOOL_REMOTE_EDIT, TOOL_DEV_VIEW, TOOL_DEV_EDIT, TOOL_DEV_CREATE,
    TOOL_DEV_LIST, TOOL_DEV_GREP, TOOL_DEV_FIND, TOOL_TERMINAL_READ, TOOL_TERMINAL_WRITE,
    TOOL_TERMINAL_KEYS, TOOL_TERMINAL_WAIT, TOOL_SYSTEM_OVERVIEW, TOOL_SYSTEM_PROCESSES,
    TOOL_SYSTEM_DISK, TOOL_SYSTEM_MEMORY].contains name

/-- The label shown for a tool call: a fixed text, or what the call names after a verb. -/
def call_label (call : ApiToolCall) : List Char :=
  let arg key := (call.arguments.text key).toList
  let name := call.name
  if name = TOOL_RUN_COMMAND then "$ ".toList ++ arg "command"
  else if name = TOOL_RUN_SUDO then "$ sudo ".toList ++ arg "command"
  else if [TOOL_REMOTE_READ, TOOL_LOCAL_READ, TOOL_DEV_VIEW].contains name then
    "read ".toList ++ arg "path"
  else if [TOOL_REMOTE_LIST, TOOL_LOCAL_LIST, TOOL_DEV_LIST].contains name then
    "list ".toList ++ arg "path"
  else if [TOOL_REMOTE_WRITE, TOOL_LOCAL_WRITE, TOOL_DEV_CREATE].contains name then
    "write ".toList ++ arg "path"
  else if [TOOL_REMOTE_EDIT, TOOL_LOCAL_EDIT, TOOL_DEV_EDIT].contains name then
    "edit ".toList ++ arg "path"
  else if [TOOL_REMOTE_DELETE, TOOL_LOCAL_DELETE].contains name then
    "delete ".toList ++ arg "path"
  else if [TOOL_DEV_GREP, TOOL_LOCAL_GREP].contains name then "grep ".toList ++ arg "pattern"
  else if name = TOOL_DEV_FIND then "find ".toList ++ arg "namePattern"
  else if name = TOOL_DEV_DIFF then "diff ".toList ++ arg "path"
  else if name = TOOL_LOCAL_RUN then "local $ ".toList ++ arg "command"
  else if name = TOOL_LOCAL_MOVE then
    "move ".toList ++ arg "path" ++ " → ".toList ++ arg "destination"
  else if [TOOL_LOCAL_MULTI_EDIT, TOOL_LOCAL_PATCH].contains name then
    "edit ".toList ++ arg "path"
  else if name = TOOL_LOCAL_REPLACE then "replace ".toList ++ arg "pattern"
  else if name = TOOL_WEB_FETCH then "fetch ".toList ++ arg "url"
  else if name = TOOL_WEB_SEARCH then "search ".toList ++ arg "query"
  else if name = TOOL_RAG_SEARCH then "rag ".toList ++ arg "query"
  else if name = TOOL_CURRENT_TIME then "time".toList
  else if name = TOOL_TERMINAL_READ then "terminal read".toList
  else if name = TOOL_TERMINAL_WRITE then "terminal type ".toList ++ arg "text"
  else if name = TOOL_TERMINAL_KEYS then "terminal keys ".toList ++ arg "keys"
  else if name = TOOL_TERMINAL_WAIT then "terminal wait".toList
  else if name = TOOL_SYSTEM_OVERVIEW then "system overview".toList
  else if name = TOOL_SYSTEM_PROCESSES then "processes".toList
  else if name = TOOL_SYSTEM_DISK then "disk usage".toList
  else if name = TOOL_SYSTEM_MEMORY then "memory report".toList
  else if name = TOOL_ASK_USER then "question".toList
  else name.toList

/-! ## The agent's side -/

/-- What went out with the user's message. -/
structure UserMeta where
  attachments : ℕ
  terminal : Bool

/-- One line of the transcript. -/
inductive Turn
  | user (text : List Char) (info : UserMeta)
  | assistant (text : List Char) (stopped : Bool)
  | tool (name : String) (label output : List Char) (failed : Bool)
  | denied (reason : List Char)
  | question (text : List Char) (answer : Option (List Char))
  | error (text : List Char)
  | notice (text : List Char)

/-- A question the agent asks, with selectable answers. -/
structure AgentQuestion where
  text : List Char
  options : List (List Char)

/-- What follows a probe command. -/
inductive CommandThen
  | output
  | write_remote (path content : List Char) (overwrite : Bool)

/-- What follows a remote read. -/
inductive ReadThen
  | output
  | view (start lines : ℕ)
  | edit (old new : List Char)
  | diff (new : List Char) (context : ℕ)

/-- What a pending tool waits on. -/
inductive Waiting
  | command (key : String) (next : CommandThen)
  | read (path : List Char) (max : ℕ) (next : ReadThen)
  | list (path : List Char)
  | transfer (target : List Char) (note : Option (List Char))
  | worker
  | terminal (before : List Char) (until_ms : ℕ)

/-- What the agent is doing. -/
inductive Phase
  | streaming (turn : ℕ)
  | approving (call : ApiToolCall) (command : List Char) (scopes : List ApprovalScope)
  | allowing (call : ApiToolCall) (turn : ℕ) (label : List Char)
  | running (call : ApiToolCall) (turn : ℕ) (waiting : Waiting)
  | asking (call : ApiToolCall) (questions : List AgentQuestion) (current : ℕ)
      (answers : List (List Char))
  | sudo_prompt (call : ApiToolCall) (command : List Char) (reason : Option (List Char))

/-- The call a phase has yet to answer. -/
def Phase.call : Phase → Option ApiToolCall
  | streaming _ => none
  | approving call .. | allowing call .. | running call .. | asking call .. | sudo_prompt call .. =>
    some call

end WaSSH.Agent
