import WaSSH.Agent.Dispatch
import WaSSH.Agent.Transfer

/-!
# The agent

A reply names calls; they run one after the other, each settled at once or parked on what it waits
for, and when all are answered the model is asked again.

* `Agent.advance`: the queue, call by call;
* `Agent.poll_tool`, `Agent.finish_reply`, `Agent.poll`: what has come in;
* the answers to the prompts, `Agent.stop`, `Agent.rewind_to`, `Agent.repair_history`;
* `step`: everything the pane can do to the agent.
-/

set_option linter.dupNamespace false

namespace WaSSH.Agent

/-! ## Settling a call -/

def EMPTY_ANSWER : List Char := "The model returned an empty answer.".toList

def Phase.is_streaming : Option Phase → Bool
  | some (.streaming _) => true
  | _ => false

namespace Agent

variable (a : Agent)

/-- The label of a tool turn. -/
def label (turn : ℕ) : List Char :=
  match a.turns[turn]? with
  | some (.tool _ label _ _) => label
  | _ => []

/-- The call gets its answer: in its line of the transcript and in the history. -/
def record (call : ApiToolCall) (turn : ℕ) (label output : List Char) (failed : Bool) : Agent :=
  let turns := match a.turns[turn]? with
    | some (.tool name _ _ _) => a.turns.set turn (.tool name label output failed)
    | _ => a.turns ++ [.tool call.name label output failed]
  { a with turns, history := a.history ++ [.tool call.id output] }

/-- What starting `call` changes, its outcome aside. -/
def apply (call : ApiToolCall) (ran : Ran) : Agent :=
  { a with turns := a.turns ++ ran.turns, log := a.log ++ ran.requests.map (.request call) }

section Engine

variable (env : Env) (engine : Anchored.Engine)

/-- Run the queued calls until one has to wait, or ask the model again. -/
def advance (a : Agent) : List ApiToolCall → Agent
  | [] => { a with queue := [], needs_reply := true }
  | call :: queue =>
    let turn := a.turns.length
    let a := { a with turns := a.turns ++ [.tool call.name (call_label call) [] false] }
    let ran := dispatch env a call turn engine (a.label turn)
    let a := a.apply call ran
    match ran.outcome with
    | .settle label output failed =>
      advance (a.record call turn label output failed) queue
    | .park phase => { a with phase := some phase, queue }

/-- Record a tool result and move on. -/
def settle (call : ApiToolCall) (turn : ℕ) (label output : List Char) (failed : Bool) : Agent :=
  advance env engine (a.record call turn label output failed) a.queue

/-- Go on with what starting `call` came to. -/
def follow (call : ApiToolCall) (turn : ℕ) (ran : Ran) : Agent :=
  let a := a.apply call ran
  match ran.outcome with
  | .settle label output failed => a.settle env engine call turn label output failed
  | .park phase => { a with phase := some phase }

/-! ## A reply -/

/-- Drop the reply turn when nothing was written into it. -/
def drop_empty_reply (turn : ℕ) : Agent :=
  match a.turns[turn]? with
  | some (.assistant text _) =>
    if Text.trim text = [] then { a with turns := a.turns.eraseIdx turn } else a
  | _ => a

theorem drop_empty_reply_eq (turn : ℕ) :
    (a.drop_empty_reply turn).phase = a.phase ∧ (a.drop_empty_reply turn).queue = a.queue ∧
      (a.drop_empty_reply turn).history = a.history ∧ (a.drop_empty_reply turn).log = a.log := by
  unfold drop_empty_reply
  split
  · split <;> exact ⟨rfl, rfl, rfl, rfl⟩
  · exact ⟨rfl, rfl, rfl, rfl⟩

/-- The reply failed. -/
def fail_reply (turn : ℕ) (error : List Char) : Agent :=
  let a := { a with error := some error }.drop_empty_reply turn
  { a with turns := a.turns ++ [.error error] }

/-- The turns with the text of the reply in its turn, unless it has been streamed there, and the
text. -/
def fill_reply (turn : ℕ) (whole : List Char) : List Turn × List Char :=
  match a.turns[turn]? with
  | some (.assistant text stopped) =>
    let text := if text = [] then whole else text
    (a.turns.set turn (.assistant text stopped), text)
  | _ => (a.turns, [])

/-- Handle a finished reply: either the turn is over or tools must run. -/
def finish_reply (turn : ℕ) (result : Except (List Char) Completion) : Agent :=
  match result with
  | .error error => a.fail_reply turn error
  | .ok completion =>
    if completion.text = [] ∧ completion.tool_calls.isEmpty then a.fail_reply turn EMPTY_ANSWER
    else
      let (turns, text) := a.fill_reply turn completion.text
      let a := { a with turns }.drop_empty_reply turn
      let a :=
        { a with history := a.history ++ [.assistant text completion.tool_calls], queue := [] }
      if completion.tool_calls.isEmpty then a else advance env engine a completion.tool_calls

/-! ## A tool that waits -/

/-- What a tool that has what it waits for comes to. -/
inductive Ready
  | settle (label output : List Char) (failed : Bool)
  | write_remote (target payload : List Char)

def READ_TRUNCATED : List Char := "\n\n[Content truncated at the read limit]".toList

/-- `lines`, numbered from `start` on. -/
def numbered (text : List Char) (start lines : ℕ) : List (List Char) :=
  (((Text.lines text).zipIdx.drop (start - 1)).take lines).map fun (line, index) =>
    pad_left 5 (digits (index + 1)) ++ '\t' :: line

/-- What a remote read goes on with. -/
def read_ready (path : List Char) (content : Files.FileContent) : ReadThen → Ready
  | .output =>
    let text := Utf8.from_utf8_lossy content.data
    .settle ("read ".toList ++ path)
      (if content.truncated then text ++ READ_TRUNCATED else text) false
  | .view start lines =>
    let text := Utf8.from_utf8_lossy content.data
    let body := path ++ '\n' :: ['\n'].intercalate (numbered text start lines)
    .settle ("read ".toList ++ path)
      (if content.truncated then body ++ READ_TRUNCATED else body) false
  | .edit old new =>
    if content.truncated then
      .settle ("edit ".toList ++ path) (path ++ " is larger than the edit limit.".toList) true
    else match replace_and_report (Utf8.from_utf8_lossy content.data) old new with
      | .ok (updated, diff) => .write_remote path (updated ++ Char.ofNat 0 :: diff)
      | .error error => .settle ("edit ".toList ++ path) error true
  | .diff new context =>
    .settle ("diff ".toList ++ path) (diff_texts (Utf8.from_utf8_lossy content.data) new context)
      false

/-- The lines of a listing the model reads. -/
def listing_body (listing : Files.SftpListing) : List Char :=
  let lines := (listing.entries.take MAX_DIR_ENTRIES).map fun entry =>
    (if entry.is_dir then "dir ".toList else "file".toList) ++
      (if entry.is_dir then [] else pad_left 10 (digits entry.size)) ++ "  ".toList ++
      entry.name.toList
  if lines = [] then "(empty directory)".toList else ['\n'].intercalate lines

/-- How a command has ended, if it has. -/
def ended (key : String) : Option Ended :=
  match env.session with
  | none => some (.failure NOT_CONNECTED)
  | some session =>
    match session.output key, session.failure key with
    | some output, _ => some (.output output)
    | none, some failure => some (.failure failure)
    | none, none => none

/-- The turn is one of `run_command`. -/
def is_plain_command (turn : ℕ) : Bool :=
  match a.turns[turn]? with
  | some (.tool name _ _ _) => name = TOOL_RUN_COMMAND
  | _ => false

/-- What a command that ended goes on with, and the agent's directory after it. -/
def command_ready (turn : ℕ) (next : CommandThen) (ended : Ended) : List Char × Ready :=
  match next with
  | .output =>
    let done := finish_command a.cwd (a.is_plain_command turn) ended
    (done.cwd, .settle (a.label turn) done.output done.failed)
  | .write_remote path content overwrite =>
    let there := match ended with
      | .output output => "yes".toList.isSuffixOf (Text.trim_end output.stdout)
      | .failure _ => false
    if there && !overwrite then
      (a.cwd, .settle ("write ".toList ++ path)
        (path ++ " already exists; pass overwrite to replace it.".toList) true)
    else (a.cwd, .write_remote path content)

/-- The terminal against what it was. -/
def terminal_ready (before : List Char) (until_ms : ℕ) : Option Ready :=
  let screen := env.screen_text
  if screen ≠ before then
    some (.settle "terminal wait".toList
      ("The terminal changed. Current screen:\n".toList ++ screen) false)
  else if a.now_ms < until_ms then none
  else some (.settle "terminal wait".toList
    ("No change within the timeout. Current screen:\n".toList ++ screen) false)

/-- What a worker thread has sent. -/
def worker_ready (turn : ℕ) : Files.TryRecv (Except (List Char) (List Char)) → Option Ready
  | .ok (.ok output) => some (.settle (a.label turn) output false)
  | .ok (.error error) => some (.settle (a.label turn) error true)
  | .disconnected =>
    some (.settle (a.label turn) "The tool stopped without an answer.".toList true)
  | .empty => none

/-- What the tool that waits goes on with, and the agent's directory then; `none` while it has to
wait. -/
def ready (worker : Files.TryRecv (Except (List Char) (List Char))) (turn : ℕ) :
    Waiting → Option (List Char × Ready)
  | .command key next => (ended env key).map (a.command_ready turn next)
  | .read path max next =>
    ((env.session.bind (·.read path max)).map (read_ready path · next)).map (a.cwd, ·)
  | .list path =>
    ((env.session.bind (·.listing)).filter (·.path.toList = path)).map fun listing =>
      (a.cwd, .settle ("list ".toList ++ listing.path.toList) (listing_body listing) false)
  | .transfer target note =>
    (Transfer.poll_transfer target note (env.session.any (·.is_transferring))
      ((env.session.bind (·.transfer_status)).getD [])).map fun settled =>
        (a.cwd, .settle settled.label settled.body settled.failed)
  | .worker => (a.worker_ready turn worker).map (a.cwd, ·)
  | .terminal before until_ms => (terminal_ready a env before until_ms).map (a.cwd, ·)

/-- What a tool uploads; an edit packs its diff after a NUL. -/
def split_payload (payload : List Char) : List Char × Option (List Char) :=
  match Text.split_once (Char.ofNat 0) payload with
  | some (content, diff) => (content, some diff)
  | none => (payload, none)

/-- Upload what a tool has made. -/
def write_remote (call : ApiToolCall) (turn : ℕ) (target payload : List Char) : Agent :=
  let (content, diff) := split_payload payload
  match env.session with
  | none =>
    { a with phase := none }.settle env engine call turn ("write ".toList ++ target) NOT_CONNECTED
      true
  | some _ =>
    let shown := diff.getD ("Uploading to ".toList ++ target ++ ['…'])
    let turns := match a.turns[turn]? with
      | some (.tool name label _ failed) => a.turns.set turn (.tool name label shown failed)
      | _ => a.turns
    { a with
      turns, phase := some (.running call turn (.transfer target diff))
      log := a.log ++ [.request call (.write_file target content)] }

/-- A remote read is asked for at every poll again. -/
def ask_again (call : ApiToolCall) (waiting : Waiting) : Agent :=
  match waiting, env.session with
  | .read path max _, some _ => { a with log := a.log ++ [.request call (.read path max)] }
  | _, _ => a

/-- Poll the running tool and move the turn on when it answers. -/
def poll_tool (worker : Files.TryRecv (Except (List Char) (List Char))) : Agent :=
  match a.phase with
  | some (.running call turn waiting) =>
    let a := a.ask_again env call waiting
    match a.ready env worker turn waiting with
    | none => a
    | some (cwd, .settle label output failed) =>
      { a with cwd, phase := none }.settle env engine call turn label output failed
    | some (cwd, .write_remote target payload) =>
      { a with cwd }.write_remote env engine call turn target payload
  | _ => a

/-- What the stream of a reply holds: the text so far unseen, and the end. -/
structure Stream where
  delta : List Char := []
  done : Option (Except (List Char) Completion) := none

/-- The turns with the text streamed into the reply's. -/
def stream_turns (turn : ℕ) (delta : List Char) : List Turn :=
  match a.turns[turn]? with
  | some (.assistant text stopped) => a.turns.set turn (.assistant (text ++ delta) stopped)
  | _ => a.turns

/-- Take in whatever the worker thread or the session has produced. -/
def poll (stream : Stream) (worker : Files.TryRecv (Except (List Char) (List Char))) : Agent :=
  match a.phase with
  | some (.streaming turn) =>
    let turns := a.stream_turns turn stream.delta
    match stream.done with
    | none => { a with turns }
    | some result => { a with turns, phase := none }.finish_reply env engine turn result
  | some (.running ..) => a.poll_tool env engine worker
  | _ => a

/-! ## The answers to the prompts -/

/-- The transcript line belonging to a call with no answer yet. -/
def turn_for (call : ApiToolCall) : ℕ :=
  let wanted := call_label call
  let unanswered : Turn → Bool
    | .tool _ label output _ => label = wanted && output = []
    | _ => false
  match a.turns.reverse.findIdx? unanswered with
  | some back => a.turns.length - 1 - back
  | none => a.turns.length - 1

/-- The phase is taken, and nothing is made of it. -/
def drop_phase : Agent := { a with phase := none }

def answer_permission (allow : Bool) : Agent :=
  match a.phase with
  | some (.allowing call turn label) =>
    let a := a.drop_phase
    if allow then a.follow env engine call turn (run_tool env a call turn engine)
    else a.settle env engine call turn label DENIED_BY_USER false
  | _ => a.drop_phase

/-- Allow every prompt for the rest of this session, then run the tool that asked. -/
def allow_everything : Agent :=
  answer_permission
    { a with allow_all := true, session_allow := a.session_allow ++ [ALLOW_ALL_PATTERN] }
    env engine true

/-- Start a command, from the prompt it waited at. -/
def start_command (call : ApiToolCall) (command : List Char) (sudo_stdin : Option (List Char)) :
    Agent :=
  let turn := a.turn_for call
  a.follow env engine call turn (exec_command env a call turn command sudo_stdin)

/-- Save a scope as a rule, if one was picked. -/
def remembered (remember : Option ℕ) (scopes : List ApprovalScope) : List (List Char) :=
  ((remember.bind (scopes[·]?)).map (·.pattern)).toList

def approve (allow : Bool) (remember : Option ℕ) : Agent :=
  match a.phase with
  | some (.approving call command scopes) =>
    let a := a.drop_phase
    let rules := remembered remember scopes
    if allow then
      { a with session_allow := a.session_allow ++ rules }.start_command env engine call command
        none
    else
      { a with session_deny := a.session_deny ++ rules }.settle env engine call (a.turn_for call)
        ("$ ".toList ++ command) ("The user refused to run `".toList ++ command ++ "`.".toList) true
  | _ => a.drop_phase

/-- Allow every command for the rest of this session, then run this one. -/
def approve_everything : Agent :=
  match a.phase with
  | some (.approving call command _) =>
    { a.drop_phase with session_allow := a.session_allow ++ [ALLOW_ALL_PATTERN] }.start_command env
      engine call command none
  | _ => a.drop_phase

/-- Run the command with the password on its standard input; an empty one is a password too. -/
def submit_sudo (password : List Char) : Agent :=
  match a.phase with
  | some (.sudo_prompt call command _) =>
    { a.drop_phase with log := a.log ++ [Event.sudo_answer call command] }.start_command env engine
      call command (some (Text.trim password))
  | _ => a.drop_phase

def cancel_sudo : Agent :=
  match a.phase with
  | some (.sudo_prompt call command _) =>
    a.drop_phase.settle env engine call (a.turn_for call) ("$ sudo ".toList ++ command)
      "The user did not give a sudo password, so the command did not run.".toList true
  | _ => a.drop_phase

/-- Fill in the last question without an answer. -/
def answer_question (answer : List Char) : List Turn → List Turn
  | [] => []
  | turn :: turns =>
    let rest := answer_question answer turns
    let open_question : Turn → Bool
      | .question _ none => true
      | _ => false
    if turns.any open_question then turn :: rest
    else match turn with
      | .question text none => .question text (some answer) :: turns
      | _ => turn :: turns

/-- What the model reads of the answers. -/
def answered_text (questions : List AgentQuestion) (answers : List (List Char)) : List Char :=
  ['\n'].intercalate
    ((questions.zip answers).map fun (question, answer) => question.text ++ ": ".toList ++ answer)

def answer (text : List Char) : Agent :=
  let answer := Text.trim text
  if answer = [] then a
  else match a.phase with
    | some (.asking call questions current answers) =>
      if questions.length ≤ current then a
      else
        let a := { a.drop_phase with turns := answer_question answer a.turns }
        let answers := answers ++ [answer]
        match questions[current + 1]? with
        | some question =>
          { a with
            turns := a.turns ++ [.question question.text none]
            phase := some (.asking call questions (current + 1) answers) }
        | none =>
          a.settle env engine call (a.turn_for call) "ask_user".toList
            (answered_text questions answers) false
    | _ => a.drop_phase

end Engine

/-! ## The conversation -/

/-- Something blocks a new message. -/
def blocked : Bool := a.phase.isSome

/-- Add the user's turn, if the conversation is idle. -/
def push_user (text : List Char) (info : UserMeta) : Agent :=
  let text := Text.trim text
  if text = [] ∨ a.blocked then a
  else
    { a with
      error := none, turns := a.turns ++ [.user text info]
      history := a.history ++ [.user text] }

/-- Take a message the user typed while a run was in flight. -/
def inject_user (text : List Char) (info : UserMeta) : Agent :=
  let text := Text.trim text
  if text = [] ∨ !a.blocked then a
  else
    { a with
      error := none, turns := a.turns ++ [.user text info]
      injected := a.injected ++ [(text, info)] }

/-- Fold messages injected mid-run into the provider history, once nothing is running. -/
def flush_injected : Agent :=
  if a.blocked ∨ a.injected.isEmpty then a
  else
    { a with
      history := a.history ++ a.injected.map fun (text, _) => .user text
      injected := [], needs_reply := true }

def Turn.is_user : Turn → Bool
  | .user .. => true
  | _ => false

def ApiMessage.is_user : ApiMessage → Bool
  | .user _ => true
  | _ => false

/-- The messages before the user message number `wanted`; all of them when there are not so many. -/
def before_user : ℕ → List ApiMessage → List ApiMessage
  | _, [] => []
  | wanted, message :: rest =>
    if ApiMessage.is_user message then
      match wanted with
      | 0 => []
      | wanted + 1 => message :: before_user wanted rest
    else message :: before_user wanted rest

/-- Drop everything from the user turn at `index` on. -/
def rewind_to (index : ℕ) : Agent :=
  match a.turns[index]? with
  | some (.user _ _) =>
    if a.blocked then a
    else
      { a with
        history := before_user ((a.turns.take index).countP Turn.is_user) a.history
        turns := a.turns.take index, error := none, needs_reply := false }
  | _ => a

/-- Ids of the answered calls. -/
def answered_ids (history : List ApiMessage) : List String :=
  history.filterMap fun
    | .tool id _ => some id
    | _ => none

/-- One message with the calls nobody answered taken out of it, if there is anything left. -/
def repair_message (answered : List String) : ApiMessage → Option ApiMessage
  | .assistant content tool_calls =>
    let tool_calls := tool_calls.filter (answered.contains ·.id)
    if Text.trim content ≠ [] ∨ tool_calls.isEmpty = false then
      some (.assistant content tool_calls)
    else none
  | message => some message

/-- Make the history one every provider accepts. -/
def repair_history : Agent :=
  { a with history := a.history.filterMap (repair_message (answered_ids a.history)) }

/-- Build the request for the conversation as it stands and start its reply. -/
def request : Agent :=
  let a := a.repair_history
  { a with
    log := a.log ++ [.completion a.history], turns := a.turns ++ [.assistant [] false]
    phase := some (.streaming a.turns.length) }

/-- Hand one message to the agent. -/
def send_message (text : List Char) (info : UserMeta) : Agent :=
  if Text.trim text = [] ∨ a.blocked then a else (a.push_user text info).request

/-- Ask the model again if it owes an answer. -/
def reply : Agent := if a.needs_reply then { a with needs_reply := false }.request else a

/-- The run was cut off before the model answered. -/
def can_resume : Bool :=
  !a.blocked &&
    match a.history.getLast? with
    | some (.user _) | some (.tool _ _) => true
    | _ => false

/-- Ask the model again after a run was cut off. -/
def resume : Agent := if a.can_resume then a.request else a

/-- Answer a tool call that will never run. -/
def abandon_tool (call : ApiToolCall) (turn : ℕ) : Agent :=
  let turns := match a.turns[turn]? with
    | some (.tool name label _ failed) => a.turns.set turn (.tool name label STOPPED_BY_USER failed)
    | _ => a.turns
  { a with turns, history := a.history ++ [.tool call.id STOPPED_BY_USER] }

/-- Stop whatever the run is doing; the calls queued are dropped with it. -/
def stop : Agent :=
  let stopped := { a with phase := none, queue := [] }
  match a.phase with
  | none => a
  | some (.streaming turn) =>
    let turns := match a.turns[turn]? with
      | some (.assistant text _) => a.turns.set turn (.assistant text true)
      | _ => a.turns
    { stopped with turns }
  | some (.running call turn _) | some (.allowing call turn _) => stopped.abandon_tool call turn
  | some (.approving call _ _) | some (.asking call _ _ _) | some (.sudo_prompt call _ _) =>
    stopped.abandon_tool call (a.turn_for call)

/-- Stop the command the run is waiting on. -/
def stop_command (env : Env) : Agent :=
  match a.phase, env.session with
  | some (.running call _ (.command key _)), some _ =>
    { a with log := a.log ++ [.request call (.cancel key)] }
  | _, _ => a

/-- Throw the conversation away. -/
def clear : Agent :=
  { a with
    turns := [], history := [], injected := [], phase := none, error := none, queue := []
    needs_reply := false }

end Agent

/-! ## Steps -/

/-- The rules and permissions the pane hands over before each frame, and the clock. -/
structure Settings where
  app_allow : List (List Char)
  app_deny : List (List Char)
  host_allow : List (List Char)
  host_deny : List (List Char)
  permissions : Permissions
  now_ms : ℕ

/-- One thing the pane does to the agent. -/
inductive Step
  | apply_settings (settings : Settings)
  | push_user (text : List Char) (info : UserMeta)
  | send_message (text : List Char) (info : UserMeta)
  | inject_user (text : List Char) (info : UserMeta)
  | flush_injected
  | rewind_to (index : ℕ)
  | repair_history
  | reply
  | resume
  | poll (env : Env) (stream : Agent.Stream)
      (worker : Files.TryRecv (Except (List Char) (List Char)))
  | answer_permission (env : Env) (allow : Bool)
  | allow_everything (env : Env)
  | approve (env : Env) (allow : Bool) (remember : Option ℕ)
  | approve_everything (env : Env)
  | submit_sudo (env : Env) (password : List Char)
  | cancel_sudo (env : Env)
  | answer (env : Env) (text : List Char)
  | stop
  | stop_command (env : Env)
  | clear

/-- The agent after one step. -/
def step (engine : Anchored.Engine) (a : Agent) : Step → Agent
  | .apply_settings s =>
    { a with
      app_allow := s.app_allow, app_deny := s.app_deny, host_allow := s.host_allow
      host_deny := s.host_deny, permissions := s.permissions, now_ms := s.now_ms }
  | .push_user text info => a.push_user text info
  | .send_message text info => a.send_message text info
  | .inject_user text info => a.inject_user text info
  | .flush_injected => a.flush_injected
  | .rewind_to index => a.rewind_to index
  | .repair_history => a.repair_history
  | .reply => a.reply
  | .resume => a.resume
  | .poll env stream worker => a.poll env engine stream worker
  | .answer_permission env allow => a.answer_permission env engine allow
  | .allow_everything env => a.allow_everything env engine
  | .approve env allow remember => a.approve env engine allow remember
  | .approve_everything env => a.approve_everything env engine
  | .submit_sudo env password => a.submit_sudo env engine password
  | .cancel_sudo env => a.cancel_sudo env engine
  | .answer env text => a.answer env engine text
  | .stop => a.stop
  | .stop_command env => a.stop_command env
  | .clear => a.clear

end WaSSH.Agent
