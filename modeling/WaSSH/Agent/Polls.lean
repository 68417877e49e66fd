import WaSSH.Agent.Machine
import WaSSH.Lib.Run

/-!
# What becomes of a tool call that waits

The agent and the session it works on, step by step: what the agent asks is done by the session, the
session's requests are answered, other panes use the same session, and the agent polls.

* `Conn`, `Watch`, `System`, `step`: the session, the fate of what the agent has asked of it, and
  the steps;
* `finished`: whether what a call waits for has ended, and how;
* `polled`, `poll_tool_waits`, `poll_tool_settles`, `poll_tool_goes_on`: what a poll comes to;
* `Handled`: a poll answers what has ended, with a failure where that failed;
* `Found`, `answers_command_iff` and its siblings: what it has to find for that, wait by wait;
* `found_after_read`: a read that succeeds is found by the next poll;
* **`handled_iff`**: in a run every poll answers what has ended exactly when each finds what it has
  to.
-/

set_option linter.dupNamespace false

namespace WaSSH.Agent

open StepRun

/-! ## The session -/

/-- A session: its files, the results of its commands and its screen. -/
structure Conn where
  files : Files.Session
  output : String → Option ExecOutput := fun _ => none
  failure : String → Option (List Char) := fun _ => none
  /-- Commands run over SSH and on this machine. -/
  runs_commands : Bool := true
  screen_text : List Char := []

def COMMAND_TRANSPORT_ERROR : List Char := "Commands need an SSH or local session".toList

namespace Conn

variable (c : Conn)

/-- The session as the agent sees it. -/
def access : SessionAccess where
  output := c.output
  failure := c.failure
  read path max := (c.files.read (String.ofList path) max).1
  listing := c.files.files.listing
  is_transferring := c.files.is_transferring
  transfer_status := c.files.transfer_status.map String.toList
  screen_text := c.screen_text

/-- What a step of the agent finds. -/
def env (connected : Bool) (run_local : ℕ → Except (List Char) (List Char)) : Env where
  session := if connected then some c.access else none
  run_local

/-- A new command replaces the last result of its key. -/
def start_command (key : String) : Conn :=
  { c with
    output := fun k => if k = key then none else c.output k
    failure := fun k =>
      if k = key then if c.runs_commands then none else some COMMAND_TRANSPORT_ERROR
      else c.failure k }

/-- A command has ended. -/
def command_done (key : String) (result : Except (List Char) ExecOutput) : Conn :=
  { c with
    output := fun k => if k = key then result.toOption else c.output k
    failure := fun k =>
      if k = key then match result with
        | .error text => some text
        | .ok _ => none
      else c.failure k }

end Conn

/-! ## What the agent has asked for -/

/-- The fate of the last read, listing and upload the agent has asked for: how it ended, if it has;
and whether the listing in flight, and the one held, were asked for since the agent's last. -/
structure Watch where
  read : Option Bool := none
  list : Option Bool := none
  asked : Bool := false
  fresh : Bool := false
  upload : Option Files.Ticket := none
  write : Option Bool := none

/-- A read that cannot start. -/
def read_refused (s : Files.Session) (path : String) (max : ℕ) : Bool :=
  (s.read path max).1.isNone && s.files.pending.isNone && s.files.pack.isNone &&
    !s.can_browse_files

/-- How a listing has ended when it is asked for: one that was asked for before is not started
again. -/
def list_asked (s : Files.Session) (path : String) : Option Bool :=
  if s.files.requested ≠ some path then if s.can_browse_files then none else some false
  else if s.files.listing_pending = some path then none
  else if s.files.listing_error.isSome then some false
  else if s.files.listing.any (·.path = path) then some true
  else none

/-- The session does what the agent asks. -/
def ask (x : Conn × Watch) : Request → Conn × Watch
  | .read path max =>
    let path := String.ofList path
    ({ x.1 with files := (x.1.files.read path max).2 },
      { x.2 with read := if read_refused x.1.files path max then some false else none })
  | .request_listing path =>
    let path := String.ofList path
    ({ x.1 with files := x.1.files.request_listing path },
      { x.2 with
        list := list_asked x.1.files path
        asked := x.1.files.files.requested ≠ some path && x.1.files.can_browse_files
        fresh := false })
  | .write_file path content =>
    ({ x.1 with files := x.1.files.write_file (String.ofList path) (Utf8.encode content) },
      if x.1.files.can_browse_files then
        { x.2 with upload := some x.1.files.files.accepted.length, write := none }
      else { x.2 with upload := none, write := some false })
  | .exec key _ _ | .exec_input key _ _ _ => (x.1.start_command key, x.2)
  | .cancel _ | .type_text _ => x

/-! ## Answers -/

/-- A step starts a listing. -/
def starts_listing (s : Files.Session) : Files.Step → Bool
  | .request_listing path => s.files.requested ≠ some path && s.can_browse_files
  | .refresh _ => s.can_browse_files
  | .poll_files answers =>
    (s.poll_files answers).files.listing_pending ≠
      (s.files.poll_listing answers.listing).listing_pending
  | _ => false

/-- The answer of the request in flight is taken. -/
def takes_answer (s : Files.Session) (answers : Files.Answers) : Bool :=
  s.files.pack.isNone && s.files.pending.isSome && answers.answer ≠ .empty

def is_listed : Files.TryRecv (Except String Files.SftpOutcome) → Bool
  | .ok (.ok (.listed _)) => true
  | _ => false

def is_content : Files.TryRecv (Except String Files.SftpOutcome) → Bool
  | .ok (.ok (.content _ _)) => true
  | _ => false

/-- What the agent waits for. -/
def Agent.waiting (a : Agent) : Option Waiting :=
  match a.phase with
  | some (.running _ _ waiting) => some waiting
  | _ => none

/-- The fates after a poll of the session's files. -/
def watch_answers (a : Agent) (s : Files.Session) (w : Watch) (answers : Files.Answers) : Watch :=
  let w := match a.waiting with
    | some (.read path max _) =>
      if takes_answer s answers ∧ s.files.job = some (.read (String.ofList path) max) then
        { w with read := some (is_content answers.answer) }
      else w
    | some (.list path) =>
      if s.files.listing_pending = some (String.ofList path) ∧ answers.listing ≠ .empty then
        { w with list := some (is_listed answers.listing) }
      else w
    | some (.transfer _ _) =>
      if takes_answer s answers ∧ w.upload ≠ none ∧ s.files.pending = w.upload then
        { w with write := some (Transfer.transferred answers.answer) }
      else w
    | _ => w
  if s.files.listing_pending.isSome ∧ is_listed answers.listing then { w with fresh := w.asked }
  else w

/-- The fates after a step of the session. -/
def watch_files (a : Agent) (s : Files.Session) (w : Watch) (step : Files.Step) : Watch :=
  let w := match step with
    | .poll_files answers => watch_answers a s w answers
    | _ => w
  if starts_listing s step then { w with asked := true } else w

/-! ## Steps -/

/-- The agent, the session, and the fates. -/
structure System where
  agent : Agent
  conn : Conn
  watch : Watch := {}

/-- One thing that happens: a step of the agent, which finds the session or none; a step of the
session's files, for the agent or another pane; the end of a command; a change of the screen. -/
inductive Act
  | agent (step : Step) (connected : Bool) (run_local : ℕ → Except (List Char) (List Char))
  | files (step : Files.Step)
  | command (key : String) (result : Except (List Char) ExecOutput)
  | screen (text : List Char)

/-- The step as it finds `env`. -/
def Step.with_env (env : Env) : Step → Step
  | .poll _ stream worker => .poll env stream worker
  | .answer_permission _ allow => .answer_permission env allow
  | .allow_everything _ => .allow_everything env
  | .approve _ allow remember => .approve env allow remember
  | .approve_everything _ => .approve_everything env
  | .submit_sudo _ password => .submit_sudo env password
  | .cancel_sudo _ => .cancel_sudo env
  | .answer _ text => .answer env text
  | .stop_command _ => .stop_command env
  | step => step

/-- What the agent has asked the session from `a` to `a'`. -/
def new_requests (a a' : Agent) : List Request :=
  (a'.log.drop a.log.length).filterMap fun
    | .request _ request => some request
    | _ => none

/-- The system after one step. -/
def System.step (engine : Anchored.Engine) (s : System) : Act → System
  | .agent step connected run_local =>
    let agent := Agent.step engine s.agent (step.with_env (s.conn.env connected run_local))
    let (conn, watch) := (new_requests s.agent agent).foldl ask (s.conn, s.watch)
    { agent, conn, watch }
  | .files step =>
    { s with
      conn := { s.conn with files := Files.step s.conn.files step }
      watch := watch_files s.agent s.conn.files s.watch step }
  | .command key result => { s with conn := s.conn.command_done key result }
  | .screen text => { s with conn := { s.conn with screen_text := text } }

/-! ## A poll -/

/-- What a poll of a tool that waits comes to. -/
inductive Polled
  | waits
  | goes_on
  | settles (failed : Bool)
  deriving DecidableEq

/-- What a worker thread has sent. -/
abbrev Worker := Files.TryRecv (Except (List Char) (List Char))

section Poll

variable (env : Env) (a : Agent) (worker : Worker) (turn : ℕ) (waiting : Waiting)

/-- What `poll_tool` comes to; an upload needs the session. -/
def polled : Polled :=
  match a.ready env worker turn waiting with
  | none => .waits
  | some (_, .settle _ _ failed) => .settles failed
  | some (_, .write_remote _ _) => if env.session.isSome then .goes_on else .settles true

theorem ready_ask_again (call : ApiToolCall) (other : Waiting) :
    (a.ask_again env call other).ready env worker turn waiting =
      a.ready env worker turn waiting := by
  unfold Agent.ask_again
  split
  · cases waiting <;> rfl
  · rfl

variable {env a worker turn waiting} {call : ApiToolCall} (engine : Anchored.Engine)

theorem polled_eq_waits_iff :
    polled env a worker turn waiting = .waits ↔ a.ready env worker turn waiting = none := by
  unfold polled
  rcases a.ready env worker turn waiting with _ | ⟨cwd, label | target⟩
  · exact iff_of_true rfl rfl
  · exact iff_of_false (fun h => nomatch h) (fun h => nomatch h)
  · refine iff_of_false (fun h => ?_) (fun h => nomatch h)
    dsimp only at h
    split at h <;> exact nomatch h

/-- A poll that waits asks for a read again, and changes nothing else. -/
theorem poll_tool_waits (hphase : a.phase = some (.running call turn waiting))
    (h : polled env a worker turn waiting = .waits) :
    a.poll_tool env engine worker = a.ask_again env call waiting := by
  unfold Agent.poll_tool
  rw [hphase]
  dsimp only
  rw [ready_ask_again]
  unfold polled at h
  rcases hready : a.ready env worker turn waiting with _ | ⟨cwd, ready⟩
  · rfl
  · rw [hready] at h
    cases ready with
    | settle label output failed => exact nomatch h
    | write_remote target payload =>
      dsimp only at h
      split at h <;> exact nomatch h

/-- A poll that settles answers the call. -/
theorem poll_tool_settles {failed : Bool} (hphase : a.phase = some (.running call turn waiting))
    (h : polled env a worker turn waiting = .settles failed) :
    ∃ cwd label output, a.poll_tool env engine worker =
      { a.ask_again env call waiting with cwd, phase := none }.settle env engine call turn label
        output failed := by
  unfold Agent.poll_tool
  rw [hphase]
  dsimp only
  rw [ready_ask_again]
  unfold polled at h
  rcases hready : a.ready env worker turn waiting with _ | ⟨cwd, ready⟩
  · rw [hready] at h
    exact nomatch h
  · rw [hready] at h
    cases ready with
    | settle label output failed' =>
      obtain rfl := Polled.settles.inj h
      exact ⟨cwd, label, output, rfl⟩
    | write_remote target payload =>
      dsimp only at h
      split at h
      · exact nomatch h
      · next hsession =>
        obtain rfl := Polled.settles.inj h
        refine ⟨cwd, "write ".toList ++ target, NOT_CONNECTED, ?_⟩
        dsimp only
        unfold Agent.write_remote
        rw [Option.not_isSome_iff_eq_none.mp hsession]

/-- A poll that goes on waits for an upload next. -/
theorem poll_tool_goes_on (hphase : a.phase = some (.running call turn waiting))
    (h : polled env a worker turn waiting = .goes_on) :
    ∃ target note,
      (a.poll_tool env engine worker).phase =
        some (.running call turn (.transfer target note)) := by
  unfold Agent.poll_tool
  rw [hphase]
  dsimp only
  rw [ready_ask_again]
  unfold polled at h
  rcases hready : a.ready env worker turn waiting with _ | ⟨cwd, ready⟩
  · rw [hready] at h
    exact nomatch h
  · rw [hready] at h
    cases ready with
    | settle label output failed => exact nomatch h
    | write_remote target payload =>
      dsimp only at h
      split at h
      · next hsession =>
        obtain ⟨access, haccess⟩ := Option.isSome_iff_exists.mp hsession
        refine ⟨target, (Agent.split_payload payload).2, ?_⟩
        dsimp only
        unfold Agent.write_remote
        rw [haccess]
      · exact nomatch h

end Poll

/-! ## What a poll has to do -/

/-- How what a tool waits for has ended, if it has. -/
def finished (env : Env) (a : Agent) (w : Watch) (worker : Worker) : Waiting → Option Bool
  | .command key _ => (Agent.ended env key).map fun
    | .output _ => true
    | .failure _ => false
  | .read .. => w.read
  | .list _ => w.list
  | .transfer .. => w.write
  | .worker => match worker with
    | .ok (.ok _) => some true
    | .ok (.error _) | .disconnected => some false
    | .empty => none
  | .terminal before until_ms =>
    if env.screen_text ≠ before ∨ until_ms ≤ a.now_ms then some true else none

/-- A poll starts a request: of all waits, only a read asks again. -/
def Restarts (c : Conn) (connected : Bool) : Waiting → Prop
  | .read path max _ => connected = true ∧ (c.files.read (String.ofList path) max).2 ≠ c.files
  | _ => False

/-- What has ended is answered: a failure as one, and without starting it again; and a listing the
model is given was asked for since the call. -/
def Answers (s : System) (worker : Worker) (connected : Bool)
    (run_local : ℕ → Except (List Char) (List Char)) (turn : ℕ) (waiting : Waiting) : Prop :=
  let env := s.conn.env connected run_local
  let polled := polled env s.agent worker turn waiting
  (finished env s.agent s.watch worker waiting = some false →
    polled = .settles true ∧ ¬ Restarts s.conn connected waiting) ∧
  (finished env s.agent s.watch worker waiting = some true → polled ≠ .waits) ∧
  ∀ path, waiting = .list path → polled ≠ .waits → s.watch.fresh = true

/-- **A poll answers what has ended.** -/
def Handled (s : System) : Act → Prop
  | .agent (.poll _ _ worker) connected run_local => ∀ call turn waiting,
    s.agent.phase = some (.running call turn waiting) →
      Answers s worker connected run_local turn waiting
  | _ => True

/-! ## What a poll has to find -/

/-- An edit of `content` that fails. -/
def EditFails (content : Files.FileContent) : ReadThen → Prop
  | .edit old new => content.truncated = true ∨
      ∃ error, replace_and_report (Utf8.from_utf8_lossy content.data) old new = .error error
  | _ => False

/-- The session shows a listing of `path`. -/
def Shows (s : System) (connected : Bool) (path : List Char) : Prop :=
  connected = true ∧ ∃ listing, s.conn.files.files.listing = some listing ∧
    listing.path.toList = path

/-- A command that failed says that `sudo` refused the password, or is asked before a write and the
session is gone; a read that ended has left its bytes, and where it failed, these are another's and
the edit of them fails; a listing has not failed, what ended is shown, and what is shown was asked
for since the call; an upload that ended has left the panel idle, and where it failed, the status
line speaks of it. -/
def FoundFor (s : System) (connected : Bool) (run_local : ℕ → Except (List Char) (List Char)) :
    Waiting → Prop
  | .command key next => ∀ text,
    Agent.ended (s.conn.env connected run_local) key = some (.failure text) →
      match next with
      | .output => Text.contains text SUDO_AUTH_FAILED_MARKER = true
      | .write_remote _ _ _ => connected = false
  | .read path max next => ∀ ok, s.watch.read = some ok → connected = true ∧
    ∃ content, (s.conn.files.read (String.ofList path) max).1 = some content ∧
      (ok = false → EditFails content next)
  | .list path => s.watch.list ≠ some false ∧
    (s.watch.list = some true → Shows s connected path) ∧
      (Shows s connected path → s.watch.fresh = true)
  | .transfer _ _ => ∀ ok, s.watch.write = some ok →
    (connected = true → s.conn.files.is_transferring = false) ∧
      (ok = false → connected = true ∧ Transfer.speaks_of_failure
        ((s.conn.files.transfer_status.map String.toList).getD []) = true)
  | .worker | .terminal _ _ => True

/-- **What a poll finds.** -/
def Found (s : System) : Act → Prop
  | .agent (.poll _ _ _) connected run_local => ∀ call turn waiting,
    s.agent.phase = some (.running call turn waiting) → FoundFor s connected run_local waiting
  | _ => True

/-! ## Wait by wait -/

section Waits

variable {s : System} {connected : Bool} {run_local : ℕ → Except (List Char) (List Char)}
  {worker : Worker} {turn : ℕ}

theorem answers_worker : Answers s worker connected run_local turn .worker := by
  unfold Answers
  refine ⟨fun h => ⟨?_, id⟩, fun h => ?_, fun path h => nomatch h⟩
  · rcases worker with (error | output) | _ | _
    · rfl
    · exact nomatch h
    · exact nomatch h
    · rfl
  · rcases worker with (error | output) | _ | _
    · exact nomatch h
    · exact nofun
    · exact nomatch h
    · exact nomatch h

theorem answers_terminal {before : List Char} {until_ms : ℕ} :
    Answers s worker connected run_local turn (.terminal before until_ms) := by
  unfold Answers finished polled Agent.ready Agent.terminal_ready
  refine ⟨fun h => ?_, fun h => ?_, fun path h => nomatch h⟩
  · dsimp only at h
    split at h <;> exact nomatch h
  · dsimp only at h ⊢
    split at h
    · next hend =>
      by_cases hchanged : (s.conn.env connected run_local).screen_text ≠ before
      · rw [if_pos hchanged]
        exact nofun
      · have hlate : ¬ s.agent.now_ms < until_ms := not_lt.mpr (hend.resolve_left hchanged)
        rw [if_neg hchanged, if_neg hlate]
        exact nofun
    · exact nomatch h

theorem env_session_isSome :
    (s.conn.env connected run_local).session.isSome = connected := by
  cases connected <;> rfl

theorem answers_iff {waiting : Waiting} {done : Option Bool} {p : Polled}
    (hdone : finished (s.conn.env connected run_local) s.agent s.watch worker waiting = done)
    (hp : polled (s.conn.env connected run_local) s.agent worker turn waiting = p)
    (hlist : ∀ path, waiting ≠ .list path) :
    Answers s worker connected run_local turn waiting ↔
      (done = some false → p = .settles true ∧ ¬ Restarts s.conn connected waiting) ∧
        (done = some true → p ≠ .waits) := by
  subst hdone hp
  exact ⟨fun h => ⟨h.1, h.2.1⟩, fun h => ⟨h.1, h.2, fun path hpath => absurd hpath (hlist path)⟩⟩

/-- A failed command settles as failed where it says that `sudo` refused the password, or has been
asked before a write and the session is gone. -/
theorem polled_failure (worker : Worker) (turn : ℕ) {key : String} (next : CommandThen)
    {text : List Char}
    (h : Agent.ended (s.conn.env connected run_local) key = some (.failure text)) :
    polled (s.conn.env connected run_local) s.agent worker turn (.command key next) =
        .settles true ↔
      match next with
      | .output => Text.contains text SUDO_AUTH_FAILED_MARKER = true
      | .write_remote _ _ _ => connected = false := by
  have hready : s.agent.ready (s.conn.env connected run_local) worker turn (.command key next) =
      some (s.agent.command_ready turn next (.failure text)) := congrArg (Option.map _) h
  unfold polled
  rw [hready, env_session_isSome]
  cases next with
  | output =>
    show Polled.settles (Text.contains text SUDO_AUTH_FAILED_MARKER) = .settles true ↔ _
    exact ⟨Polled.settles.inj, congrArg Polled.settles⟩
  | write_remote path content overwrite =>
    cases connected
    · exact iff_of_true rfl rfl
    · exact iff_of_false (fun h => nomatch h) (fun h => nomatch h)

theorem answers_command_iff {key : String} {next : CommandThen} :
    Answers s worker connected run_local turn (.command key next) ↔
      FoundFor s connected run_local (.command key next) := by
  let env := s.conn.env connected run_local
  have hlist (path : List Char) : Waiting.command key next ≠ .list path := nofun
  rcases hended : Agent.ended env key with _ | output | text
  · have hdone : finished env s.agent s.watch worker (.command key next) = none :=
      congrArg (Option.map _) hended
    exact iff_of_true ((answers_iff hdone rfl hlist).mpr ⟨nofun, nofun⟩)
      fun text htext => nomatch hended.symm.trans htext
  · have hdone : finished env s.agent s.watch worker (.command key next) = some true :=
      congrArg (Option.map _) hended
    have hready : s.agent.ready env worker turn (.command key next) =
        some (s.agent.command_ready turn next (.output output)) := congrArg (Option.map _) hended
    refine iff_of_true ((answers_iff hdone rfl hlist).mpr ⟨nofun, fun _ hwaits => ?_⟩)
      fun text htext => nomatch hended.symm.trans htext
    exact nomatch hready.symm.trans (polled_eq_waits_iff.mp hwaits)
  · have hdone : finished env s.agent s.watch worker (.command key next) = some false :=
      congrArg (Option.map _) hended
    have hsettles := polled_failure worker turn next hended
    rw [answers_iff hdone rfl hlist]
    constructor
    · intro h text' htext
      obtain rfl := Ended.failure.inj (Option.some.inj (hended.symm.trans htext))
      exact hsettles.mp (h.1 rfl).1
    · intro h
      exact ⟨fun _ => ⟨hsettles.mpr (h text hended), id⟩, nofun⟩

theorem waits_of_not_connected {path : List Char} {max : ℕ} {next : ReadThen} :
    polled (s.conn.env false run_local) s.agent worker turn (.read path max next) = .waits :=
  polled_eq_waits_iff.mpr rfl

/-- A read that is answered from a snapshot starts nothing. -/
theorem read_snd_of_some {f : Files.Session} {path : String} {max : ℕ} {content : Files.FileContent}
    (h : (f.read path max).1 = some content) : (f.read path max).2 = f := by
  unfold Files.Session.read at *
  split at h
  · rfl
  · split at h
    · exact nomatch h
    · split at h <;> exact nomatch h

/-- The bytes of a read settle the call as failed only where they are to be edited, and cannot. -/
theorem polled_read {path : List Char} {max : ℕ} {content : Files.FileContent} (worker : Worker)
    (turn : ℕ) (next : ReadThen)
    (h : (s.conn.files.read (String.ofList path) max).1 = some content) :
    polled (s.conn.env true run_local) s.agent worker turn (.read path max next) ≠ .waits ∧
      (polled (s.conn.env true run_local) s.agent worker turn (.read path max next) =
        .settles true ↔ EditFails content next) := by
  have hready : s.agent.ready (s.conn.env true run_local) worker turn (.read path max next) =
      some (s.agent.cwd, Agent.read_ready path content next) :=
    congrArg (fun content => (content.map (Agent.read_ready path · next)).map (s.agent.cwd, ·)) h
  constructor
  · exact fun hwaits => nomatch hready.symm.trans (polled_eq_waits_iff.mp hwaits)
  · unfold polled
    rw [hready, env_session_isSome]
    cases next with
    | output => exact iff_of_false nofun id
    | view start lines => exact iff_of_false nofun id
    | diff new context => exact iff_of_false nofun id
    | edit old new =>
      unfold Agent.read_ready EditFails
      dsimp only
      by_cases htruncated : content.truncated = true
      · rw [if_pos htruncated]
        exact iff_of_true rfl (.inl htruncated)
      · rw [if_neg htruncated]
        rcases hreplace : replace_and_report (Utf8.from_utf8_lossy content.data) old new with
          error | ⟨updated, diff⟩
        · exact iff_of_true rfl (.inr ⟨error, rfl⟩)
        · refine iff_of_false nofun ?_
          rintro (h | ⟨error, herror⟩)
          · exact htruncated h
          · exact nomatch herror

/-- What has ended is not answered by a poll that waits. -/
theorem not_answered_of_waits {ok : Bool} {settles : Prop} :
    ¬ ((some ok = some false → Polled.waits = .settles true ∧ settles) ∧
      (some ok = some true → Polled.waits ≠ .waits)) := by
  intro h
  cases ok
  · exact nomatch (h.1 rfl).1
  · exact h.2 rfl rfl

theorem answers_read_iff {path : List Char} {max : ℕ} {next : ReadThen} :
    Answers s worker connected run_local turn (.read path max next) ↔
      FoundFor s connected run_local (.read path max next) := by
  have hlist (other : List Char) : Waiting.read path max next ≠ .list other := nofun
  rw [answers_iff rfl rfl hlist]
  show (s.watch.read = some false → _) ∧ (s.watch.read = some true → _) ↔ _
  unfold FoundFor
  rcases s.watch.read with _ | ok
  · exact iff_of_true ⟨nofun, nofun⟩ nofun
  cases connected
  · rw [waits_of_not_connected]
    exact iff_of_false not_answered_of_waits fun h => nomatch (h ok rfl).1
  rcases hread : (s.conn.files.read (String.ofList path) max).1 with _ | content
  · have hwaits : polled (s.conn.env true run_local) s.agent worker turn (.read path max next) =
        .waits := by
      refine polled_eq_waits_iff.mpr ?_
      exact congrArg
        (fun content => (content.map (Agent.read_ready path · next)).map (s.agent.cwd, ·)) hread
    rw [hwaits]
    refine iff_of_false not_answered_of_waits fun h => ?_
    obtain ⟨-, content, hcontent, -⟩ := h ok rfl
    exact nomatch hread.symm.trans hcontent
  · have hpolled : polled (s.conn.env true run_local) s.agent worker turn (.read path max next) ≠
          .waits ∧ (polled (s.conn.env true run_local) s.agent worker turn (.read path max next) =
            .settles true ↔ EditFails content next) := polled_read worker turn next hread
    have hrestarts : ¬ Restarts s.conn true (.read path max next) :=
      fun h => h.2 (read_snd_of_some hread)
    constructor
    · intro h ok' hok
      obtain rfl := Option.some.inj hok
      exact ⟨rfl, content, hread, fun hfalse => hpolled.2.mp (h.1 (congrArg some hfalse)).1⟩
    · intro h
      obtain ⟨-, content', hcontent, hfails⟩ := h ok rfl
      obtain rfl := Option.some.inj (hread.symm.trans hcontent)
      exact ⟨fun hfalse => ⟨hpolled.2.mpr (hfails (Option.some.inj hfalse)), hrestarts⟩,
        fun _ => hpolled.1⟩

/-- A listing is read off the session, whoever has asked for it. -/
theorem polled_list {path : List Char} (worker : Worker) (turn : ℕ) :
    (Shows s connected path →
      polled (s.conn.env connected run_local) s.agent worker turn (.list path) = .settles false) ∧
    (¬ Shows s connected path →
      polled (s.conn.env connected run_local) s.agent worker turn (.list path) = .waits) := by
  constructor
  · rintro ⟨rfl, listing, hlisting, hpath⟩
    have hready : s.agent.ready (s.conn.env true run_local) worker turn (.list path) =
        some (s.agent.cwd, .settle ("list ".toList ++ listing.path.toList)
          (Agent.listing_body listing) false) := by
      show ((s.conn.files.files.listing).filter (·.path.toList = path)).map _ = _
      rw [hlisting, Option.filter_some, if_pos (by simpa using hpath), Option.map_some]
    unfold polled
    rw [hready]
  · intro hshows
    refine polled_eq_waits_iff.mpr ?_
    cases connected
    · rfl
    · show ((s.conn.files.files.listing).filter (·.path.toList = path)).map _ = none
      rcases hlisting : s.conn.files.files.listing with _ | listing
      · rfl
      · rw [Option.filter_some, if_neg, Option.map_none]
        intro hpath
        exact hshows ⟨rfl, listing, hlisting, by simpa using hpath⟩

theorem answers_list_iff {path : List Char} :
    Answers s worker connected run_local turn (.list path) ↔
      FoundFor s connected run_local (.list path) := by
  unfold Answers
  show ((s.watch.list = some false → _) ∧ (s.watch.list = some true → _) ∧ _) ↔ _
  by_cases hshows : Shows s connected path
  · have hpolled : polled (s.conn.env connected run_local) s.agent worker turn (.list path) =
        .settles false := (polled_list worker turn).1 hshows
    rw [hpolled]
    constructor
    · intro h
      exact ⟨fun hfalse => (nomatch (h.1 hfalse).1), fun _ => hshows,
        fun _ => h.2.2 path rfl nofun⟩
    · intro h
      exact ⟨fun hfalse => absurd hfalse h.1, fun _ => nofun, fun _ _ _ => h.2.2 hshows⟩
  · have hpolled : polled (s.conn.env connected run_local) s.agent worker turn (.list path) =
        .waits := (polled_list worker turn).2 hshows
    rw [hpolled]
    constructor
    · intro h
      exact ⟨fun hfalse => (nomatch (h.1 hfalse).1), fun htrue => absurd rfl (h.2.1 htrue),
        fun hshown => absurd hshown hshows⟩
    · intro h
      exact ⟨fun hfalse => absurd hfalse h.1, fun htrue => absurd (h.2.1 htrue) hshows,
        fun _ _ hne => absurd rfl hne⟩

/-- The line a poll of an upload reads. -/
def status_line (s : System) (connected : Bool) : List Char :=
  if connected then (s.conn.files.transfer_status.map String.toList).getD [] else []

theorem polled_transfer {target : List Char} {note : Option (List Char)} (worker : Worker)
    (turn : ℕ) :
    polled (s.conn.env connected run_local) s.agent worker turn (.transfer target note) =
      if connected && s.conn.files.is_transferring then .waits
      else .settles (Transfer.speaks_of_failure (status_line s connected)) := by
  have hready : s.agent.ready (s.conn.env connected run_local) worker turn (.transfer target note) =
      (Transfer.poll_transfer target note (connected && s.conn.files.is_transferring)
        (status_line s connected)).map fun settled =>
          (s.agent.cwd, .settle settled.label settled.body settled.failed) := by
    cases connected <;> rfl
  unfold polled
  rw [hready]
  by_cases hbusy : (connected && s.conn.files.is_transferring) = true
  · rw [hbusy]
    rfl
  · have hidle : (connected && s.conn.files.is_transferring) = false := by simpa using hbusy
    rw [hidle]
    cases note <;> rfl

theorem answers_transfer_iff {target : List Char} {note : Option (List Char)} :
    Answers s worker connected run_local turn (.transfer target note) ↔
      FoundFor s connected run_local (.transfer target note) := by
  have hlist (other : List Char) : Waiting.transfer target note ≠ .list other := nofun
  rw [answers_iff rfl (polled_transfer worker turn) hlist]
  show ((s.watch.write = some false → _) ∧ (s.watch.write = some true → _)) ↔ _
  unfold FoundFor status_line
  rcases s.watch.write with _ | ok
  · exact iff_of_true ⟨nofun, nofun⟩ nofun
  have hgone : Transfer.speaks_of_failure [] = false := by decide
  cases connected
  · cases ok <;> simp [Restarts, hgone]
  · cases s.conn.files.is_transferring <;> cases ok <;> simp [Restarts]

end Waits

/-! ## What an answer leaves -/

theorem start_next_transfer_content (f : Files.Session) :
    f.start_next_transfer.files.content = f.files.content := by
  unfold Files.Session.start_next_transfer
  split
  · rfl
  · split
    · rfl
    · dsimp only
      split <;> rfl

theorem poll_content {f : Files.RemoteFiles} {answers : Files.Answers} {ticket : Files.Ticket}
    {path : String} {max : ℕ} {data : FileMap.Bytes} {truncated : Bool} (hpack : f.pack = none)
    (hpending : f.pending = some ticket) (hjob : f.job = some (.read path max))
    (hanswer : answers.answer = .ok (.ok (.content data truncated))) :
    (f.poll answers).1 = none ∧
      (f.poll answers).2.content = some (path, max, ⟨data, truncated⟩) := by
  have hledger := f.take_progress_ledger answers.progress
  unfold Files.RemoteFiles.poll
  generalize f.take_progress answers.progress = g at hledger ⊢
  have hgpack : g.pack = none := (congrArg Files.Ledger.pack hledger).trans hpack
  have hgpending : g.pending = some ticket := (congrArg Files.Ledger.pending hledger).trans hpending
  have hgjob : g.job = some (.read path max) := (congrArg Files.Ledger.job hledger).trans hjob
  simp only [hgpack, hgpending, Files.RemoteFiles.poll_pending, hanswer]
  simp [Files.RemoteFiles.completed_before_stop, hgjob, Files.RemoteFiles.apply_outcome,
    Files.RemoteFiles.log]

/-- **The bytes of a read** are there for the poll that follows. -/
theorem read_poll_files {f : Files.Session} {answers : Files.Answers} {path : String} {max : ℕ}
    {data : FileMap.Bytes} {truncated : Bool} (htakes : takes_answer f answers = true)
    (hjob : f.files.job = some (.read path max))
    (hanswer : answers.answer = .ok (.ok (.content data truncated))) :
    ((f.poll_files answers).read path max).1 = some ⟨data, truncated⟩ := by
  unfold takes_answer at htakes
  obtain ⟨⟨hpack, hpending⟩, -⟩ : (f.files.pack = none ∧ ∃ ticket, f.files.pending = some ticket) ∧
      answers.answer ≠ .empty := by
    simpa [Option.isSome_iff_exists] using htakes
  obtain ⟨ticket, hpending⟩ := hpending
  have hledger := Files.RemoteFiles.poll_listing_ledger f.files answers.listing
  obtain ⟨hlanded, hcontent⟩ : ((f.files.poll_listing answers.listing).poll answers).1 = none ∧
      ((f.files.poll_listing answers.listing).poll answers).2.content =
        some (path, max, ⟨data, truncated⟩) :=
    poll_content ((congrArg Files.Ledger.pack hledger).trans hpack)
      ((congrArg Files.Ledger.pending hledger).trans hpending)
      ((congrArg Files.Ledger.job hledger).trans hjob) hanswer
  have hkept : (f.poll_files answers).files.content = some (path, max, ⟨data, truncated⟩) := by
    unfold Files.Session.poll_files
    generalize (f.files.poll_listing answers.listing).poll answers = out at hlanded hcontent ⊢
    obtain ⟨landed, files⟩ := out
    obtain rfl : landed = none := hlanded
    exact (start_next_transfer_content _).trans hcontent
  unfold Files.Session.read
  rw [hkept, Option.filter_some, if_pos (by simp)]

theorem watch_answers_read {a : Agent} {f : Files.Session} {w : Watch} {answers : Files.Answers}
    {path : List Char} {max : ℕ} {next : ReadThen}
    (hwaiting : a.waiting = some (.read path max next)) (htakes : takes_answer f answers = true)
    (hjob : f.files.job = some (.read (String.ofList path) max)) :
    (watch_files a f w (.poll_files answers)).read = some (is_content answers.answer) := by
  have hread : (watch_answers a f w answers).read = some (is_content answers.answer) := by
    have htaken : takes_answer f answers = true ∧
        f.files.job = some (.read (String.ofList path) max) := ⟨htakes, hjob⟩
    unfold watch_answers
    rw [hwaiting]
    dsimp only
    rw [if_pos htaken]
    split <;> rfl
  unfold watch_files
  dsimp only
  split
  · exact hread
  · exact hread

/-- **A read that succeeds** is found by the poll that follows. -/
theorem found_after_read {engine : Anchored.Engine} {s : System} {answers : Files.Answers}
    {path : List Char} {max : ℕ} {next : ReadThen} {data : FileMap.Bytes} {truncated : Bool}
    (run_local : ℕ → Except (List Char) (List Char))
    (hwaiting : s.agent.waiting = some (.read path max next))
    (htakes : takes_answer s.conn.files answers = true)
    (hjob : s.conn.files.files.job = some (.read (String.ofList path) max))
    (hanswer : answers.answer = .ok (.ok (.content data truncated))) :
    FoundFor (s.step engine (.files (.poll_files answers))) true run_local
      (.read path max next) := by
  have hread : (s.step engine (.files (.poll_files answers))).watch.read = some true := by
    have hfate := watch_answers_read (w := s.watch) hwaiting htakes hjob
    rw [hanswer] at hfate
    exact hfate
  intro ok hok
  obtain rfl := Option.some.inj (hread.symm.trans hok)
  exact ⟨rfl, _, read_poll_files htakes hjob hanswer, nofun⟩

/-! ## Every run -/

theorem answers_iff_found {s : System} {connected : Bool}
    {run_local : ℕ → Except (List Char) (List Char)} {worker : Worker} {turn : ℕ} :
    ∀ {waiting : Waiting}, Answers s worker connected run_local turn waiting ↔
      FoundFor s connected run_local waiting
  | .command .. => answers_command_iff
  | .read .. => answers_read_iff
  | .list _ => answers_list_iff
  | .transfer .. => answers_transfer_iff
  | .worker => iff_of_true answers_worker trivial
  | .terminal .. => iff_of_true answers_terminal trivial

/-- **A tool call that waits**: in a run every poll answers what has ended, with a failure where
that failed, and gives the model no old listing, exactly when each finds what it has to. -/
theorem handled_iff (engine : Anchored.Engine) (s : System) (acts : List Act) :
    Guarded (System.step engine) Handled s acts ↔ Guarded (System.step engine) Found s acts := by
  refine guarded_congr _ _ (fun s act => ?_) s acts
  cases act with
  | agent step connected run_local =>
    cases step with
    | poll env stream worker =>
      exact forall₃_congr fun call turn waiting => imp_congr_right fun _ => answers_iff_found
    | _ => exact Iff.rfl
  | _ => exact Iff.rfl

/-! ## Runs that go wrong -/

/-- No local tool is called. -/
def local_fails : ℕ → Except (List Char) (List Char) := fun _ => .error []

/-- A frame in which the agent polls, and a reply that is streaming ends with these calls. -/
def frame (calls : List ApiToolCall) : Act :=
  .agent (.poll ⟨none, local_fails⟩ { done := some (.ok ⟨[], calls, none⟩) } .empty) true
    local_fails

/-- A fresh agent on an SSH session. -/
def System.start : System := { agent := {}, conn := { files := { backend := .ssh } } }

/-- The model reads a file that is not there. -/
def read_missing : List Act :=
  [.agent (.send_message ['a'] ⟨0, false⟩) true local_fails,
    frame [⟨"1", TOOL_REMOTE_READ, .obj [("path", .str "/a")]⟩],
    .files (.poll_files { answer := .ok (.error "No such file") })]

/-- The model lists a directory a pane has listed before. -/
def list_again : List Act :=
  [.files (.request_listing "/a"),
    .files (.poll_files { listing := .ok (.ok (.listed [])) }),
    .agent (.send_message ['a'] ⟨0, false⟩) true local_fails,
    frame [⟨"1", TOOL_REMOTE_LIST, .obj [("path", .str "/a")]⟩]]

/-- A phase that waits for a listing of `path`. -/
def waits_for_list (path : List Char) : Option Phase → Bool
  | some (.running _ _ (.list other)) => other = path
  | _ => false

theorem exists_of_waits_for_list {path : List Char} {phase : Option Phase}
    (h : waits_for_list path phase = true) :
    ∃ call turn, phase = some (.running call turn (.list path)) := by
  unfold waits_for_list at h
  split at h
  · exact ⟨_, _, by rw [of_decide_eq_true h]⟩
  · exact nomatch h

/-- A read that has failed is started again by the next poll, and the call still waits; a listing
made before the call is its answer. -/
theorem failure_polled_away :
    let step := System.step Anchored.anchored
    let failed := run step .start read_missing
    let listed := run step .start list_again
    (failed.watch.read = some false ∧ failed.conn.files.files.pending = none ∧
      (step failed (frame [])).conn.files.files.pending = some 1 ∧
      (step failed (frame [])).agent.waiting.isSome = true) ∧
    (listed.watch.fresh = false ∧ listed.agent.waiting.isSome = true ∧
      (step listed (frame [])).agent.waiting.isSome = false) ∧
    ¬ Guarded step Handled .start (read_missing ++ [frame []]) ∧
    ¬ Guarded step Handled .start (list_again ++ [frame []]) := by
  intro step failed listed
  have hread : failed.watch.read = some false ∧ failed.conn.files.files.pending = none ∧
      (step failed (frame [])).conn.files.files.pending = some 1 ∧
      (step failed (frame [])).agent.waiting.isSome = true := by decide +kernel
  have hlist : listed.watch.fresh = false ∧ listed.agent.waiting.isSome = true ∧
      (step listed (frame [])).agent.waiting.isSome = false := by decide +kernel
  have hread' : ¬ Guarded step Handled .start (read_missing ++ [frame []]) := by
    intro h
    have hpoll : Handled failed (frame []) := ((guarded_append _ _ _ _ _).mp h).2.1
    have hphase : failed.agent.phase =
        some (.running ⟨"1", TOOL_REMOTE_READ, .obj [("path", .str "/a")]⟩ 1
          (.read "/a".toList 32000 .output)) := rfl
    exact absurd ((hpoll _ _ _ hphase).1 hread.1).1 (by decide +kernel)
  have hlist' : ¬ Guarded step Handled .start (list_again ++ [frame []]) := by
    intro h
    have hpoll : Handled listed (frame []) := ((guarded_append _ _ _ _ _).mp h).2.1
    have hwaits : waits_for_list "/a".toList listed.agent.phase = true := by decide +kernel
    obtain ⟨call, turn, hphase⟩ := exists_of_waits_for_list hwaits
    have hshows : Shows listed true "/a".toList := ⟨rfl, ⟨"/a", []⟩, by decide +kernel, rfl⟩
    have hpolled : polled (listed.conn.env true local_fails) listed.agent .empty turn
        (.list "/a".toList) = .settles false := (polled_list .empty turn).1 hshows
    have hfresh := (hpoll _ _ _ hphase).2.2 _ rfl (by rw [hpolled]; exact nofun)
    exact nomatch hlist.1.symm.trans hfresh
  exact ⟨hread, hlist, hread', hlist'⟩

end WaSSH.Agent
