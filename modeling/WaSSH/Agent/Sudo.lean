import WaSSH.Agent.Machine

/-!
# When a command runs as root

A command that names `sudo` waits for the user's password. What runs as root in the end is up to the
shell of the host: `invokes` says which command lines call `sudo` there.

* `Request.Sudo`, `Prompted`: what must have been answered for;
* `Quotes`: what is known of the shell;
* `Plain`: a call that brings no password and hides no `sudo`;
* **`sudo_prompted`**: with such calls only, nothing runs as root unprompted.
-/

set_option linter.dupNamespace false

namespace WaSSH.Agent

/-! ## What runs as root -/

/-- The command a request runs. -/
def Request.command : Request → Option (List Char)
  | .exec _ command _ | .exec_input _ command _ _ => some command
  | _ => none

section Shell

variable (invokes : List Char → Prop)

/-- The request runs a line that invokes `sudo`; the wrapper of `exec_input` always does. -/
def Request.Sudo : Request → Prop
  | .exec _ command _ => invokes command
  | .exec_input .. => True
  | .type_text text => invokes text
  | _ => False

/-- **The rule**: right before anything runs as root for a call, the user has answered the password
prompt of that call, for that very command. -/
def Prompted (log : List Event) : Prop :=
  ∀ before call request after, log = before ++ .request call request :: after →
    request.Sudo invokes →
    ∃ earlier command, before = earlier ++ [.sudo_answer call command] ∧
      request.command = some command

/-- What is known of the shell: quoted text and an empty line run nothing. -/
structure Quotes : Prop where
  tool_line : ∀ line, ToolLine line → ¬ invokes line
  enter : ¬ invokes ['\r']

/-- The call brings no password, names `sudo` where its command invokes it, and types none. -/
structure Plain (call : ApiToolCall) : Prop where
  no_stdin : call.name = TOOL_RUN_COMMAND → ∀ password,
    (call.arguments.get "sudoStdin").as_str.map String.toList = some password → password = []
  named : call.name = TOOL_RUN_COMMAND → ∀ command,
    trimmed_arg call.arguments "command" = some command → invokes command →
    command_needs_sudo command = true
  typed : call.name = TOOL_TERMINAL_WRITE → ¬ invokes (text_arg call.arguments "text")
  keys : call.name = TOOL_TERMINAL_KEYS → ∀ text,
    keys_sequence (text_arg call.arguments "keys") = .ok text → ¬ invokes text

end Shell

variable {invokes : List Char → Prop}

theorem Asked.not_sudo {a : Agent} {engine : Anchored.Engine} {call : ApiToolCall}
    {request : Request} (h : Asked a engine call request) (hquotes : Quotes invokes)
    (hplain : Plain invokes call) : ¬ request.Sudo invokes := by
  cases h with
  | tool_line h => exact hquotes.tool_line _ h
  | command hname hcommand hsudo =>
    intro hinvokes
    exact absurd (hplain.named hname _ hcommand hinvokes) (Bool.eq_false_iff.mp hsudo)
  | sudo_stdin hname _ _ hstdin hne => exact absurd (hplain.no_stdin hname _ hstdin) hne
  | read | request_listing => exact id
  | type_text hname htext => exact htext ▸ hplain.typed hname
  | type_keys hname htext => exact hplain.keys hname _ htext
  | type_enter => exact hquotes.enter

/-! ## The log -/

theorem Prompted.append {log events : List Event} (h : Prompted invokes log)
    (hnew : ∀ call request, Event.request call request ∈ events → ¬ request.Sudo invokes) :
    Prompted invokes (log ++ events) := by
  intro before call request after heq hsudo
  rcases List.append_eq_append_iff.mp heq with ⟨rest, -, hevents⟩ | ⟨rest, hlog, hrest⟩
  · exact absurd hsudo (hnew call request (hevents ▸ List.mem_append_right _ List.mem_cons_self))
  · cases rest with
    | nil =>
      rw [List.nil_append] at hrest
      exact absurd hsudo (hnew call request (hrest ▸ List.mem_cons_self))
    | cons event rest =>
      obtain ⟨rfl, -⟩ := List.cons.inj hrest
      exact h before call request rest hlog hsudo

/-- The answer to the prompt, and the command right after it. -/
theorem Prompted.append_answered {log : List Event} (h : Prompted invokes log) (call : ApiToolCall)
    {command : List Char} {request : Request} (hcommand : request.command = some command) :
    Prompted invokes (log ++ [.sudo_answer call command] ++ [.request call request]) := by
  have hanswer : Prompted invokes (log ++ [.sudo_answer call command]) :=
    h.append fun _ _ hmem => nomatch List.mem_singleton.mp hmem
  intro before other asked after heq hsudo
  rcases List.eq_nil_or_concat after with rfl | ⟨after, last, rfl⟩
  · obtain ⟨hbefore, hlast⟩ := List.append_inj' heq rfl
    obtain ⟨rfl, rfl⟩ := Event.request.inj (List.cons.inj hlast).1
    exact ⟨log, command, hbefore.symm, hcommand⟩
  · rw [List.concat_eq_append, ← List.cons_append, ← List.append_assoc] at heq
    exact hanswer before other asked after (List.append_inj_left' heq rfl) hsudo

/-! ## What a step keeps -/

namespace Agent

/-- A prompt that runs a call, or its command, without a password. -/
def PlainPhase (invokes : List Char → Prop) : Option Phase → Prop
  | some (.allowing call _ _) => Plain invokes call
  | some (.approving _ command _) => invokes command → command_needs_sudo command = true
  | _ => True

/-- What holds of the agent in every state of a run. -/
structure Guards (invokes : List Char → Prop) (a : Agent) : Prop where
  log : Prompted invokes a.log
  queue : ∀ call ∈ a.queue, Plain invokes call
  phase : PlainPhase invokes a.phase

variable {a b : Agent}

/-- The agent has changed nowhere the invariant looks, but for what is harmless in the log. -/
theorem Guards.congr (h : a.Guards invokes) {events : List Event} (hphase : b.phase = a.phase)
    (hqueue : b.queue = a.queue) (hlog : b.log = a.log ++ events)
    (hnew : ∀ call request, Event.request call request ∈ events → ¬ request.Sudo invokes) :
    b.Guards invokes :=
  ⟨hlog ▸ h.log.append hnew, hqueue ▸ h.queue, hphase ▸ h.phase⟩

theorem Guards.same (h : a.Guards invokes) (hphase : b.phase = a.phase) (hqueue : b.queue = a.queue)
    (hlog : b.log = a.log) : b.Guards invokes :=
  ⟨hlog ▸ h.log, hqueue ▸ h.queue, hphase ▸ h.phase⟩

theorem Guards.idle (h : a.Guards invokes) (hphase : b.phase = none) (hqueue : b.queue = a.queue)
    (hlog : b.log = a.log) : b.Guards invokes :=
  ⟨hlog ▸ h.log, hqueue ▸ h.queue, hphase ▸ trivial⟩

theorem PlainPhase.of_parked {call : ApiToolCall} {phase : Phase} (h : Parked call phase)
    (hplain : Plain invokes call) : PlainPhase invokes (some phase) := by
  cases h with
  | approving hname hcommand => exact hplain.named hname _ hcommand
  | allowing => exact hplain
  | running | asking | sudo_prompt => trivial

section Engine

variable (env : Env) (engine : Anchored.Engine) {call : ApiToolCall}

theorem apply_prompted {ran : Ran} (hlog : Prompted invokes a.log)
    (hran : ∀ request ∈ ran.requests, ¬ request.Sudo invokes) :
    Prompted invokes (a.apply call ran).log :=
  hlog.append fun _ request hmem => by
    obtain ⟨request', hmem', heq⟩ := List.mem_map.mp hmem
    exact (Event.request.inj heq).2 ▸ hran request' hmem'

/-- **The queue**: no plain call asks for more than it shows. -/
theorem advance_guards (hquotes : Quotes invokes) : ∀ (queue : List ApiToolCall) (a : Agent),
    a.phase = none → Prompted invokes a.log → (∀ call ∈ queue, Plain invokes call) →
    (advance env engine a queue).Guards invokes
  | [], _, hphase, hlog, _ => ⟨hlog, nofun, hphase ▸ trivial⟩
  | call :: queue, a, hphase, hlog, hqueue => by
    unfold advance
    dsimp only
    set a' : Agent := { a with turns := a.turns ++ [.tool call.name (call_label call) [] false] }
    have hfits := dispatch_fits env a' call a.turns.length engine (a'.label a.turns.length)
    generalize dispatch env a' call a.turns.length engine (a'.label a.turns.length) = ran at hfits
    have hplain := hqueue call List.mem_cons_self
    have hrest : ∀ next ∈ queue, Plain invokes next :=
      fun next hnext => hqueue next (List.mem_cons_of_mem _ hnext)
    have hlog' : Prompted invokes (a'.apply call ran).log :=
      apply_prompted hlog fun request hmem => (hfits.asked request hmem).not_sudo hquotes hplain
    split
    · exact advance_guards hquotes queue _ hphase hlog' hrest
    · rename_i phase houtcome
      exact ⟨hlog', hrest, .of_parked (hfits.parked phase houtcome) hplain⟩

theorem settle_guards (hquotes : Quotes invokes) (h : a.Guards invokes) (hphase : a.phase = none)
    (turn : ℕ) (label output : List Char) (failed : Bool) :
    (a.settle env engine call turn label output failed).Guards invokes :=
  advance_guards env engine hquotes a.queue _ hphase h.log h.queue

theorem follow_guards (hquotes : Quotes invokes) (h : a.Guards invokes) (hphase : a.phase = none)
    {ran : Ran} (turn : ℕ) (hlog : Prompted invokes (a.apply call ran).log)
    (hpark : ∀ phase, ran.outcome = .park phase → PlainPhase invokes (some phase)) :
    (a.follow env engine call turn ran).Guards invokes := by
  unfold follow
  dsimp only
  split
  · exact settle_guards (a := a.apply call ran) env engine hquotes ⟨hlog, h.queue, h.phase⟩ hphase
      turn _ _ _
  · rename_i phase houtcome
    exact ⟨hlog, h.queue, hpark phase houtcome⟩

/-- A command that starts, or waits for the password, is no prompt that runs without one. -/
theorem exec_command_phase {turn : ℕ} {command : List Char} {sudo_stdin : Option (List Char)}
    {phase : Phase}
    (h : (exec_command env a call turn command sudo_stdin).outcome = .park phase) :
    PlainPhase invokes (some phase) := by
  rcases exec_command_park env h with rfl | rfl <;> trivial

theorem start_command_guards (hquotes : Quotes invokes) (h : a.Guards invokes)
    (hphase : a.phase = none) {command : List Char}
    (hcommand : invokes command → command_needs_sudo command = true) :
    (a.start_command env engine call command none).Guards invokes := by
  refine follow_guards env engine hquotes h hphase _ ?_ fun _ => exec_command_phase env
  refine apply_prompted h.log fun request hmem => ?_
  rcases exec_command_requests env with hnone | ⟨-, hsudo, hone⟩ | ⟨password, hsome, -⟩
  · rw [hnone] at hmem
    exact nomatch hmem
  · rw [hone] at hmem
    rw [List.mem_singleton.mp hmem]
    exact fun hinvokes => absurd (hcommand hinvokes) (Bool.eq_false_iff.mp hsudo)
  · exact nomatch hsome

/-! ### Prompts -/

theorem answer_permission_guards (hquotes : Quotes invokes) (h : a.Guards invokes) (allow : Bool) :
    (a.answer_permission env engine allow).Guards invokes := by
  have hidle : a.drop_phase.Guards invokes := h.idle rfl rfl rfl
  unfold answer_permission
  split
  · rename_i call turn label hphase
    have hplain : Plain invokes call := by
      have := h.phase
      rwa [hphase] at this
    dsimp only
    split
    · have hfits := run_tool_fits env a.drop_phase call turn engine
      exact follow_guards env engine hquotes hidle rfl turn
        (apply_prompted h.log fun request hmem =>
          (hfits.asked request hmem).not_sudo hquotes hplain)
        fun phase hpark => .of_parked (hfits.parked phase hpark) hplain
    · exact settle_guards env engine hquotes hidle rfl turn _ _ _
  · exact hidle

theorem approve_guards (hquotes : Quotes invokes) (h : a.Guards invokes) (allow : Bool)
    (remember : Option ℕ) : (a.approve env engine allow remember).Guards invokes := by
  unfold approve
  split
  · rename_i call command scopes hphase
    have hcommand : invokes command → command_needs_sudo command = true := by
      have := h.phase
      rwa [hphase] at this
    set rules := remembered remember scopes
    dsimp only
    split
    · exact start_command_guards
        (a := { a.drop_phase with session_allow := a.session_allow ++ rules }) env engine hquotes
        (h.idle rfl rfl rfl) rfl hcommand
    · exact settle_guards (a := { a.drop_phase with session_deny := a.session_deny ++ rules }) env
        engine hquotes (h.idle rfl rfl rfl) rfl _ _ _ _
  · exact h.idle rfl rfl rfl

theorem approve_everything_guards (hquotes : Quotes invokes) (h : a.Guards invokes) :
    (a.approve_everything env engine).Guards invokes := by
  unfold approve_everything
  split
  · rename_i call command scopes hphase
    have hcommand : invokes command → command_needs_sudo command = true := by
      have := h.phase
      rwa [hphase] at this
    exact start_command_guards
      (a := { a.drop_phase with session_allow := a.session_allow ++ [ALLOW_ALL_PATTERN] }) env engine
      hquotes (h.idle rfl rfl rfl) rfl hcommand
  · exact h.idle rfl rfl rfl

/-- **The password prompt**: its answer stands right before the command. -/
theorem submit_sudo_guards (hquotes : Quotes invokes) (h : a.Guards invokes)
    (password : List Char) : (a.submit_sudo env engine password).Guards invokes := by
  unfold submit_sudo
  split
  · rename_i call command reason _
    set b : Agent := { a.drop_phase with log := a.log ++ [Event.sudo_answer call command] }
    have hb : b.Guards invokes :=
      ⟨h.log.append fun _ _ hmem => (nomatch List.mem_singleton.mp hmem), h.queue, trivial⟩
    refine follow_guards env engine hquotes hb rfl _ ?_ fun _ => exec_command_phase env
    unfold apply
    rcases exec_command_requests env with hnone | ⟨hsome, -⟩ | ⟨password, -, hone⟩
    · rw [hnone]
      exact hb.log.append nofun
    · exact nomatch hsome
    · rw [hone]
      exact h.log.append_answered call rfl
  · exact h.idle rfl rfl rfl

theorem cancel_sudo_guards (hquotes : Quotes invokes) (h : a.Guards invokes) :
    (a.cancel_sudo env engine).Guards invokes := by
  have hidle : a.drop_phase.Guards invokes := h.idle rfl rfl rfl
  unfold cancel_sudo
  split
  · exact settle_guards env engine hquotes hidle rfl _ _ _ _
  · exact hidle

theorem answer_guards (hquotes : Quotes invokes) (h : a.Guards invokes) (text : List Char) :
    (a.answer env engine text).Guards invokes := by
  unfold answer
  dsimp only
  split
  · exact h
  · split
    · split
      · exact h
      · split
        · exact ⟨h.log, h.queue, trivial⟩
        · exact settle_guards
            (a := { a.drop_phase with turns := answer_question (Text.trim text) a.turns }) env engine
            hquotes (h.idle rfl rfl rfl) rfl _ _ _ _
    · exact h.idle rfl rfl rfl

/-! ### Replies and tools -/

theorem fail_reply_guards (h : a.Guards invokes) (turn : ℕ) (error : List Char) :
    (a.fail_reply turn error).Guards invokes := by
  obtain ⟨hphase, hqueue, -, hlog⟩ := drop_empty_reply_eq { a with error := some error } turn
  exact h.same hphase hqueue hlog

theorem finish_reply_guards (hquotes : Quotes invokes) (h : a.Guards invokes)
    (hphase : a.phase = none) (turn : ℕ) (result : Except (List Char) Completion)
    (hplain : ∀ completion, result = .ok completion →
      ∀ call ∈ completion.tool_calls, Plain invokes call) :
    (a.finish_reply env engine turn result).Guards invokes := by
  unfold finish_reply
  split
  · exact fail_reply_guards h turn _
  · rename_i completion
    split
    · exact fail_reply_guards h turn _
    · generalize a.fill_reply turn completion.text = written
      obtain ⟨turns, text⟩ := written
      dsimp only
      obtain ⟨hphase', -, -, hlog⟩ := drop_empty_reply_eq { a with turns } turn
      generalize ({ a with turns } : Agent).drop_empty_reply turn = b at hphase' hlog
      have hidle : b.phase = none := hphase'.trans hphase
      split
      · exact ⟨hlog ▸ h.log, nofun, hidle ▸ trivial⟩
      · exact advance_guards env engine hquotes _ _ hidle (hlog ▸ h.log) (hplain completion rfl)

theorem write_remote_guards (hquotes : Quotes invokes) (h : a.Guards invokes) (turn : ℕ)
    (target payload : List Char) :
    (a.write_remote env engine call turn target payload).Guards invokes := by
  unfold write_remote
  generalize split_payload payload = parts
  obtain ⟨content, diff⟩ := parts
  dsimp only
  split
  · exact settle_guards (a := { a with phase := none }) env engine hquotes (h.idle rfl rfl rfl) rfl _ _
      _ _
  · refine ⟨h.log.append fun _ request hmem => ?_, h.queue, trivial⟩
    rw [(Event.request.inj (List.mem_singleton.mp hmem)).2]
    exact id

theorem ask_again_guards (h : a.Guards invokes) (waiting : Waiting) :
    (a.ask_again env call waiting).Guards invokes := by
  unfold ask_again
  split
  · refine h.congr rfl rfl rfl fun _ request hmem => ?_
    rw [(Event.request.inj (List.mem_singleton.mp hmem)).2]
    exact id
  · exact h

theorem poll_tool_guards (hquotes : Quotes invokes) (h : a.Guards invokes)
    (worker : Files.TryRecv (Except (List Char) (List Char))) :
    (a.poll_tool env engine worker).Guards invokes := by
  unfold poll_tool
  split
  · rename_i call turn waiting _
    have hasked : (a.ask_again env call waiting).Guards invokes := ask_again_guards env h waiting
    generalize a.ask_again env call waiting = b at hasked
    dsimp only
    split
    · exact hasked
    · rename_i cwd label output failed _
      exact settle_guards (a := { b with cwd, phase := none }) env engine hquotes
        (hasked.idle rfl rfl rfl) rfl _ _ _ _
    · rename_i cwd target payload _
      exact write_remote_guards (a := { b with cwd }) env engine hquotes (hasked.same rfl rfl rfl) _ _
        _
  · exact h

theorem poll_guards (hquotes : Quotes invokes) (h : a.Guards invokes) (stream : Stream)
    (worker : Files.TryRecv (Except (List Char) (List Char)))
    (hplain : Phase.is_streaming a.phase = true → ∀ completion,
      stream.done = some (.ok completion) → ∀ call ∈ completion.tool_calls, Plain invokes call) :
    (a.poll env engine stream worker).Guards invokes := by
  unfold poll
  split
  · rename_i turn hphase
    dsimp only
    split
    · exact h.same rfl rfl rfl
    · rename_i result hdone
      refine finish_reply_guards
        (a := { a with turns := a.stream_turns turn stream.delta, phase := none }) env engine hquotes
        (h.idle rfl rfl rfl) rfl turn result fun completion hresult => ?_
      exact hplain (by rw [hphase]; rfl) completion (hresult ▸ hdone)
  · exact poll_tool_guards env engine hquotes h worker
  · exact h

end Engine

/-! ### The conversation -/

theorem request_guards (h : a.Guards invokes) : a.request.Guards invokes :=
  ⟨h.log.append fun _ _ hmem => (nomatch List.mem_singleton.mp hmem), h.queue, trivial⟩

theorem push_user_guards (h : a.Guards invokes) (text : List Char) (info : UserMeta) :
    (a.push_user text info).Guards invokes := by
  unfold push_user
  dsimp only
  split
  · exact h
  · exact h.same rfl rfl rfl

theorem stop_guards (h : a.Guards invokes) : a.stop.Guards invokes := by
  have hstopped : ∀ b : Agent, b.log = a.log → b.queue = [] → b.phase = none →
      b.Guards invokes := fun b hlog hqueue hphase =>
    ⟨hlog ▸ h.log, fun call hmem => absurd (hqueue ▸ hmem) List.not_mem_nil, hphase ▸ trivial⟩
  unfold stop
  dsimp only
  split
  · exact h
  all_goals exact hstopped _ rfl rfl rfl

theorem stop_command_guards (h : a.Guards invokes) (env : Env) :
    (a.stop_command env).Guards invokes := by
  unfold stop_command
  split
  · refine h.congr rfl rfl rfl fun _ request hmem => ?_
    rw [(Event.request.inj (List.mem_singleton.mp hmem)).2]
    exact id
  · exact h

/-- Every call a reply brings is plain. -/
def Clean (invokes : List Char → Prop) (a : Agent) : Step → Prop
  | .poll _ stream _ => Phase.is_streaming a.phase = true → ∀ completion,
    stream.done = some (.ok completion) → ∀ call ∈ completion.tool_calls, Plain invokes call
  | _ => True

/-- **One step** keeps what holds of the agent. -/
theorem step_guards (engine : Anchored.Engine) (hquotes : Quotes invokes) (h : a.Guards invokes)
    (s : Step) (hclean : a.Clean invokes s) : (step engine a s).Guards invokes := by
  cases s with
  | apply_settings settings => exact h.same rfl rfl rfl
  | push_user text info => exact push_user_guards h text info
  | send_message text info =>
    simp only [step, send_message]
    split
    · exact h
    · exact request_guards (push_user_guards h text info)
  | inject_user text info =>
    simp only [step, inject_user]
    split
    · exact h
    · exact h.same rfl rfl rfl
  | flush_injected =>
    simp only [step, flush_injected]
    split
    · exact h
    · exact h.same rfl rfl rfl
  | rewind_to index =>
    simp only [step, rewind_to]
    split
    · split
      · exact h
      · exact h.same rfl rfl rfl
    · exact h
  | repair_history => exact h.same rfl rfl rfl
  | reply =>
    simp only [step, reply]
    split
    · exact request_guards (a := { a with needs_reply := false }) (h.same rfl rfl rfl)
    · exact h
  | resume =>
    simp only [step, resume]
    split
    · exact request_guards h
    · exact h
  | poll env stream worker => exact poll_guards env engine hquotes h stream worker hclean
  | answer_permission env allow => exact answer_permission_guards env engine hquotes h allow
  | allow_everything env =>
    exact answer_permission_guards
      (a := { a with allow_all := true, session_allow := a.session_allow ++ [ALLOW_ALL_PATTERN] })
      env engine hquotes (h.same rfl rfl rfl) true
  | approve env allow remember => exact approve_guards env engine hquotes h allow remember
  | approve_everything env => exact approve_everything_guards env engine hquotes h
  | submit_sudo env password => exact submit_sudo_guards env engine hquotes h password
  | cancel_sudo env => exact cancel_sudo_guards env engine hquotes h
  | answer env text => exact answer_guards env engine hquotes h text
  | stop => exact stop_guards h
  | stop_command env => exact stop_command_guards h env
  | clear => exact ⟨h.log, nofun, trivial⟩

theorem fresh_guards : Guards invokes {} :=
  ⟨fun before _ _ _ heq => absurd (congrArg List.length heq) (by simp), nofun, trivial⟩

end Agent

/-- A session on which nothing has answered yet. -/
def silent : SessionAccess where
  output _ := none
  failure _ := none
  read _ _ := none
  listing := none
  is_transferring := false
  transfer_status := none
  screen_text := []

/-- A frame with that session. -/
def connected : Env := { session := some silent, run_local := fun _ => .ok [] }

/-- One call the model makes, once asked, on a host where every command is allowed. -/
def one_command (call : ApiToolCall) : List Step :=
  [.apply_settings ⟨[['*']], [], [], [], {}, 0⟩, .send_message ['a'] ⟨0, false⟩,
    .poll connected { done := some (.ok ⟨[], [call], none⟩) } .empty]

theorem ToolLine.head {line : List Char} (h : ToolLine line) : line.head? ≠ some 's' := by
  cases h with
  | @remote name args line h =>
    unfold remote_shell_command at h
    split_ifs at h
    · rw [← Option.some.inj h]
      decide
    · rw [← Option.some.inj h]
      exact nofun
    · rw [← Option.some.inj h]
      unfold disk_command
      dsimp only
      split_ifs <;> exact nofun
    · rw [← Option.some.inj h]
      unfold memory_command
      simp only [String.toList_append, List.append_assoc]
      exact nofun
  | grep | find | tree | test | delete => exact nofun

end WaSSH.Agent
