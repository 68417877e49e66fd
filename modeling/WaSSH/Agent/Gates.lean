import WaSSH.Agent.Machine
import WaSSH.Lib.Since

/-!
# What the agent is allowed to do

Tools come in groups; a group has one switch, and each of its tools is allowed, asked for or denied.
The settings of the host say which, and the user answers where the agent asks.

* `GATES`, `Permissions.from_settings`: every gated tool, and what the settings say of it;
* `Agent.holds`, `Agent.waits`: a call that is past its gate, and one that waits before it;
* `lets`: what lets a call through; `Within`: only such calls get through;
* **`requests_gated`**: nothing is asked of the session but for a call that was let through, and is
  held since;
* **`group_off_never`**: nothing is asked for a tool of a group that is switched off.
-/

set_option linter.dupNamespace false

namespace WaSSH.Agent

/-! ## Gates -/

namespace Permission

/-- The decision a stored setting holds. -/
def parse (text : String) : Option Permission :=
  if text = "allow" then some .allow
  else if text = "ask" then some .ask
  else if text = "deny" then some .deny
  else none

def as_str : Permission → String
  | .allow => "allow"
  | .ask => "ask"
  | .deny => "deny"

end Permission

def GROUP_TERMINAL : String := "terminal"
def GROUP_REMOTE_FS : String := "remote-fs"
def GROUP_LOCAL_FS : String := "local-fs"
def GROUP_WEB_ACCESS : String := "web-access"
def GROUP_KNOWLEDGE_BASE : String := "knowledge-base"

/-- One gated tool. -/
structure Gate where
  tool : String
  /-- The group that must be on. -/
  group : Option String
  /-- The tool whose setting the decision is stored under: that of its bundle. -/
  leader : String
  default : Permission

/-- Every gated tool. The tools that run commands are not listed: rules gate them. -/
def GATES : List Gate :=
  [⟨TOOL_TERMINAL_READ, some GROUP_TERMINAL, TOOL_TERMINAL_READ, .allow⟩,
    ⟨TOOL_TERMINAL_WAIT, some GROUP_TERMINAL, TOOL_TERMINAL_WAIT, .allow⟩,
    ⟨TOOL_TERMINAL_WRITE, some GROUP_TERMINAL, TOOL_TERMINAL_WRITE, .ask⟩,
    ⟨TOOL_TERMINAL_KEYS, some GROUP_TERMINAL, TOOL_TERMINAL_KEYS, .ask⟩,
    ⟨TOOL_REMOTE_READ, some GROUP_REMOTE_FS, TOOL_REMOTE_READ, .allow⟩,
    ⟨TOOL_REMOTE_LIST, some GROUP_REMOTE_FS, TOOL_REMOTE_LIST, .allow⟩,
    ⟨TOOL_REMOTE_WRITE, some GROUP_REMOTE_FS, TOOL_REMOTE_WRITE, .ask⟩,
    ⟨TOOL_REMOTE_EDIT, some GROUP_REMOTE_FS, TOOL_REMOTE_WRITE, .ask⟩,
    ⟨TOOL_REMOTE_DELETE, some GROUP_REMOTE_FS, TOOL_REMOTE_WRITE, .ask⟩,
    ⟨TOOL_LOCAL_READ, some GROUP_LOCAL_FS, TOOL_LOCAL_READ, .allow⟩,
    ⟨TOOL_LOCAL_LIST, some GROUP_LOCAL_FS, TOOL_LOCAL_LIST, .allow⟩,
    ⟨TOOL_LOCAL_GREP, some GROUP_LOCAL_FS, TOOL_LOCAL_LIST, .allow⟩,
    ⟨TOOL_LOCAL_WRITE, some GROUP_LOCAL_FS, TOOL_LOCAL_WRITE, .ask⟩,
    ⟨TOOL_LOCAL_EDIT, some GROUP_LOCAL_FS, TOOL_LOCAL_WRITE, .ask⟩,
    ⟨TOOL_LOCAL_DELETE, some GROUP_LOCAL_FS, TOOL_LOCAL_WRITE, .ask⟩,
    ⟨TOOL_LOCAL_MOVE, some GROUP_LOCAL_FS, TOOL_LOCAL_WRITE, .ask⟩,
    ⟨TOOL_LOCAL_MULTI_EDIT, some GROUP_LOCAL_FS, TOOL_LOCAL_WRITE, .ask⟩,
    ⟨TOOL_LOCAL_PATCH, some GROUP_LOCAL_FS, TOOL_LOCAL_WRITE, .ask⟩,
    ⟨TOOL_LOCAL_REPLACE, some GROUP_LOCAL_FS, TOOL_LOCAL_WRITE, .ask⟩,
    ⟨TOOL_LOCAL_RUN, some GROUP_LOCAL_FS, TOOL_LOCAL_RUN, .ask⟩,
    ⟨TOOL_DEV_VIEW, some GROUP_REMOTE_FS, TOOL_REMOTE_READ, .allow⟩,
    ⟨TOOL_DEV_LIST, some GROUP_REMOTE_FS, TOOL_REMOTE_LIST, .allow⟩,
    ⟨TOOL_DEV_FIND, some GROUP_REMOTE_FS, TOOL_REMOTE_LIST, .allow⟩,
    ⟨TOOL_DEV_GREP, some GROUP_REMOTE_FS, TOOL_REMOTE_LIST, .allow⟩,
    ⟨TOOL_DEV_EDIT, some GROUP_REMOTE_FS, TOOL_REMOTE_WRITE, .ask⟩,
    ⟨TOOL_DEV_CREATE, some GROUP_REMOTE_FS, TOOL_REMOTE_WRITE, .ask⟩,
    ⟨TOOL_DEV_DIFF, some GROUP_REMOTE_FS, TOOL_REMOTE_WRITE, .ask⟩,
    ⟨TOOL_WEB_FETCH, some GROUP_WEB_ACCESS, TOOL_WEB_FETCH, .ask⟩,
    ⟨TOOL_WEB_SEARCH, some GROUP_WEB_ACCESS, TOOL_WEB_SEARCH, .ask⟩,
    ⟨TOOL_RAG_SEARCH, some GROUP_KNOWLEDGE_BASE, TOOL_RAG_SEARCH, .allow⟩,
    ⟨TOOL_CURRENT_TIME, none, TOOL_CURRENT_TIME, .allow⟩]

def gate (tool : String) : Option Gate := GATES.find? (·.tool == tool)

def GROUP_KEY_PREFIX : String := "apiGroup:ai-agent:"
def METHOD_KEY_PREFIX : String := "apiMethod:ai-agent:"

/-- The setting that switches a group on. -/
def group_key (group : String) : String := GROUP_KEY_PREFIX ++ group

/-- The setting that holds a tool's decision. -/
def method_key (tool : String) : String := METHOD_KEY_PREFIX ++ tool

section Settings

variable (settings : Json)

def group_enabled (group : String) : Bool := ((settings.get (group_key group)).as_bool).getD false

def stored (key : String) : Option Permission := (settings.get key).as_str.bind Permission.parse

def resolve (g : Gate) : Permission :=
  if g.group.any fun group => !group_enabled settings group then .deny
  else (stored settings (method_key g.leader)).getD g.default

/-- Read the decisions out of a host's settings. -/
def Permissions.from_settings : Permissions :=
  { decisions := GATES.map fun g => (g.tool, resolve settings g) }

/-- A tool that is not gated is allowed. -/
theorem decision_from_settings (tool : String) :
    (Permissions.from_settings settings).decision tool =
      ((gate tool).map (resolve settings)).getD .allow := by
  simp only [Permissions.decision, Permissions.from_settings, gate, List.find?_map,
    Option.map_map]
  rfl

/-- **A group that is off**: all its tools are denied. -/
theorem decision_of_group_off {tool group : String} {g : Gate} (hg : gate tool = some g)
    (hgroup : g.group = some group) (hoff : group_enabled settings group = false) :
    (Permissions.from_settings settings).decision tool = .deny := by
  rw [decision_from_settings, hg, Option.map_some, Option.getD_some, resolve, if_pos]
  rw [hgroup, Option.any_some, hoff]
  rfl

end Settings

/-! ## Past the gate -/

namespace Agent

/-- The call is past its gate: it runs, or it waits for more from the user. -/
def holds (a : Agent) (call : ApiToolCall) : Prop :=
  match a.phase with
  | some (.approving held ..) | some (.running held ..) | some (.asking held ..)
  | some (.sudo_prompt held ..) => held = call
  | _ => False

/-- The call waits before its gate. -/
def waits (a : Agent) (call : ApiToolCall) : Prop :=
  match a.phase with
  | some (.allowing waiting ..) => waiting = call
  | _ => False

/-- What lets a call through: the settings, or the user. -/
def lets (a : Agent) (s : Step) (call : ApiToolCall) : Prop :=
  a.permission call.name = .allow ∨
    match s with
    | .answer_permission _ true => a.waits call
    | .allow_everything _ => a.waits call ∨ a.permissions.decision call.name = .ask
    | _ => False

/-- From `a` to `b`, only calls that are `ok` are past their gates, and only those and the ones
`asked` about wait before them; the permissions of `b` are `p`. -/
structure Within (ok asked : ApiToolCall → Prop) (p : Permissions) (a b : Agent) : Prop where
  log : ∃ events, b.log = a.log ++ events ∧
    ∀ call request, .request call request ∈ events → ok call
  holds : ∀ call, b.holds call → ok call
  waits : ∀ call, b.waits call → ok call ∨ asked call
  permissions : b.permissions = p

/-- What the settings allow, and what they ask about. -/
structure Covers (ok asked : ApiToolCall → Prop) (a : Agent) : Prop where
  allowed : ∀ call, a.permission call.name = .allow → ok call
  asked : ∀ call, a.permission call.name = .ask → asked call

variable {ok asked : ApiToolCall → Prop} {a b c : Agent} {call : ApiToolCall}
  {p : Permissions}

theorem holds_of_idle (h : a.phase = none) : ¬ a.holds call := by
  unfold holds
  rw [h]
  exact id

theorem waits_of_idle (h : a.phase = none) : ¬ a.waits call := by
  unfold waits
  rw [h]
  exact id

theorem holds_congr (h : b.phase = a.phase) : b.holds call ↔ a.holds call := by
  unfold holds
  rw [h]

theorem waits_congr (h : b.phase = a.phase) : b.waits call ↔ a.waits call := by
  unfold waits
  rw [h]

/-- What is parked on a call holds it, or waits before its gate. -/
theorem eq_of_holds_parked {phase : Phase} {held : ApiToolCall} (h : Parked call phase)
    (hphase : a.phase = some phase) (hholds : a.holds held) : held = call := by
  unfold holds at hholds
  rw [hphase] at hholds
  cases h with
  | allowing => exact hholds.elim
  | approving | running | asking | sudo_prompt => exact hholds.symm

theorem eq_of_waits_parked {phase : Phase} {waiting : ApiToolCall} (h : Parked call phase)
    (hphase : a.phase = some phase) (hwaits : a.waits waiting) : waiting = call := by
  unfold waits at hwaits
  rw [hphase] at hwaits
  cases h with
  | allowing => exact hwaits.symm
  | approving | running | asking | sudo_prompt => exact hwaits.elim

namespace Within

theorem idle (hlog : b.log = a.log) (hphase : b.phase = none) (hp : b.permissions = p) :
    Within ok asked p a b where
  log := ⟨[], by rw [hlog, List.append_nil], by simp⟩
  holds call h := absurd h (holds_of_idle hphase)
  waits call h := absurd h (waits_of_idle hphase)
  permissions := hp

theorem same (hlog : b.log = a.log) (hphase : b.phase = a.phase) (hp : b.permissions = p)
    (hholds : ∀ call, a.holds call → ok call)
    (hwaits : ∀ call, a.waits call → ok call ∨ asked call) : Within ok asked p a b where
  log := ⟨[], by rw [hlog, List.append_nil], by simp⟩
  holds call h := hholds call ((holds_congr hphase).mp h)
  waits call h := hwaits call ((waits_congr hphase).mp h)
  permissions := hp

/-- First more of the log, then the rest. -/
theorem after (events : List Event) (h : Within ok asked p b c) (hlog : b.log = a.log ++ events)
    (hevents : ∀ call request, .request call request ∈ events → ok call) :
    Within ok asked p a c where
  log := by
    obtain ⟨more, hmore, hok⟩ := h.log
    refine ⟨events ++ more, by rw [hmore, hlog, List.append_assoc], fun call request hmem => ?_⟩
    rcases List.mem_append.mp hmem with hmem | hmem
    · exact hevents call request hmem
    · exact hok call request hmem
  holds := h.holds
  waits := h.waits
  permissions := h.permissions

theorem of_log_eq (h : Within ok asked p b c) (hlog : b.log = a.log) : Within ok asked p a c :=
  h.after [] (by rw [hlog, List.append_nil]) (by simp)

end Within

section Engine

variable (env : Env) (engine : Anchored.Engine)

/-- What starting a call asks for, and parks on, is let through by the settings. -/
theorem dispatch_allowed {turn : ℕ} {label : List Char} (ran : Ran)
    (h : ran = dispatch env a call turn engine label) :
    (ran.requests ≠ [] → a.permission call.name = .allow) ∧
      ∀ phase, ran.outcome = .park phase → Parked call phase ∧
        (a.permission call.name = .allow ∨
          a.permission call.name = .ask ∧ ∃ turn label, phase = .allowing call turn label) := by
  have hfits := dispatch_fits env a call turn engine label
  rw [← h] at hfits
  refine ⟨fun hne => ?_, fun phase hpark => ⟨hfits.parked phase hpark, ?_⟩⟩
  · rw [h] at hne
    unfold dispatch at hne
    split at hne
    · assumption
    · exact absurd rfl hne
    · exact absurd rfl hne
  · rw [h] at hpark
    unfold dispatch at hpark
    split at hpark
    · exact .inl ‹_›
    · cases hpark
    · cases hpark
      exact .inr ⟨‹_›, _, _, rfl⟩

/-- The agent parked on a call that got through, or waits before its gate. -/
theorem parked_within {ran : Ran} {phase : Phase} {queue : List ApiToolCall}
    (hparked : Parked call phase) (hrequests : ran.requests ≠ [] → ok call)
    (hpark : ok call ∨ asked call ∧ ∃ turn label, phase = .allowing call turn label) :
    Within ok asked a.permissions a { a.apply call ran with phase := some phase, queue } := by
  refine ⟨⟨ran.requests.map (.request call), rfl, fun other request hmem => ?_⟩,
    fun held hholds => ?_, fun waiting hwaits => ?_, rfl⟩
  · obtain ⟨request', hmem', heq⟩ := List.mem_map.mp hmem
    cases heq
    exact hrequests (List.ne_nil_of_mem hmem')
  · obtain rfl := eq_of_holds_parked hparked rfl hholds
    obtain hok | ⟨-, turn, label, rfl⟩ := hpark
    · exact hok
    · exact hholds.elim
  · obtain rfl := eq_of_waits_parked hparked rfl hwaits
    exact hpark.imp id And.left

theorem advance_within : ∀ (queue : List ApiToolCall) (a : Agent), a.phase = none →
    Covers ok asked a → Within ok asked a.permissions a (advance env engine a queue)
  | [], a, hphase, _ => .idle rfl hphase rfl
  | call :: queue, a, hphase, hc => by
    unfold advance
    dsimp only
    set a' : Agent := { a with turns := a.turns ++ [.tool call.name (call_label call) [] false] }
    obtain ⟨hrequests, hpark⟩ :=
      dispatch_allowed env engine (a := a') (dispatch env a' call a.turns.length engine
        (a'.label a.turns.length)) rfl
    generalize dispatch env a' call a.turns.length engine (a'.label a.turns.length) = ran
      at hrequests hpark
    split
    · rename_i label output failed _
      have hrest := advance_within queue
        ((a'.apply call ran).record call a.turns.length label output failed) hphase
        ⟨hc.allowed, hc.asked⟩
      refine hrest.after (ran.requests.map (.request call)) rfl fun other request hmem => ?_
      obtain ⟨request', hmem', heq⟩ := List.mem_map.mp hmem
      cases heq
      exact hc.allowed call (hrequests (List.ne_nil_of_mem hmem'))
    · rename_i phase houtcome
      obtain ⟨hparked, hallowed⟩ := hpark phase houtcome
      have hpassed : ok call ∨ asked call ∧ ∃ turn label, phase = .allowing call turn label :=
        hallowed.imp (hc.allowed call) (And.imp_left (hc.asked call))
      exact (parked_within (a := a') hparked (fun hne => hc.allowed call (hrequests hne))
        hpassed).of_log_eq rfl

theorem settle_within (hphase : a.phase = none) (hc : Covers ok asked a) (turn : ℕ)
    (label output : List Char) (failed : Bool) :
    Within ok asked a.permissions a (a.settle env engine call turn label output failed) :=
  (advance_within env engine a.queue (a.record call turn label output failed) hphase
    ⟨hc.allowed, hc.asked⟩).of_log_eq rfl

/-- A call that got through goes on. -/
theorem follow_within (hphase : a.phase = none) (hc : Covers ok asked a) (hcall : ok call)
    {ran : Ran} (hparked : ∀ phase, ran.outcome = .park phase → Parked call phase) (turn : ℕ) :
    Within ok asked a.permissions a (a.follow env engine call turn ran) := by
  unfold follow
  dsimp only
  split
  · refine (settle_within (a := a.apply call ran) env engine hphase ⟨hc.allowed, hc.asked⟩ _ _ _
      _).after _ rfl fun other request hmem => ?_
    obtain ⟨request', hmem', heq⟩ := List.mem_map.mp hmem
    cases heq
    exact hcall
  · rename_i phase houtcome
    exact parked_within (hparked phase houtcome) (fun _ => hcall) (.inl hcall)

/-! ### Prompts -/

theorem answer_permission_within (hc : Covers ok asked a) (allow : Bool)
    (hwaits : allow = true → ∀ call, a.waits call → ok call) :
    Within ok asked a.permissions a (a.answer_permission env engine allow) := by
  unfold answer_permission
  split
  · rename_i call turn label hphase
    have hidle : Covers ok asked a.drop_phase := ⟨hc.allowed, hc.asked⟩
    dsimp only
    split
    · rename_i hallow
      have hcall : ok call := hwaits hallow call (by rw [waits, hphase])
      have hfits := run_tool_fits env a.drop_phase call turn engine
      exact (follow_within env engine rfl hidle hcall hfits.parked turn).of_log_eq rfl
    · exact (settle_within env engine rfl hidle turn _ _ _).of_log_eq rfl
  · exact .idle rfl rfl rfl

/-- The command of a call that got through starts. -/
theorem start_command_within (hphase : a.phase = none) (hc : Covers ok asked a) (hcall : ok call)
    (command : List Char) (sudo_stdin : Option (List Char)) :
    Within ok asked a.permissions a (a.start_command env engine call command sudo_stdin) :=
  follow_within env engine hphase hc hcall (fun _ hpark => exec_command_parked env a call _ hpark) _

variable (hc : Covers ok asked a) (hholds : ∀ call, a.holds call → ok call)
include hc hholds

theorem approve_within (allow : Bool) (remember : Option ℕ) :
    Within ok asked a.permissions a (a.approve env engine allow remember) := by
  unfold approve
  split
  · rename_i call command scopes hphase
    have hcall : ok call := hholds call (by rw [holds, hphase])
    dsimp only
    split
    · exact (start_command_within
        (a := { a.drop_phase with session_allow := a.session_allow ++ remembered remember scopes })
        env engine rfl ⟨hc.allowed, hc.asked⟩ hcall command none).of_log_eq rfl
    · exact (settle_within
        (a := { a.drop_phase with session_deny := a.session_deny ++ remembered remember scopes })
        env engine rfl ⟨hc.allowed, hc.asked⟩ _ _ _ _).of_log_eq rfl
  · exact .idle rfl rfl rfl

theorem approve_everything_within :
    Within ok asked a.permissions a (a.approve_everything env engine) := by
  unfold approve_everything
  split
  · rename_i call command scopes hphase
    have hcall : ok call := hholds call (by rw [holds, hphase])
    exact (start_command_within
      (a := { a.drop_phase with session_allow := a.session_allow ++ [ALLOW_ALL_PATTERN] }) env
      engine rfl ⟨hc.allowed, hc.asked⟩ hcall command none).of_log_eq rfl
  · exact .idle rfl rfl rfl

theorem submit_sudo_within (password : List Char) :
    Within ok asked a.permissions a (a.submit_sudo env engine password) := by
  unfold submit_sudo
  split
  · rename_i call command reason hphase
    have hcall : ok call := hholds call (by rw [holds, hphase])
    refine (start_command_within
      (a := { a.drop_phase with log := a.log ++ [Event.sudo_answer call command] }) env engine rfl
      ⟨hc.allowed, hc.asked⟩ hcall command _).after _ rfl fun other request hmem => ?_
    cases List.mem_singleton.mp hmem
  · exact .idle rfl rfl rfl

omit hholds in
theorem cancel_sudo_within : Within ok asked a.permissions a (a.cancel_sudo env engine) := by
  unfold cancel_sudo
  split
  · exact (settle_within (a := a.drop_phase) env engine rfl ⟨hc.allowed, hc.asked⟩ _ _ _
      _).of_log_eq rfl
  · exact .idle rfl rfl rfl

theorem answer_within (hwaits : ∀ call, a.waits call → ok call ∨ asked call) (text : List Char) :
    Within ok asked a.permissions a (a.answer env engine text) := by
  unfold answer
  dsimp only
  split
  · exact .same rfl rfl rfl hholds hwaits
  · split
    · rename_i call questions current answers hphase
      have hcall : ok call := hholds call (by rw [holds, hphase])
      split
      · exact .same rfl rfl rfl hholds hwaits
      · split
        · refine ⟨⟨[], (List.append_nil _).symm, by simp⟩, fun held hheld => ?_,
            fun _ h => h.elim, rfl⟩
          exact (show call = held from hheld) ▸ hcall
        · exact (settle_within
            (a := { a.drop_phase with turns := answer_question (Text.trim text) a.turns }) env
            engine rfl ⟨hc.allowed, hc.asked⟩ _ _ _ _).of_log_eq rfl
    · exact .idle rfl rfl rfl

/-! ### Replies and tools -/

omit hc hholds in
theorem drop_empty_reply_permissions (a : Agent) (turn : ℕ) :
    (a.drop_empty_reply turn).permissions = a.permissions ∧
      (a.drop_empty_reply turn).allow_all = a.allow_all := by
  unfold drop_empty_reply
  split
  · split <;> exact ⟨rfl, rfl⟩
  · exact ⟨rfl, rfl⟩

omit hc hholds in
theorem fail_reply_within (hphase : a.phase = none) (turn : ℕ) (error : List Char) :
    Within ok asked a.permissions a (a.fail_reply turn error) := by
  obtain ⟨hphase', -, -, hlog⟩ := drop_empty_reply_eq { a with error := some error } turn
  exact .idle hlog (hphase'.trans hphase) (drop_empty_reply_permissions _ turn).1

omit hholds in
theorem finish_reply_within (hphase : a.phase = none) (turn : ℕ)
    (result : Except (List Char) Completion) :
    Within ok asked a.permissions a (a.finish_reply env engine turn result) := by
  unfold finish_reply
  split
  · exact fail_reply_within hphase turn _
  · rename_i completion
    split
    · exact fail_reply_within hphase turn _
    · generalize a.fill_reply turn completion.text = written
      obtain ⟨turns, text⟩ := written
      dsimp only
      obtain ⟨hphase', -, -, hlog⟩ := drop_empty_reply_eq { a with turns } turn
      obtain ⟨hpermissions, hall⟩ := drop_empty_reply_permissions { a with turns } turn
      generalize ({ a with turns } : Agent).drop_empty_reply turn = b
        at hphase' hlog hpermissions hall
      have hidle : b.phase = none := hphase'.trans hphase
      have hpermission (call : ApiToolCall) : b.permission call.name = a.permission call.name := by
        unfold permission
        rw [hpermissions, hall]
      split
      · exact .idle hlog hidle hpermissions
      · have hcovers : Covers ok asked b :=
          ⟨fun call h => hc.allowed call ((hpermission call).symm.trans h),
            fun call h => hc.asked call ((hpermission call).symm.trans h)⟩
        have hnext := advance_within env engine completion.tool_calls
          { b with history := b.history ++ [.assistant text completion.tool_calls], queue := [] }
          hidle ⟨hcovers.allowed, hcovers.asked⟩
        exact hpermissions ▸ hnext.of_log_eq hlog

omit hholds in
theorem write_remote_within (hcall : ok call) (turn : ℕ) (target payload : List Char) :
    Within ok asked a.permissions a (a.write_remote env engine call turn target payload) := by
  unfold write_remote
  generalize split_payload payload = parts
  obtain ⟨content, diff⟩ := parts
  dsimp only
  split
  · exact (settle_within (a := { a with phase := none }) env engine rfl ⟨hc.allowed, hc.asked⟩ _ _ _
      _).of_log_eq rfl
  · refine ⟨⟨_, rfl, fun other request hmem => ?_⟩, fun held hheld => ?_, fun _ h => h.elim, rfl⟩
    · cases List.mem_singleton.mp hmem
      exact hcall
    · exact (show call = held from hheld) ▸ hcall

omit hc hholds in
/-- A remote read is asked for again. -/
theorem ask_again_log (waiting : Waiting) (hcall : ok call) :
    ∃ events, a.ask_again env call waiting = { a with log := a.log ++ events } ∧
      ∀ other request, .request other request ∈ events → ok other := by
  unfold ask_again
  split
  · refine ⟨_, rfl, fun other request hmem => ?_⟩
    cases List.mem_singleton.mp hmem
    exact hcall
  · refine ⟨[], ?_, by simp⟩
    rw [List.append_nil]

theorem poll_tool_within (hwaits : ∀ call, a.waits call → ok call ∨ asked call)
    (worker : Files.TryRecv (Except (List Char) (List Char))) :
    Within ok asked a.permissions a (a.poll_tool env engine worker) := by
  unfold poll_tool
  split
  · rename_i call turn waiting hphase
    have hcall : ok call := hholds call (by rw [holds, hphase])
    obtain ⟨events, hagain, hevents⟩ := ask_again_log (a := a) env waiting hcall
    dsimp only
    rw [hagain]
    split
    · exact ⟨⟨events, rfl, hevents⟩, hholds, hwaits, rfl⟩
    · rename_i cwd label output failed _
      exact (settle_within (a := { a with log := a.log ++ events, cwd, phase := none }) env engine
        rfl ⟨hc.allowed, hc.asked⟩ _ _ _ _).after _ rfl hevents
    · rename_i cwd target payload _
      exact (write_remote_within (a := { a with log := a.log ++ events, cwd }) env engine
        ⟨hc.allowed, hc.asked⟩ hcall _ _ _).after _ rfl hevents
  · exact .same rfl rfl rfl hholds hwaits

theorem poll_within (hwaits : ∀ call, a.waits call → ok call ∨ asked call) (stream : Stream)
    (worker : Files.TryRecv (Except (List Char) (List Char))) :
    Within ok asked a.permissions a (a.poll env engine stream worker) := by
  unfold poll
  split
  · rename_i turn hphase
    dsimp only
    split
    · exact .same rfl rfl rfl hholds hwaits
    · rename_i result _
      exact (finish_reply_within
        (a := { a with turns := a.stream_turns turn stream.delta, phase := none }) env engine
        ⟨hc.allowed, hc.asked⟩ rfl turn result).of_log_eq rfl
  · exact poll_tool_within env engine hc hholds hwaits worker
  · exact .same rfl rfl rfl hholds hwaits

end Engine

/-! ### One step -/

section Step

variable (hholds : ∀ call, a.holds call → ok call)
  (hwaits : ∀ call, a.waits call → ok call ∨ asked call)

theorem request_within : Within ok asked a.permissions a a.request := by
  refine ⟨⟨_, rfl, fun call request hmem => ?_⟩, fun _ h => h.elim, fun _ h => h.elim, rfl⟩
  cases List.mem_singleton.mp hmem

include hholds hwaits

theorem push_user_within (text : List Char) (info : UserMeta) :
    Within ok asked a.permissions a (a.push_user text info) := by
  unfold push_user
  dsimp only
  split <;> exact .same rfl rfl rfl hholds hwaits

theorem stop_within : Within ok asked a.permissions a a.stop := by
  unfold stop
  dsimp only
  split
  · exact .same rfl rfl rfl hholds hwaits
  all_goals exact .idle rfl rfl rfl

theorem stop_command_within (env : Env) : Within ok asked a.permissions a (a.stop_command env) := by
  unfold stop_command
  split
  · rename_i call _ _ _ _ hphase _
    refine ⟨⟨_, rfl, fun other request hmem => ?_⟩, hholds, hwaits, rfl⟩
    cases List.mem_singleton.mp hmem
    refine hholds call ?_
    unfold holds
    rw [hphase]
  · exact .same rfl rfl rfl hholds hwaits

end Step

/-- The calls that may be past their gates after this step. -/
def Passes (a : Agent) (s : Step) (call : ApiToolCall) : Prop := a.holds call ∨ a.lets s call

/-- The calls the user may be asked about after this step. -/
def Asks (a : Agent) (call : ApiToolCall) : Prop := a.waits call ∨ a.permission call.name = .ask

/-- The permissions after a step. -/
def permissions_after (a : Agent) : Step → Permissions
  | .apply_settings settings => settings.permissions
  | _ => a.permissions

/-- **One step** lets no other call through. -/
theorem step_within (engine : Anchored.Engine) (a : Agent) (s : Step) :
    Within (a.Passes s) a.Asks (a.permissions_after s) a (step engine a s) := by
  have hc : Covers (a.Passes s) a.Asks a := ⟨fun _ h => .inr (.inl h), fun _ h => .inr h⟩
  have hholds : ∀ call, a.holds call → a.Passes s call := fun _ => .inl
  have hwaits : ∀ call, a.waits call → a.Passes s call ∨ a.Asks call := fun _ h => .inr (.inl h)
  have hsame (b : Agent) (hlog : b.log = a.log) (hphase : b.phase = a.phase)
      (hp : b.permissions = a.permissions_after s) :
      Within (a.Passes s) a.Asks (a.permissions_after s) a b :=
    .same hlog hphase hp hholds hwaits
  cases s with
  | apply_settings settings => exact hsame _ rfl rfl rfl
  | push_user text info => exact push_user_within hholds hwaits text info
  | send_message text info =>
    simp only [step, send_message]
    split
    · exact hsame _ rfl rfl rfl
    · obtain ⟨hlog, hpermissions⟩ : (a.push_user text info).log = a.log ∧
          (a.push_user text info).permissions = a.permissions := by
        unfold push_user
        dsimp only
        split <;> exact ⟨rfl, rfl⟩
      have hnext : Within (a.Passes (.send_message text info)) a.Asks
          (a.push_user text info).permissions a (a.push_user text info).request :=
        request_within.of_log_eq hlog
      rw [hpermissions] at hnext
      exact hnext
  | inject_user text info =>
    simp only [step, inject_user]
    split <;> exact hsame _ rfl rfl rfl
  | flush_injected =>
    simp only [step, flush_injected]
    split <;> exact hsame _ rfl rfl rfl
  | rewind_to index =>
    simp only [step, rewind_to]
    split
    · split <;> exact hsame _ rfl rfl rfl
    · exact hsame _ rfl rfl rfl
  | repair_history => exact hsame _ rfl rfl rfl
  | reply =>
    simp only [step, reply]
    split
    · exact (request_within (a := { a with needs_reply := false })).of_log_eq rfl
    · exact hsame _ rfl rfl rfl
  | resume =>
    simp only [step, resume]
    split
    · exact request_within
    · exact hsame _ rfl rfl rfl
  | poll env stream worker => exact poll_within env engine hc hholds hwaits stream worker
  | answer_permission env allow =>
    refine answer_permission_within env engine hc allow fun hallow call h => ?_
    subst hallow
    exact .inr (.inr h)
  | allow_everything env =>
    refine (answer_permission_within
      (a := { a with allow_all := true, session_allow := a.session_allow ++ [ALLOW_ALL_PATTERN] })
      env engine ⟨fun call h => ?_, fun call h => ?_⟩ true fun _ call h => ?_).of_log_eq rfl
    · cases hd : a.permissions.decision call.name with
      | allow =>
        refine .inr (.inl ?_)
        unfold permission
        rw [hd]
      | ask => exact .inr (.inr (.inr hd))
      | deny =>
        simp only [permission, hd] at h
        cases h
    · simp only [permission] at h
      split at h
      · cases h
      · exact absurd h ‹_›
    · exact .inr (.inr (.inl h))
  | approve env allow remember => exact approve_within env engine hc hholds allow remember
  | approve_everything env => exact approve_everything_within env engine hc hholds
  | submit_sudo env password => exact submit_sudo_within env engine hc hholds password
  | cancel_sudo env => exact cancel_sudo_within env engine hc
  | answer env text => exact answer_within env engine hc hholds hwaits text
  | stop => exact stop_within hholds hwaits
  | stop_command env => exact stop_command_within hholds hwaits env
  | clear => exact .idle rfl rfl rfl

end Agent

/-! ## Runs -/

/-- What one step asks of the session. -/
def requests_of (a b : Agent) : List (ApiToolCall × Request) :=
  (b.log.drop a.log.length).filterMap fun
    | .request call request => some (call, request)
    | _ => none

section Runs

variable (engine : Anchored.Engine)

/-- One of these steps let the call through, and it is held since. -/
def Cleared (steps : List Step) (call : ApiToolCall) : Prop :=
  StepRun.Since (step engine) Agent.holds Agent.lets {} steps call

/-- **Nothing is asked for past a gate**: whatever the agent asks of the session, in any step of any
run, it asks for a call that the settings or the user let through, in that step or in an earlier one
since which the call is held. -/
theorem requests_gated (steps : List Step) (s : Step) {call : ApiToolCall} {request : Request}
    (h : (call, request) ∈ requests_of (StepRun.run (step engine) {} steps)
      (StepRun.run (step engine) {} (steps ++ [s]))) :
    (StepRun.run (step engine) {} steps).lets s call ∨ Cleared engine steps call := by
  rw [StepRun.run_append, StepRun.run_cons, StepRun.run_nil] at h
  obtain ⟨events, hlog, hpasses⟩ :=
    (Agent.step_within engine (StepRun.run (step engine) {} steps) s).log
  have hmem : Event.request call request ∈ events := by
    rw [requests_of, hlog, List.drop_left] at h
    obtain ⟨event, hevent, heq⟩ := List.mem_filterMap.mp h
    split at heq
    · cases heq
      exact hevent
    · cases heq
  refine (hpasses call request hmem).symm.imp id fun hholds => ?_
  exact StepRun.since_of_holds (fun a s call => (Agent.step_within engine a s).holds call)
    (fun _ => Agent.holds_of_idle rfl) steps hholds

/-- A session that is connected, and silent. -/
def quiet_session : Env where
  session := some
    { output := fun _ => none, failure := fun _ => none, read := fun _ _ => none, listing := none
      is_transferring := false, transfer_status := none, screen_text := [] }
  run_local _ := .ok []

/-- A message to an agent on a host with these settings, answered with one call. -/
def called_once (settings : Json) (call : ApiToolCall) : List Step :=
  [.apply_settings ⟨[], [], [], [], .from_settings settings, 0⟩, .send_message ['a'] ⟨0, false⟩,
    .poll quiet_session { done := some (.ok ⟨[], [call], none⟩) } .empty]

/-- The model types into the terminal. -/
def typed_ls : ApiToolCall := ⟨"call_0", TOOL_TERMINAL_WRITE, .obj [("text", .str "ls")]⟩

def terminal_on : Json := .obj [(group_key GROUP_TERMINAL, .bool true)]

/-- The answer that lets it through. -/
theorem requests_gated_typed :
    (StepRun.run (step Anchored.anchored) {} (called_once terminal_on typed_ls)).lets
      (.answer_permission quiet_session true) typed_ls ∨
      Cleared Anchored.anchored (called_once terminal_on typed_ls) typed_ls := by
  have hasked : (typed_ls, Request.type_text "ls".toList) ∈
      requests_of (StepRun.run (step Anchored.anchored) {} (called_once terminal_on typed_ls))
        (StepRun.run (step Anchored.anchored) {}
          (called_once terminal_on typed_ls ++ [.answer_permission quiet_session true])) :=
    List.mem_singleton.mpr rfl
  exact requests_gated Anchored.anchored _ _ hasked

/-! ## A group that is off -/

/-- The settings the pane hands over, if it does, are read from a host's with that group off. -/
def Off (group : String) : Step → Prop
  | .apply_settings s => ∃ settings : Json, s.permissions = .from_settings settings ∧
    group_enabled settings group = false
  | _ => True

/-- A call that nothing lets through. -/
structure Shut (call : ApiToolCall) (a : Agent) : Prop where
  denied : a.permissions.decision call.name = .deny
  holds : ¬ a.holds call
  waits : ¬ a.waits call
  log : ∀ request, .request call request ∉ a.log

theorem shut_step {call : ApiToolCall} {a : Agent} (h : Shut call a) (s : Step)
    (hp : (a.permissions_after s).decision call.name = .deny) : Shut call (step engine a s) := by
  have hwithin := Agent.step_within engine a s
  have hdenied : a.permission call.name = .deny := by
    unfold Agent.permission
    rw [h.denied]
  have hpasses : ¬ a.Passes s call := by
    rintro (hholds | hallow | hlets)
    · exact h.holds hholds
    · rw [hdenied] at hallow
      cases hallow
    · split at hlets
      · exact h.waits hlets
      · exact hlets.elim h.waits fun hask => by
          rw [h.denied] at hask
          cases hask
      · exact hlets
  refine ⟨hwithin.permissions ▸ hp, fun hholds => hpasses (hwithin.holds call hholds),
    fun hwaits => ?_, fun request hmem => ?_⟩
  · obtain hp | hasks | hask := hwithin.waits call hwaits
    · exact hpasses hp
    · exact h.waits hasks
    · rw [hdenied] at hask
      cases hask
  · obtain ⟨events, hlog, hevents⟩ := hwithin.log
    rw [hlog, List.mem_append] at hmem
    exact hmem.elim (h.log request) fun hnew => hpasses (hevents call request hnew)

theorem shut_run {call : ApiToolCall} {group : String} {g : Gate} (hg : gate call.name = some g)
    (hgroup : g.group = some group) (steps : List Step) (hoff : ∀ s ∈ steps, Off group s)
    {a : Agent} (h : Shut call a) : Shut call (StepRun.run (step engine) a steps) := by
  induction steps generalizing a with
  | nil => exact h
  | cons s steps ih =>
    refine ih (fun s hs => hoff s (List.mem_cons_of_mem _ hs)) (shut_step engine h s ?_)
    have hs := hoff s List.mem_cons_self
    cases s with
    | apply_settings settings =>
      obtain ⟨host, hpermissions, hgroup_off⟩ := hs
      change settings.permissions.decision call.name = .deny
      rw [hpermissions]
      exact decision_of_group_off host hg hgroup hgroup_off
    | _ => exact h.denied

/-- **A group that is off**: as long as the host's settings keep a group switched off, nothing is
asked of the session for any of its tools, and none of them runs or waits, whatever the model calls
and the user answers. -/
theorem group_off_never (settings : Settings) (steps : List Step) {group : String}
    (hoff : ∀ s ∈ Step.apply_settings settings :: steps, Off group s) {call : ApiToolCall}
    {g : Gate} (hg : gate call.name = some g) (hgroup : g.group = some group) :
    Shut call (StepRun.run (step engine) {} (.apply_settings settings :: steps)) := by
  obtain ⟨host, hpermissions, hgroup_off⟩ := hoff _ List.mem_cons_self
  have hstart : Shut call (step engine {} (.apply_settings settings)) := by
    refine ⟨?_, Agent.holds_of_idle rfl, Agent.waits_of_idle rfl, fun _ => List.not_mem_nil⟩
    change settings.permissions.decision call.name = .deny
    rw [hpermissions]
    exact decision_of_group_off host hg hgroup hgroup_off
  exact shut_run engine hg hgroup steps (fun s hs => hoff s (List.mem_cons_of_mem _ hs)) hstart

/-- With no settings, every group is off. -/
theorem group_off_never_typed :
    Shut typed_ls (StepRun.run (step Anchored.anchored) {} (called_once (.obj []) typed_ls)) := by
  have hoff : ∀ s ∈ called_once (.obj []) typed_ls, Off GROUP_TERMINAL s := by
    refine List.forall_mem_cons.mpr ⟨⟨.obj [], rfl, rfl⟩, List.forall_mem_cons.mpr ⟨trivial, ?_⟩⟩
    exact List.forall_mem_singleton.mpr trivial
  have hgate : gate typed_ls.name =
      some ⟨TOOL_TERMINAL_WRITE, some GROUP_TERMINAL, TOOL_TERMINAL_WRITE, .ask⟩ := rfl
  exact group_off_never Anchored.anchored _ _ hoff hgate rfl

end Runs

end WaSSH.Agent
