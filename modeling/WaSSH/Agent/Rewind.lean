import WaSSH.Agent.Aligned
import WaSSH.Agent.History

/-!
# Rewinding

A click on a message of the user takes the conversation back to where it was sent. The history is
cut where the user messages before it have been counted off, so the count has to be right in every
conversation: one with messages typed into a run, one that was set aside, one that was restored.

* `RewindsRight`: what a rewind should do;
* `Agent.Timely`: nothing begins while a message is to be folded in;
* `Agent.step_aligned`, `Agent.rewinds_right`: then the lists stay aligned and are cut alike;
* `turns_from_json`, `history_from_json`, `Pane`: the conversations kept, and the pane's steps;
* **`pane_rewinds_right`**: the runs in which every rewind is right.
-/

set_option linter.dupNamespace false

namespace WaSSH.Agent

open Agent (Turn.is_user ApiMessage.is_user repair_message before_user answered_ids)

/-! ## What a rewind should do -/

/-- **A rewind to the user's message** cuts the turns before it and the history before its message;
every message left has its line, unless it only asks for tools, and every line of the user that is
left has its message. -/
structure RewindsRight (a : Agent) (index : ℕ) (text : List Char) : Prop where
  turns : (a.rewind_to index).turns = a.turns.take index
  cut : ∃ after, a.history = (a.rewind_to index).history ++ .user text :: after
  counted : (a.rewind_to index).history.countP ApiMessage.is_user =
    (a.rewind_to index).turns.countP Turn.is_user
  belongs : ∀ message ∈ (a.rewind_to index).history,
    Silent message ∨ ∃ turn ∈ (a.rewind_to index).turns, SameTalk turn message
  reported : ∀ turn ∈ (a.rewind_to index).turns, Turn.is_user turn = true →
    ∃ message ∈ (a.rewind_to index).history, SameTalk turn message

/-- Users are counted alike on both sides. -/
theorem Talks.countP_eq {turns : List Turn} {history : List ApiMessage} (h : Talks turns history) :
    turns.countP Turn.is_user = history.countP ApiMessage.is_user := by
  refine Told.countP_eq ?_ (fun _ halone => halone) ?_ h
  · rintro (_ | _ | _ | _ | _ | _ | _) (_ | _ | _) hsame <;> first | rfl | cases hsame
  · rintro (_ | _ | _) hsilent <;> first | rfl | cases hsilent

/-- The cut counts off the user messages in front of it. -/
theorem before_user_append (content : List Char) (last : List ApiMessage) :
    ∀ first : List ApiMessage,
      before_user (first.countP ApiMessage.is_user) (first ++ .user content :: last) = first
  | [] => rfl
  | .user text :: first => by
    have hcount : (ApiMessage.user text :: first).countP ApiMessage.is_user =
        first.countP ApiMessage.is_user + 1 := List.countP_cons_of_pos rfl
    rw [hcount]
    exact congrArg (ApiMessage.user text :: ·) (before_user_append content last first)
  | .assistant text calls :: first => by
    have hcount : (ApiMessage.assistant text calls :: first).countP ApiMessage.is_user =
        first.countP ApiMessage.is_user := List.countP_cons_of_neg Bool.false_ne_true
    rw [hcount]
    exact congrArg (ApiMessage.assistant text calls :: ·) (before_user_append content last first)
  | .tool id text :: first => by
    have hcount : (ApiMessage.tool id text :: first).countP ApiMessage.is_user =
        first.countP ApiMessage.is_user := List.countP_cons_of_neg Bool.false_ne_true
    rw [hcount]
    exact congrArg (ApiMessage.tool id text :: ·) (before_user_append content last first)

namespace Agent

variable {a : Agent}

theorem talks_of_timely (h : a.Aligned) (hinjected : a.injected = []) :
    Talks a.turns a.history := by
  have := h.talked
  unfold Talked at this
  rwa [pending_nil hinjected, List.append_nil] at this

theorem aligned_of_talks (hphase : a.phase = none) (hinjected : a.injected = [])
    (h : Talks a.turns a.history) : a.Aligned := by
  refine aligned_of_talked hphase ?_
  unfold Talked
  rwa [pending_nil hinjected, List.append_nil]

/-- What an aligned conversation is cut into. -/
theorem rewind_to_eq (h : a.Aligned) (hinjected : a.injected = []) (hblocked : a.blocked = false)
    {index : ℕ} {text : List Char} {info : UserMeta}
    (hturn : a.turns[index]? = some (.user text info)) :
    (a.rewind_to index).turns = a.turns.take index ∧
      (∃ after, a.history = (a.rewind_to index).history ++ .user text :: after) ∧
      Talks (a.rewind_to index).turns (a.rewind_to index).history := by
  have htalks := talks_of_timely h hinjected
  obtain ⟨hlt, hget⟩ := List.getElem?_eq_some_iff.mp hturn
  have hsplit : a.turns = a.turns.take index ++ .user text info :: a.turns.drop (index + 1) := by
    rw [← hget, List.getElem_cons_drop, List.take_append_drop]
  rw [hsplit] at htalks
  obtain ⟨first, message, last, hhistory, hsame, hfirst⟩ := Told.split_at htalks nofun
  obtain ⟨content, rfl⟩ : ∃ content, message = .user content := by
    cases message with
    | user content => exact ⟨content, rfl⟩
    | assistant _ _ => cases hsame
    | tool _ _ => cases hsame
  obtain rfl : text = content := hsame
  have hfirst' : Talks (a.turns.take index) first := hfirst
  have hrewound : (a.rewind_to index).turns = a.turns.take index ∧
      (a.rewind_to index).history = first := by
    unfold rewind_to
    rw [hturn]
    dsimp only
    rw [hblocked, if_neg Bool.false_ne_true, hhistory, hfirst'.countP_eq, before_user_append]
    exact ⟨rfl, rfl⟩
  rw [hrewound.1, hrewound.2]
  exact ⟨rfl, ⟨last, hhistory⟩, hfirst'⟩

/-- **An aligned conversation** is rewound right. -/
theorem rewinds_right (h : a.Aligned) (hinjected : a.injected = []) (hblocked : a.blocked = false)
    {index : ℕ} {text : List Char} {info : UserMeta}
    (hturn : a.turns[index]? = some (.user text info)) : RewindsRight a index text := by
  obtain ⟨hturns, hcut, htalks⟩ := rewind_to_eq h hinjected hblocked hturn
  refine ⟨hturns, hcut, htalks.countP_eq.symm, fun message hmessage => ?_,
    fun turn hmem huser => ?_⟩
  · exact Told.exists_shown htalks hmessage
  · refine (Told.exists_report htalks hmem).resolve_left fun halone => ?_
    rw [huser] at halone
    cases halone

/-! ## Steps of the conversation -/

theorem push_user_aligned (h : a.Aligned) (text : List Char) (info : UserMeta)
    (htimely : a.blocked = true ∨ a.injected = []) : (a.push_user text info).Aligned := by
  unfold push_user
  dsimp only
  split
  · exact h
  · rename_i hpush
    have hblocked : a.blocked = false := Bool.eq_false_iff.mpr (not_or.mp hpush).2
    have hinjected := htimely.resolve_left (Bool.eq_false_iff.mp hblocked)
    exact aligned_of_talks (phase_of_idle hblocked) hinjected
      (Told.concat (talks_of_timely h hinjected) rfl)

/-- A message typed into a run stands behind the open line. -/
theorem inject_user_aligned (h : a.Aligned) (text : List Char) (info : UserMeta) :
    (a.inject_user text info).Aligned := by
  unfold inject_user
  dsimp only
  split
  · exact h
  · obtain ⟨front, opened, back, hturns, hfront, hback, hopen⟩ := h
    refine ⟨front, opened, back ++ [.user (Text.trim text) info], ?_, hfront, ?_, ?_⟩
    · show a.turns ++ _ = _
      rw [hturns, List.append_assoc, List.append_assoc]
    · unfold pending
      rw [List.map_append]
      exact Told.concat hback rfl
    · refine hopen.behind fun turn hturn => ?_
      rw [List.mem_singleton.mp hturn]
      rfl

theorem flush_injected_aligned (h : a.Aligned) : a.flush_injected.Aligned := by
  unfold flush_injected
  split
  · exact h
  · rename_i hflush
    have hblocked : a.blocked = false := Bool.eq_false_iff.mpr (not_or.mp hflush).1
    exact aligned_of_talks (phase_of_idle hblocked) rfl h.talked

theorem rewind_to_aligned (h : a.Aligned) (index : ℕ)
    (htimely : a.blocked = true ∨ a.injected = []) : (a.rewind_to index).Aligned := by
  cases hblocked : a.blocked with
  | true =>
    unfold rewind_to
    split
    · rw [if_pos hblocked]
      exact h
    · exact h
  | false =>
    have hinjected := htimely.resolve_left (Bool.eq_false_iff.mp hblocked)
    rcases hturn : a.turns[index]? with _ | (⟨text, info⟩ | _ | _ | _ | _ | _ | _)
    · unfold rewind_to
      rw [hturn]
      exact h
    · obtain ⟨-, -, htalks⟩ := rewind_to_eq h hinjected hblocked hturn
      have hrest : (a.rewind_to index).phase = a.phase ∧
          (a.rewind_to index).injected = a.injected := by
        unfold rewind_to
        rw [hturn]
        dsimp only
        rw [if_neg (Bool.eq_false_iff.mp hblocked)]
        exact ⟨rfl, rfl⟩
      have hphase := phase_of_idle hblocked
      exact aligned_of_talks (hrest.1.trans hphase) (hrest.2.trans hinjected) htalks
    all_goals
      unfold rewind_to
      rw [hturn]
      exact h

/-- A repair takes nothing out of the history that is shown. -/
theorem talks_repair {turns : List Turn} {history : List ApiMessage} (answered : List String)
    (h : Talks turns history) : Talks turns (history.filterMap (repair_message answered)) := by
  refine Told.filterMap_right ?_ ?_ h
  · intro turn message hsame
    rcases message with content | ⟨content, calls⟩ | ⟨id, content⟩
    · exact .inl ⟨_, rfl, hsame⟩
    · have hturn : Turn.is_user turn = false := by
        cases turn <;> first | rfl | cases hsame
      rw [repair_message]
      split
      · refine .inl ⟨_, rfl, ?_⟩
        cases turn <;> exact hsame
      · exact .inr ⟨rfl, hturn⟩
    · exact .inl ⟨_, rfl, hsame⟩
  · intro message message' hsilent heq
    rcases message with content | ⟨content, calls⟩ | ⟨id, content⟩
    · cases hsilent
    · rw [repair_message] at heq
      split at heq
      · rw [← Option.some.inj heq]
        exact hsilent
      · cases heq
    · cases hsilent

theorem repair_history_aligned (h : a.Aligned) : a.repair_history.Aligned := by
  obtain ⟨front, opened, back, hturns, hfront, hback, hopen⟩ := h
  exact ⟨front, opened, back, hturns, talks_repair _ hfront, hback, hopen⟩

theorem request_aligned (h : a.Aligned) (hinjected : a.injected = []) : a.request.Aligned := by
  refine ⟨a.turns, [.assistant [] false], [], rfl, talks_repair _ (talks_of_timely h hinjected), ?_,
    rfl, [], false, rfl⟩
  rw [pending_nil (a := a.request) hinjected]
  exact talks_nil

theorem send_message_aligned (h : a.Aligned) (text : List Char) (info : UserMeta)
    (htimely : a.blocked = true ∨ a.injected = []) : (a.send_message text info).Aligned := by
  unfold send_message
  split
  · exact h
  · rename_i hsend
    have hinjected := htimely.resolve_left (not_or.mp hsend).2
    refine request_aligned (push_user_aligned h text info htimely) ?_
    unfold push_user
    dsimp only
    rw [if_neg hsend]
    exact hinjected

theorem abandon_tool_aligned {front back : List Turn} {call : ApiToolCall} {name : String}
    {was label : List Char} {had : Bool} (hphase : a.phase = none)
    (h : a.At front (.tool name label was had) back) :
    (a.abandon_tool call front.length).Aligned := by
  refine aligned_of_talked hphase ?_
  have hturns : (a.abandon_tool call front.length).turns =
      front ++ .tool name label STOPPED_BY_USER had :: back := by
    unfold abandon_tool
    rw [h.get]
    exact h.set _
  have hmessage : SameTalk (.tool name label STOPPED_BY_USER had) (.tool call.id STOPPED_BY_USER) :=
    rfl
  have htold := (Told.concat h.told hmessage).append h.behind
  rw [List.append_assoc] at htold
  unfold Talked
  rw [hturns]
  exact htold

/-- The call in flight is answered in its line, and a reply keeps what it has. -/
theorem stop_aligned (h : a.Aligned) : a.stop.Aligned := by
  have hprompt {call : ApiToolCall}
      (hwaits : ∀ place opened back, Opens place opened back a.phase → Waits call opened back) :
      ({ a with phase := none, queue := [] }.abandon_tool call (a.turn_for call)).Aligned := by
    obtain ⟨front, name, had, back, hat, htools, -⟩ := h.at_waits _ hwaits
    rw [turn_for_eq hat.turns ⟨⟨name, had, rfl⟩, htools⟩]
    exact abandon_tool_aligned (a := { a with phase := none, queue := [] }) rfl
      (hat.with_turns hat.turns rfl rfl)
  have hcopy := h
  obtain ⟨front, opened, back, hturns, hfront, hback, hopen⟩ := hcopy
  unfold stop
  dsimp only
  split
  · exact h
  · rename_i turn hphase
    rw [hphase] at hopen
    obtain ⟨rfl, text, stopped, rfl⟩ := hopen
    have hat : a.At front (.assistant text stopped) back := ⟨hturns, hfront, hback⟩
    rw [hat.get]
    refine aligned_of_talked rfl ?_
    have hset := hat.set (.assistant text true)
    have hshown : Talks (front ++ [.assistant text true]) a.history :=
      hfront.show_more fun turn hturn => by
        rw [List.mem_singleton.mp hturn]
        rfl
    have hall := hshown.append hback
    rw [List.append_assoc] at hall
    unfold Talked
    dsimp only
    rw [hset]
    exact hall
  · rename_i call turn waiting hphase
    rw [hphase] at hopen
    obtain ⟨rfl, name, label, was, had, rfl⟩ := hopen
    exact abandon_tool_aligned (a := { a with phase := none, queue := [] }) rfl
      ⟨hturns, hfront, hback⟩
  · rename_i call turn label hphase
    rw [hphase] at hopen
    obtain ⟨rfl, ⟨name, had, rfl⟩, -⟩ := hopen
    exact abandon_tool_aligned (a := { a with phase := none, queue := [] }) rfl
      ⟨hturns, hfront, hback⟩
  all_goals
    rename_i hphase
    refine hprompt ?_
    rw [hphase]
    exact fun _ _ _ hwaits => hwaits

/-! ## Steps -/

/-- **Nothing begins while a message is to be folded in**: no turn of the user and no reply, no call
behind one that is answered, and no rewind. -/
def Timely (a : Agent) : Step → Prop
  | .push_user .. | .send_message .. | .rewind_to _ => a.blocked = true ∨ a.injected = []
  | .reply => a.needs_reply = false ∨ a.injected = []
  | .resume => a.can_resume = false ∨ a.injected = []
  | .poll _ stream _ => a.next_calls stream = [] ∨ a.injected = []
  | .answer_permission .. | .allow_everything _ | .approve .. | .approve_everything _
  | .submit_sudo .. | .cancel_sudo _ | .answer .. => a.queue = [] ∨ a.injected = []
  | _ => True

/-- **One step** keeps the transcript and the history aligned. -/
theorem step_aligned (engine : Anchored.Engine) (h : a.Aligned) (s : Step) (htimely : a.Timely s) :
    (step engine a s).Aligned := by
  cases s with
  | apply_settings settings => exact h.congr rfl rfl rfl rfl
  | push_user text info => exact push_user_aligned h text info htimely
  | send_message text info => exact send_message_aligned h text info htimely
  | inject_user text info => exact inject_user_aligned h text info
  | flush_injected => exact flush_injected_aligned h
  | rewind_to index => exact rewind_to_aligned h index htimely
  | repair_history => exact repair_history_aligned h
  | reply =>
    show a.reply.Aligned
    unfold reply
    split
    · rename_i hreply
      have hinjected : a.injected = [] :=
        htimely.resolve_left fun hno => Bool.false_ne_true (hno.symm.trans hreply)
      have hquiet : ({ a with needs_reply := false } : Agent).Aligned := h.congr rfl rfl rfl rfl
      exact request_aligned hquiet hinjected
    · exact h
  | resume =>
    show a.resume.Aligned
    unfold resume
    split
    · rename_i hresume
      exact request_aligned h
        (htimely.resolve_left fun hno => Bool.false_ne_true (hno.symm.trans hresume))
    · exact h
  | poll env stream worker => exact poll_aligned env engine h stream worker htimely
  | answer_permission env allow => exact answer_permission_aligned env engine h allow htimely
  | allow_everything env =>
    have hallowed : { a with
        allow_all := true
        session_allow := a.session_allow ++ [ALLOW_ALL_PATTERN] : Agent }.Aligned :=
      h.congr rfl rfl rfl rfl
    exact answer_permission_aligned env engine hallowed true htimely
  | approve env allow remember => exact approve_aligned env engine h allow remember htimely
  | approve_everything env => exact approve_everything_aligned env engine h htimely
  | submit_sudo env password => exact submit_sudo_aligned env engine h password htimely
  | cancel_sudo env => exact cancel_sudo_aligned env engine h htimely
  | answer env text => exact answer_aligned env engine h text htimely
  | stop => exact stop_aligned h
  | stop_command env =>
    show (a.stop_command env).Aligned
    unfold stop_command
    split
    · exact h.congr rfl rfl rfl rfl
    · exact h
  | clear => exact aligned_of_talks rfl rfl talks_nil

end Agent

/-! ## The conversation as stored JSON -/

def json_text (text : List Char) : Json := .str (String.ofList text)

/-- One line of the stored transcript. -/
def turn_to_json : Turn → Json
  | .user text info =>
    .obj [("role", .str "user"), ("text", json_text text), ("attachments", .int info.attachments),
      ("terminal", .bool info.terminal)]
  | .assistant text stopped =>
    .obj [("role", .str "assistant"), ("text", json_text text), ("stopped", .bool stopped)]
  | .tool name label output failed =>
    .obj [("role", .str "tool"), ("name", .str name), ("label", json_text label),
      ("output", json_text output), ("failed", .bool failed)]
  | .denied reason => .obj [("role", .str "denied"), ("text", json_text reason)]
  | .question text answer =>
    .obj [("role", .str "question"), ("text", json_text text),
      ("answer", (answer.map json_text).getD .null)]
  | .error text => .obj [("role", .str "error"), ("text", json_text text)]
  | .notice text => .obj [("role", .str "notice"), ("text", json_text text)]

def turns_to_json (turns : List Turn) : Json := .arr (turns.map turn_to_json)

/-- A line read back; a reply that only asked for tools was stored as an empty turn. -/
def turn_from_json (item : Json) : Option Turn :=
  let text := (item.text "text").toList
  let flag key := ((item.get key).as_bool).getD false
  match (item.get "role").as_str with
  | some "user" =>
    some (.user text ⟨((item.get "attachments").as_u64).getD 0, flag "terminal"⟩)
  | some "assistant" =>
    if Text.trim text = [] then none else some (.assistant text (flag "stopped"))
  | some "tool" =>
    some (.tool (item.text "name") (item.text "label").toList (item.text "output").toList
      (flag "failed"))
  | some "denied" => some (.denied text)
  | some "question" => some (.question text (((item.get "answer").as_str).map String.toList))
  | some "error" => some (.error text)
  | some "notice" => some (.notice text)
  | _ => none

/-- Read a stored transcript back. -/
def turns_from_json (items : Json) : List Turn :=
  ((items.as_array).getD []).filterMap turn_from_json

/-- A call as it is stored. The text of its arguments stands for what it parses to. -/
def call_to_json (call : ApiToolCall) : Json :=
  .obj [("id", .str call.id), ("name", .str call.name), ("arguments", call.arguments)]

def call_from_json (call : Json) : ApiToolCall :=
  ⟨call.text "id", call.text "name", call.get "arguments"⟩

def message_to_json : ApiMessage → Json
  | .user content => .obj [("role", .str "user"), ("content", json_text content)]
  | .assistant content tool_calls =>
    .obj [("role", .str "assistant"), ("content", json_text content),
      ("toolCalls", .arr (tool_calls.map call_to_json))]
  | .tool tool_call_id content =>
    .obj [("role", .str "tool"), ("toolCallId", .str tool_call_id), ("content", json_text content)]

/-- The provider history as stored JSON. -/
def history_to_json (messages : List ApiMessage) : Json := .arr (messages.map message_to_json)

def message_from_json (item : Json) : Option ApiMessage :=
  let content := (item.text "content").toList
  match (item.get "role").as_str with
  | some "user" => some (.user content)
  | some "assistant" =>
    some (.assistant content ((((item.get "toolCalls").as_array).getD []).map call_from_json))
  | some "tool" => some (.tool (item.text "toolCallId") content)
  | _ => none

/-- Read a stored provider history back. -/
def history_from_json (items : Json) : List ApiMessage :=
  ((items.as_array).getD []).filterMap message_from_json

/-- The history is read back as it was. -/
theorem message_from_to_json (message : ApiMessage) :
    message_from_json (message_to_json message) = some message := by
  rcases message with content | ⟨content, calls⟩ | ⟨id, content⟩
  · exact congrArg (fun text => some (ApiMessage.user text)) String.toList_ofList
  · have hcalls : (calls.map call_to_json).map call_from_json = calls := by
      rw [List.map_map]
      exact List.map_id calls
    show some (ApiMessage.assistant _ ((calls.map call_to_json).map call_from_json)) = _
    rw [hcalls]
    exact congrArg (fun text => some (ApiMessage.assistant text calls)) String.toList_ofList
  · exact congrArg (fun text => some (ApiMessage.tool id text)) String.toList_ofList

theorem history_from_to_json (messages : List ApiMessage) :
    history_from_json (history_to_json messages) = messages := by
  show (messages.map message_to_json).filterMap message_from_json = messages
  rw [List.filterMap_map, funext (f := message_from_json ∘ message_to_json) (g := some)
    message_from_to_json, List.filterMap_some]

/-- A line read back says what it said, and one that is left out was a reply without words. -/
theorem turn_from_to_json (turn : Turn) :
    (∃ turn', turn_from_json (turn_to_json turn) = some turn' ∧
        Turn.is_user turn' = Turn.is_user turn ∧
        ∀ message, SameTalk turn message → SameTalk turn' message) ∨
      (turn_from_json (turn_to_json turn) = none ∧
        ∀ message, SameTalk turn message → Silent message) := by
  rcases turn with ⟨text, info⟩ | ⟨text, stopped⟩ | ⟨name, label, output, failed⟩ | reason |
    ⟨text, answer⟩ | text | text
  · refine .inl ⟨_, rfl, rfl, fun message hsame => ?_⟩
    rcases message with _ | _ | _
    · exact String.toList_ofList.trans hsame
    · cases hsame
    · cases hsame
  · have htext : ((turn_to_json (.assistant text stopped)).text "text").toList = text :=
      String.toList_ofList
    by_cases hblank : Text.trim text = []
    · refine .inr ⟨?_, fun message hsame => ?_⟩
      · show (if Text.trim ((turn_to_json (.assistant text stopped)).text "text").toList = [] then
          none else _) = none
        rw [htext, if_pos hblank]
      · rcases message with _ | _ | _
        · cases hsame
        · exact (hsame : text = _) ▸ hblank
        · cases hsame
    · refine .inl ⟨.assistant text stopped, ?_, rfl, fun _ hsame => hsame⟩
      show (if Text.trim ((turn_to_json (.assistant text stopped)).text "text").toList = [] then
        none else some (Turn.assistant ((turn_to_json (.assistant text stopped)).text "text").toList
          stopped)) = _
      rw [htext, if_neg hblank]
  · refine .inl ⟨_, rfl, rfl, fun message hsame => ?_⟩
    rcases message with _ | _ | _
    · cases hsame
    · cases hsame
    · exact String.toList_ofList.trans hsame
  all_goals exact .inl ⟨_, rfl, rfl, fun message hsame => by cases message <;> cases hsame⟩

/-- **A conversation restored** from its JSON is still one that is reported. -/
theorem talks_from_json {turns : List Turn} {history : List ApiMessage} (h : Talks turns history) :
    Talks (turns_from_json (turns_to_json turns))
      (history_from_json (history_to_json history)) := by
  rw [history_from_to_json]
  show Talks ((turns.map turn_to_json).filterMap turn_from_json) history
  rw [List.filterMap_map]
  refine Told.filterMap_left (fun turn message hsame => ?_) (fun turn turn' halone heq => ?_) h
  · rcases turn_from_to_json turn with ⟨turn', heq, -, hturn'⟩ | ⟨hnone, hsilent⟩
    · exact .inl ⟨turn', heq, hturn' message hsame⟩
    · exact .inr ⟨hnone, hsilent message hsame⟩
  · rcases turn_from_to_json turn with ⟨shown, hshown, huser, -⟩ | ⟨hnone, -⟩
    · obtain rfl : shown = turn' := Option.some.inj (hshown.symm.trans heq)
      exact huser.trans halone
    · exact absurd (hnone.symm.trans heq) nofun

/-! ## The pane's conversations -/

def CONVERSATIONS_PER_HOST_MAX : ℕ := 40

/-- A conversation that is set aside. -/
structure StoredChat where
  turns : List Turn
  history : List ApiMessage
  cwd : List Char

def StoredChat.to_json (chat : StoredChat) : Json :=
  .obj [("cwd", json_text chat.cwd), ("turns", turns_to_json chat.turns),
    ("history", history_to_json chat.history)]

def StoredChat.from_json (chat : Json) : StoredChat :=
  ⟨turns_from_json (chat.get "turns"), history_from_json (chat.get "history"),
    (((chat.get "cwd").as_str).map String.toList).getD ['/']⟩

/-- The pane: the live conversation, those set aside, and what is saved of them. -/
structure Pane where
  agent : Agent := {}
  chats : List StoredChat := []
  saved : Json := .null

namespace Pane

variable (p : Pane)

def stored_chat : StoredChat := ⟨p.agent.turns, p.agent.history, p.agent.cwd⟩

/-- Set the live conversation aside and start an empty one. -/
def begin_new_chat : Pane :=
  let chats :=
    if p.agent.turns.isEmpty then p.chats
    else
      let chats := p.chats ++ [p.stored_chat]
      chats.drop (chats.length - CONVERSATIONS_PER_HOST_MAX)
  { p with agent := p.agent.clear, chats }

/-- Swap a stored conversation back into the pane. -/
def open_chat (index : ℕ) : Pane :=
  match p.chats[index]? with
  | none => p
  | some chat =>
    let chats :=
      if p.agent.turns.isEmpty then p.chats.eraseIdx index else p.chats.set index p.stored_chat
    { p with
      chats
      agent := { p.agent.clear with
        turns := chat.turns, history := chat.history, cwd := chat.cwd } }

/-- A finished summary is shown. -/
def summarise (summary : List Char) : Pane :=
  if summary = [] then p
  else
    { p with agent := { p.agent with
        turns := p.agent.turns ++ [.notice ("Summary:\n".toList ++ summary)] } }

/-- A finished summary is carried over into a new conversation. -/
def transfer (summary : List Char) : Pane :=
  if summary = [] then p
  else
    let p := p.begin_new_chat
    { p with agent := { p.agent with
        turns := p.agent.turns ++ [.notice ("Chat transferred. Carried over:\n".toList ++ summary)]
        history := p.agent.history ++
          [.user ("[Context carried over from the previous chat]\n".toList ++ summary)] } }

/-- The conversations as they are kept. -/
def to_json : Json :=
  .obj [("cwd", json_text p.agent.cwd), ("turns", turns_to_json p.agent.turns),
    ("history", history_to_json p.agent.history),
    ("chats", .arr (p.chats.map StoredChat.to_json))]

/-- Keep the conversations. -/
def save : Pane := { p with saved := p.to_json }

/-- The stored conversations. -/
def chats_of (saved : Json) : List StoredChat :=
  (((saved.get "chats").as_array).getD []).map StoredChat.from_json

/-- A pane that is opened reads the stored conversations back in. -/
def load : Pane :=
  { agent := {
      turns := turns_from_json (p.saved.get "turns")
      history := history_from_json (p.saved.get "history")
      cwd := ((((p.saved.get "cwd").as_str).map String.toList).filter (· ≠ [])).getD ['/'] }
    chats := chats_of p.saved
    saved := p.saved }

end Pane

/-- One thing that happens to the pane. -/
inductive PaneStep
  | agent (s : Step)
  | begin_new_chat
  | open_chat (index : ℕ)
  | summarise (summary : List Char)
  | transfer (summary : List Char)
  | save
  | load

/-- The pane after one step. -/
def pane_step (engine : Anchored.Engine) (p : Pane) : PaneStep → Pane
  | .agent s => { p with agent := step engine p.agent s }
  | .begin_new_chat => p.begin_new_chat
  | .open_chat index => p.open_chat index
  | .summarise summary => p.summarise summary
  | .transfer summary => p.transfer summary
  | .save => p.save
  | .load => p.load

namespace Pane

/-- **Nothing begins, is set aside or is saved while a message is to be folded in**, and no
conversation is carried over. -/
def Timely (p : Pane) : PaneStep → Prop
  | .agent s => p.agent.Timely s
  | .begin_new_chat | .open_chat _ | .save => p.agent.injected = []
  | .transfer summary => summary = []
  | .summarise _ | .load => True

/-- Every rewind that is possible now is right. -/
def RewindsRight (p : Pane) : Prop :=
  ∀ index text info, p.agent.turns[index]? = some (.user text info) → p.agent.blocked = false →
    p.agent.injected = [] → Agent.RewindsRight p.agent index text

/-- What is saved can be read as conversations that are reported. -/
structure Readable (saved : Json) : Prop where
  live : Talks (turns_from_json (saved.get "turns")) (history_from_json (saved.get "history"))
  chats : ∀ chat ∈ chats_of saved, Talks chat.turns chat.history

/-- What holds of the pane in every state of a run. -/
structure Sound (p : Pane) : Prop where
  agent : p.agent.Aligned
  chats : ∀ chat ∈ p.chats, Talks chat.turns chat.history
  saved : Readable p.saved

theorem fresh_sound : Sound {} where
  agent := Agent.aligned_of_talks rfl rfl talks_nil
  chats := nofun
  saved := ⟨talks_nil, nofun⟩

variable {p : Pane}

theorem stored_chat_talks (h : p.Sound) (hinjected : p.agent.injected = []) :
    Talks p.stored_chat.turns p.stored_chat.history :=
  Agent.talks_of_timely h.agent hinjected

theorem begin_new_chat_sound (h : p.Sound) (hinjected : p.agent.injected = []) :
    p.begin_new_chat.Sound := by
  refine ⟨Agent.aligned_of_talks rfl rfl talks_nil, fun chat hchat => ?_, h.saved⟩
  unfold begin_new_chat at hchat
  dsimp only at hchat
  split at hchat
  · exact h.chats chat hchat
  · rcases List.mem_append.mp (List.mem_of_mem_drop hchat) with hchat | hchat
    · exact h.chats chat hchat
    · rw [List.mem_singleton.mp hchat]
      exact stored_chat_talks h hinjected

theorem open_chat_sound (h : p.Sound) (index : ℕ) (hinjected : p.agent.injected = []) :
    (p.open_chat index).Sound := by
  unfold open_chat
  split
  · exact h
  · rename_i chat hchat
    refine ⟨Agent.aligned_of_talks rfl rfl (h.chats chat (List.mem_of_getElem? hchat)),
      fun other hother => ?_, h.saved⟩
    dsimp only at hother
    split at hother
    · exact h.chats other (List.mem_of_mem_eraseIdx hother)
    · rcases List.mem_or_eq_of_mem_set hother with hother | rfl
      · exact h.chats other hother
      · exact stored_chat_talks h hinjected

/-- A notice is shown behind the open line. -/
theorem summarise_sound (h : p.Sound) (summary : List Char) : (p.summarise summary).Sound := by
  unfold summarise
  split
  · exact h
  · obtain ⟨front, opened, back, hturns, hfront, hback, hopen⟩ := h.agent
    refine ⟨⟨front, opened, back ++ [.notice ("Summary:\n".toList ++ summary)], ?_, hfront, ?_, ?_⟩,
      h.chats, h.saved⟩
    · show p.agent.turns ++ _ = _
      rw [hturns, List.append_assoc, List.append_assoc]
    · refine hback.show_more fun turn hturn => ?_
      rw [List.mem_singleton.mp hturn]
      rfl
    · refine hopen.behind fun turn hturn => ?_
      rw [List.mem_singleton.mp hturn]
      rfl

theorem save_sound (h : p.Sound) (hinjected : p.agent.injected = []) : p.save.Sound := by
  refine ⟨h.agent, h.chats, talks_from_json (Agent.talks_of_timely h.agent hinjected), ?_⟩
  intro chat hchat
  have hread : chats_of p.save.saved =
      (p.chats.map StoredChat.to_json).map StoredChat.from_json := rfl
  rw [hread, List.map_map] at hchat
  obtain ⟨kept, hkept, rfl⟩ := List.mem_map.mp hchat
  exact talks_from_json (h.chats kept hkept)

theorem load_sound (h : p.Sound) : p.load.Sound :=
  ⟨Agent.aligned_of_talks rfl rfl h.saved.live, h.saved.chats, h.saved⟩

theorem step_sound (engine : Anchored.Engine) (p : Pane) (s : PaneStep) (h : p.Sound)
    (htimely : p.Timely s) : (pane_step engine p s).Sound := by
  cases s with
  | agent s => exact ⟨Agent.step_aligned engine h.agent s htimely, h.chats, h.saved⟩
  | begin_new_chat => exact begin_new_chat_sound h htimely
  | open_chat index => exact open_chat_sound h index htimely
  | summarise summary => exact summarise_sound h summary
  | transfer summary =>
    have hnone : p.transfer summary = p := if_pos htimely
    show (p.transfer summary).Sound
    rw [hnone]
    exact h
  | save => exact save_sound h htimely
  | load => exact load_sound h

end Pane

/-- **Where rewinding is right**: in every run in which no turn of the user, no reply and no call
begins, and no conversation is set aside or saved, while a message typed into a run is to be folded
in, and no conversation is carried over into a new one. -/
theorem pane_rewinds_right (engine : Anchored.Engine) (steps : List PaneStep)
    (h : StepRun.Guarded (pane_step engine) Pane.Timely {} steps) {p : Pane}
    (hp : StepRun.Reached (pane_step engine) {} steps p) : p.RewindsRight := by
  have hsound : p.Sound :=
    StepRun.reached_inv (I := Pane.Sound) (fun q s hq hs => Pane.step_sound engine q s hq hs)
      Pane.fresh_sound h hp
  intro index text info hturn hblocked hinjected
  exact Agent.rewinds_right hsound.agent hinjected hblocked hturn

/-! ## Runs -/

def plain : UserMeta := ⟨0, false⟩

/-- A reply of one word. -/
def reply_word (word : List Char) : PaneStep :=
  .agent (.poll offline { done := some (.ok ⟨word, [], none⟩) } .empty)

/-- A message is typed into a reply without calls, and the conversation is restored. -/
def folded_in : List PaneStep :=
  [.agent (.send_message ['q'] plain), .agent (.inject_user ['x'] plain), reply_word ['r'],
    .agent .flush_injected, .save, .load]

theorem pane_rewinds_right_folded_in :
    Agent.RewindsRight (StepRun.run (pane_step Anchored.anchored) {} folded_in).agent 2 ['x'] := by
  refine pane_rewinds_right Anchored.anchored folded_in ?_ ⟨folded_in, List.prefix_rfl, rfl⟩ 2 ['x']
    plain ?_ rfl rfl
  · exact ⟨.inr rfl, trivial, .inl rfl, trivial, rfl, trivial, trivial⟩
  · rfl

/-- A conversation is carried over, and goes on. -/
def carried_over : List PaneStep :=
  [.agent (.send_message ['a'] plain), reply_word ['r'], .transfer ['s'],
    .agent (.send_message ['b'] plain), .agent .stop]

/-- A message is typed into a reply that calls a tool. -/
def typed_into_call : List PaneStep :=
  [.agent (.send_message ['q'] plain), .agent (.inject_user ['x'] plain),
    .agent (reply_with [⟨"c", "none", .null⟩]), .agent .flush_injected]

/-- A message is typed into a reply, and the application is closed before it is folded in. -/
def closed_in_reply : List PaneStep :=
  [.agent (.send_message ['q'] plain), .agent (.inject_user ['x'] plain), .save, .load,
    .agent (.send_message ['y'] plain), .agent .stop]

/-- **The count does not line up** in three kinds of conversations: the message that carries one
over has no turn and is cut with the turn after it, the answer of a call stays in the history when
its line is cut, and a message whose line alone was saved makes the cut miss the next one. -/
theorem pane_rewinds_wrong :
    ¬ (StepRun.run (pane_step Anchored.anchored) {} carried_over).RewindsRight ∧
      ¬ (StepRun.run (pane_step Anchored.anchored) {} typed_into_call).RewindsRight ∧
      ¬ (StepRun.run (pane_step Anchored.anchored) {} closed_in_reply).RewindsRight := by
  refine ⟨fun h => ?_, fun h => ?_, fun h => ?_⟩
  · obtain ⟨after, hafter⟩ := (h 1 ['b'] plain rfl rfl rfl).cut
    have hcut : ApiMessage.user
        ("[Context carried over from the previous chat]\n".toList ++ ['s']) = .user ['b'] :=
      (List.cons.inj hafter).1
    exact absurd (ApiMessage.user.inj hcut) (by decide)
  · have hmem : ApiMessage.tool "c" "The tool none is not available.".toList ∈
        ((StepRun.run (pane_step Anchored.anchored) {} typed_into_call).agent.rewind_to
          1).history :=
      .tail _ (.tail _ (.head _))
    rcases (h 1 ['x'] plain rfl rfl rfl).belongs _ hmem with hsilent | ⟨turn, hturn, hsame⟩
    · cases hsilent
    · have hq : turn ∈ [Turn.user ['q'] plain] := hturn
      rw [List.mem_singleton.mp hq] at hsame
      cases hsame
  · obtain ⟨after, hafter⟩ := (h 2 ['y'] plain rfl rfl rfl).cut
    have hcut : [ApiMessage.user ['q'], .user ['y']] =
        [ApiMessage.user ['q'], .user ['y']] ++ .user ['y'] :: after := hafter
    exact absurd (congrArg List.length hcut) (by simp)

end WaSSH.Agent
