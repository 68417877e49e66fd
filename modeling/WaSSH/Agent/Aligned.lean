import WaSSH.Agent.Machine
import WaSSH.Lib.Told

/-!
# The transcript and the history

The transcript shows a conversation and the history reports it to the provider. The two grow at
different times: a reply is shown while it streams, a call before it is answered, and a message
typed into a run before it is folded in.

* `SameTalk`, `Talks`: the history reports what the transcript shows, in its order;
* `Opens`, `Agent.Aligned`: the line that is still open, and what is to be folded in behind it;
* `Agent.advance_aligned`, `Agent.follow_aligned`: calls are answered in their lines;
* `Agent.answer_permission_aligned`, `Agent.answer_aligned`: so they are from a prompt;
* **`Agent.poll_aligned`**: what comes in keeps the two lists aligned.
-/

set_option linter.dupNamespace false

namespace WaSSH.Agent

open Agent (Turn.is_user ApiMessage.is_user answer_question)

/-! ## What the history reports -/

/-- The message is the one of the turn. -/
def SameTalk : Turn → ApiMessage → Prop
  | .user text _, .user content => text = content
  | .assistant text _, .assistant content _ => text = content
  | .tool _ _ output _, .tool _ content => output = content
  | _, _ => False

/-- A reply that only asks for tools has no line of its own. -/
def Silent : ApiMessage → Prop
  | .assistant content _ => Text.trim content = []
  | _ => False

/-- **The history reports the transcript**: every message but a silent one has its line, in the
order of the lines, and every line of the user has its message. -/
def Talks : List Turn → List ApiMessage → Prop :=
  Told SameTalk (fun turn => Turn.is_user turn = false) Silent

theorem Talks.append {as bs : List Turn} {ms ns : List ApiMessage} (h : Talks as ms)
    (h' : Talks bs ns) : Talks (as ++ bs) (ms ++ ns) :=
  Told.append h h'

theorem talks_nil : Talks [] [] := Told.nil

/-- Lines that are not the user's. -/
def Aside (turns : List Turn) : Prop := ∀ turn ∈ turns, Turn.is_user turn = false

theorem Talks.show_more {as bs : List Turn} {ms : List ApiMessage} (h : Talks as ms)
    (hb : Aside bs) : Talks (as ++ bs) ms :=
  Told.show_more h hb

/-- A call's line is no one else's. -/
def is_tool_turn : Turn → Bool
  | .tool .. => true
  | _ => false

/-! ## What starting a call shows -/

/-- The phase is about the line `turn`, if it names one. -/
def Phase.AtTurn (turn : ℕ) : Phase → Prop
  | .running _ place _ | .allowing _ place _ => place = turn
  | _ => True

/-- Starting the call of line `turn` shows nothing but questions, and parks at that line. -/
structure Ran.Stays (turn : ℕ) (ran : Ran) : Prop where
  asks : ∀ shown ∈ ran.turns, ∃ text answer, shown = .question text answer
  parks : ∀ phase, ran.outcome = .park phase → phase.AtTurn turn

section Stays

variable (env : Env) (a : Agent) (call : ApiToolCall) (turn : ℕ) (engine : Anchored.Engine)

theorem stays_settle (requests : List Request) (label output : List Char) (failed : Bool) :
    Ran.Stays turn { requests, outcome := .settle label output failed } :=
  ⟨nofun, nofun⟩

theorem stays_park {phase : Phase} (requests : List Request) (h : phase.AtTurn turn) :
    Ran.Stays turn { requests, outcome := .park phase } :=
  ⟨nofun, fun _ heq => Outcome.park.inj heq ▸ h⟩

theorem stays_ite {turn : ℕ} {c : Prop} [Decidable c] {ran other : Ran} (h : ran.Stays turn)
    (hother : other.Stays turn) : (if c then ran else other).Stays turn := by
  split
  · exact h
  · exact hother

theorem exec_command_stays (command : List Char) (sudo_stdin : Option (List Char)) :
    (exec_command env a call turn command sudo_stdin).Stays turn := by
  unfold exec_command
  refine stays_ite (stays_park turn _ trivial) ?_
  split
  · exact stays_settle turn _ _ _ _
  · exact stays_park turn _ rfl

theorem run_probe_stays (next : CommandThen) (command : List Char) :
    (run_probe env call turn next command).Stays turn := by
  unfold run_probe
  split
  · exact stays_settle turn _ _ _ _
  · exact stays_park turn _ rfl

theorem start_read_stays (path : List Char) (max : ℕ) (next : ReadThen) :
    (start_read env call turn path max next).Stays turn := by
  unfold start_read
  split
  · exact stays_settle turn _ _ _ _
  · exact stays_park turn _ rfl

theorem run_command_stays : (run_command env a call turn engine).Stays turn := by
  unfold run_command
  split
  · exact stays_settle turn _ _ _ _
  · dsimp only
    split
    · exact exec_command_stays env a call turn _ _
    · exact stays_settle turn _ _ _ _
    · exact stays_park turn _ trivial

theorem run_sudo_stays : (run_sudo a call engine).Stays turn := by
  unfold run_sudo
  split
  · exact stays_settle turn _ _ _ _
  · exact stays_ite (stays_settle turn _ _ _ _) (stays_park turn _ trivial)

theorem dev_diff_stays : (dev_diff env a call turn).Stays turn := by
  unfold dev_diff
  dsimp only
  refine stays_ite (stays_settle turn _ _ _ _) ?_
  split
  · exact stays_settle turn _ _ _ _
  · exact start_read_stays env call turn _ _ _

theorem remote_list_stays : (remote_list env a call turn).Stays turn := by
  unfold remote_list
  dsimp only
  refine stays_ite (run_probe_stays env call turn _ _) ?_
  split
  · exact stays_settle turn _ _ _ _
  · exact stays_park turn _ rfl

theorem type_into_terminal_stays (text note : List Char) :
    (type_into_terminal env call text note).Stays turn := by
  unfold type_into_terminal
  split
  · exact stays_settle turn _ _ _ _
  · exact stays_settle turn _ _ _ _

theorem terminal_keys_stays : (terminal_keys env call).Stays turn := by
  unfold terminal_keys
  dsimp only
  split
  · exact stays_settle turn _ _ _ _
  · exact type_into_terminal_stays env call turn _ _

theorem run_local_stays : (run_local env call turn).Stays turn := by
  unfold run_local
  split
  · exact stays_settle turn _ _ _ _
  · exact stays_settle turn _ _ _ _

theorem dispatch_remote_stays : (dispatch_remote env a call turn).Stays turn := by
  unfold dispatch_remote
  dsimp only
  refine stays_ite (start_read_stays env call turn _ _ _) ?_
  refine stays_ite
    (stays_ite (stays_settle turn _ _ _ _) (start_read_stays env call turn _ _ _)) ?_
  refine stays_ite (start_read_stays env call turn _ _ _) ?_
  refine stays_ite (dev_diff_stays env a call turn) ?_
  refine stays_ite (run_probe_stays env call turn _ _) ?_
  refine stays_ite (run_probe_stays env call turn _ _) ?_
  refine stays_ite (run_probe_stays env call turn _ _) ?_
  refine stays_ite (remote_list_stays env a call turn) ?_
  refine stays_ite (run_probe_stays env call turn _ _) ?_
  refine stays_ite (stays_settle turn _ _ _ _) ?_
  refine stays_ite (terminal_keys_stays env call turn) ?_
  refine stays_ite (type_into_terminal_stays env call turn _ _) ?_
  refine stays_ite (stays_park turn _ rfl) ?_
  exact stays_ite (stays_park turn _ rfl) (run_local_stays env call turn)

theorem run_tool_stays : (run_tool env a call turn engine).Stays turn := by
  unfold run_tool
  dsimp only
  refine stays_ite (stays_settle turn _ _ _ _) ?_
  refine stays_ite (stays_settle turn _ _ _ _) ?_
  refine stays_ite ⟨fun shown hshown => ?_, fun phase heq => ?_⟩ ?_
  · exact ⟨_, none, List.mem_singleton.mp hshown⟩
  · rw [← Outcome.park.inj heq]
    trivial
  refine stays_ite (run_command_stays env a call turn engine) ?_
  refine stays_ite (run_sudo_stays a call turn engine) ?_
  split
  · exact run_probe_stays env call turn _ _
  · exact dispatch_remote_stays env a call turn

theorem dispatch_stays (label : List Char) :
    (dispatch env a call turn engine label).Stays turn := by
  unfold dispatch
  split
  · exact run_tool_stays env a call turn engine
  · exact stays_settle turn _ _ _ _
  · exact stays_park turn _ rfl

end Stays

/-! ## Open lines -/

/-- The line of a call that waits for an answer: it is empty, and no call's line is behind it. -/
def Waits (call : ApiToolCall) (opened back : List Turn) : Prop :=
  (∃ name failed, opened = [.tool name (call_label call) [] failed]) ∧
    ∀ turn ∈ back, is_tool_turn turn = false

/-- The line that is still open in a phase, at its place. -/
def Opens (place : ℕ) (opened back : List Turn) : Option Phase → Prop
  | none => opened = []
  | some (.streaming turn) => turn = place ∧ ∃ text stopped, opened = [.assistant text stopped]
  | some (.running _ turn _) =>
    turn = place ∧ ∃ name label output failed, opened = [.tool name label output failed]
  | some (.allowing call turn _) => turn = place ∧ Waits call opened back
  | some (.approving call _ _) | some (.asking call _ _ _) | some (.sudo_prompt call _ _) =>
    Waits call opened back

theorem Waits.aside {call : ApiToolCall} {opened back : List Turn} (h : Waits call opened back) :
    Aside opened := by
  obtain ⟨⟨name, failed, rfl⟩, -⟩ := h
  intro turn hturn
  rw [List.mem_singleton.mp hturn]
  rfl

theorem Opens.aside {place : ℕ} {opened back : List Turn} {phase : Option Phase}
    (h : Opens place opened back phase) : Aside opened := by
  rcases phase with _ | (_ | _ | ⟨call, turn, label⟩ | _ | _ | _)
  · rw [show opened = [] from h]
    exact fun _ hturn => absurd hturn List.not_mem_nil
  · obtain ⟨-, text, stopped, rfl⟩ := h
    intro turn hturn
    rw [List.mem_singleton.mp hturn]
    rfl
  · exact Waits.aside h
  · exact Waits.aside h.2
  · obtain ⟨-, name, label, output, failed, rfl⟩ := h
    intro turn hturn
    rw [List.mem_singleton.mp hturn]
    rfl
  · exact Waits.aside h
  · exact Waits.aside h

/-- More is shown behind the open line. -/
theorem Opens.behind {place : ℕ} {opened back more : List Turn} {phase : Option Phase}
    (h : Opens place opened back phase) (hmore : ∀ turn ∈ more, is_tool_turn turn = false) :
    Opens place opened (back ++ more) phase := by
  have hwaits {call : ApiToolCall} (hw : Waits call opened back) :
      Waits call opened (back ++ more) := by
    refine ⟨hw.1, fun turn hturn => ?_⟩
    rcases List.mem_append.mp hturn with hturn | hturn
    · exact hw.2 turn hturn
    · exact hmore turn hturn
  rcases phase with _ | (_ | _ | _ | _ | _ | _)
  · exact h
  · exact h
  · exact hwaits h
  · exact ⟨h.1, hwaits h.2⟩
  · exact h
  · exact hwaits h
  · exact hwaits h

namespace Agent

/-- The messages that are to be folded in. -/
def pending (a : Agent) : List ApiMessage := a.injected.map fun (text, _) => .user text

/-- The history, and what is to be folded in, report the transcript. -/
def Talked (a : Agent) : Prop := Talks a.turns (a.history ++ a.pending)

/-- **The two lists are aligned**: the history reports what stands before the open line, and what is
to be folded in is behind it. -/
def Aligned (a : Agent) : Prop :=
  ∃ front opened back, a.turns = front ++ (opened ++ back) ∧ Talks front a.history ∧
    Talks back a.pending ∧ Opens front.length opened back a.phase

/-- The transcript at an open line. -/
structure At (a : Agent) (front : List Turn) (opened : Turn) (back : List Turn) : Prop where
  turns : a.turns = front ++ opened :: back
  told : Talks front a.history
  behind : Talks back a.pending

variable {a b : Agent} {front back : List Turn} {opened : Turn}

theorem pending_nil (h : a.injected = []) : a.pending = [] := by
  unfold pending
  rw [h]
  rfl

/-- Whatever the phase, the open line is shown and not yet reported. -/
theorem Aligned.talked (h : a.Aligned) : a.Talked := by
  obtain ⟨front, opened, back, hturns, hfront, hback, hopen⟩ := h
  unfold Talked
  rw [hturns, ← List.append_assoc]
  exact (hfront.show_more hopen.aside).append hback

theorem aligned_of_talked (hphase : a.phase = none) (h : a.Talked) : a.Aligned := by
  obtain ⟨front, back, hturns, hfront, hback⟩ := Told.split_right h rfl
  refine ⟨front, [], back, hturns, hfront, hback, ?_⟩
  rw [hphase]
  rfl

theorem Aligned.congr (h : a.Aligned) (hturns : b.turns = a.turns)
    (hhistory : b.history = a.history) (hinjected : b.injected = a.injected)
    (hphase : b.phase = a.phase) : b.Aligned := by
  unfold Aligned pending at h ⊢
  rw [hturns, hhistory, hinjected, hphase]
  exact h

/-- A phase that is dropped leaves its line as it is. -/
theorem Aligned.dropped (h : a.Aligned) (hturns : b.turns = a.turns)
    (hhistory : b.history = a.history) (hinjected : b.injected = a.injected)
    (hphase : b.phase = none) : b.Aligned := by
  refine aligned_of_talked hphase ?_
  have := h.talked
  unfold Talked pending at this ⊢
  rwa [hturns, hhistory, hinjected]

theorem At.get (h : a.At front opened back) : a.turns[front.length]? = some opened := by
  rw [h.turns, List.getElem?_append_right (Nat.le_refl _), Nat.sub_self]
  rfl

theorem At.set (h : a.At front opened back) (turn : Turn) :
    a.turns.set front.length turn = front ++ turn :: back := by
  rw [h.turns, List.set_append_right _ _ (Nat.le_refl _), Nat.sub_self]
  rfl

/-- A call is answered in its line. -/
theorem record_talked {call : ApiToolCall} {name : String} {old was label output : List Char}
    {had failed : Bool} (h : a.At front (.tool name old was had) back) :
    (a.record call front.length label output failed).Talked := by
  have hturns : (a.record call front.length label output failed).turns =
      front ++ .tool name label output failed :: back := by
    unfold record
    rw [h.get]
    exact h.set _
  have hmessage : SameTalk (.tool name label output failed) (.tool call.id output) := rfl
  have hfront := (Told.concat h.told hmessage).append h.behind
  rw [List.append_assoc] at hfront
  unfold Talked
  rw [hturns]
  exact hfront

theorem turn_for_eq {call : ApiToolCall} (hturns : a.turns = front ++ opened :: back)
    (h : Waits call [opened] back) : a.turn_for call = front.length := by
  obtain ⟨⟨name, failed, hopened⟩, hback⟩ := h
  obtain rfl := (List.cons.inj hopened).1
  unfold turn_for
  dsimp only
  rw [hturns, List.reverse_append, List.reverse_cons, List.append_assoc, List.singleton_append]
  have hnone : ∀ p : Turn → Bool, (∀ turn, is_tool_turn turn = false → p turn = false) →
      back.reverse.findIdx? p = none := by
    intro p hp
    rw [List.findIdx?_eq_none_iff]
    exact fun turn hturn => hp turn (hback turn (List.mem_reverse.mp hturn))
  rw [List.findIdx?_append, hnone _ (by
    rintro (_ | _ | _ | _ | _ | _ | _) h <;> first | rfl | cases h), List.findIdx?_cons]
  simp only [decide_true, Bool.and_self, if_true, Option.map_some, Option.none_or,
    List.length_append, List.length_cons, List.length_reverse]
  omega

/-! ## Calls -/

section Engine

variable (env : Env) (engine : Anchored.Engine)

theorem aside_of_asks {turns : List Turn}
    (h : ∀ shown ∈ turns, ∃ text answer, shown = Turn.question text answer) :
    Aside turns ∧ ∀ turn ∈ turns, is_tool_turn turn = false := by
  refine ⟨fun turn hturn => ?_, fun turn hturn => ?_⟩
  · obtain ⟨text, answer, rfl⟩ := h turn hturn
    rfl
  · obtain ⟨text, answer, rfl⟩ := h turn hturn
    rfl

/-- What a call shows when it starts stands behind its line. -/
theorem At.apply {call : ApiToolCall} (h : a.At front opened back) {ran : Ran} {turn : ℕ}
    (hran : ran.Stays turn) : (a.apply call ran).At front opened (back ++ ran.turns) where
  turns := by
    show a.turns ++ ran.turns = _
    rw [h.turns, List.append_assoc]
    rfl
  told := h.told
  behind := h.behind.show_more (aside_of_asks hran.asks).1

/-- A call that is parked waits in its line. -/
theorem opens_of_parked {call : ApiToolCall} {phase : Phase} {name : String} {failed : Bool}
    (hparked : Parked call phase) (hat : phase.AtTurn front.length)
    (hback : ∀ turn ∈ back, is_tool_turn turn = false) :
    Opens front.length [.tool name (call_label call) [] failed] back (some phase) := by
  have hwaits : Waits call [.tool name (call_label call) [] failed] back :=
    ⟨⟨name, failed, rfl⟩, hback⟩
  cases hparked with
  | approving hname hcommand => exact hwaits
  | allowing turn label => exact ⟨hat, hwaits⟩
  | running turn waiting => exact ⟨hat, name, call_label call, [], failed, rfl⟩
  | asking questions current answers => exact hwaits
  | sudo_prompt command reason => exact hwaits

/-- **The queue**, call by call: each has its line and is answered there. Nothing may be to be
folded in when one starts. -/
theorem advance_aligned : ∀ (queue : List ApiToolCall) (a : Agent), a.phase = none → a.Talked →
    (queue = [] ∨ a.injected = []) → (advance env engine a queue).Aligned
  | [], a, hphase, h, _ =>
    aligned_of_talked (a := { a with queue := [], needs_reply := true }) hphase h
  | call :: queue, a, hphase, h, htimely => by
    have hinjected : a.injected = [] := htimely.resolve_left (List.cons_ne_nil call queue)
    have htold : Talks a.turns a.history := by
      unfold Talked at h
      rwa [pending_nil hinjected, List.append_nil] at h
    unfold advance
    dsimp only
    set a' : Agent := { a with turns := a.turns ++ [.tool call.name (call_label call) [] false] }
    have hat : a'.At a.turns (.tool call.name (call_label call) [] false) [] := by
      refine ⟨rfl, htold, ?_⟩
      rw [pending_nil (a := a') hinjected]
      exact talks_nil
    have hfits := dispatch_fits env a' call a.turns.length engine (a'.label a.turns.length)
    have hstays := dispatch_stays env a' call a.turns.length engine (a'.label a.turns.length)
    generalize dispatch env a' call a.turns.length engine (a'.label a.turns.length) = ran
      at hfits hstays
    have hat' : (a'.apply call ran).At a.turns (.tool call.name (call_label call) [] false)
        ran.turns := hat.apply hstays
    split
    · rename_i label output failed _
      exact advance_aligned queue _ hphase (record_talked hat') (.inr hinjected)
    · rename_i phase houtcome
      refine ⟨a.turns, [.tool call.name (call_label call) [] false], ran.turns, ?_, htold, ?_, ?_⟩
      · exact hat'.turns
      · exact hat'.behind
      · exact opens_of_parked (hfits.parked phase houtcome) (hstays.parks phase houtcome)
          (aside_of_asks hstays.asks).2

variable {call : ApiToolCall} {name : String} {was output label : List Char} {had failed : Bool}

theorem settle_aligned (hphase : a.phase = none) (h : a.At front (.tool name label was had) back)
    (htimely : a.queue = [] ∨ a.injected = []) (shown output : List Char) (failed : Bool) :
    (a.settle env engine call front.length shown output failed).Aligned :=
  advance_aligned env engine a.queue _ hphase (record_talked h) htimely

/-- **A call goes on** from its line. -/
theorem follow_aligned (hphase : a.phase = none)
    (h : a.At front (.tool name (call_label call) [] had) back)
    (hback : ∀ turn ∈ back, is_tool_turn turn = false) (htimely : a.queue = [] ∨ a.injected = [])
    {ran : Ran} (hstays : ran.Stays front.length)
    (hparked : ∀ phase, ran.outcome = .park phase → Parked call phase) :
    (a.follow env engine call front.length ran).Aligned := by
  have hat : (a.apply call ran).At front (.tool name (call_label call) [] had)
      (back ++ ran.turns) := h.apply hstays
  unfold follow
  dsimp only
  split
  · exact settle_aligned (a := a.apply call ran) env engine hphase hat htimely _ _ _
  · rename_i phase houtcome
    refine ⟨front, [.tool name (call_label call) [] had], back ++ ran.turns, hat.turns, hat.told,
      hat.behind, opens_of_parked (hparked phase houtcome) (hstays.parks phase houtcome) ?_⟩
    intro turn hturn
    rcases List.mem_append.mp hturn with hturn | hturn
    · exact hback turn hturn
    · exact (aside_of_asks hstays.asks).2 turn hturn

theorem start_command_aligned (hphase : a.phase = none)
    (h : a.At front (.tool name (call_label call) [] had) back)
    (hback : ∀ turn ∈ back, is_tool_turn turn = false) (htimely : a.queue = [] ∨ a.injected = [])
    (command : List Char) (sudo_stdin : Option (List Char)) :
    (a.start_command env engine call command sudo_stdin).Aligned := by
  have hturn : a.turn_for call = front.length := turn_for_eq h.turns ⟨⟨name, had, rfl⟩, hback⟩
  unfold start_command
  rw [hturn]
  exact follow_aligned env engine hphase h hback htimely
    (exec_command_stays env a call _ command sudo_stdin)
    fun _ hpark => exec_command_parked env a call _ hpark

/-! ## Prompts -/

/-- The line of the call a prompt is about. -/
theorem Aligned.at_waits (h : a.Aligned) (call : ApiToolCall)
    (hwaits : ∀ place opened back, Opens place opened back a.phase → Waits call opened back) :
    ∃ front name had back, a.At front (.tool name (call_label call) [] had) back ∧
      (∀ turn ∈ back, is_tool_turn turn = false) ∧
      Opens front.length [.tool name (call_label call) [] had] back a.phase := by
  obtain ⟨front, opened, back, hturns, hfront, hback, hopen⟩ := h
  obtain ⟨⟨name, had, rfl⟩, htools⟩ := hwaits _ _ _ hopen
  exact ⟨front, name, had, back, ⟨hturns, hfront, hback⟩, htools, hopen⟩

theorem answer_permission_aligned (h : a.Aligned) (allow : Bool)
    (htimely : a.queue = [] ∨ a.injected = []) :
    (a.answer_permission env engine allow).Aligned := by
  unfold answer_permission
  split
  · rename_i call turn label hphase
    obtain ⟨front, name, had, back, hat, htools, hopen⟩ := h.at_waits call (by
      rw [hphase]
      exact fun _ _ _ hopen => hopen.2)
    rw [hphase] at hopen
    obtain ⟨rfl, -⟩ := hopen
    have hat' : a.drop_phase.At front (.tool name (call_label call) [] had) back :=
      ⟨hat.turns, hat.told, hat.behind⟩
    dsimp only
    split
    · exact follow_aligned env engine rfl hat' htools htimely
        (run_tool_stays env a.drop_phase call _ engine)
        fun phase hpark => (run_tool_fits env _ call _ engine).parked phase hpark
    · exact settle_aligned env engine rfl hat' htimely _ _ _
  · exact h.dropped rfl rfl rfl rfl

theorem approve_aligned (h : a.Aligned) (allow : Bool) (remember : Option ℕ)
    (htimely : a.queue = [] ∨ a.injected = []) :
    (a.approve env engine allow remember).Aligned := by
  unfold approve
  split
  · rename_i call command scopes hphase
    obtain ⟨front, name, had, back, hat, htools, -⟩ := h.at_waits call (by
      rw [hphase]
      exact fun _ _ _ hopen => hopen)
    dsimp only
    split
    · exact start_command_aligned (a := { a.drop_phase with
          session_allow := a.session_allow ++ remembered remember scopes }) env engine rfl
        ⟨hat.turns, hat.told, hat.behind⟩ htools htimely command none
    · have hturn : a.turn_for call = front.length :=
        turn_for_eq hat.turns ⟨⟨name, had, rfl⟩, htools⟩
      have hdrop : a.drop_phase.turn_for call = front.length := hturn
      rw [hdrop]
      exact settle_aligned (a := { a.drop_phase with
          session_deny := a.session_deny ++ remembered remember scopes }) env engine rfl
        ⟨hat.turns, hat.told, hat.behind⟩ htimely _ _ _
  · exact h.dropped rfl rfl rfl rfl

theorem approve_everything_aligned (h : a.Aligned) (htimely : a.queue = [] ∨ a.injected = []) :
    (a.approve_everything env engine).Aligned := by
  unfold approve_everything
  split
  · rename_i call command scopes hphase
    obtain ⟨front, name, had, back, hat, htools, -⟩ := h.at_waits call (by
      rw [hphase]
      exact fun _ _ _ hopen => hopen)
    exact start_command_aligned (a := { a.drop_phase with
        session_allow := a.session_allow ++ [ALLOW_ALL_PATTERN] }) env engine rfl
      ⟨hat.turns, hat.told, hat.behind⟩ htools htimely command none
  · exact h.dropped rfl rfl rfl rfl

theorem submit_sudo_aligned (h : a.Aligned) (password : List Char)
    (htimely : a.queue = [] ∨ a.injected = []) : (a.submit_sudo env engine password).Aligned := by
  unfold submit_sudo
  split
  · rename_i call command reason hphase
    obtain ⟨front, name, had, back, hat, htools, -⟩ := h.at_waits call (by
      rw [hphase]
      exact fun _ _ _ hopen => hopen)
    exact start_command_aligned (a := { a.drop_phase with
        log := a.log ++ [Event.sudo_answer call command] }) env engine rfl
      ⟨hat.turns, hat.told, hat.behind⟩ htools htimely command _
  · exact h.dropped rfl rfl rfl rfl

theorem cancel_sudo_aligned (h : a.Aligned) (htimely : a.queue = [] ∨ a.injected = []) :
    (a.cancel_sudo env engine).Aligned := by
  unfold cancel_sudo
  split
  · rename_i call command reason hphase
    obtain ⟨front, name, had, back, hat, htools, -⟩ := h.at_waits call (by
      rw [hphase]
      exact fun _ _ _ hopen => hopen)
    have hturn : a.turn_for call = front.length :=
      turn_for_eq hat.turns ⟨⟨name, had, rfl⟩, htools⟩
    rw [hturn]
    exact settle_aligned (a := a.drop_phase) env engine rfl ⟨hat.turns, hat.told, hat.behind⟩
      htimely _ _ _
  · exact h.dropped rfl rfl rfl rfl

/-- A line is itself, or a question whose answer is filled in. -/
def Answered (turn turn' : Turn) : Prop :=
  turn = turn' ∨ ∃ text was now, turn = .question text was ∧ turn' = .question text now

theorem answer_question_answered (answer : List Char) : ∀ turns : List Turn,
    List.Forall₂ Answered turns (answer_question answer turns)
  | [] => .nil
  | turn :: turns => by
    have hsame : List.Forall₂ Answered turns turns := List.forall₂_same.mpr fun _ _ => .inl rfl
    rw [answer_question.eq_def]
    dsimp only
    split
    · exact .cons (.inl rfl) (answer_question_answered answer turns)
    · split
      · exact .cons (.inr ⟨_, _, _, rfl, rfl⟩) hsame
      · exact .cons (.inl rfl) hsame

theorem answered_split : ∀ {front back turns : List Turn},
    List.Forall₂ Answered (front ++ back) turns → ∃ front' back', turns = front' ++ back' ∧
      List.Forall₂ Answered front front' ∧ List.Forall₂ Answered back back'
  | [], back, turns, h => ⟨[], turns, rfl, .nil, h⟩
  | _ :: front, back, _, .cons hturn h => by
    obtain ⟨front', back', rfl, hfront, hback⟩ := answered_split h
    exact ⟨_ :: front', back', rfl, .cons hturn hfront, hback⟩

theorem Talks.answered {turns turns' : List Turn} {ms : List ApiMessage} (h : Talks turns ms)
    (hr : List.Forall₂ Answered turns turns') : Talks turns' ms := by
  refine Told.congr_left ?_ ?_ h hr
  · rintro t t' m (rfl | ⟨text, was, now, rfl, rfl⟩) hsame
    · exact hsame
    · cases m <;> cases hsame
  · rintro t t' (rfl | ⟨text, was, now, rfl, rfl⟩) halone
    · exact halone
    · rfl

theorem answered_tools {turns turns' : List Turn} (hr : List.Forall₂ Answered turns turns')
    (h : ∀ turn ∈ turns, is_tool_turn turn = false) :
    ∀ turn ∈ turns', is_tool_turn turn = false := by
  induction hr with
  | nil => exact h
  | cons hturn _ ih =>
    rw [List.forall_mem_cons] at h ⊢
    refine ⟨?_, ih h.2⟩
    rcases hturn with rfl | ⟨text, was, now, rfl, rfl⟩
    · exact h.1
    · rfl

/-- A question is answered behind the line of its call. -/
theorem At.answered {call : ApiToolCall} (h : a.At front (.tool name (call_label call) [] had) back)
    (htools : ∀ turn ∈ back, is_tool_turn turn = false) (answer : List Char) :
    ∃ front' back', front'.length = front.length ∧
      (∀ turn ∈ back', is_tool_turn turn = false) ∧
      answer_question answer a.turns =
        front' ++ .tool name (call_label call) [] had :: back' ∧
      Talks front' a.history ∧ Talks back' a.pending := by
  have hr := answer_question_answered answer a.turns
  rw [h.turns] at hr
  obtain ⟨front', rest, hturns, hfront, hrest⟩ := answered_split hr
  obtain ⟨opened', back', hopened, hback, rfl⟩ := List.forall₂_cons_left_iff.mp hrest
  have htool : opened' = .tool name (call_label call) [] had := by
    rcases hopened with rfl | ⟨text, was, now, heq, -⟩
    · rfl
    · cases heq
  rw [htool] at hturns
  rw [h.turns]
  exact ⟨front', back', hfront.length_eq.symm, answered_tools hback htools, hturns,
    Talks.answered h.told hfront, Talks.answered h.behind hback⟩

theorem answer_aligned (h : a.Aligned) (text : List Char)
    (htimely : a.queue = [] ∨ a.injected = []) : (a.answer env engine text).Aligned := by
  unfold answer
  dsimp only
  split
  · exact h
  split
  · rename_i call questions current answers hphase
    obtain ⟨front, name, had, back, hat, htools, -⟩ := h.at_waits call (by
      rw [hphase]
      exact fun _ _ _ hopen => hopen)
    obtain ⟨front', back', hlength, htools', hturns, htold, hbehind⟩ :=
      hat.answered htools (Text.trim text)
    split
    · exact h
    split
    · rename_i question _
      refine ⟨front', [.tool name (call_label call) [] had],
        back' ++ [.question question.text none], ?_, htold, ?_, ⟨name, had, rfl⟩, ?_⟩
      · show answer_question (Text.trim text) a.turns ++ _ = _
        rw [hturns, List.append_assoc]
        rfl
      · refine hbehind.show_more fun turn hturn => ?_
        rw [List.mem_singleton.mp hturn]
        rfl
      · intro turn hturn
        rcases List.mem_append.mp hturn with hturn | hturn
        · exact htools' turn hturn
        · rw [List.mem_singleton.mp hturn]
          rfl
    · have hat' : ({ a.drop_phase with
          turns := answer_question (Text.trim text) a.turns } : Agent).At front'
            (.tool name (call_label call) [] had) back' := ⟨hturns, htold, hbehind⟩
      rw [turn_for_eq hat'.turns ⟨⟨name, had, rfl⟩, htools'⟩]
      exact settle_aligned env engine rfl hat' htimely _ _ _
  · exact h.dropped rfl rfl rfl rfl

/-! ## Replies -/

/-- A line that is not the user's changes. -/
theorem At.with_turns {b : Agent} (h : a.At front opened back) {opened' : Turn}
    (hturns : b.turns = front ++ opened' :: back) (hhistory : b.history = a.history)
    (hinjected : b.injected = a.injected) : b.At front opened' back := by
  refine ⟨hturns, hhistory ▸ h.told, ?_⟩
  have := h.behind
  unfold pending at this ⊢
  rwa [hinjected]

variable {text : List Char} {stopped : Bool}

theorem stream_turns_at (h : a.At front (.assistant text stopped) back) (delta : List Char) :
    a.stream_turns front.length delta = front ++ .assistant (text ++ delta) stopped :: back := by
  unfold stream_turns
  rw [h.get]
  exact h.set _

theorem drop_empty_reply_at (h : a.At front (.assistant text stopped) back) :
    (a.drop_empty_reply front.length).turns =
        front ++ ((if Text.trim text = [] then [] else [.assistant text stopped]) ++ back) ∧
      (a.drop_empty_reply front.length).injected = a.injected := by
  unfold drop_empty_reply
  rw [h.get]
  dsimp only
  split
  · refine ⟨?_, rfl⟩
    show a.turns.eraseIdx front.length = _
    rw [h.turns, List.eraseIdx_append_of_length_le (Nat.le_refl _), Nat.sub_self]
    rfl
  · exact ⟨h.turns, rfl⟩

/-- A reply that failed keeps its words without a message. -/
theorem fail_reply_aligned (hphase : a.phase = none) (h : a.At front (.assistant text stopped) back)
    (error : List Char) : (a.fail_reply front.length error).Aligned := by
  have h' : ({ a with error := some error } : Agent).At front (.assistant text stopped) back :=
    h.with_turns h.turns rfl rfl
  obtain ⟨hturns, hinjected⟩ := drop_empty_reply_at h'
  obtain ⟨hphase', -, hhistory, -⟩ :=
    drop_empty_reply_eq { a with error := some error } front.length
  refine aligned_of_talked (hphase'.trans hphase) ?_
  unfold Talked pending fail_reply
  dsimp only
  rw [hturns, hhistory, hinjected, ← List.append_assoc, List.append_assoc]
  refine (h.told.show_more ?_).append (h.behind.show_more ?_)
  · split
    · exact fun _ hturn => absurd hturn List.not_mem_nil
    · intro turn hturn
      rw [List.mem_singleton.mp hturn]
      rfl
  · intro turn hturn
    rw [List.mem_singleton.mp hturn]
    rfl

/-- **A reply** is reported with the words it shows; without words it is not shown. -/
theorem finish_reply_aligned (hphase : a.phase = none)
    (h : a.At front (.assistant text stopped) back) (result : Except (List Char) Completion)
    (htimely : ∀ completion, result = .ok completion →
      completion.tool_calls = [] ∨ a.injected = []) :
    (a.finish_reply env engine front.length result).Aligned := by
  unfold finish_reply
  split
  · exact fail_reply_aligned hphase h _
  rename_i completion
  split
  · exact fail_reply_aligned hphase h _
  have hfill : a.fill_reply front.length completion.text =
      (front ++ .assistant (if text = [] then completion.text else text) stopped :: back,
        if text = [] then completion.text else text) := by
    unfold fill_reply
    rw [h.get]
    dsimp only
    rw [h.set]
  rw [hfill]
  generalize (if text = [] then completion.text else text) = whole
  dsimp only
  have h' : ({ a with turns := front ++ .assistant whole stopped :: back } : Agent).At front
      (.assistant whole stopped) back := h.with_turns rfl rfl rfl
  obtain ⟨hturns, hinjected⟩ := drop_empty_reply_at h'
  obtain ⟨hphase', -, hhistory, -⟩ := drop_empty_reply_eq
    { a with turns := front ++ .assistant whole stopped :: back } front.length
  generalize
    ({ a with turns := front ++ .assistant whole stopped :: back } : Agent).drop_empty_reply
    front.length = b at hturns hinjected hphase' hhistory
  have htalked : ({ b with
      history := b.history ++ [.assistant whole completion.tool_calls]
      queue := [] } : Agent).Talked := by
    have hfront : Talks (front ++ if Text.trim whole = [] then [] else [.assistant whole stopped])
        (a.history ++ [.assistant whole completion.tool_calls]) := by
      split
      · next hblank =>
        rw [List.append_nil]
        exact Told.concat_silent h.told hblank
      · exact Told.concat h.told rfl
    have hall := hfront.append h.behind
    unfold Talked pending
    dsimp only
    rw [hturns, hhistory, hinjected, ← List.append_assoc]
    exact hall
  split
  · exact aligned_of_talked (hphase'.trans hphase) htalked
  · exact advance_aligned env engine _ _ (hphase'.trans hphase) htalked
      ((htimely completion rfl).imp_right fun hnone => hinjected.trans hnone)

/-! ## What has come in -/

theorem write_remote_aligned (h : a.At front (.tool name label was had) back)
    (htimely : a.queue = [] ∨ a.injected = []) (target payload : List Char) :
    (a.write_remote env engine call front.length target payload).Aligned := by
  unfold write_remote
  generalize split_payload payload = parts
  obtain ⟨content, diff⟩ := parts
  dsimp only
  split
  · exact settle_aligned (a := { a with phase := none }) env engine rfl
      (h.with_turns h.turns rfl rfl) htimely _ _ _
  · generalize diff.getD ("Uploading to ".toList ++ target ++ ['…']) = shown
    refine ⟨front, [.tool name label shown had], back, ?_, h.told, h.behind, rfl, name, label,
      shown, had, rfl⟩
    dsimp only
    rw [h.get]
    exact h.set _

theorem ask_again_eq (waiting : Waiting) :
    (a.ask_again env call waiting).turns = a.turns ∧
      (a.ask_again env call waiting).history = a.history ∧
      (a.ask_again env call waiting).injected = a.injected ∧
      (a.ask_again env call waiting).phase = a.phase ∧
      (a.ask_again env call waiting).queue = a.queue := by
  unfold ask_again
  split
  · exact ⟨rfl, rfl, rfl, rfl, rfl⟩
  · exact ⟨rfl, rfl, rfl, rfl, rfl⟩

theorem poll_tool_aligned (h : a.Aligned)
    (worker : Files.TryRecv (Except (List Char) (List Char)))
    (htimely : a.queue = [] ∨ a.injected = []) : (a.poll_tool env engine worker).Aligned := by
  unfold poll_tool
  split
  · rename_i call turn waiting hphase
    obtain ⟨hturns, hhistory, hinjected, hphase', hqueue⟩ := @ask_again_eq a env call waiting
    have hasked := h.congr hturns hhistory hinjected hphase'
    have htimely' : (a.ask_again env call waiting).queue = [] ∨
        (a.ask_again env call waiting).injected = [] := by
      rwa [hqueue, hinjected]
    rw [hphase] at hphase'
    generalize a.ask_again env call waiting = b at hasked hphase' htimely'
    obtain ⟨front, opened, back, hb, hfront, hback, hopen⟩ := hasked
    rw [hphase'] at hopen
    obtain ⟨rfl, name, label, was, had, rfl⟩ := hopen
    have hat : b.At front (.tool name label was had) back := ⟨hb, hfront, hback⟩
    dsimp only
    split
    · refine ⟨front, [.tool name label was had], back, hb, hfront, hback, ?_⟩
      rw [hphase']
      exact ⟨rfl, name, label, was, had, rfl⟩
    · rename_i cwd shown output failed _
      exact settle_aligned (a := { b with cwd, phase := none }) env engine rfl
        (hat.with_turns hat.turns rfl rfl) htimely' _ _ _
    · rename_i cwd target payload _
      exact write_remote_aligned (a := { b with cwd }) env engine
        (hat.with_turns hat.turns rfl rfl) htimely' _ _
  · exact h

/-- The calls that may start when what has come in is taken. -/
def next_calls (a : Agent) (stream : Stream) : List ApiToolCall :=
  match a.phase, stream.done with
  | some (.streaming _), some (.ok completion) => completion.tool_calls
  | some (.running ..), _ => a.queue
  | _, _ => []

theorem poll_aligned (h : a.Aligned) (stream : Stream)
    (worker : Files.TryRecv (Except (List Char) (List Char)))
    (htimely : a.next_calls stream = [] ∨ a.injected = []) :
    (a.poll env engine stream worker).Aligned := by
  unfold poll
  split
  · rename_i turn hphase
    have hopened := h
    obtain ⟨front, opened, back, hturns, hfront, hback, hopen⟩ := hopened
    rw [hphase] at hopen
    obtain ⟨rfl, text, stopped, rfl⟩ := hopen
    have hat : a.At front (.assistant text stopped) back := ⟨hturns, hfront, hback⟩
    have hstreamed := stream_turns_at hat stream.delta
    dsimp only
    split
    · refine ⟨front, [.assistant (text ++ stream.delta) stopped], back, hstreamed, hfront, hback,
        ?_⟩
      show Opens _ _ _ a.phase
      rw [hphase]
      exact ⟨rfl, _, _, rfl⟩
    · rename_i result hdone
      refine finish_reply_aligned (a := { a with
        turns := a.stream_turns front.length stream.delta, phase := none }) env engine rfl
        (hat.with_turns hstreamed rfl rfl) result fun completion hok => ?_
      unfold next_calls at htimely
      rw [hphase, hdone, hok] at htimely
      exact htimely
  · rename_i hphase
    refine poll_tool_aligned env engine h worker ?_
    unfold next_calls at htimely
    rw [hphase] at htimely
    exact htimely
  · exact h

end Engine

end Agent

end WaSSH.Agent
