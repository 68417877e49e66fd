import WaSSH.Agent.Machine

/-!
# The history a provider accepts

A provider rejects a conversation in which a call has no answer, or an answer no call. Answers come
in the order of the calls, so reading a history from the left leaves a list of calls still to answer.

* `WellFormed`: what a provider accepts;
* `left`, `Repairable`: reading a history, strictly and with dropped calls;
* `repair_left`: what `repair_history` makes of a repairable history;
* `Agent.Safe`: a run is cut off only where no dropped call bears an answered id;
* **`completions_well_formed`**: then every history sent is well formed.
-/

set_option linter.dupNamespace false

namespace WaSSH.Agent

open Agent (answered_ids repair_message before_user)

/-! ## Histories -/

/-- The ids of the tool messages a history begins with. -/
def leading_tools : List ApiMessage → List String
  | .tool id _ :: rest => id :: leading_tools rest
  | _ => []

/-- **What a provider accepts**: every assistant message is followed by one tool message for each of
its calls, and every tool message answers a call of the closest assistant message. -/
structure WellFormed (history : List ApiMessage) : Prop where
  answered : ∀ before content calls after, history = before ++ .assistant content calls :: after →
    (leading_tools after).Perm (calls.map (·.id))
  asked : ∀ before id content after, history = before ++ .tool id content :: after →
    ∃ earlier text calls between, before = earlier ++ .assistant text calls :: between ∧
      (∀ message ∈ between, ∃ id content, message = .tool id content) ∧
      id ∈ calls.map (·.id)

/-- Read a history with the calls of `pending` to answer; what is left of them at its end, unless a
message came out of place. -/
def left : List String → List ApiMessage → Option (List String)
  | pending, [] => some pending
  | [], .user _ :: history => left [] history
  | [], .assistant _ calls :: history => left (calls.map (·.id)) history
  | id :: pending, .tool answered _ :: history =>
    if id = answered then left pending history else none
  | _, _ => none

theorem left_append : ∀ (pending : List String) (history more : List ApiMessage),
    left pending (history ++ more) = (left pending history).bind (left · more)
  | _, [], _ => by simp [left]
  | [], .user _ :: history, more => by
    rw [List.cons_append, left, left, left_append]
  | [], .assistant _ calls :: history, more => by
    rw [List.cons_append, left, left, left_append]
  | id :: pending, .tool answered _ :: history, more => by
    simp only [List.cons_append, left]
    split
    · exact left_append pending history more
    · rfl
  | [], .tool .. :: _, _ => rfl
  | _ :: _, .user _ :: _, _ => rfl
  | _ :: _, .assistant .. :: _, _ => rfl

/-- What is read on after a part of a history that can be read. -/
theorem left_of_append {pending rest : List String} {history more : List ApiMessage}
    (h : left pending (history ++ more) = some rest) :
    ∃ mid, left pending history = some mid ∧ left mid more = some rest := by
  rw [left_append] at h
  exact Option.bind_eq_some_iff.mp h

theorem left_tool {history : List ApiMessage} {pending : List String} {id : String}
    (h : left [] history = some (id :: pending)) (content : List Char) :
    left [] (history ++ [.tool id content]) = some pending := by
  rw [left_append, h]
  simp [left]

theorem left_assistant {history : List ApiMessage} (h : left [] history = some [])
    (content : List Char) (calls : List ApiToolCall) :
    left [] (history ++ [.assistant content calls]) = some (calls.map (·.id)) := by
  rw [left_append, h]
  rfl

theorem leading_tools_eq : ∀ {pending : List String} {history : List ApiMessage},
    left pending history = some [] → leading_tools history = pending
  | [], [], _ => rfl
  | [], .user _ :: _, _ => rfl
  | [], .assistant .. :: _, _ => rfl
  | id :: pending, .tool answered _ :: history, h => by
    simp only [left] at h
    split at h
    · rename_i hid
      rw [leading_tools, leading_tools_eq h, hid]
    · exact nomatch h

/-- The calls to answer are calls of the closest assistant message. -/
theorem exists_assistant {history : List ApiMessage} {pending : List String}
    (h : left [] history = some pending) (hne : pending ≠ []) :
    ∃ earlier text calls between, history = earlier ++ .assistant text calls :: between ∧
      (∀ message ∈ between, ∃ id content, message = .tool id content) ∧
      ∀ id ∈ pending, id ∈ calls.map (·.id) := by
  induction history using List.reverseRecOn generalizing pending with
  | nil => exact absurd (Option.some.inj h).symm hne
  | append_singleton history message ih =>
    obtain ⟨mid, hmid, hlast⟩ := left_of_append h
    cases message with
    | user content =>
      cases mid with
      | nil => exact absurd (Option.some.inj hlast).symm hne
      | cons _ _ => exact nomatch hlast
    | assistant text calls =>
      cases mid with
      | nil =>
        exact ⟨history, text, calls, [], rfl, nofun,
          fun id hid => (Option.some.inj hlast : calls.map (·.id) = pending) ▸ hid⟩
      | cons _ _ => exact nomatch hlast
    | tool answered content =>
      cases mid with
      | nil => exact nomatch hlast
      | cons first rest =>
        have hrest : rest = pending := by
          simp only [left] at hlast
          split at hlast
          · exact Option.some.inj hlast
          · exact nomatch hlast
        obtain ⟨earlier, text, calls, between, heq, htools, hmem⟩ := ih hmid (List.cons_ne_nil _ _)
        refine ⟨earlier, text, calls, between ++ [.tool answered content], ?_, ?_, ?_⟩
        · rw [heq, List.append_assoc]
          rfl
        · intro message hmessage
          rcases List.mem_append.mp hmessage with hmessage | hmessage
          · exact htools message hmessage
          · exact ⟨answered, content, List.mem_singleton.mp hmessage⟩
        · exact fun id hid => hmem id (List.mem_cons_of_mem _ (hrest ▸ hid))

/-- A history that reads with nothing left is one a provider accepts. -/
theorem well_formed_of_left {history : List ApiMessage} (h : left [] history = some []) :
    WellFormed history where
  answered before content calls after heq := by
    rw [heq] at h
    obtain ⟨mid, -, hmid⟩ := left_of_append h
    cases mid with
    | nil =>
      have hafter : left (calls.map (·.id)) after = some [] := hmid
      rw [leading_tools_eq hafter]
    | cons _ _ => exact nomatch hmid
  asked before id content after heq := by
    rw [heq] at h
    obtain ⟨mid, hbefore, hmid⟩ := left_of_append h
    cases mid with
    | nil => exact nomatch hmid
    | cons first rest =>
      obtain ⟨earlier, text, calls, between, hsplit, htools, hmem⟩ :=
        exists_assistant hbefore (List.cons_ne_nil _ _)
      refine ⟨earlier, text, calls, between, hsplit, htools, ?_⟩
      simp only [left] at hmid
      split at hmid
      · rename_i hid
        exact hmem id (hid ▸ List.mem_cons_self)
      · exact nomatch hmid

/-! ## Histories that can be repaired -/

/-- A history in which some calls have been dropped; none of these bears one of the ids of
`answered`. -/
def Repairable (answered : List String) : List String → List ApiMessage → Prop
  | pending, [] => ∀ id ∈ pending, id ∉ answered
  | pending, .user _ :: history =>
    (∀ id ∈ pending, id ∉ answered) ∧ Repairable answered [] history
  | pending, .assistant _ calls :: history =>
    (∀ id ∈ pending, id ∉ answered) ∧ Repairable answered (calls.map (·.id)) history
  | id :: pending, .tool reply _ :: history => id = reply ∧ Repairable answered pending history
  | [], .tool .. :: _ => False

theorem repairable_of_left {answered : List String} :
    ∀ {pending rest : List String} {history : List ApiMessage},
      left pending history = some rest → (∀ id ∈ rest, id ∉ answered) →
      Repairable answered pending history
  | _, _, [], h, hrest => by
    rw [left] at h
    exact Option.some.inj h ▸ hrest
  | [], _, .user _ :: _, h, hrest => ⟨nofun, repairable_of_left h hrest⟩
  | [], _, .assistant .. :: _, h, hrest => ⟨nofun, repairable_of_left h hrest⟩
  | id :: _, _, .tool reply _ :: _, h, hrest => by
    simp only [left] at h
    split at h
    · rename_i hid
      exact ⟨hid, repairable_of_left h hrest⟩
    · exact nomatch h

theorem Repairable.anti {answered answered' : List String} (hsub : answered' ⊆ answered) :
    ∀ {pending : List String} {history : List ApiMessage},
      Repairable answered pending history → Repairable answered' pending history
  | _, [], h => fun id hid hmem => h id hid (hsub hmem)
  | _, .user _ :: _, h => ⟨fun id hid hmem => h.1 id hid (hsub hmem), h.2.anti hsub⟩
  | _, .assistant .. :: _, h => ⟨fun id hid hmem => h.1 id hid (hsub hmem), h.2.anti hsub⟩
  | _ :: _, .tool .. :: _, h => ⟨h.1, h.2.anti hsub⟩

/-- Users may go on with a history that can be repaired. -/
theorem Repairable.append_user {answered : List String} (content : List Char) :
    ∀ {pending : List String} {history : List ApiMessage},
      Repairable answered pending history →
      Repairable answered pending (history ++ [.user content])
  | _, [], h => ⟨h, nofun⟩
  | _, .user _ :: _, h => ⟨h.1, h.2.append_user content⟩
  | _, .assistant .. :: _, h => ⟨h.1, h.2.append_user content⟩
  | _ :: _, .tool .. :: _, h => ⟨h.1, h.2.append_user content⟩

/-- So may a rewind cut it. -/
theorem Repairable.before_user {answered : List String} :
    ∀ {pending : List String} {history : List ApiMessage} (wanted : ℕ),
      Repairable answered pending history →
      Repairable answered pending (before_user wanted history)
  | _, [], _, h => h
  | _, .user _ :: _, 0, h => h.1
  | _, .user _ :: _, wanted + 1, h => ⟨h.1, h.2.before_user wanted⟩
  | _, .assistant .. :: _, wanted, h => ⟨h.1, h.2.before_user wanted⟩
  | _ :: _, .tool .. :: _, wanted, h => ⟨h.1, h.2.before_user wanted⟩

theorem before_user_sublist : ∀ (wanted : ℕ) (history : List ApiMessage),
    (before_user wanted history).Sublist history
  | _, [] => .slnil
  | 0, .user _ :: _ => List.nil_sublist _
  | wanted + 1, .user _ :: history => (before_user_sublist wanted history).cons_cons _
  | wanted, .assistant .. :: history => (before_user_sublist wanted history).cons_cons _
  | wanted, .tool .. :: history => (before_user_sublist wanted history).cons_cons _

theorem filter_dropped {answered pending : List String} (h : ∀ id ∈ pending, id ∉ answered) :
    pending.filter (answered.contains ·) = [] :=
  List.filter_eq_nil_iff.mpr fun id hid hmem => h id hid (List.contains_iff_mem.mp hmem)

/-- **What the repair makes of a history**: the dropped calls are gone, and every call left is
answered. -/
theorem repair_left {answered : List String} :
    ∀ {pending : List String} {history : List ApiMessage},
      Repairable answered pending history → (∀ id ∈ answered_ids history, id ∈ answered) →
      left (pending.filter (answered.contains ·)) (history.filterMap (repair_message answered)) =
        some []
  | pending, [], h, _ => by
    rw [filter_dropped h]
    rfl
  | pending, .user content :: history, h, hids => by
    have hkeep : repair_message answered (.user content) = some (.user content) := rfl
    rw [filter_dropped h.1, List.filterMap_cons_some hkeep]
    exact repair_left h.2 hids
  | pending, .assistant content calls :: history, h, hids => by
    have hrest := repair_left h.2 hids
    rw [List.filter_map] at hrest
    rw [filter_dropped h.1]
    by_cases hkeep : Text.trim content ≠ [] ∨
        (calls.filter (answered.contains ·.id)).isEmpty = false
    · have hmessage : repair_message answered (.assistant content calls) =
          some (.assistant content (calls.filter (answered.contains ·.id))) := if_pos hkeep
      rw [List.filterMap_cons_some hmessage]
      exact hrest
    · have hmessage : repair_message answered (.assistant content calls) = none := if_neg hkeep
      have hcalls : calls.filter (answered.contains ·.id) = [] := by
        simpa using (not_or.mp hkeep).2
      rw [List.filterMap_cons_none hmessage]
      have hnil : calls.filter ((answered.contains ·) ∘ fun call => call.id) = [] := hcalls
      rwa [hnil] at hrest
  | id :: pending, .tool reply content :: history, h, hids => by
    obtain ⟨rfl, h⟩ := h
    have hkeep : repair_message answered (.tool id content) = some (.tool id content) := rfl
    have hid : answered.contains id = true :=
      List.contains_iff_mem.mpr (hids id List.mem_cons_self)
    rw [List.filterMap_cons_some hkeep, List.filter_cons_of_pos hid, left, if_pos rfl]
    exact repair_left h fun id' hid' => hids id' (List.mem_cons_of_mem _ hid')

/-! ## Runs -/

namespace Agent

/-- The ids of the calls the agent has yet to answer: the one it waits for and the queue. -/
def owed (a : Agent) : List String :=
  match a.phase.bind Phase.call with
  | some call => call.id :: a.queue.map (·.id)
  | none => []

/-- The history reads up to the calls owed; between runs it can be repaired. -/
def Reads (a : Agent) : Prop :=
  match a.phase with
  | none => Repairable (answered_ids a.history) [] a.history
  | some _ => left [] a.history = some a.owed

/-- Every history sent reads with nothing left. -/
def Sent (a : Agent) : Prop :=
  ∀ messages, Event.completion messages ∈ a.log → left [] messages = some []

/-- The phase is not the one of a prompt, and its call goes unanswered when it is taken. -/
def answers_another (a : Agent) : Step → Bool
  | .answer_permission .. | .allow_everything _ =>
    match a.phase with
    | some (.allowing ..) => false
    | _ => true
  | .approve .. | .approve_everything _ =>
    match a.phase with
    | some (.approving ..) => false
    | _ => true
  | .submit_sudo .. | .cancel_sudo _ =>
    match a.phase with
    | some (.sudo_prompt ..) => false
    | _ => true
  | .answer _ text =>
    match a.phase with
    | some (.asking ..) => false
    | _ => Text.trim text ≠ []
  | _ => false

/-- The ids of the calls a step leaves without an answer for good, a stop apart. -/
def dropped (a : Agent) : Step → List String
  | .reply => if a.needs_reply then a.owed else []
  | s => if a.answers_another s then a.owed else []

/-- **A step cuts a run off only where no call it drops bears an answered id**, the one a stop answers
among them, and the history is not repaired while a call is unanswered. -/
def Safe (a : Agent) : Step → Prop
  | .stop => ∀ id ∈ a.owed.tail, id ∉ answered_ids a.history ∧ id ∉ a.owed.head?
  | .repair_history => a.owed = []
  | s => ∀ id ∈ a.dropped s, id ∉ answered_ids a.history

/-! ### What starting a call keeps -/

/-- What holds of the agent in every state of a run. -/
structure Ordered (a : Agent) : Prop where
  reads : a.Reads
  sent : a.Sent

theorem Reads.of_idle {a : Agent} {rest : List String} (hphase : a.phase = none)
    (h : left [] a.history = some rest) (hrest : ∀ id ∈ rest, id ∉ answered_ids a.history) :
    a.Reads := by
  unfold Reads
  rw [hphase]
  exact repairable_of_left h hrest

theorem Reads.of_phase {a : Agent} {phase : Phase} (hphase : a.phase = some phase)
    (h : left [] a.history = some a.owed) : a.Reads := by
  unfold Reads
  rw [hphase]
  exact h

theorem owed_of_call {a : Agent} {phase : Phase} {call : ApiToolCall} (hphase : a.phase = some phase)
    (hcall : phase.call = some call) : a.owed = call.id :: a.queue.map (·.id) := by
  unfold owed
  rw [hphase, Option.bind_some, hcall]

theorem Reads.left_eq {a : Agent} {phase : Phase} {call : ApiToolCall} (h : a.Reads)
    (hphase : a.phase = some phase) (hcall : phase.call = some call) :
    left [] a.history = some (call.id :: a.queue.map (·.id)) := by
  unfold Reads at h
  rw [hphase] at h
  rw [← owed_of_call hphase hcall]
  exact h

theorem Sent.append {a b : Agent} (h : a.Sent) {events : List Event} (hlog : b.log = a.log ++ events)
    (hnew : ∀ messages, Event.completion messages ∈ events → left [] messages = some []) :
    b.Sent := by
  intro messages hmem
  rw [hlog] at hmem
  rcases List.mem_append.mp hmem with hmem | hmem
  · exact h messages hmem
  · exact hnew messages hmem

theorem apply_sent {a : Agent} (h : a.Sent) (call : ApiToolCall) (ran : Ran) :
    (a.apply call ran).Sent :=
  h.append rfl fun messages hmem => by
    obtain ⟨request, -, heq⟩ := List.mem_map.mp hmem
    exact nomatch heq

/-- The agent has changed nowhere the invariant looks. -/
theorem Ordered.congr {a b : Agent} (h : a.Ordered) (hphase : b.phase = a.phase)
    (hqueue : b.queue = a.queue) (hhistory : b.history = a.history) (hlog : b.log = a.log) :
    b.Ordered where
  reads := by
    have howed : b.owed = a.owed := by
      unfold owed
      rw [hphase, hqueue]
    have := h.reads
    unfold Reads at this ⊢
    rw [hphase, hhistory, howed]
    exact this
  sent := by
    unfold Sent
    rw [hlog]
    exact h.sent

section Engine

variable (env : Env) (engine : Anchored.Engine)

/-- **The queue**, call by call: each is answered or waits with the rest behind it. -/
theorem advance_ordered : ∀ (queue : List ApiToolCall) (a : Agent), a.phase = none →
    left [] a.history = some (queue.map (·.id)) → a.Sent → (advance env engine a queue).Ordered
  | [], a, hphase, hleft, hsent => ⟨.of_idle hphase hleft nofun, hsent⟩
  | call :: queue, a, hphase, hleft, hsent => by
    unfold advance
    dsimp only
    set a' : Agent := { a with turns := a.turns ++ [.tool call.name (call_label call) [] false] }
    have hfits := dispatch_fits env a' call a.turns.length engine (a'.label a.turns.length)
    generalize dispatch env a' call a.turns.length engine (a'.label a.turns.length) = ran at hfits
    have hsent' : (a'.apply call ran).Sent := apply_sent hsent call ran
    split
    · rename_i output failed _
      exact advance_ordered queue _ hphase (left_tool hleft output) hsent'
    · rename_i phase houtcome
      have hcall := (hfits.parked phase houtcome).call_eq
      refine ⟨.of_phase rfl ?_, hsent'⟩
      rw [owed_of_call rfl hcall]
      exact hleft

variable {a : Agent} {call : ApiToolCall}

theorem settle_ordered (hphase : a.phase = none)
    (hleft : left [] a.history = some (call.id :: a.queue.map (·.id))) (hsent : a.Sent)
    (turn : ℕ) (label output : List Char) (failed : Bool) :
    (a.settle env engine call turn label output failed).Ordered :=
  advance_ordered env engine a.queue _ hphase (left_tool hleft output) hsent

theorem follow_ordered {ran : Ran} (hphase : a.phase = none)
    (hleft : left [] a.history = some (call.id :: a.queue.map (·.id))) (hsent : a.Sent) (turn : ℕ)
    (hran : ∀ phase, ran.outcome = .park phase → phase.call = some call) :
    (a.follow env engine call turn ran).Ordered := by
  have hsent' := apply_sent hsent call ran
  unfold follow
  dsimp only
  split
  · exact settle_ordered (a := a.apply call ran) env engine hphase hleft hsent' turn _ _ _
  · rename_i phase houtcome
    refine ⟨.of_phase rfl ?_, hsent'⟩
    rw [owed_of_call rfl (hran phase houtcome)]
    exact hleft

theorem start_command_ordered (hphase : a.phase = none)
    (hleft : left [] a.history = some (call.id :: a.queue.map (·.id))) (hsent : a.Sent)
    (command : List Char) (sudo_stdin : Option (List Char)) :
    (a.start_command env engine call command sudo_stdin).Ordered :=
  follow_ordered env engine hphase hleft hsent _ fun _ hpark =>
    (exec_command_parked env a call _ hpark).call_eq

/-! ### Prompts -/

/-- A history up to calls that bear no answered id can be repaired. -/
theorem Ordered.repairable (h : a.Ordered) (hdrop : ∀ id ∈ a.owed, id ∉ answered_ids a.history) :
    Repairable (answered_ids a.history) [] a.history := by
  have hreads := h.reads
  unfold Reads at hreads
  split at hreads
  · exact hreads
  · exact repairable_of_left hreads hdrop

theorem drop_phase_ordered (h : a.Ordered)
    (hdrop : ∀ id ∈ a.owed, id ∉ answered_ids a.history) : a.drop_phase.Ordered :=
  ⟨h.repairable hdrop, h.sent⟩

theorem answer_permission_ordered (h : a.Ordered) (allow : Bool)
    (hdrop : (∀ call turn label, a.phase ≠ some (.allowing call turn label)) →
      ∀ id ∈ a.owed, id ∉ answered_ids a.history) :
    (a.answer_permission env engine allow).Ordered := by
  unfold answer_permission
  split
  · rename_i call turn label hphase
    have hleft := h.reads.left_eq hphase rfl
    dsimp only
    split
    · exact follow_ordered (a := a.drop_phase) env engine rfl hleft h.sent turn fun phase hpark =>
        ((run_tool_fits env _ call turn engine).parked phase hpark).call_eq
    · exact settle_ordered (a := a.drop_phase) env engine rfl hleft h.sent turn _ _ _
  · rename_i hphase
    exact drop_phase_ordered h (hdrop fun call turn label heq => hphase call turn label heq)

theorem approve_ordered (h : a.Ordered) (allow : Bool) (remember : Option ℕ)
    (hdrop : (∀ call command scopes, a.phase ≠ some (.approving call command scopes)) →
      ∀ id ∈ a.owed, id ∉ answered_ids a.history) :
    (a.approve env engine allow remember).Ordered := by
  unfold approve
  split
  · rename_i call command scopes hphase
    have hleft := h.reads.left_eq hphase rfl
    set rules := remembered remember scopes
    dsimp only
    split
    · exact start_command_ordered
        (a := { a.drop_phase with session_allow := a.session_allow ++ rules }) env engine rfl hleft
        h.sent command none
    · exact settle_ordered (a := { a.drop_phase with session_deny := a.session_deny ++ rules }) env
        engine rfl hleft h.sent _ _ _ _
  · rename_i hphase
    exact drop_phase_ordered h (hdrop fun call command scopes heq => hphase call command scopes heq)

theorem approve_everything_ordered (h : a.Ordered)
    (hdrop : (∀ call command scopes, a.phase ≠ some (.approving call command scopes)) →
      ∀ id ∈ a.owed, id ∉ answered_ids a.history) :
    (a.approve_everything env engine).Ordered := by
  unfold approve_everything
  split
  · rename_i call command scopes hphase
    exact start_command_ordered
      (a := { a.drop_phase with session_allow := a.session_allow ++ [ALLOW_ALL_PATTERN] }) env engine
      rfl (h.reads.left_eq hphase rfl) h.sent command none
  · rename_i hphase
    exact drop_phase_ordered h (hdrop fun call command scopes heq => hphase call command scopes heq)

theorem submit_sudo_ordered (h : a.Ordered) (password : List Char)
    (hdrop : (∀ call command reason, a.phase ≠ some (.sudo_prompt call command reason)) →
      ∀ id ∈ a.owed, id ∉ answered_ids a.history) :
    (a.submit_sudo env engine password).Ordered := by
  unfold submit_sudo
  split
  · rename_i call command reason hphase
    refine start_command_ordered
      (a := { a.drop_phase with log := a.log ++ [Event.sudo_answer call command] }) env engine rfl
      (h.reads.left_eq hphase rfl) ?_ command _
    exact h.sent.append rfl fun messages hmem => nomatch List.mem_singleton.mp hmem
  · rename_i hphase
    exact drop_phase_ordered h (hdrop fun call command reason heq => hphase call command reason heq)

theorem cancel_sudo_ordered (h : a.Ordered)
    (hdrop : (∀ call command reason, a.phase ≠ some (.sudo_prompt call command reason)) →
      ∀ id ∈ a.owed, id ∉ answered_ids a.history) :
    (a.cancel_sudo env engine).Ordered := by
  unfold cancel_sudo
  split
  · rename_i call command reason hphase
    exact settle_ordered (a := a.drop_phase) env engine rfl (h.reads.left_eq hphase rfl) h.sent _ _ _
      _
  · rename_i hphase
    exact drop_phase_ordered h (hdrop fun call command reason heq => hphase call command reason heq)

theorem answer_ordered (h : a.Ordered) (text : List Char)
    (hdrop : Text.trim text ≠ [] →
      (∀ call questions current answers,
        a.phase ≠ some (.asking call questions current answers)) →
      ∀ id ∈ a.owed, id ∉ answered_ids a.history) :
    (a.answer env engine text).Ordered := by
  unfold answer
  dsimp only
  split
  · exact h
  · rename_i htext
    split
    · rename_i call questions current answers hphase
      have hleft := h.reads.left_eq hphase rfl
      split
      · exact h
      · split
        · refine ⟨.of_phase rfl ?_, h.sent⟩
          rw [owed_of_call rfl rfl]
          exact hleft
        · exact settle_ordered
            (a := { a.drop_phase with turns := answer_question (Text.trim text) a.turns }) env engine
            rfl hleft h.sent _ _ _ _
    · rename_i hphase
      exact drop_phase_ordered h
        (hdrop htext fun call questions current answers heq =>
          hphase call questions current answers heq)

/-! ### Replies and tools -/

theorem fail_reply_ordered (h : a.Ordered) (turn : ℕ) (error : List Char) :
    (a.fail_reply turn error).Ordered := by
  obtain ⟨hphase, hqueue, hhistory, hlog⟩ :=
    drop_empty_reply_eq { a with error := some error } turn
  exact h.congr hphase hqueue hhistory hlog

/-- A reply is one message of the history and the calls it names. -/
theorem finish_reply_ordered (hphase : a.phase = none) (hleft : left [] a.history = some [])
    (hsent : a.Sent) (turn : ℕ) (result : Except (List Char) Completion) :
    (a.finish_reply env engine turn result).Ordered := by
  have h : a.Ordered := ⟨.of_idle hphase hleft nofun, hsent⟩
  unfold finish_reply
  split
  · exact fail_reply_ordered h turn _
  · rename_i completion
    split
    · exact fail_reply_ordered h turn _
    · generalize a.fill_reply turn completion.text = written
      obtain ⟨turns, text⟩ := written
      dsimp only
      obtain ⟨hphase', -, hhistory, hlog⟩ := drop_empty_reply_eq { a with turns } turn
      generalize ({ a with turns } : Agent).drop_empty_reply turn = b at hphase' hhistory hlog
      have hleft' := left_assistant (hhistory ▸ hleft) text completion.tool_calls
      have hsent' : b.Sent := fun messages hmem => hsent messages (hlog ▸ hmem)
      split
      · rename_i hempty
        rw [List.isEmpty_iff.mp hempty] at hleft' ⊢
        exact ⟨.of_idle (hphase'.trans hphase) hleft' nofun, hsent'⟩
      · exact advance_ordered env engine _ _ (hphase'.trans hphase) hleft' hsent'

theorem write_remote_ordered (hleft : left [] a.history = some (call.id :: a.queue.map (·.id)))
    (hsent : a.Sent) (turn : ℕ) (target payload : List Char) :
    (a.write_remote env engine call turn target payload).Ordered := by
  unfold write_remote
  generalize split_payload payload = parts
  obtain ⟨content, diff⟩ := parts
  dsimp only
  split
  · exact settle_ordered (a := { a with phase := none }) env engine rfl hleft hsent _ _ _ _
  · refine ⟨.of_phase rfl ?_, hsent.append rfl fun messages hmem =>
      nomatch List.mem_singleton.mp hmem⟩
    rw [owed_of_call rfl rfl]
    exact hleft

theorem ask_again_ordered (h : a.Ordered) (waiting : Waiting) :
    (a.ask_again env call waiting).Ordered := by
  unfold ask_again
  split
  · exact ⟨h.reads, h.sent.append rfl fun messages hmem => nomatch List.mem_singleton.mp hmem⟩
  · exact h

theorem ask_again_phase (a : Agent) (waiting : Waiting) :
    (a.ask_again env call waiting).phase = a.phase := by
  unfold ask_again
  split <;> rfl

theorem poll_tool_ordered (h : a.Ordered)
    (worker : Files.TryRecv (Except (List Char) (List Char))) :
    (a.poll_tool env engine worker).Ordered := by
  unfold poll_tool
  split
  · rename_i call turn waiting hphase
    have hasked : (a.ask_again env call waiting).Ordered := ask_again_ordered env h waiting
    have hphase' : (a.ask_again env call waiting).phase = some (.running call turn waiting) :=
      (ask_again_phase env a waiting).trans hphase
    generalize a.ask_again env call waiting = b at hasked hphase'
    have hleft := hasked.reads.left_eq hphase' rfl
    dsimp only
    split
    · exact hasked
    · rename_i cwd label output failed _
      exact settle_ordered (a := { b with cwd, phase := none }) env engine rfl hleft hasked.sent _ _ _
        _
    · rename_i cwd target payload _
      exact write_remote_ordered (a := { b with cwd }) env engine hleft hasked.sent _ _ _
  · exact h

theorem poll_ordered (h : a.Ordered) (stream : Stream)
    (worker : Files.TryRecv (Except (List Char) (List Char))) :
    (a.poll env engine stream worker).Ordered := by
  unfold poll
  split
  · rename_i turn hphase
    have hleft : left [] a.history = some [] := by
      have hreads := h.reads
      unfold Reads owed at hreads
      rw [hphase] at hreads
      exact hreads
    dsimp only
    split
    · exact h.congr rfl rfl rfl rfl
    · exact finish_reply_ordered
        (a := { a with turns := a.stream_turns turn stream.delta, phase := none }) env engine rfl hleft
        h.sent turn _
  · exact poll_tool_ordered env engine h worker
  · exact h

end Engine

/-! ### The conversation -/

variable {a : Agent}

theorem phase_of_idle (hblocked : a.blocked = false) : a.phase = none :=
  Option.isSome_eq_false_iff.mp hblocked |> Option.isNone_iff_eq_none.mp

theorem owed_of_idle (hphase : a.phase = none) : a.owed = [] := by
  unfold owed
  rw [hphase]
  rfl

theorem Ordered.of_idle {b : Agent} (hphase : b.phase = none)
    (h : Repairable (answered_ids b.history) [] b.history) (hsent : b.Sent) : b.Ordered := by
  refine ⟨?_, hsent⟩
  unfold Reads
  rw [hphase]
  exact h

theorem Ordered.repairable_of_idle (h : a.Ordered) (hphase : a.phase = none) :
    Repairable (answered_ids a.history) [] a.history :=
  h.repairable fun id hid => by
    rw [owed_of_idle hphase] at hid
    exact nomatch hid

theorem answered_ids_append (history more : List ApiMessage) :
    answered_ids (history ++ more) = answered_ids history ++ answered_ids more :=
  List.filterMap_append

theorem push_user_ordered (h : a.Ordered) (text : List Char) (info : UserMeta) :
    (a.push_user text info).Ordered := by
  unfold push_user
  dsimp only
  split
  · exact h
  · rename_i hpush
    have hphase := phase_of_idle (Bool.eq_false_iff.mpr (not_or.mp hpush).2)
    refine .of_idle hphase ?_ h.sent
    have hids : answered_ids (a.history ++ [.user (Text.trim text)]) = answered_ids a.history := by
      rw [answered_ids_append]
      exact List.append_nil _
    rw [hids]
    exact (h.repairable_of_idle hphase).append_user _

theorem inject_user_ordered (h : a.Ordered) (text : List Char) (info : UserMeta) :
    (a.inject_user text info).Ordered := by
  unfold inject_user
  dsimp only
  split
  · exact h
  · exact h.congr rfl rfl rfl rfl

theorem repairable_append_users (users : List (List Char × UserMeta)) :
    ∀ {history : List ApiMessage}, Repairable (answered_ids history) [] history →
      Repairable (answered_ids (history ++ users.map fun (text, _) => .user text)) []
        (history ++ users.map fun (text, _) => .user text) := by
  induction users with
  | nil =>
    intro history h
    rw [List.map_nil, List.append_nil]
    exact h
  | cons user users ih =>
    intro history h
    have hids : answered_ids (history ++ [.user user.1]) = answered_ids history := by
      rw [answered_ids_append]
      exact List.append_nil _
    have hnext := ih (hids.symm ▸ h.append_user user.1)
    rw [List.append_assoc] at hnext
    exact hnext

theorem flush_injected_ordered (h : a.Ordered) : a.flush_injected.Ordered := by
  unfold flush_injected
  split
  · exact h
  · rename_i hflush
    have hphase := phase_of_idle (Bool.eq_false_iff.mpr (not_or.mp hflush).1)
    exact .of_idle hphase (repairable_append_users a.injected (h.repairable_of_idle hphase)) h.sent

theorem rewind_to_ordered (h : a.Ordered) (index : ℕ) : (a.rewind_to index).Ordered := by
  unfold rewind_to
  split
  · split
    · exact h
    · rename_i hblocked
      have hphase := phase_of_idle (Bool.eq_false_iff.mpr hblocked)
      refine .of_idle hphase (Repairable.anti ?_ ((h.repairable_of_idle hphase).before_user _)) h.sent
      exact ((before_user_sublist _ a.history).filterMap _).subset
  · exact h

/-- **The history of a request** reads with nothing left. -/
theorem repair_history_left (h : Repairable (answered_ids a.history) [] a.history) :
    left [] a.repair_history.history = some [] :=
  repair_left h fun _ hid => hid

theorem repair_history_ordered (h : a.Ordered) (howed : a.owed = []) :
    a.repair_history.Ordered := by
  have hleft : left [] a.repair_history.history = some [] := by
    refine repair_history_left (h.repairable fun id hid => ?_)
    rw [howed] at hid
    exact nomatch hid
  refine ⟨?_, h.sent⟩
  cases hphase : a.phase with
  | none => exact .of_idle hphase hleft nofun
  | some phase =>
    refine .of_phase hphase ?_
    rw [hleft]
    exact congrArg some howed.symm

theorem request_ordered (h : Repairable (answered_ids a.history) [] a.history) (hsent : a.Sent) :
    a.request.Ordered := by
  have hleft := repair_history_left h
  refine ⟨.of_phase rfl hleft, ?_⟩
  refine hsent.append rfl fun messages hmem => ?_
  rw [Event.completion.inj (List.mem_singleton.mp hmem)]
  exact hleft

theorem send_message_ordered (h : a.Ordered) (text : List Char) (info : UserMeta) :
    (a.send_message text info).Ordered := by
  unfold send_message
  split
  · exact h
  · rename_i hsend
    have hphase := phase_of_idle (Bool.eq_false_iff.mpr (not_or.mp hsend).2)
    have hpush := push_user_ordered h text info
    have hpushed : (a.push_user text info).phase = none := by
      unfold push_user
      dsimp only
      split <;> exact hphase
    exact request_ordered (hpush.repairable_of_idle hpushed) hpush.sent

theorem reply_ordered (h : a.Ordered)
    (hdrop : a.needs_reply = true → ∀ id ∈ a.owed, id ∉ answered_ids a.history) :
    a.reply.Ordered := by
  unfold reply
  split
  · rename_i hreply
    exact request_ordered (a := { a with needs_reply := false }) (h.repairable (hdrop hreply)) h.sent
  · exact h

theorem resume_ordered (h : a.Ordered) : a.resume.Ordered := by
  unfold resume
  split
  · rename_i hresume
    have hblocked := (Bool.and_eq_true_iff.mp hresume).1
    have hphase := phase_of_idle (Bool.not_eq_true' _ ▸ hblocked)
    exact request_ordered (h.repairable_of_idle hphase) h.sent
  · exact h

theorem stop_command_ordered (h : a.Ordered) (env : Env) : (a.stop_command env).Ordered := by
  unfold stop_command
  split
  · refine ⟨?_, h.sent.append rfl fun messages hmem => nomatch List.mem_singleton.mp hmem⟩
    exact h.reads
  · exact h

/-- The call in flight is answered, and the queue behind it dropped. -/
theorem abandon_tool_ordered {call : ApiToolCall} (hphase : a.phase = none) (hsent : a.Sent)
    {queue : List String} (hleft : left [] a.history = some (call.id :: queue))
    (hdrop : ∀ id ∈ queue, id ∉ answered_ids a.history ∧ id ≠ call.id) (turn : ℕ) :
    (a.abandon_tool call turn).Ordered := by
  refine ⟨.of_idle hphase (left_tool hleft STOPPED_BY_USER) fun id hid hmem => ?_, hsent⟩
  have hids : answered_ids (a.history ++ [.tool call.id STOPPED_BY_USER]) =
      answered_ids a.history ++ [call.id] := answered_ids_append _ _
  rcases List.mem_append.mp (hids ▸ hmem) with hmem | hmem
  · exact (hdrop id hid).1 hmem
  · exact (hdrop id hid).2 (List.mem_singleton.mp hmem)

theorem stop_ordered (h : a.Ordered)
    (hdrop : ∀ id ∈ a.owed.tail, id ∉ answered_ids a.history ∧ id ∉ a.owed.head?) :
    a.stop.Ordered := by
  have habandon : ∀ (phase : Phase) (call : ApiToolCall) (turn : ℕ), a.phase = some phase →
      phase.call = some call →
      ({ a with phase := none, queue := [] }.abandon_tool call turn).Ordered := by
    intro phase call turn hphase hcall
    rw [owed_of_call hphase hcall] at hdrop
    refine abandon_tool_ordered (a := { a with phase := none, queue := [] }) rfl h.sent
      (h.reads.left_eq hphase hcall) (fun id hid => ?_) turn
    exact ⟨(hdrop id hid).1, fun heq => (hdrop id hid).2 (heq ▸ rfl)⟩
  unfold stop
  dsimp only
  split
  · exact h
  · rename_i hphase
    refine .of_idle rfl (h.repairable fun id hid => ?_) h.sent
    unfold owed at hid
    rw [hphase] at hid
    exact nomatch hid
  all_goals exact habandon _ _ _ ‹_› rfl

/-- A prompt answered in the phase of another drops what is owed. -/
theorem dropped_of_another {s : Step}
    (hdropped : a.dropped s = if a.answers_another s then a.owed else [])
    (hsafe : ∀ id ∈ a.dropped s, id ∉ answered_ids a.history) (h : a.answers_another s = true) :
    ∀ id ∈ a.owed, id ∉ answered_ids a.history := by
  rw [hdropped, if_pos h] at hsafe
  exact hsafe

theorem answers_another_allowing (env : Env) (allow : Bool)
    (h : ∀ call turn label, a.phase ≠ some (.allowing call turn label)) :
    a.answers_another (.answer_permission env allow) = true := by
  unfold answers_another
  dsimp only
  split
  · exact absurd ‹_› (h _ _ _)
  · rfl

theorem answers_another_approving (env : Env) (allow : Bool) (remember : Option ℕ)
    (h : ∀ call command scopes, a.phase ≠ some (.approving call command scopes)) :
    a.answers_another (.approve env allow remember) = true := by
  unfold answers_another
  dsimp only
  split
  · exact absurd ‹_› (h _ _ _)
  · rfl

theorem answers_another_sudo_prompt (env : Env)
    (h : ∀ call command reason, a.phase ≠ some (.sudo_prompt call command reason)) :
    a.answers_another (.cancel_sudo env) = true := by
  unfold answers_another
  dsimp only
  split
  · exact absurd ‹_› (h _ _ _)
  · rfl

theorem answers_another_asking (env : Env) {text : List Char} (htext : Text.trim text ≠ [])
    (h : ∀ call questions current answers,
      a.phase ≠ some (.asking call questions current answers)) :
    a.answers_another (.answer env text) = true := by
  unfold answers_another
  dsimp only
  split
  · exact absurd ‹_› (h _ _ _ _)
  · exact decide_eq_true htext

/-- **One step** keeps what holds of the agent. -/
theorem step_ordered (engine : Anchored.Engine) (h : a.Ordered) (s : Step) (hsafe : a.Safe s) :
    (step engine a s).Ordered := by
  cases s with
  | apply_settings settings => exact h.congr rfl rfl rfl rfl
  | push_user text info => exact push_user_ordered h text info
  | send_message text info => exact send_message_ordered h text info
  | inject_user text info => exact inject_user_ordered h text info
  | flush_injected => exact flush_injected_ordered h
  | rewind_to index => exact rewind_to_ordered h index
  | repair_history => exact repair_history_ordered h hsafe
  | reply =>
    exact reply_ordered h fun hreply id hid => hsafe id (by rwa [dropped, if_pos hreply])
  | resume => exact resume_ordered h
  | poll env stream worker => exact poll_ordered env engine h stream worker
  | answer_permission env allow =>
    exact answer_permission_ordered env engine h allow fun hphase =>
      dropped_of_another rfl hsafe (answers_another_allowing env allow hphase)
  | allow_everything env =>
    have hallowed : { a with
        allow_all := true
        session_allow := a.session_allow ++ [ALLOW_ALL_PATTERN] : Agent }.Ordered :=
      h.congr rfl rfl rfl rfl
    exact answer_permission_ordered env engine hallowed true fun hphase =>
      dropped_of_another (a := a) rfl hsafe (answers_another_allowing env true hphase)
  | approve env allow remember =>
    exact approve_ordered env engine h allow remember fun hphase =>
      dropped_of_another rfl hsafe (answers_another_approving env allow remember hphase)
  | approve_everything env =>
    exact approve_everything_ordered env engine h fun hphase =>
      dropped_of_another rfl hsafe (answers_another_approving env true none hphase)
  | submit_sudo env password =>
    exact submit_sudo_ordered env engine h password fun hphase =>
      dropped_of_another rfl hsafe (answers_another_sudo_prompt env hphase)
  | cancel_sudo env =>
    exact cancel_sudo_ordered env engine h fun hphase =>
      dropped_of_another rfl hsafe (answers_another_sudo_prompt env hphase)
  | answer env text =>
    exact answer_ordered env engine h text fun htext hphase =>
      dropped_of_another rfl hsafe (answers_another_asking env htext hphase)
  | stop => exact stop_ordered h hsafe
  | stop_command env => exact stop_command_ordered h env
  | clear => exact ⟨nofun, h.sent⟩

theorem fresh_ordered : Ordered {} := ⟨nofun, nofun⟩

end Agent

/-- The histories sent in a run of a fresh agent. -/
def sent (engine : Anchored.Engine) (steps : List Step) : List (List ApiMessage) :=
  (StepRun.run (step engine) {} steps).log.filterMap fun
    | .completion messages => some messages
    | _ => none

/-- **Every history sent is one a provider accepts**, in every run that cuts no run off with a call
that bears an answered id. -/
theorem completions_well_formed (engine : Anchored.Engine) (steps : List Step)
    (h : StepRun.Guarded (step engine) Agent.Safe {} steps) :
    ∀ messages ∈ sent engine steps, WellFormed messages := by
  have hordered : (StepRun.run (step engine) {} steps).Ordered :=
    StepRun.run_inv (I := Agent.Ordered) (fun a s ha hs => Agent.step_ordered engine ha s hs) steps {}
      Agent.fresh_ordered h
  intro messages hmem
  obtain ⟨event, hevent, hsome⟩ := List.mem_filterMap.mp hmem
  cases event with
  | completion sent =>
    have heq : sent = messages := Option.some.inj hsome
    exact well_formed_of_left (hordered.sent messages (heq ▸ hevent))
  | sudo_answer _ _ => exact nomatch hsome
  | request _ _ => exact nomatch hsome

/-- A frame without a session. -/
def offline : Env := { session := none, run_local := fun _ => .ok [] }

/-- The model's reply names these calls. -/
def reply_with (calls : List ApiToolCall) : Step :=
  .poll offline { done := some (.ok ⟨[], calls, none⟩) } .empty

/-- One call, answered at once and sent. -/
def one_call : List Step :=
  [.send_message ['a'] ⟨0, false⟩, reply_with [⟨"call_0", "none", .null⟩], .reply]

theorem completions_well_formed_one_call :
    WellFormed [.user ['a'], .assistant [] [⟨"call_0", "none", .null⟩],
      .tool "call_0" "The tool none is not available.".toList] :=
  completions_well_formed Anchored.anchored one_call
    (by
      refine ⟨?_, ?_, ?_, trivial⟩ <;> exact nofun) _ (.tail _ (.head _))

/-- A streamed reply of two calls, of `first` and of an unknown tool, without ids. -/
def two_calls (first : String) : OpenAiStream :=
  ⟨[], [(0, "", first, .null), (1, "", "none", .null)], none⟩

/-- Two replies of two calls, which get the same ids; the user stops the second at its first call. -/
def stopped_reply : List Step :=
  [.send_message ['a'] ⟨0, false⟩, reply_with (two_calls "none").finish.tool_calls, .reply,
    reply_with (two_calls TOOL_ASK_USER).finish.tool_calls, .stop, .resume]

/-- **The repair matches ids over the whole conversation**: the call the stop dropped bears the id of
an answered one, stays in the history, and is never answered. -/
theorem stopped_reply_sent :
    ¬ ∀ messages ∈ sent Anchored.anchored stopped_reply, WellFormed messages := by
  intro h
  have hmem : [.user ['a'],
      .assistant [] [⟨"call_0", "none", .null⟩, ⟨"call_1", "none", .null⟩],
      .tool "call_0" "The tool none is not available.".toList,
      .tool "call_1" "The tool none is not available.".toList,
      .assistant [] [⟨"call_0", TOOL_ASK_USER, .null⟩, ⟨"call_1", "none", .null⟩],
      .tool "call_0" STOPPED_BY_USER] ∈ sent Anchored.anchored stopped_reply := 
    .tail _ (.tail _ (.head _))
  have hperm := (h _ hmem).answered [_, _, _, _] [] _ [_] rfl
  exact absurd hperm.length_eq (by decide)

end WaSSH.Agent
