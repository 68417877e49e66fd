import WaSSH.Docker.Commands
import WaSSH.Lib.Dialog
import WaSSH.Lib.Run
import WaSSH.Ssh.Commands

/-!
# Updating containers

The pane updates containers one after another: it inspects one, builds a script from what it reads,
runs the script and goes on. It does so over many frames, each of which only looks at what has come
back, while other panes ask for other things.

* `DockerManager`, `poll_update`, `queue_updates`: the source;
* `update_all`: the same as a program that waits for its answers;
* `Stands`: how far that program is in a state of the pane; `stands_frame`: what a frame makes of it;
* **`updates_in_order`**: over every run the pane says and asks what that program does, for all that
  was queued, in order.
-/

namespace WaSSH.Docker.Updates

open Files (TryRecv)
open Ssh.Commands

/-! ## The source -/

def UPDATE_KEY : String := "docker.update"

def UPDATE_INSPECT_KEY : String := "docker.updateinspect"

/-- A container update in flight. -/
structure Update where
  id : Text
  name : Text
  inspecting : Bool := false
  deriving DecidableEq

/-- A line of the notice bar. -/
structure Notice where
  text : Text
  failed : Bool
  deriving DecidableEq

/-- The pane, as far as updates are concerned, over its session. `notices` are all it has shown. -/
structure DockerManager where
  c : RemoteCommands := {}
  asker : Asker := {}
  commands : String → Option Text := fun _ => none
  updating : List Update := []
  stale : List Text := []
  sudo_command : Option Text := none
  last_poll : Option ℕ := none
  notices : List Notice := []

/-- Whether a failure means "this needed root". -/
def needs_root (text : Text) : Bool :=
  let lower := text.map Char.toLower
  ["permission denied", "are you root", "must be run as root", "a password is required",
    "a terminal is required", "not in the sudoers", "operation not permitted"].any
      fun needle => Text.contains needle.toList lower

section Pane

variable (socket : Text) (script_of : Text → Option Text)

namespace DockerManager

variable (s : DockerManager)

/-- Run `command` under `key` and remember it for a possible sudo retry. -/
def run (key : String) (command : Text) (answers : Ticket → TryRecv Answer) : DockerManager :=
  { s with
    asker := s.asker.note key
    commands := fun k => if k = key then some command else s.commands k
    c := s.c.start_command true key command none answers }

/-- The outcome of `key`, exactly once per request. -/
def take (key : String) : Option Outcome × DockerManager :=
  let (outcome, asker) := s.asker.take s.c key
  (outcome, { s with asker })

def notify (text : Text) : DockerManager := { s with notices := s.notices ++ [⟨text, false⟩] }

def notify_failure (text : Text) : DockerManager := { s with notices := s.notices ++ [⟨text, true⟩] }

/-- Show `error`, and offer the password when it says root was needed. -/
def failed (key : String) (error : Text) : DockerManager :=
  let s := if needs_root error ∧ s.sudo_command = none ∧ s.commands key ≠ none then
    { s with sudo_command := s.commands key } else s
  s.notify_failure error

def updated_text (u : Update) : Text := "Updated ".toList ++ u.name

def cannot_text (id : Text) : Text :=
  "Container ".toList ++ id ++ " cannot be recreated from its inspect data.".toList

/-- The recreate script, once it has run. -/
def poll_script : DockerManager :=
  match s.take UPDATE_KEY with
  | (none, s) => s
  | (some outcome, s) =>
    match s.updating with
    | [] => s
    | u :: rest =>
      match outcome.error with
      | some error => { s.failed UPDATE_KEY error with updating := rest }
      | none =>
        { s.notify (updated_text u) with
          stale := s.stale.filter (· ≠ u.id)
          updating := rest
          last_poll := none }

/-- The inspect that feeds it: build the script and start it. `script_of` is what
`recreate_script` makes of the first document in an output. -/
def poll_inspected (answers : Ticket → TryRecv Answer) : DockerManager :=
  match s.take UPDATE_INSPECT_KEY with
  | (none, s) => s
  | (some outcome, s) =>
    match s.updating with
    | [] => s
    | u :: rest =>
      match outcome.error with
      | some error => { s.failed UPDATE_INSPECT_KEY error with updating := rest }
      | none =>
        match script_of outcome.stdout with
        | some script =>
          { s with updating := { u with inspecting := false } :: rest }.run UPDATE_KEY script answers
        | none => { s.failed UPDATE_INSPECT_KEY (cannot_text u.id) with updating := rest }

/-- Mark the first container that is not being inspected. -/
def mark_next : List Update → List Update
  | [] => []
  | u :: rest =>
    if u.inspecting then u :: mark_next rest else { u with inspecting := true } :: rest

/-- Start the next container's inspect. -/
def start_inspect (answers : Ticket → TryRecv Answer) : DockerManager :=
  if s.c.is_running UPDATE_INSPECT_KEY || s.c.is_running UPDATE_KEY then s
  else
    match s.updating.find? fun u => !u.inspecting with
    | none => s
    | some u =>
      let s := { s with updating := mark_next s.updating }
      match inspect_command socket u.id with
      | some command => s.run UPDATE_INSPECT_KEY command answers
      | none => { s with updating := s.updating.filter fun v => v.id ≠ u.id }

/-- One frame's look at the updates. -/
def poll_update (answers answers' : Ticket → TryRecv Answer) : DockerManager :=
  (((s.poll_script).poll_inspected script_of answers).start_inspect socket answers')

/-- The containers to update, from the list the pane shows. -/
def queue_updates (containers : List Update) (ids : List Text) : DockerManager :=
  { s with
    updating := ids.filterMap fun id =>
      (containers.find? fun container => container.id = id).map fun container =>
        { container with inspecting := false } }

end DockerManager

end Pane

/-! ## The same, waiting for its answers -/

/-- What the updates ask of the host. -/
inductive Call
  | inspect (command : Text)
  | recreate (script : Text)

def Call.key : Call → String
  | .inspect _ => UPDATE_INSPECT_KEY
  | .recreate _ => UPDATE_KEY

def Call.command : Call → Text
  | .inspect command => command
  | .recreate script => script

abbrev Program := Dialog Call (fun _ => Answer) Notice Empty Unit

section Program

variable (socket : Text) (script_of : Text → Option Text)

/-- The script has run. -/
def recreated (u : Update) (a : Answer) : Program :=
  match (outcome_of a).error with
  | some error => Dialog.tell ⟨error, true⟩
  | none => Dialog.tell ⟨DockerManager.updated_text u, false⟩

/-- The container has been inspected. -/
def inspected (u : Update) (a : Answer) : Program :=
  match (outcome_of a).error with
  | some error => Dialog.tell ⟨error, true⟩
  | none =>
    match script_of (outcome_of a).stdout with
    | some script => do
      let a ← Dialog.ask (.recreate script)
      recreated u a
    | none => Dialog.tell ⟨DockerManager.cannot_text u.id, true⟩

/-- Update one container; one whose id is not safe is passed over. -/
def update (u : Update) : Program :=
  match inspect_command socket u.id with
  | some command => do
    let a ← Dialog.ask (.inspect command)
    inspected script_of u a
  | none => pure ()

/-- Update one container after another. -/
def update_all : List Update → Program
  | [] => pure ()
  | u :: rest => do
    update socket script_of u
    update_all rest

theorem update_all_append (us vs : List Update) :
    update_all socket script_of (us ++ vs) =
      update_all socket script_of us >>= fun _ => update_all socket script_of vs := by
  induction us with
  | nil => rfl
  | cons u us ih =>
    rw [List.cons_append, update_all, update_all, ih, Dialog.bind_assoc]

end Program

/-! ## What is said and asked -/

/-- A request of the updates, or its answer. -/
inductive Word
  | ask (c : Call)
  | answer (a : Answer)

/-- What happened, as far as the updates are concerned. -/
def word : Happened → Option Word
  | .asked key _ command _ =>
    if key = UPDATE_KEY then some (.ask (.recreate command))
    else if key = UPDATE_INSPECT_KEY then some (.ask (.inspect command)) else none
  | .answered key _ a => if key = UPDATE_KEY ∨ key = UPDATE_INSPECT_KEY then some (.answer a) else none
  | .refused _ _ | .stopped _ _ => none

/-- The requests of the updates and their answers, in the order in which they happened. -/
def words (log : List Happened) : List Word := log.filterMap word

/-- The words of a step. -/
def step_words : Dialog.Step Call (fun _ => Answer) Notice → List Word
  | .called c a => [.ask c, .answer a]
  | .said _ | .unanswered _ => []

/-- The keys of the updates. -/
def keys : String → Bool := fun k => k = UPDATE_KEY || k = UPDATE_INSPECT_KEY

theorem words_append (log more : List Happened) : words (log ++ more) = words log ++ words more :=
  List.filterMap_append

theorem keys_iff (key : String) : keys key = true ↔ key = UPDATE_KEY ∨ key = UPDATE_INSPECT_KEY := by
  simp [keys]

theorem word_eq_none {h : Happened} (hk : ¬ h.about keys = true) : word h = none := by
  cases h with
  | asked key ticket command input =>
    rw [Happened.about, keys_iff, not_or] at hk
    rw [word, if_neg hk.1, if_neg hk.2]
  | answered key ticket a =>
    rw [Happened.about, keys_iff] at hk
    rw [word, if_neg hk]
  | refused | stopped => rfl

/-- Only the history of the updates' keys says anything. -/
theorem words_history (log : List Happened) : words (history keys log) = words log := by
  unfold words history
  rw [List.filterMap_filter]
  refine List.filterMap_congr fun h _ => ?_
  split_ifs with hk
  · rfl
  · exact (word_eq_none hk).symm

theorem keys_ne : UPDATE_KEY ≠ UPDATE_INSPECT_KEY := by decide

/-! ## Where the pane stands -/

/-- What has been said about a call under a key that stands there. -/
def Waits (c : Call) : Stage → List Word → Prop
  | .settled, _ => False
  | .asked _, ws => ws = [.ask c]
  | .landed a, ws => ws = [.ask c, .answer a]

/-- Updates that have not begun, of different containers. -/
def Fresh (us : List Update) : Prop :=
  (∀ u ∈ us, u.inspecting = false) ∧ (us.map Update.id).Nodup

section Stands

variable (socket : Text) (script_of : Text → Option Text)

/-- What is left to do in a state of the pane, and what has been said of the call it waits for. -/
inductive Stands (s : DockerManager) : Program → List Word → Prop
  | idle (hupdate : At s.c s.asker UPDATE_KEY .settled)
    (hinspect : At s.c s.asker UPDATE_INSPECT_KEY .settled) (hfresh : Fresh s.updating) :
    Stands s (update_all socket script_of s.updating) []
  | inspecting {stage : Stage} {u : Update} {rest : List Update} {command : Text} {ws : List Word}
    (hupdate : At s.c s.asker UPDATE_KEY .settled) (hinspect : At s.c s.asker UPDATE_INSPECT_KEY stage)
    (hqueue : s.updating = u :: rest) (hfresh : Fresh rest)
    (hwaits : Waits (.inspect command) stage ws) :
    Stands s (.call (.inspect command) fun a =>
      inspected script_of u a >>= fun _ => update_all socket script_of rest) ws
  | recreating {stage : Stage} {u : Update} {rest : List Update} {script : Text} {ws : List Word}
    (hupdate : At s.c s.asker UPDATE_KEY stage) (hinspect : At s.c s.asker UPDATE_INSPECT_KEY .settled)
    (hqueue : s.updating = u :: rest) (hfresh : Fresh rest)
    (hwaits : Waits (.recreate script) stage ws) :
    Stands s (.call (.recreate script) fun a =>
      recreated u a >>= fun _ => update_all socket script_of rest) ws

/-- The story so far: the program for all that was queued has gone through what was said and
asked. -/
def Told (queued : List Update) (s : DockerManager) : Prop :=
  ∃ t p ws, Dialog.Goes (update_all socket script_of queued) t p ∧ Stands socket script_of s p ws ∧
    words s.c.log = t.flatMap step_words ++ ws ∧ s.notices = Dialog.said t

end Stands

/-! ## Looks at the receivers -/

section Looks

variable {c : RemoteCommands} {p : Asker} {key : String} {stage : Stage}

theorem running_keys (pending : List (String × Ticket)) (hkey : keys key = true)
    (hother : ∀ other, keys other = true → other ≠ key → running (only other) pending = []) :
    running keys pending = running (only key) pending := by
  refine List.filter_congr fun q hq => ?_
  by_cases hqkey : q.1 = key
  · rw [hqkey, hkey]
    exact ((only_iff key key).mpr rfl).symm
  · rw [(only_eq_false_iff key q.1).mpr hqkey, Bool.eq_false_iff]
    intro hq'
    have hmem : q ∈ running (only q.1) pending := List.mem_filter.mpr ⟨hq, (only_iff _ _).mpr rfl⟩
    rw [hother q.1 hq' hqkey] at hmem
    cases hmem

/-- What a look says, where the requests of one of the keys run. -/
theorem words_poll (h : At c p key stage) (hkey : keys key = true)
    (hother : ∀ other, keys other = true → other ≠ key → running (only other) c.pending = [])
    (answers : Ticket → TryRecv Answer) :
    words (c.poll answers).log = words c.log ++ words (stage.look answers key).2 := by
  have hlook : ((running (only key) c.pending).filterMap (landed answers)).map Landed.happened =
      (stage.look answers key).2 :=
    List.append_cancel_left ((poll_history c (only key) answers).symm.trans (at_poll h answers).2)
  rw [← words_history, poll_history, running_keys c.pending hkey hother, hlook, words_append,
    words_history]

/-- A call that is waited for goes on being waited for, with what is said of it. -/
theorem Waits.look {call : Call} {ws : List Word} (h : Waits call stage ws)
    (answers : Ticket → TryRecv Answer) :
    Waits call (stage.look answers call.key).1 (ws ++ words (stage.look answers call.key).2) := by
  have hanswered (ticket : Ticket) (a : Answer) :
      words [.answered call.key ticket a] = [.answer a] := by
    cases call with
    | inspect => rfl
    | recreate => rfl
  cases stage with
  | settled => exact h.elim
  | landed a => simpa [Stage.look, words] using h
  | asked ticket =>
    obtain rfl : ws = _ := h
    cases hl : landing COMMAND_CLOSED (answers ticket) with
    | none =>
      rw [look_empty hl]
      exact rfl
    | some a =>
      rw [look_landed hl, hanswered]
      exact rfl

theorem look_settled (answers : Ticket → TryRecv Answer) (key : String) :
    Stage.settled.look answers key = (.settled, []) := rfl

theorem keys_cases {other : String} (h : keys other = true) :
    other = UPDATE_KEY ∨ other = UPDATE_INSPECT_KEY := (keys_iff other).mp h

end Looks

section Stands

variable {socket : Text} {script_of : Text → Option Text} {s s' : DockerManager} {p : Program}
  {ws : List Word}

/-- **A look** leaves the pane where it stands, with what is said of its call. -/
theorem Stands.look (h : Stands socket script_of s p ws) (hqueue : s'.updating = s.updating)
    (answers : Ticket → TryRecv Answer)
    (hat : ∀ key, keys key = true → ∀ stage, At s.c s.asker key stage →
      At s'.c s'.asker key (stage.look answers key).1)
    (hwords : words s'.c.log = words (s.c.poll answers).log) :
    ∃ more, Stands socket script_of s' p (ws ++ more) ∧ words s'.c.log = words s.c.log ++ more := by
  have hkey : keys UPDATE_KEY = true := rfl
  have hkey' : keys UPDATE_INSPECT_KEY = true := rfl
  cases h with
  | idle hupdate hinspect hfresh =>
    refine ⟨[], ?_, ?_⟩
    · rw [← hqueue] at hfresh ⊢
      exact .idle (hat _ hkey _ hupdate) (hat _ hkey' _ hinspect) hfresh
    · rw [hwords, words_poll hupdate hkey fun other ho hne => ?_]
      · rfl
      · obtain rfl := (keys_cases ho).resolve_left hne
        exact hinspect.1
  | inspecting hupdate hinspect hq hfresh hwaits =>
    refine ⟨_, .inspecting (hat _ hkey _ hupdate) (hat _ hkey' _ hinspect) (hqueue.trans hq) hfresh
      (hwaits.look answers), ?_⟩
    rw [hwords]
    refine words_poll hinspect hkey' (fun other ho hne => ?_) answers
    obtain rfl := (keys_cases ho).resolve_right hne
    exact hupdate.1
  | recreating hupdate hinspect hq hfresh hwaits =>
    refine ⟨_, .recreating (hat _ hkey _ hupdate) (hat _ hkey' _ hinspect) (hqueue.trans hq) hfresh
      (hwaits.look answers), ?_⟩
    rw [hwords]
    refine words_poll hupdate hkey (fun other ho hne => ?_) answers
    obtain rfl := (keys_cases ho).resolve_left hne
    exact hinspect.1

/-! ## A frame -/

/-- No answer waits under the key. -/
def Quiet (key : String) (s : DockerManager) : Prop := ∀ a, ¬ At s.c s.asker key (.landed a)

theorem quiet_of_at {key : String} {stage : Stage} (h : At s.c s.asker key stage)
    (hstage : ∀ a, stage ≠ .landed a) : Quiet key s := by
  intro a ha
  cases stage with
  | landed b => exact hstage b rfl
  | settled =>
    have h1 := h.2
    have h2 := ha.2.2
    omega
  | asked ticket =>
    have h1 := h.1
    rw [ha.1] at h1
    cases h1

@[simp] theorem failed_c (s : DockerManager) (key : String) (e : Text) : (s.failed key e).c = s.c := by
  unfold DockerManager.failed
  dsimp only
  split_ifs <;> rfl

@[simp] theorem failed_asker (s : DockerManager) (key : String) (e : Text) :
    (s.failed key e).asker = s.asker := by
  unfold DockerManager.failed
  dsimp only
  split_ifs <;> rfl

@[simp] theorem failed_notices (s : DockerManager) (key : String) (e : Text) :
    (s.failed key e).notices = s.notices ++ [⟨e, true⟩] := by
  unfold DockerManager.failed
  dsimp only
  split_ifs <;> rfl

/-- What is shown once the script has run. -/
def recreated_notice (u : Update) (a : Answer) : Notice :=
  match (outcome_of a).error with
  | some error => ⟨error, true⟩
  | none => ⟨DockerManager.updated_text u, false⟩

theorem recreated_bind (u : Update) (a : Answer) (q : Program) :
    (recreated u a >>= fun _ => q) = .say (recreated_notice u a) q := by
  unfold recreated recreated_notice
  cases (outcome_of a).error <;> rfl

theorem take_eq (s : DockerManager) (key : String) :
    s.take key = ((s.asker.take s.c key).1, { s with asker := (s.asker.take s.c key).2 }) := rfl

theorem poll_script_landed {a : Answer} {u : Update} {rest : List Update}
    (hat : At s.c s.asker UPDATE_KEY (.landed a)) (hqueue : s.updating = u :: rest) :
    s.poll_script.c = s.c ∧ s.poll_script.asker = (s.asker.take s.c UPDATE_KEY).2 ∧
      s.poll_script.updating = rest ∧
      s.poll_script.notices = s.notices ++ [recreated_notice u a] := by
  unfold DockerManager.poll_script recreated_notice
  rw [take_eq, (take_landed hat).1]
  dsimp only
  rw [hqueue]
  cases (outcome_of a).error with
  | some error => exact ⟨failed_c .., failed_asker .., rfl, failed_notices ..⟩
  | none => exact ⟨rfl, rfl, rfl, rfl⟩

theorem poll_script_waits {stage : Stage} (hat : At s.c s.asker UPDATE_KEY stage)
    (hstage : ∀ a, stage ≠ .landed a) : s.poll_script = s := by
  unfold DockerManager.poll_script
  rw [take_eq, take_waits hat hstage]

/-- Taking an outcome under one key leaves the other where it is. -/
theorem at_take_other {key other : String} {stage : Stage} (hother : other ≠ key)
    (h : At s.c s.asker key stage) : At s.c (s.asker.take s.c other).2 key stage := by
  obtain ⟨hattempts, hhandled⟩ := take_other hother s.c s.asker
  exact h.of_eq rfl rfl (by rw [hattempts]) hhandled

/-- The script's answer is taken, and the next container is up. -/
theorem told_script {queued : List Update} (h : Told socket script_of queued s) :
    Told socket script_of queued s.poll_script ∧ Quiet UPDATE_KEY s.poll_script := by
  obtain ⟨t, p, ws, hgoes, hstands, hwords, hnotices⟩ := h
  have hwaiting {stage : Stage} (hat : At s.c s.asker UPDATE_KEY stage)
      (hstage : ∀ a, stage ≠ .landed a) :
      Told socket script_of queued s.poll_script ∧ Quiet UPDATE_KEY s.poll_script := by
    rw [poll_script_waits hat hstage]
    exact ⟨⟨t, p, ws, hgoes, hstands, hwords, hnotices⟩, quiet_of_at hat hstage⟩
  cases hstands with
  | idle hupdate => exact hwaiting hupdate (by simp)
  | inspecting hupdate => exact hwaiting hupdate (by simp)
  | @recreating stage u rest script _ hupdate hinspect hqueue hfresh hwaits =>
    cases stage with
    | settled => exact hwaits.elim
    | asked ticket => exact hwaiting hupdate (by simp)
    | landed a =>
      obtain rfl : ws = _ := hwaits
      obtain ⟨hc, hasker, hupdating, hnotice⟩ := poll_script_landed hupdate hqueue
      have hsettled : At s.poll_script.c s.poll_script.asker UPDATE_KEY .settled := by
        rw [hc, hasker]
        exact (take_landed hupdate).2
      refine ⟨⟨t ++ [.called (.recreate script) a, .said (recreated_notice u a)],
        update_all socket script_of s.poll_script.updating, [], ?_, ?_, ?_, ?_⟩,
        quiet_of_at hsettled (by simp)⟩
      · refine hgoes.trans (.call ?_)
        rw [recreated_bind, hupdating]
        exact .say (.here _)
      · refine .idle hsettled ?_ (by rw [hupdating]; exact hfresh)
        rw [hc, hasker]
        exact at_take_other keys_ne hinspect
      · rw [hc, hwords]
        simp [step_words]
      · rw [hnotice, hnotices]
        simp

/-- What is shown where an inspect leads to no script. -/
def refusal (script_of : Text → Option Text) (u : Update) (a : Answer) : Option Notice :=
  match (outcome_of a).error with
  | some error => some ⟨error, true⟩
  | none =>
    match script_of (outcome_of a).stdout with
    | some _ => none
    | none => some ⟨DockerManager.cannot_text u.id, true⟩

theorem poll_inspected_refused {a : Answer} {u : Update} {rest : List Update} {n : Notice}
    (hat : At s.c s.asker UPDATE_INSPECT_KEY (.landed a)) (hqueue : s.updating = u :: rest)
    (hn : refusal script_of u a = some n) (answers : Ticket → TryRecv Answer) :
    (s.poll_inspected script_of answers).c = s.c ∧
      (s.poll_inspected script_of answers).asker = (s.asker.take s.c UPDATE_INSPECT_KEY).2 ∧
      (s.poll_inspected script_of answers).updating = rest ∧
      (s.poll_inspected script_of answers).notices = s.notices ++ [n] := by
  unfold refusal at hn
  unfold DockerManager.poll_inspected
  rw [take_eq, (take_landed hat).1]
  dsimp only
  rw [hqueue]
  cases he : (outcome_of a).error with
  | some error =>
    rw [he] at hn
    obtain rfl := Option.some.inj hn
    exact ⟨failed_c .., failed_asker .., rfl, failed_notices ..⟩
  | none =>
    rw [he] at hn
    cases hs : script_of (outcome_of a).stdout with
    | some script => simp [hs] at hn
    | none =>
      simp only [hs] at hn
      obtain rfl := Option.some.inj hn
      exact ⟨failed_c .., failed_asker .., rfl, failed_notices ..⟩

theorem inspected_refused {a : Answer} {u : Update} {n : Notice}
    (hn : refusal script_of u a = some n) (q : Program) :
    (inspected script_of u a >>= fun _ => q) = .say n q := by
  unfold refusal at hn
  unfold inspected
  cases he : (outcome_of a).error with
  | some error =>
    rw [he] at hn
    obtain rfl := Option.some.inj hn
    rfl
  | none =>
    rw [he] at hn
    cases hs : script_of (outcome_of a).stdout with
    | some script => simp [hs] at hn
    | none =>
      simp only [hs] at hn
      obtain rfl := Option.some.inj hn
      rfl

theorem script_of_not_refused {a : Answer} {u : Update} (hn : refusal script_of u a = none) :
    (outcome_of a).error = none ∧ ∃ script, script_of (outcome_of a).stdout = some script := by
  unfold refusal at hn
  cases he : (outcome_of a).error with
  | some error => simp [he] at hn
  | none =>
    cases hs : script_of (outcome_of a).stdout with
    | some script => exact ⟨rfl, script, rfl⟩
    | none => simp [he, hs] at hn

theorem inspected_script {a : Answer} {script : Text} (he : (outcome_of a).error = none)
    (hs : script_of (outcome_of a).stdout = some script) (u : Update) (q : Program) :
    (inspected script_of u a >>= fun _ => q) =
      .call (.recreate script) fun b => recreated u b >>= fun _ => q := by
  unfold inspected
  rw [he]
  dsimp only
  rw [hs]
  rfl

theorem poll_inspected_script {a : Answer} {u : Update} {rest : List Update} {script : Text}
    (hat : At s.c s.asker UPDATE_INSPECT_KEY (.landed a)) (hqueue : s.updating = u :: rest)
    (he : (outcome_of a).error = none) (hs : script_of (outcome_of a).stdout = some script)
    (answers : Ticket → TryRecv Answer) :
    s.poll_inspected script_of answers =
      { s with
        asker := (s.asker.take s.c UPDATE_INSPECT_KEY).2
        updating := { u with inspecting := false } :: rest }.run UPDATE_KEY script answers := by
  unfold DockerManager.poll_inspected
  rw [take_eq, (take_landed hat).1]
  dsimp only
  rw [hqueue]
  dsimp only
  rw [he]
  dsimp only
  rw [hs]

theorem poll_inspected_waits {stage : Stage} (hat : At s.c s.asker UPDATE_INSPECT_KEY stage)
    (hstage : ∀ a, stage ≠ .landed a) (answers : Ticket → TryRecv Answer) :
    s.poll_inspected script_of answers = s := by
  unfold DockerManager.poll_inspected
  rw [take_eq, take_waits hat hstage]

/-- A command of the pane under a key of the updates, where nothing of them runs. -/
theorem run_settled {key : String} (hkey : keys key = true)
    (hsettled : ∀ other, keys other = true → At s.c s.asker other .settled) (command : Text)
    (answers : Ticket → TryRecv Answer) :
    At (s.run key command answers).c (s.run key command answers).asker key (.asked s.c.next) ∧
      (∀ other, keys other = true → other ≠ key →
        At (s.run key command answers).c (s.run key command answers).asker other .settled) ∧
      words (s.run key command answers).c.log =
        words s.c.log ++ words [.asked key s.c.next command none] := by
  refine ⟨(at_ask (hsettled key hkey) command none answers).1, fun other ho hne => ?_, ?_⟩
  · obtain ⟨hat, -⟩ := at_start_other (hsettled other ho) (Ne.symm hne) true command none answers
    exact hat.of_eq rfl rfl (if_neg hne) rfl
  · have hlog : (s.run key command answers).c.log =
        (s.c.poll answers).log ++ [.asked key (s.c.poll answers).next command none] := rfl
    rw [hlog, words_append, poll_next, words_poll (hsettled key hkey) hkey
      (fun other ho _ => (hsettled other ho).1) answers, look_settled]
    simp [words]

theorem settled_both (hupdate : At s.c s.asker UPDATE_KEY .settled)
    (hinspect : At s.c s.asker UPDATE_INSPECT_KEY .settled) (key : String) (hkey : keys key = true) :
    At s.c s.asker key .settled := by
  rcases keys_cases hkey with rfl | rfl
  · exact hupdate
  · exact hinspect

/-- The inspect's answer is taken: the script is started, or the next container is up. -/
theorem told_inspected {queued : List Update} (h : Told socket script_of queued s)
    (hquiet : Quiet UPDATE_KEY s) (answers : Ticket → TryRecv Answer) :
    Told socket script_of queued (s.poll_inspected script_of answers) ∧
      Quiet UPDATE_KEY (s.poll_inspected script_of answers) ∧
      Quiet UPDATE_INSPECT_KEY (s.poll_inspected script_of answers) := by
  obtain ⟨t, p, ws, hgoes, hstands, hwords, hnotices⟩ := h
  have hwaiting {stage : Stage} (hat : At s.c s.asker UPDATE_INSPECT_KEY stage)
      (hstage : ∀ a, stage ≠ .landed a) :
      Told socket script_of queued (s.poll_inspected script_of answers) ∧
        Quiet UPDATE_KEY (s.poll_inspected script_of answers) ∧
        Quiet UPDATE_INSPECT_KEY (s.poll_inspected script_of answers) := by
    rw [poll_inspected_waits hat hstage]
    exact ⟨⟨t, p, ws, hgoes, hstands, hwords, hnotices⟩, hquiet, quiet_of_at hat hstage⟩
  cases hstands with
  | idle _ hinspect => exact hwaiting hinspect (by simp)
  | recreating _ hinspect => exact hwaiting hinspect (by simp)
  | @inspecting stage u rest command _ hupdate hinspect hqueue hfresh hwaits =>
    cases stage with
    | settled => exact hwaits.elim
    | asked ticket => exact hwaiting hinspect (by simp)
    | landed a =>
      obtain rfl : ws = _ := hwaits
      have htaken := (take_landed hinspect).2
      have hupdate' := at_take_other keys_ne.symm hupdate
      cases hn : refusal script_of u a with
      | some n =>
        obtain ⟨hc, hasker, hupdating, hnotice⟩ := poll_inspected_refused hinspect hqueue hn answers
        generalize s.poll_inspected script_of answers = s' at hc hasker hupdating hnotice ⊢
        have hu : At s'.c s'.asker UPDATE_KEY .settled := by
          rw [hc, hasker]
          exact hupdate'
        have hi : At s'.c s'.asker UPDATE_INSPECT_KEY .settled := by
          rw [hc, hasker]
          exact htaken
        refine ⟨⟨t ++ [.called (.inspect command) a, .said n],
          update_all socket script_of s'.updating, [], ?_, ?_, ?_, ?_⟩,
          quiet_of_at hu (by simp), quiet_of_at hi (by simp)⟩
        · refine hgoes.trans (.call ?_)
          rw [inspected_refused hn, hupdating]
          exact .say (.here _)
        · exact .idle hu hi (by rw [hupdating]; exact hfresh)
        · rw [hc, hwords]
          simp [step_words]
        · rw [hnotice, hnotices]
          simp
      | none =>
        obtain ⟨he, script, hs⟩ := script_of_not_refused hn
        rw [poll_inspected_script hinspect hqueue he hs]
        obtain ⟨hasked, hothers, hwords'⟩ :=
          run_settled (s := { s with
            asker := (s.asker.take s.c UPDATE_INSPECT_KEY).2
            updating := { u with inspecting := false } :: rest })
            (show keys UPDATE_KEY = true from rfl)
            (settled_both hupdate' htaken) script answers
        have hi := hothers UPDATE_INSPECT_KEY rfl keys_ne.symm
        refine ⟨⟨t ++ [.called (.inspect command) a], _, [.ask (.recreate script)], ?_,
          .recreating hasked hi rfl hfresh rfl, ?_, ?_⟩,
          quiet_of_at hasked (by simp), quiet_of_at hi (by simp)⟩
        · refine hgoes.trans (.call ?_)
          rw [inspected_script he hs]
          exact .here _
        · rw [hwords']
          change words s.c.log ++ _ = _
          rw [hwords]
          simp [step_words, words, word]
        · refine hnotices.trans ?_
          simp

/-- The next container's inspect is started, where nothing runs. -/
theorem told_next {queued : List Update} (h : Told socket script_of queued s)
    (hupdate_quiet : Quiet UPDATE_KEY s) (hinspect_quiet : Quiet UPDATE_INSPECT_KEY s)
    (answers : Ticket → TryRecv Answer) :
    Told socket script_of queued (s.start_inspect socket answers) := by
  obtain ⟨t, p, ws, hgoes, hstands, hwords, hnotices⟩ := h
  have hbusy (hrunning : (s.c.is_running UPDATE_INSPECT_KEY || s.c.is_running UPDATE_KEY) = true) :
      Told socket script_of queued (s.start_inspect socket answers) := by
    rw [DockerManager.start_inspect, if_pos hrunning]
    exact ⟨t, p, ws, hgoes, hstands, hwords, hnotices⟩
  cases hstands with
  | @inspecting stage _ _ _ _ _ hinspect _ _ hwaits =>
    cases stage with
    | settled => exact hwaits.elim
    | landed a => exact (hinspect_quiet a hinspect).elim
    | asked ticket =>
      refine hbusy (Bool.or_eq_true_iff.mpr (.inl ((is_running_iff _ _).mpr ?_)))
      rw [hinspect.1]
      simp
  | @recreating stage _ _ _ _ hupdate _ _ _ hwaits =>
    cases stage with
    | settled => exact hwaits.elim
    | landed a => exact (hupdate_quiet a hupdate).elim
    | asked ticket =>
      refine hbusy (Bool.or_eq_true_iff.mpr (.inr ((is_running_iff _ _).mpr ?_)))
      rw [hupdate.1]
      simp
  | idle hupdate hinspect hfresh =>
    have hidle : ¬ (s.c.is_running UPDATE_INSPECT_KEY || s.c.is_running UPDATE_KEY) = true := by
      rw [Bool.or_eq_true_iff, is_running_iff, is_running_iff, hupdate.1, hinspect.1]
      simp
    rw [DockerManager.start_inspect, if_neg hidle]
    cases hqueue : s.updating with
    | nil =>
      have hstands : Stands socket script_of s (update_all socket script_of s.updating) [] :=
        .idle hupdate hinspect hfresh
      rw [hqueue] at hgoes hstands
      exact ⟨t, _, [], hgoes, hstands, hwords, hnotices⟩
    | cons u rest =>
      rw [hqueue] at hgoes hfresh
      have hu : u.inspecting = false := hfresh.1 u List.mem_cons_self
      have hrest : Fresh rest :=
        ⟨fun v hv => hfresh.1 v (List.mem_cons_of_mem _ hv), (List.nodup_cons.mp hfresh.2).2⟩
      have hnext : DockerManager.mark_next (u :: rest) = { u with inspecting := true } :: rest := by
        rw [DockerManager.mark_next, if_neg (by simp [hu])]
      rw [List.find?_cons_of_pos (by simp [hu])]
      dsimp only
      rw [hnext]
      cases hcommand : inspect_command socket u.id with
      | none =>
        have hskip : update_all socket script_of (u :: rest) = update_all socket script_of rest := by
          rw [update_all, update, hcommand]
          rfl
        have hdrop : ({ u with inspecting := true } :: rest).filter (fun v => v.id ≠ u.id) = rest := by
          rw [List.filter_cons, if_neg (by simp)]
          refine List.filter_eq_self.mpr fun v hv => decide_eq_true fun heq => ?_
          exact (List.nodup_cons.mp hfresh.2).1 (heq ▸ List.mem_map_of_mem hv)
        dsimp only
        rw [hdrop]
        rw [hskip] at hgoes
        exact ⟨t, _, [], hgoes, .idle hupdate hinspect hrest, hwords, hnotices⟩
      | some command =>
        obtain ⟨hasked, hothers, hwords'⟩ :=
          run_settled (s := { s with updating := { u with inspecting := true } :: rest })
            (show keys UPDATE_INSPECT_KEY = true from rfl) (settled_both hupdate hinspect) command answers
        have hprogram : update_all socket script_of (u :: rest) =
            .call (.inspect command) fun a =>
              inspected script_of { u with inspecting := true } a >>=
                fun _ => update_all socket script_of rest := by
          rw [update_all, update, hcommand]
          rfl
        rw [hprogram] at hgoes
        dsimp only
        refine ⟨t, _, [.ask (.inspect command)], hgoes,
          .inspecting (hothers UPDATE_KEY rfl keys_ne) hasked rfl hrest rfl, ?_, hnotices⟩
        rw [hwords']
        change words s.c.log ++ _ = _
        rw [hwords]
        simp [words, word, keys_ne.symm]

/-- **A frame** of the pane goes on with the program. -/
theorem told_frame {queued : List Update} (h : Told socket script_of queued s)
    (answers answers' : Ticket → TryRecv Answer) :
    Told socket script_of queued (s.poll_update socket script_of answers answers') := by
  obtain ⟨hscript, hquiet⟩ := told_script h
  obtain ⟨hinspected, hupdate, hinspect⟩ := told_inspected hscript hquiet answers
  exact told_next hinspected hupdate hinspect answers'

/-! ## Runs -/

theorem look_nothing (stage : Stage) (key : String) :
    stage.look (fun _ => .empty) key = (stage, []) := by
  cases stage <;> rfl

theorem poll_nothing (c : RemoteCommands) : (c.poll fun _ => .empty).log = c.log := by
  have hnone : c.pending.filterMap (landed fun _ => .empty) = [] :=
    List.filterMap_eq_nil_iff.mpr fun q _ => rfl
  rw [poll_eq, hnone]
  rfl

theorem Told.look {queued : List Update} (h : Told socket script_of queued s)
    (hqueue : s'.updating = s.updating) (hnotices : s'.notices = s.notices)
    (answers : Ticket → TryRecv Answer)
    (hat : ∀ key, keys key = true → ∀ stage, At s.c s.asker key stage →
      At s'.c s'.asker key (stage.look answers key).1)
    (hwords : words s'.c.log = words (s.c.poll answers).log) :
    Told socket script_of queued s' := by
  obtain ⟨t, p, ws, hgoes, hstands, hsaid, hshown⟩ := h
  obtain ⟨more, hstands', hmore⟩ := hstands.look hqueue answers hat hwords
  exact ⟨t, p, ws ++ more, hgoes, hstands', by rw [hmore, hsaid, List.append_assoc],
    hnotices.trans hshown⟩

/-- Nothing of the updates is in a command under another key. -/
theorem words_start_other {other : String} (hother : keys other = false) (c : RemoteCommands)
    (runs : Bool) (command : Text) (input : Option Text) (answers : Ticket → TryRecv Answer) :
    words (c.start_command runs other command input answers).log =
      words (c.poll answers).log := by
  have hnot : ¬(other = UPDATE_KEY ∨ other = UPDATE_INSPECT_KEY) := fun h => by
    rw [(keys_iff other).mpr h] at hother
    cases hother
  rw [not_or] at hnot
  unfold RemoteCommands.start_command
  cases runs with
  | true =>
    rw [if_pos rfl, words_append]
    simp [words, word, hnot.1, hnot.2]
  | false =>
    rw [if_neg Bool.false_ne_true, words_append]
    simp [words, word]

theorem fresh_queue (containers : List Update) {ids : List Text} (hids : ids.Nodup) :
    Fresh (s.queue_updates containers ids).updating := by
  unfold DockerManager.queue_updates
  dsimp only
  have hid (id : Text) (u : Update) (hu : (containers.find? fun container => container.id = id).map
      (fun container => { container with inspecting := false }) = some u) :
      u.id = id ∧ u.inspecting = false := by
    obtain ⟨container, hfind, rfl⟩ := Option.map_eq_some_iff.mp hu
    exact ⟨of_decide_eq_true (List.find?_some hfind :), rfl⟩
  refine ⟨fun u hu => ?_, ?_⟩
  · obtain ⟨id, -, hu⟩ := List.mem_filterMap.mp hu
    exact (hid id u hu).2
  · refine List.Nodup.sublist ?_ hids
    clear hids
    induction ids with
    | nil => exact List.Sublist.slnil
    | cons id ids ih =>
      rw [List.filterMap_cons]
      split
      · exact ih.cons id
      · next u hu =>
        rw [List.map_cons, (hid id u hu).1]
        exact ih.cons_cons id

end Stands

section Queue

variable {socket : Text} {script_of : Text → Option Text} {s : DockerManager}

theorem words_cancel (c : RemoteCommands) (key : String) : words (c.cancel key).log = words c.log := by
  unfold RemoteCommands.cancel
  split
  · rfl
  · rw [words_append]
    simp [words, word]

/-- Where no update is left, the program for all of them is done. -/
theorem Stands.done {p : Program} {ws : List Word} (h : Stands socket script_of s p ws)
    (hqueue : s.updating = []) :
    p = pure () ∧ ws = [] ∧ At s.c s.asker UPDATE_KEY .settled ∧
      At s.c s.asker UPDATE_INSPECT_KEY .settled := by
  cases h with
  | idle hupdate hinspect _ =>
    rw [hqueue]
    exact ⟨rfl, rfl, hupdate, hinspect⟩
  | inspecting _ _ hq | recreating _ _ hq =>
    rw [hqueue] at hq
    cases hq

/-- More updates are queued behind those that are done. -/
theorem told_queue {queued : List Update} (h : Told socket script_of queued s)
    (hqueue : s.updating = []) {ids : List Text} (hids : ids.Nodup) (containers : List Update) :
    Told socket script_of (queued ++ (s.queue_updates containers ids).updating)
      (s.queue_updates containers ids) := by
  obtain ⟨t, p, ws, hgoes, hstands, hwords, hnotices⟩ := h
  obtain ⟨rfl, rfl, hupdate, hinspect⟩ := hstands.done hqueue
  refine ⟨t, _, [], ?_, .idle hupdate hinspect (fresh_queue containers hids), hwords, hnotices⟩
  rw [update_all_append]
  exact hgoes.bind _

end Queue

/-- The pane with all that was ever queued in it. -/
structure World where
  s : DockerManager := {}
  queued : List Update := []

/-- What may happen: the session looks at the receivers, somebody asks for or stops a command, the
pane asks or looks for something else, updates are queued, or a frame looks at the updates. -/
inductive Act
  | poll (answers : Ticket → TryRecv Answer)
  | exec (runs : Bool) (key : String) (command : Text) (input : Option Text)
    (answers : Ticket → TryRecv Answer)
  | run (key : String) (command : Text) (answers : Ticket → TryRecv Answer)
  | take (key : String)
  | cancel (key : String)
  | queue (containers : List Update) (ids : List Text)
  | frame (answers answers' : Ticket → TryRecv Answer)

section Run

variable (socket : Text) (script_of : Text → Option Text)

def World.step (w : World) : Act → World
  | .poll answers => { w with s := { w.s with c := w.s.c.poll answers } }
  | .exec runs key command input answers =>
    { w with s := { w.s with c := w.s.c.start_command runs key command input answers } }
  | .run key command answers => { w with s := w.s.run key command answers }
  | .take key => { w with s := (w.s.take key).2 }
  | .cancel key => { w with s := { w.s with c := w.s.c.cancel key } }
  | .queue containers ids =>
    let s := w.s.queue_updates containers ids
    ⟨s, w.queued ++ s.updating⟩
  | .frame answers answers' => { w with s := w.s.poll_update socket script_of answers answers' }

/-- The keys of the updates are the updates' own, and updates are queued, once for each container,
where none is left. -/
def Careful (w : World) : Act → Prop
  | .exec _ key _ _ _ | .run key _ _ | .take key => keys key = false
  | .queue _ ids => w.s.updating = [] ∧ ids.Nodup
  | _ => True

variable {socket script_of} {w : World}

theorem told_act (h : Told socket script_of w.queued w.s) {act : Act} (hact : Careful w act) :
    Told socket script_of (w.step socket script_of act).queued
      (w.step socket script_of act).s := by
  have hne {key other : String} (hother : keys other = false) (hkey : keys key = true) :
      other ≠ key := fun heq => by
    rw [heq, hkey] at hother
    cases hother
  cases act with
  | poll answers => exact h.look rfl rfl answers (fun key _ _ hat => (at_poll hat answers).1) rfl
  | exec runs other command input answers =>
    exact h.look rfl rfl answers
      (fun key hkey _ hat => (at_start_other hat (hne hact hkey) runs command input answers).1)
      (words_start_other hact _ _ _ _ _)
  | run other command answers =>
    refine h.look rfl rfl answers (fun key hkey stage hat => ?_) (words_start_other hact _ _ _ _ _)
    have hat' := (at_start_other hat (hne hact hkey) true command none answers).1
    exact hat'.of_eq rfl rfl (if_neg (hne hact hkey).symm) rfl
  | take other =>
    refine h.look rfl rfl (fun _ => .empty) (fun key hkey stage hat => ?_) (by rw [poll_nothing]; rfl)
    rw [look_nothing]
    exact at_take_other (hne hact hkey) hat
  | cancel other =>
    refine h.look rfl rfl (fun _ => .empty) (fun key _ stage hat => ?_) ?_
    · rw [look_nothing]
      exact (at_cancel hat other).1
    · rw [poll_nothing]
      exact words_cancel w.s.c other
  | frame answers answers' => exact told_frame h answers answers'
  | queue containers ids => exact told_queue h hact.1 hact.2 containers

end Run

/-- Two containers are queued, the first is inspected while another pane asks, and its script runs. -/
def update_visit : List Act :=
  [.queue [⟨"a1".toList, "web".toList, false⟩, ⟨"b2".toList, "db".toList, false⟩]
      ["a1".toList, "b2".toList],
    .frame (fun _ => .empty) (fun _ => .empty),
    .exec true "monitor" "uptime".toList none (fun _ => .empty),
    .poll (fun _ => .ok (.ok ⟨"document".toList, [], some 0⟩)),
    .frame (fun _ => .empty) (fun _ => .empty),
    .poll (fun _ => .disconnected),
    .frame (fun _ => .empty) (fun _ => .empty)]

/-- The world of the visit, where every document gives a script. -/
def visited : World :=
  StepRun.run (World.step [] fun document => some ("update ".toList ++ document)) {} update_visit

end WaSSH.Docker.Updates
