import WaSSH.Files.Request
import WaSSH.Lib.Run
import WaSSH.Lib.Text

/-!
# Commands of the panes

A pane asks the session for a command under a key and reads the result of the key on a later frame.
The answers come from threads, in any order.

* `RemoteCommands`, `drain_answers`, `poll`, `start_command`, `cancel`: the session's side;
* `Asker`, `Asker.run`, `Asker.take`: a pane that takes each outcome once;
* `Stage`, `At`: where a key stands; `at_poll`, `at_start_other`, `at_ask`, `take_landed`: what each
  step makes of it;
* **`each_taken_once`**: a key that is asked only where it has settled: over every run the outcomes
  taken are those of its commands, one for one and in order.
-/

namespace WaSSH.Ssh.Commands

open Files (TryRecv)

abbrev Text := List Char

/-- The receiver of a command that was started. -/
abbrev Ticket := ℕ

/-! ## The session's side -/

/-- Result of a command a pane asked the session to run. -/
structure CommandOutput where
  stdout : Text := []
  stderr : Text := []
  code : Option UInt32 := none
  deriving DecidableEq

/-- Whether the command reported success (or said nothing about its status). -/
def CommandOutput.succeeded (o : CommandOutput) : Bool := o.code = none || o.code = some 0

/-- The first non-empty line of standard error. -/
def CommandOutput.error_line (o : CommandOutput) : Option Text :=
  ((Text.lines o.stderr).map Text.trim).find? (· ≠ [])

/-- What a receiver brings. -/
abbrev Answer := Except Text CommandOutput

/-- A finished command, kept so panes can read it on later frames. -/
structure CommandResult where
  output : Option CommandOutput
  failure : Option Text
  deriving DecidableEq

/-- What a run is remembered by. -/
inductive Happened
  | asked (key : String) (ticket : Ticket) (command : Text) (input : Option Text)
  | answered (key : String) (ticket : Ticket) (answer : Answer)
  | refused (key : String) (command : Text)
  | stopped (key : String) (ticket : Ticket)

/-- Commands panes asked the session to run, keyed by the pane's own label. -/
structure RemoteCommands where
  pending : List (String × Ticket) := []
  stops : List (String × Ticket) := []
  results : String → Option CommandResult := fun _ => none
  next : Ticket := 0
  log : List Happened := []

def COMMAND_CLOSED : Text := "the session closed before the command finished".toList

def COMMAND_TRANSPORT_ERROR : Text := "Commands need an SSH or local session".toList

/-- What a receiver that was looked at gives. -/
def landing {T : Type} (closed : Text) : TryRecv (Except Text T) → Option (Except Text T)
  | .ok answer => some answer
  | .empty => none
  | .disconnected => some (.error closed)

/-- What stays pending, and the answers that have arrived, in the order of the requests. -/
def drain_answers {T : Type} (pending : List (String × Ticket)) (closed : Text)
    (answers : Ticket → TryRecv (Except Text T)) :
    List (String × Ticket) × List (String × Ticket × Except Text T) :=
  (pending.filter fun p => (landing closed (answers p.2)).isNone,
    pending.filterMap fun p => (landing closed (answers p.2)).map fun a => (p.1, p.2, a))

/-- What is kept of an answer. -/
def result_of : Answer → CommandResult
  | .ok output => ⟨some output, none⟩
  | .error failure => ⟨none, some failure⟩

namespace RemoteCommands

variable (c : RemoteCommands)

/-- An answer that has arrived. -/
def land (landed : String × Ticket × Answer) : RemoteCommands :=
  { c with
    stops := c.stops.filter fun s => s.1 ≠ landed.1
    results := fun key => if key = landed.1 then some (result_of landed.2.2) else c.results key
    log := c.log ++ [.answered landed.1 landed.2.1 landed.2.2] }

/-- Take every answer that has arrived. -/
def poll (answers : Ticket → TryRecv Answer) : RemoteCommands :=
  let (pending, landings) := drain_answers c.pending COMMAND_CLOSED answers
  landings.foldl land { c with pending }

/-- Whether a command for `key` is still running. -/
def is_running (key : String) : Bool := c.pending.any fun p => p.1 = key

/-- Stop the command for `key` where it runs. -/
def cancel (key : String) : RemoteCommands :=
  match c.stops.find? fun s => s.1 = key with
  | none => c
  | some stop =>
    { c with
      stops := c.stops.eraseP fun s => s.1 = key
      log := c.log ++ [.stopped key stop.2] }

/-- Run `command` on the host behind the tab. `runs`: the tab is an SSH session or a local one. -/
def start_command (runs : Bool) (key : String) (command : Text) (input : Option Text)
    (answers : Ticket → TryRecv Answer) : RemoteCommands :=
  let c := c.poll answers
  let results := fun k => if k = key then none else c.results k
  if runs then
    { c with
      results
      pending := c.pending ++ [(key, c.next)]
      stops := c.stops ++ [(key, c.next)]
      next := c.next + 1
      log := c.log ++ [.asked key c.next command (input.map (· ++ ['\n']))] }
  else
    { c with
      results := fun k =>
        if k = key then some ⟨none, some COMMAND_TRANSPORT_ERROR⟩ else results k
      log := c.log ++ [.refused key command] }

def output (key : String) : Option CommandOutput := (c.results key).bind CommandResult.output

def failure (key : String) : Option Text := (c.results key).bind CommandResult.failure

end RemoteCommands

/-! ## A pane that asks -/

/-- What a pane makes of an answer. -/
structure Outcome where
  stdout : Text
  error : Option Text
  deriving DecidableEq

/-- How often a pane asked under each key, and up to which of them it has looked. -/
structure Asker where
  attempts : String → ℕ := fun _ => 0
  handled : String → ℕ := fun _ => 0

namespace Asker

variable (p : Asker)

/-- Another request under a key. -/
def note (key : String) : Asker :=
  { p with attempts := fun k => if k = key then p.attempts k + 1 else p.attempts k }

/-- The error of an output. -/
def output_error (output : CommandOutput) : Option Text :=
  if output.succeeded then none
  else some (output.error_line.getD ("docker exited with ".toList ++ match output.code with
    | none => "None".toList
    | some code => "Some(".toList ++ Nat.toDigits 10 code.toNat ++ ")".toList))

/-- The outcome of `key`, exactly once per request. -/
def take (c : RemoteCommands) (key : String) : Option Outcome × Asker :=
  if c.is_running key then (none, p)
  else if p.attempts key = 0 ∨ p.handled key = p.attempts key then (none, p)
  else
    let output := c.output key
    let failure := c.failure key
    if output = none ∧ failure = none then (none, p)
    else
      let p := { p with handled := fun k => if k = key then p.attempts k else p.handled k }
      match output with
      | none => (some ⟨[], failure⟩, p)
      | some output => (some ⟨output.stdout, failure <|> output_error output⟩, p)

end Asker

/-- What a pane makes of an answer that it takes. -/
def outcome_of : Answer → Outcome
  | .ok output => ⟨output.stdout, Asker.output_error output⟩
  | .error failure => ⟨[], some failure⟩

/-! ## One key -/

/-- Part of the history of some keys: a request, its answer, or its refusal. -/
def Happened.about (keys : String → Bool) : Happened → Bool
  | .asked k _ _ _ | .answered k _ _ | .refused k _ => keys k
  | .stopped _ _ => false

/-- What happened to the requests of some keys. -/
def history (keys : String → Bool) (log : List Happened) : List Happened :=
  log.filter (Happened.about keys)

theorem history_append (keys : String → Bool) (log more : List Happened) :
    history keys (log ++ more) = history keys log ++ history keys more := List.filter_append ..

/-- The requests of some keys that are running. -/
def running (keys : String → Bool) (pending : List (String × Ticket)) : List (String × Ticket) :=
  pending.filter fun p => keys p.1

/-- One key. -/
def only (key : String) : String → Bool := fun k => k = key

@[simp] theorem only_iff (key k : String) : only key k = true ↔ k = key := decide_eq_true_iff

@[simp] theorem only_eq_false_iff (key k : String) : only key k = false ↔ k ≠ key :=
  decide_eq_false_iff_not

theorem is_running_iff (c : RemoteCommands) (key : String) :
    c.is_running key = true ↔ running (only key) c.pending ≠ [] := by
  unfold RemoteCommands.is_running running
  rw [ne_eq, List.filter_eq_nil_iff, List.any_eq_true]
  simp [only_iff]

/-- What a request brings when it is looked at. -/
def landed (answers : Ticket → TryRecv Answer) (p : String × Ticket) :
    Option (String × Ticket × Answer) :=
  (landing COMMAND_CLOSED (answers p.2)).map fun a => (p.1, p.2, a)

def Landed.happened (l : String × Ticket × Answer) : Happened := .answered l.1 l.2.1 l.2.2

section Landings

variable (ls : List (String × Ticket × Answer)) (c : RemoteCommands) (key : String)

@[simp] theorem foldl_land_pending : (ls.foldl RemoteCommands.land c).pending = c.pending := by
  induction ls generalizing c with
  | nil => rfl
  | cons l ls ih => exact ih (c.land l)

@[simp] theorem foldl_land_next : (ls.foldl RemoteCommands.land c).next = c.next := by
  induction ls generalizing c with
  | nil => rfl
  | cons l ls ih => exact ih (c.land l)

@[simp] theorem foldl_land_log :
    (ls.foldl RemoteCommands.land c).log = c.log ++ ls.map Landed.happened := by
  induction ls generalizing c with
  | nil => simp
  | cons l ls ih =>
    rw [List.foldl_cons, ih, List.map_cons, List.append_cons]
    rfl

/-- The last answer of a key is what its result becomes. -/
theorem foldl_land_results : (ls.foldl RemoteCommands.land c).results key =
    (ls.filter fun l => l.1 = key).foldl (fun _ l => some (result_of l.2.2)) (c.results key) := by
  induction ls generalizing c with
  | nil => rfl
  | cons l ls ih =>
    rw [List.foldl_cons, ih, List.filter_cons]
    by_cases h : l.1 = key
    · rw [if_pos (by simpa using h), List.foldl_cons]
      congr 1
      exact if_pos h.symm
    · rw [if_neg (by simpa using h)]
      congr 1
      exact if_neg (Ne.symm h)

end Landings

/-- The answers of a key are those of its requests. -/
theorem filter_landed (answers : Ticket → TryRecv Answer) (keys : String → Bool)
    (pending : List (String × Ticket)) :
    ((pending.filterMap (landed answers)).filter fun l => keys l.1) =
      (running keys pending).filterMap (landed answers) := by
  induction pending with
  | nil => rfl
  | cons p pending ih =>
    have hkey (l : String × Ticket × Answer) (hl : landed answers p = some l) : l.1 = p.1 := by
      obtain ⟨a, -, rfl⟩ := Option.map_eq_some_iff.mp hl
      rfl
    rw [running, List.filter_cons, List.filterMap_cons]
    by_cases hp : keys p.1 = true
    · rw [if_pos hp, List.filterMap_cons]
      cases hl : landed answers p with
      | none => exact ih
      | some l =>
        dsimp only
        rw [List.filter_cons, if_pos ((congrArg keys (hkey l hl)).trans hp), ih, running]
    · rw [if_neg hp]
      cases hl : landed answers p with
      | none => exact ih
      | some l =>
        dsimp only
        rw [List.filter_cons, if_neg fun h => hp ((congrArg keys (hkey l hl)).symm.trans h), ih,
          running]

section Poll

variable (c : RemoteCommands) (keys : String → Bool) (answers : Ticket → TryRecv Answer)

theorem poll_eq : c.poll answers = (c.pending.filterMap (landed answers)).foldl RemoteCommands.land
    { c with pending := c.pending.filter fun p => (landing COMMAND_CLOSED (answers p.2)).isNone } :=
  rfl

@[simp] theorem poll_next : (c.poll answers).next = c.next := by
  rw [poll_eq, foldl_land_next]

theorem poll_running : running keys (c.poll answers).pending =
    (running keys c.pending).filter fun p => (landing COMMAND_CLOSED (answers p.2)).isNone := by
  rw [poll_eq, foldl_land_pending, running, running, List.filter_comm]

theorem poll_results (key : String) : (c.poll answers).results key =
    ((running (only key) c.pending).filterMap (landed answers)).foldl (fun _ l => some (result_of l.2.2))
      (c.results key) := by
  rw [poll_eq, foldl_land_results]
  exact congrArg _ (filter_landed answers (only key) c.pending)

theorem poll_history : history keys (c.poll answers).log =
    history keys c.log ++ ((running keys c.pending).filterMap (landed answers)).map Landed.happened := by
  rw [poll_eq, foldl_land_log, history_append, ← filter_landed]
  congr 1
  exact List.filter_map

end Poll

/-! ## Where a key stands -/

/-- Where a key stands: all its answers are taken, a command runs, or an answer waits. -/
inductive Stage
  | settled
  | asked (ticket : Ticket)
  | landed (answer : Answer)

/-- What a look at the receivers makes of it, and what happens. -/
def Stage.look (answers : Ticket → TryRecv Answer) (key : String) : Stage → Stage × List Happened
  | .asked ticket =>
    match landing COMMAND_CLOSED (answers ticket) with
    | none => (.asked ticket, [])
    | some a => (.landed a, [.answered key ticket a])
  | stage => (stage, [])

theorem look_empty {answers : Ticket → TryRecv Answer} {ticket : Ticket}
    (h : landing COMMAND_CLOSED (answers ticket) = none) (key : String) :
    (Stage.asked ticket).look answers key = (.asked ticket, []) := by
  rw [Stage.look, h]

theorem look_landed {answers : Ticket → TryRecv Answer} {ticket : Ticket} {a : Answer}
    (h : landing COMMAND_CLOSED (answers ticket) = some a) (key : String) :
    (Stage.asked ticket).look answers key = (.landed a, [.answered key ticket a]) := by
  rw [Stage.look, h]

/-- A key stands there, for the session and for the pane that asks under it. -/
def At (c : RemoteCommands) (p : Asker) (key : String) : Stage → Prop
  | .settled => running (only key) c.pending = [] ∧ p.attempts key = p.handled key
  | .asked ticket => running (only key) c.pending = [(key, ticket)] ∧ c.results key = none ∧
      p.attempts key = p.handled key + 1
  | .landed a => running (only key) c.pending = [] ∧ c.results key = some (result_of a) ∧
      p.attempts key = p.handled key + 1

section Stages

variable {c : RemoteCommands} {p : Asker} {key : String} {stage : Stage}

theorem At.settled_iff (h : At c p key stage) :
    stage = .settled ↔ c.is_running key = false ∧ p.handled key = p.attempts key := by
  have hrun := is_running_iff c key
  rw [Bool.eq_false_iff, ne_eq, hrun]
  cases stage with
  | settled => simp [h.1, h.2]
  | asked ticket => simp [h.1]
  | landed a => simp [h.1, h.2.2]

theorem at_poll (h : At c p key stage) (answers : Ticket → TryRecv Answer) :
    At (c.poll answers) p key (stage.look answers key).1 ∧
      history (only key) (c.poll answers).log = history (only key) c.log ++ (stage.look answers key).2 := by
  have hrun := poll_running c (only key) answers
  have hresult := poll_results c answers key
  have hhistory := poll_history c (only key) answers
  cases stage with
  | settled =>
    rw [h.1] at hrun hhistory
    exact ⟨⟨hrun, h.2⟩, hhistory⟩
  | landed a =>
    rw [h.1] at hrun hresult hhistory
    exact ⟨⟨hrun, hresult.trans h.2.1, h.2.2⟩, hhistory⟩
  | asked ticket =>
    rw [h.1] at hrun hresult hhistory
    cases hl : landing COMMAND_CLOSED (answers ticket) with
    | none =>
      rw [look_empty hl]
      simp only [List.filter_cons, hl, Option.isNone_none, if_true, List.filter_nil] at hrun
      simp only [List.filterMap_cons, landed, hl, Option.map_none, List.filterMap_nil,
        List.foldl_nil, List.map_nil] at hresult hhistory
      exact ⟨⟨hrun, hresult.trans h.2.1, h.2.2⟩, hhistory⟩
    | some a =>
      rw [look_landed hl]
      simp only [List.filter_cons, hl, Option.isNone_some, Bool.false_eq_true, if_false,
        List.filter_nil] at hrun
      simp only [List.filterMap_cons, landed, hl, Option.map_some, List.filterMap_nil,
        List.foldl_cons, List.foldl_nil, List.map_cons, List.map_nil] at hresult hhistory
      exact ⟨⟨hrun, hresult, h.2.2⟩, hhistory⟩

theorem At.of_eq (h : At c p key stage) {d : RemoteCommands} {q : Asker}
    (hrun : running (only key) d.pending = running (only key) c.pending) (hresult : d.results key = c.results key)
    (hattempts : q.attempts key = p.attempts key) (hhandled : q.handled key = p.handled key) :
    At d q key stage := by
  cases stage with
  | settled => exact ⟨hrun.trans h.1, by rw [hattempts, hhandled, h.2]⟩
  | asked | landed =>
    exact ⟨hrun.trans h.1, hresult.trans h.2.1, by rw [hattempts, hhandled, h.2.2]⟩

theorem running_append_other {other : String} (hother : other ≠ key) (ticket : Ticket)
    (pending : List (String × Ticket)) :
    running (only key) (pending ++ [(other, ticket)]) = running (only key) pending := by
  rw [running, List.filter_append, List.filter_cons, if_neg (by simpa using hother)]
  exact List.append_nil _

/-- A command under another key is another look at the receivers. -/
theorem at_start_other (h : At c p key stage) {other : String} (hother : other ≠ key) (runs : Bool)
    (command : Text) (input : Option Text) (answers : Ticket → TryRecv Answer) :
    At (c.start_command runs other command input answers) p key (stage.look answers key).1 ∧
      history (only key) (c.start_command runs other command input answers).log =
        history (only key) c.log ++ (stage.look answers key).2 := by
  obtain ⟨hat, hhistory⟩ := at_poll h answers
  unfold RemoteCommands.start_command
  cases runs with
  | true =>
    refine ⟨hat.of_eq (running_append_other hother _ _) (if_neg hother.symm) rfl rfl, ?_⟩
    rw [← hhistory, if_pos rfl, history_append]
    simp [history, Happened.about, hother]
  | false =>
    refine ⟨hat.of_eq rfl ((if_neg hother.symm).trans (if_neg hother.symm)) rfl rfl, ?_⟩
    rw [← hhistory, if_neg Bool.false_ne_true, history_append]
    simp [history, Happened.about, hother]

theorem note_attempts (p : Asker) (key : String) :
    (p.note key).attempts key = p.attempts key + 1 := if_pos rfl

/-- A command under a settled key. -/
theorem at_ask (h : At c p key .settled) (command : Text) (input : Option Text)
    (answers : Ticket → TryRecv Answer) :
    At (c.start_command true key command input answers) (p.note key) key (.asked c.next) ∧
      history (only key) (c.start_command true key command input answers).log =
        history (only key) c.log ++ [.asked key c.next command (input.map (· ++ ['\n']))] := by
  obtain ⟨hat, hhistory⟩ := at_poll h answers
  have hnext := poll_next c answers
  unfold RemoteCommands.start_command
  rw [if_pos rfl]
  refine ⟨⟨?_, if_pos rfl, ?_⟩, ?_⟩
  · change running (only key) ((c.poll answers).pending ++ [(key, (c.poll answers).next)]) = _
    rw [running, List.filter_append, ← running, hat.1, hnext]
    simp
  · rw [note_attempts, h.2]
    rfl
  · rw [history_append, hhistory, hnext]
    simp [history, Happened.about, Stage.look]

/-- A command under a settled key that the session cannot run. -/
theorem at_refused (h : At c p key .settled) (command : Text) (input : Option Text)
    (answers : Ticket → TryRecv Answer) :
    At (c.start_command false key command input answers) (p.note key) key
        (.landed (.error COMMAND_TRANSPORT_ERROR)) ∧
      history (only key) (c.start_command false key command input answers).log =
        history (only key) c.log ++ [.refused key command] := by
  obtain ⟨hat, hhistory⟩ := at_poll h answers
  unfold RemoteCommands.start_command
  rw [if_neg Bool.false_ne_true]
  refine ⟨⟨hat.1, if_pos rfl, ?_⟩, ?_⟩
  · rw [note_attempts, h.2]
    rfl
  · rw [history_append, hhistory]
    simp [history, Happened.about, Stage.look]

theorem at_cancel (h : At c p key stage) (other : String) :
    At (c.cancel other) p key stage ∧ history (only key) (c.cancel other).log = history (only key) c.log := by
  unfold RemoteCommands.cancel
  split
  · exact ⟨h, rfl⟩
  · refine ⟨h.of_eq rfl rfl rfl rfl, ?_⟩
    rw [history_append]
    simp [history, Happened.about]

theorem take_waits (h : At c p key stage) (hstage : ∀ a, stage ≠ .landed a) :
    p.take c key = (none, p) := by
  unfold Asker.take
  cases stage with
  | landed a => exact absurd rfl (hstage a)
  | asked ticket => rw [if_pos ((is_running_iff c key).mpr (by simp [h.1]))]
  | settled =>
    rw [if_neg (fun hr => (is_running_iff c key).mp hr h.1), if_pos (.inr h.2.symm)]

theorem take_landed {a : Answer} (h : At c p key (.landed a)) :
    (p.take c key).1 = some (outcome_of a) ∧ At c (p.take c key).2 key .settled := by
  have hrunning : ¬ c.is_running key = true := fun hr => (is_running_iff c key).mp hr h.1
  have hfresh : ¬ (p.attempts key = 0 ∨ p.handled key = p.attempts key) := by
    rw [h.2.2]
    omega
  unfold Asker.take RemoteCommands.output RemoteCommands.failure
  rw [if_neg hrunning, if_neg hfresh, h.2.1]
  cases a with
  | ok output => exact ⟨rfl, h.1, (if_pos rfl).symm⟩
  | error failure => exact ⟨rfl, h.1, (if_pos rfl).symm⟩

end Stages

/-! ## Runs -/

/-- A session, a pane of it, and the outcomes the pane has taken under each key. -/
structure World where
  c : RemoteCommands := {}
  p : Asker := {}
  taken : String → List Outcome := fun _ => []

/-- What may happen: a frame looks at the receivers, another pane asks or stops a command, the pane
asks, or the pane looks for an outcome. -/
inductive Act
  | poll (answers : Ticket → TryRecv Answer)
  | exec (runs : Bool) (key : String) (command : Text) (input : Option Text)
    (answers : Ticket → TryRecv Answer)
  | ask (runs : Bool) (key : String) (command : Text) (input : Option Text)
    (answers : Ticket → TryRecv Answer)
  | cancel (key : String)
  | take (key : String)

def World.step (w : World) : Act → World
  | .poll answers => { w with c := w.c.poll answers }
  | .exec runs key command input answers =>
    { w with c := w.c.start_command runs key command input answers }
  | .ask runs key command input answers =>
    { w with c := w.c.start_command runs key command input answers, p := w.p.note key }
  | .cancel key => { w with c := w.c.cancel key }
  | .take key =>
    let (outcome, p) := w.p.take w.c key
    { w with
      p
      taken := fun k => if k = key then w.taken key ++ outcome.toList else w.taken k }

/-- The key is the pane's own, and the pane asks under it only where the last outcome is taken. -/
def Careful (key : String) (w : World) : Act → Prop
  | .exec _ other _ _ _ => other ≠ key
  | .ask _ other _ _ _ =>
    other = key → w.c.is_running key = false ∧ w.p.handled key = w.p.attempts key
  | _ => True

/-- A command that ran to its answer, or that was refused at once. -/
inductive Exchange
  | ran (ticket : Ticket) (command : Text) (input : Option Text) (answer : Answer)
  | refused (command : Text)

def Exchange.happened (key : String) : Exchange → List Happened
  | .ran ticket command input answer =>
    [.asked key ticket command input, .answered key ticket answer]
  | .refused command => [.refused key command]

def Exchange.answer : Exchange → Answer
  | .ran _ _ _ answer => answer
  | .refused _ => .error COMMAND_TRANSPORT_ERROR

/-- The end of a history whose key stands there. -/
def Tail (key : String) : Stage → List Happened → Prop
  | .settled, tail => tail = []
  | .asked ticket, tail => ∃ command input, tail = [.asked key ticket command input]
  | .landed a, tail => ∃ x : Exchange, tail = x.happened key ∧ x.answer = a

/-- The story of a key so far. -/
def Told (key : String) (w : World) : Prop :=
  ∃ (done : List Exchange) (stage : Stage) (tail : List Happened),
    At w.c w.p key stage ∧ Tail key stage tail ∧
    history (only key) w.c.log = done.flatMap (Exchange.happened key) ++ tail ∧
    w.taken key = done.map fun x => outcome_of x.answer

variable {key : String} {w : World}

/-- A look at the receivers adds the answer of the command that runs. -/
theorem Tail.look {stage : Stage} {tail : List Happened} (h : Tail key stage tail)
    (answers : Ticket → TryRecv Answer) :
    Tail key (stage.look answers key).1 (tail ++ (stage.look answers key).2) := by
  cases stage with
  | settled | landed => simpa [Stage.look] using h
  | asked ticket =>
    obtain ⟨command, input, rfl⟩ := h
    cases hl : landing COMMAND_CLOSED (answers ticket) with
    | none =>
      rw [look_empty hl]
      exact ⟨command, input, rfl⟩
    | some a =>
      rw [look_landed hl]
      exact ⟨.ran ticket command input a, rfl, rfl⟩

theorem step_take_taken (w : World) (key : String) :
    (w.step (.take key)).taken key = w.taken key ++ (w.p.take w.c key).1.toList := if_pos rfl

theorem take_other {other : String} (hother : other ≠ key) (c : RemoteCommands) (p : Asker) :
    (p.take c other).2.attempts = p.attempts ∧
      (p.take c other).2.handled key = p.handled key := by
  unfold Asker.take
  dsimp only
  split_ifs
  · exact ⟨rfl, rfl⟩
  · exact ⟨rfl, rfl⟩
  · exact ⟨rfl, rfl⟩
  · split <;> exact ⟨rfl, if_neg hother.symm⟩

theorem told_step (hw : Told key w) {act : Act} (hact : Careful key w act) :
    Told key (w.step act) := by
  obtain ⟨done, stage, tail, hat, htail, hhistory, htaken⟩ := hw
  cases act with
  | poll answers =>
    obtain ⟨hat', hhistory'⟩ := at_poll hat answers
    exact ⟨done, _, _, hat', htail.look answers,
      by rw [← List.append_assoc, ← hhistory]; exact hhistory', htaken⟩
  | exec runs other command input answers =>
    obtain ⟨hat', hhistory'⟩ := at_start_other hat hact runs command input answers
    exact ⟨done, _, _, hat', htail.look answers,
      by rw [← List.append_assoc, ← hhistory]; exact hhistory', htaken⟩
  | cancel other =>
    obtain ⟨hat', hhistory'⟩ := at_cancel hat other
    exact ⟨done, stage, tail, hat', htail, hhistory'.trans hhistory, htaken⟩
  | ask runs other command input answers =>
    by_cases hother : other = key
    · subst hother
      obtain rfl := hat.settled_iff.mpr (hact rfl)
      obtain rfl : tail = [] := htail
      rw [List.append_nil] at hhistory
      cases runs with
      | true =>
        obtain ⟨hat', hhistory'⟩ := at_ask hat command input answers
        exact ⟨done, _, _, hat', ⟨_, _, rfl⟩, by rw [← hhistory]; exact hhistory', htaken⟩
      | false =>
        obtain ⟨hat', hhistory'⟩ := at_refused hat command input answers
        exact ⟨done, _, _, hat', ⟨.refused command, rfl, rfl⟩,
          by rw [← hhistory]; exact hhistory', htaken⟩
    · obtain ⟨hat', hhistory'⟩ := at_start_other hat hother runs command input answers
      exact ⟨done, _, _, hat'.of_eq rfl rfl (if_neg (Ne.symm hother)) rfl, htail.look answers,
        by rw [← List.append_assoc, ← hhistory]; exact hhistory', htaken⟩
  | take other =>
    by_cases hother : other = key
    · subst hother
      cases stage with
      | landed a =>
        obtain ⟨x, rfl, hx⟩ := htail
        obtain ⟨hout, hat'⟩ := take_landed hat
        refine ⟨done ++ [x], .settled, [], hat', rfl, ?_, ?_⟩
        · rw [List.flatMap_append, List.append_nil, List.flatMap_singleton]
          exact hhistory
        · rw [step_take_taken, hout, List.map_append, ← htaken, List.map_singleton, hx]
          rfl
      | settled | asked =>
        have htake := take_waits hat (by simp)
        refine ⟨done, _, tail, ?_, htail, hhistory, ?_⟩
        · change At w.c (w.p.take w.c other).2 other _
          rw [htake]
          exact hat
        · rw [step_take_taken, htake, ← htaken]
          exact List.append_nil _
    · obtain ⟨hattempts, hhandled⟩ := take_other hother w.c w.p
      exact ⟨done, stage, tail, hat.of_eq rfl rfl (by rw [← hattempts]; rfl) hhandled, htail,
        hhistory, (if_neg (Ne.symm hother)).trans htaken⟩

/-- **Each outcome is taken once**: over every run, what happened under the key is one exchange after
another, the outcomes taken are those of the exchanges in order, and at most the last exchange is
still open: a command that runs, or an answer not yet taken. -/
theorem each_taken_once (key : String) (acts : List Act)
    (hcareful : StepRun.Guarded World.step (Careful key) {} acts) :
    ∃ (done : List Exchange) (tail : List Happened),
      history (only key) (StepRun.run World.step {} acts).c.log =
        done.flatMap (Exchange.happened key) ++ tail ∧
      (StepRun.run World.step {} acts).taken key = done.map (fun x => outcome_of x.answer) ∧
      if (StepRun.run World.step {} acts).c.is_running key then
        ∃ ticket command input, tail = [.asked key ticket command input]
      else tail = [] ∨ ∃ x : Exchange, tail = x.happened key := by
  have htold : Told key (StepRun.run World.step {} acts) :=
    StepRun.run_inv (I := Told key) (fun w act hw hact => told_step hw hact) acts {}
      ⟨[], .settled, [], ⟨rfl, rfl⟩, rfl, rfl, rfl⟩ hcareful
  generalize StepRun.run World.step {} acts = w at htold
  obtain ⟨done, stage, tail, hat, htail, hhistory, htaken⟩ := htold
  refine ⟨done, tail, hhistory, htaken, ?_⟩
  have hrunning := is_running_iff w.c key
  cases stage with
  | asked ticket =>
    rw [if_pos (hrunning.mpr (by simp [hat.1]))]
    exact ⟨ticket, htail⟩
  | settled =>
    rw [if_neg fun h => hrunning.mp h hat.1]
    exact .inl htail
  | landed a =>
    rw [if_neg fun h => hrunning.mp h hat.1]
    exact .inr (htail.imp fun x hx => hx.1)

/-- Logs are asked for, another pane's answer comes first, and the session goes away. -/
def logs_visit : List Act :=
  [.ask true "docker.logs" "docker logs a1".toList none (fun _ => .empty),
    .exec true "monitor" "uptime".toList none (fun _ => .empty),
    .poll (fun ticket => if ticket = 1 then .ok (.ok {}) else .empty),
    .poll (fun _ => .disconnected), .take "docker.logs"]

theorem logs_visit_taken :
    ∃ (done : List Exchange) (tail : List Happened),
      history (only "docker.logs") (StepRun.run World.step {} logs_visit).c.log =
        done.flatMap (Exchange.happened "docker.logs") ++ tail ∧
      (StepRun.run World.step {} logs_visit).taken "docker.logs" =
        done.map (fun x => outcome_of x.answer) ∧
      if (StepRun.run World.step {} logs_visit).c.is_running "docker.logs" then
        ∃ ticket command input, tail = [.asked "docker.logs" ticket command input]
      else tail = [] ∨ ∃ x : Exchange, tail = x.happened "docker.logs" :=
  each_taken_once "docker.logs" logs_visit
    ⟨fun _ => ⟨rfl, rfl⟩, (by decide : "monitor" ≠ "docker.logs"), trivial, trivial, trivial, trivial⟩

end WaSSH.Ssh.Commands
