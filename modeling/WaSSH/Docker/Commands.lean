import WaSSH.Docker.Create
import WaSSH.Lib.Flags

/-!
# The Docker commands

The lines that are typed into the host's shell. Each string of a user or of a server goes in quoted,
so a shell reads it as one word; docker reads a word with a dash in front as an option.

* `ps_command`, `inspect_command`, ..., `run_command`: the lines;
* `Request`: one of them with what it is asked for;
* `body_spells`: the words of a line;
* `Client.read`: what docker reads in the words; `docker`: with some of its options;
* **`commands_iff`**: the requests whose words docker reads as they are meant.
-/

namespace WaSSH.Docker

open Shell

/-! ## The lines -/

/-- Ids and names are pasted into a shell command, so only what docker emits is taken. -/
def is_safe_name (name : List Char) : Bool :=
  name ≠ [] ∧ name.length ≤ 128 ∧
    name.all fun c => c.isAlphanum || "-_.:/@".toList.contains c

/-- The lifecycle commands. -/
inductive Action
  | start
  | stop
  | restart
  | pause
  | unpause
  | kill
  | remove
  deriving DecidableEq, Repr

def Action.verb : Action → List Char
  | start => "start".toList
  | stop => "stop".toList
  | restart => "restart".toList
  | pause => "pause".toList
  | unpause => "unpause".toList
  | kill => "kill".toList
  | remove => "rm".toList

/-- `{{json .}}`. -/
def json : List Char := "\x7b\x7bjson .\x7d\x7d".toList

/-- A quoted text behind a blank. -/
def arg (value : List Char) : List Char := ' ' :: quote value

/-- A line for a safe name only. -/
def when_safe (name line : List Char) : Option (List Char) :=
  if is_safe_name name then some line else none

def ps_command (socket : List Char) (all : Bool) : List Char :=
  "docker".toList ++ socket_flag socket ++ " ps".toList ++ (if all then " -a".toList else []) ++
    " --no-trunc --format".toList ++ arg json

def inspect_command (socket id : List Char) : Option (List Char) :=
  when_safe id ("docker".toList ++ socket_flag socket ++ " inspect".toList ++ arg id)

def stats_command (socket id : List Char) : Option (List Char) :=
  when_safe id ("docker".toList ++ socket_flag socket ++
    " stats --no-stream --format".toList ++ arg json ++ arg id)

def logs_command (socket id : List Char) (tail : ℕ) : Option (List Char) :=
  when_safe id ("docker".toList ++ socket_flag socket ++ " logs --tail".toList ++
    ' ' :: Nat.toDigits 10 tail ++ arg id ++ " 2>&1".toList)

def action_command (socket id : List Char) (action : Action) : Option (List Char) :=
  let flag := match action with
    | .stop | .restart => " -t 10".toList
    | .remove => " -f".toList
    | _ => []
  when_safe id ("docker".toList ++ socket_flag socket ++ ' ' :: action.verb ++ flag ++ arg id)

def images_command (socket : List Char) : List Char :=
  "docker".toList ++ socket_flag socket ++ " images --no-trunc --format".toList ++ arg json

def pull_command (socket reference : List Char) : List Char :=
  "docker".toList ++ socket_flag socket ++ " pull".toList ++ arg (Text.trim reference)

def remove_image_command (socket id : List Char) (force : Bool) : Option (List Char) :=
  when_safe id ("docker".toList ++ socket_flag socket ++ " rmi".toList ++
    (if force then " -f".toList else []) ++ arg id)

def volumes_command (socket : List Char) : List Char :=
  "docker".toList ++ socket_flag socket ++ " volume ls --format".toList ++ arg json

def create_volume_command (socket name : List Char) : Option (List Char) :=
  when_safe name ("docker".toList ++ socket_flag socket ++ " volume create".toList ++ arg name)

def remove_volume_command (socket name : List Char) (force : Bool) : Option (List Char) :=
  when_safe name ("docker".toList ++ socket_flag socket ++ " volume rm".toList ++
    (if force then " -f".toList else []) ++ arg name)

def prune_volumes_command (socket : List Char) : List Char :=
  "docker".toList ++ socket_flag socket ++ " volume prune -f --format".toList ++ arg json

def networks_command (socket : List Char) : List Char :=
  "docker".toList ++ socket_flag socket ++ " network ls --format".toList ++ arg json

def create_network_command (socket name driver : List Char) : Option (List Char) :=
  if !is_safe_name name || !is_safe_name driver then none
  else some ("docker".toList ++ socket_flag socket ++ " network create --driver".toList ++
    arg driver ++ arg name)

def remove_network_command (socket id : List Char) : Option (List Char) :=
  when_safe id ("docker".toList ++ socket_flag socket ++ " network rm".toList ++ arg id)

def engine_command (socket : List Char) : List Char :=
  "docker".toList ++ socket_flag socket ++ " info --format".toList ++ arg json

/-- A container to create, as the form fills it in. -/
structure RunRequest where
  image : List Char
  tag : List Char
  name : List Char
  command : List Char
  ports : List (List Char)
  env : List (List Char)
  volumes : List (List Char)
  restart_policy : List Char
  network : List Char
  detach : Bool
  auto_remove : Bool

/-- `repository:tag`. -/
def RunRequest.reference (request : RunRequest) : List Char :=
  let tag := Text.trim request.tag
  if tag = [] then Text.trim request.image ++ ":latest".toList
  else Text.trim request.image ++ ":".toList ++ tag

def run_command (socket : List Char) (request : RunRequest) : List Char :=
  let name := Text.trim request.name
  let extra := Text.trim request.command
  "docker".toList ++ socket_flag socket ++ " run".toList ++ " -d".toList ++
    (if request.auto_remove then " --rm".toList else []) ++
    ((restart_policy_flag request.restart_policy).elim [] fun policy =>
      " --restart".toList ++ ' ' :: policy) ++
    (if is_safe_name (Text.trim request.network) then
      " --network".toList ++ arg (Text.trim request.network) else []) ++
    (if is_safe_name name then " --name".toList ++ arg name else []) ++
    ((request.ports.map Text.trim).flatMap fun port =>
      if port ≠ [] ∧ is_safe_name port then " -p".toList ++ arg port else []) ++
    ((request.env.map Text.trim).flatMap fun entry =>
      if entry ≠ [] then " -e".toList ++ arg entry else []) ++
    ((request.volumes.map Text.trim).flatMap fun volume =>
      if volume ≠ [] ∧ is_safe_name volume then " -v".toList ++ arg volume else []) ++
    arg request.reference ++ (if extra ≠ [] then ' ' :: extra else [])

/-! ## Requests -/

/-- What the panel asks docker for. -/
inductive Request
  | ps (all : Bool)
  | inspect (id : List Char)
  | stats (id : List Char)
  | logs (id : List Char) (tail : ℕ)
  | action (id : List Char) (act : Action)
  | images
  | pull (reference : List Char)
  | remove_image (id : List Char) (force : Bool)
  | volumes
  | create_volume (name : List Char)
  | remove_volume (name : List Char) (force : Bool)
  | prune_volumes
  | networks
  | create_network (name driver : List Char)
  | remove_network (id : List Char)
  | engine
  | run (request : RunRequest)

namespace Request

/-- The line that is typed, where there is one. -/
def line (socket : List Char) : Request → Option (List Char)
  | ps all => some (ps_command socket all)
  | inspect id => inspect_command socket id
  | stats id => stats_command socket id
  | logs id tail => logs_command socket id tail
  | action id act => action_command socket id act
  | images => some (images_command socket)
  | pull reference => some (pull_command socket reference)
  | remove_image id force => remove_image_command socket id force
  | volumes => some (volumes_command socket)
  | create_volume name => create_volume_command socket name
  | remove_volume name force => remove_volume_command socket name force
  | prune_volumes => some (prune_volumes_command socket)
  | networks => some (networks_command socket)
  | create_network name driver => create_network_command socket name driver
  | remove_network id => remove_network_command socket id
  | engine => some (engine_command socket)
  | run request => some (run_command socket request)

/-- The command of docker. -/
def path : Request → List (List Char)
  | ps _ => ["ps".toList]
  | inspect _ => ["inspect".toList]
  | stats _ => ["stats".toList]
  | logs _ _ => ["logs".toList]
  | action _ act => [act.verb]
  | images => ["images".toList]
  | pull _ => ["pull".toList]
  | remove_image _ _ => ["rmi".toList]
  | volumes => ["volume".toList, "ls".toList]
  | create_volume _ => ["volume".toList, "create".toList]
  | remove_volume _ _ => ["volume".toList, "rm".toList]
  | prune_volumes => ["volume".toList, "prune".toList]
  | networks => ["network".toList, "ls".toList]
  | create_network _ _ => ["network".toList, "create".toList]
  | remove_network _ => ["network".toList, "rm".toList]
  | engine => ["info".toList]
  | run _ => ["run".toList]

/-- An option that is there or not. -/
def option_if (b : Bool) (g : Flags.Given) : List Flags.Given := if b then [g] else []

/-- `--format '{{json .}}'`. -/
def as_json : Flags.Given := .name_value "format".toList json

/-- The options of a container to create. -/
def run_given (request : RunRequest) : List Flags.Given :=
  .letter 'd' ::
    (option_if request.auto_remove (.name "rm".toList) ++
      ((restart_policy_flag request.restart_policy).elim [] fun policy =>
        [.name_value "restart".toList policy]) ++
      option_if (is_safe_name (Text.trim request.network))
        (.name_value "network".toList (Text.trim request.network)) ++
      option_if (is_safe_name (Text.trim request.name))
        (.name_value "name".toList (Text.trim request.name)) ++
      ((request.ports.map Text.trim).flatMap fun port =>
        option_if (port ≠ [] ∧ is_safe_name port) (.letter_value 'p' port)) ++
      ((request.env.map Text.trim).flatMap fun entry =>
        option_if (entry ≠ []) (.letter_value 'e' entry)) ++
      ((request.volumes.map Text.trim).flatMap fun volume =>
        option_if (volume ≠ [] ∧ is_safe_name volume) (.letter_value 'v' volume)))

/-- The options that are meant. -/
def given : Request → List Flags.Given
  | ps all => option_if all (.letter 'a') ++ [.name "no-trunc".toList, as_json]
  | stats _ => [.name "no-stream".toList, as_json]
  | logs _ tail => [.name_value "tail".toList (Nat.toDigits 10 tail)]
  | action _ .stop | action _ .restart => [.letter_value 't' "10".toList]
  | action _ .remove => [.letter 'f']
  | images => [.name "no-trunc".toList, as_json]
  | remove_image _ force | remove_volume _ force => option_if force (.letter 'f')
  | prune_volumes => [.letter 'f', as_json]
  | volumes | networks | engine => [as_json]
  | create_network _ driver => [.name_value "driver".toList driver]
  | run request => run_given request
  | _ => []

/-- The container, image, volume or network that is meant. -/
def operands : Request → List (List Char)
  | inspect id | stats id | logs id _ | action id _ | remove_image id _ | remove_network id => [id]
  | pull reference => [Text.trim reference]
  | create_volume name | remove_volume name _ | create_network name _ => [name]
  | run request => [request.reference]
  | _ => []

/-- The command line that goes in as it is typed. -/
def extra : Request → List Char
  | run request => Text.trim request.command
  | _ => []

/-- `2>&1`, where the line has it. -/
def redirect : Request → List Char
  | logs _ _ => " 2>&1".toList
  | _ => []

/-- The words that are meant, up to those of the command line. -/
def args (request : Request) : List (List Char) :=
  request.path ++ (request.given.flatMap Flags.Given.words ++ request.operands)

end Request

/-- The option for a socket that is not the default. -/
def host_given (socket : List Char) : List Flags.Given :=
  if Text.trim socket = [] ∨ Text.trim socket = default_socket then []
  else [.letter_value 'H' ("unix://".toList ++ Text.trim socket)]


/-! ## What a shell reads -/

/-- What comes behind the words that are meant. -/
def Request.rest (request : Request) : List Char :=
  request.redirect ++ if request.extra ≠ [] then ' ' :: request.extra else []

theorem when_safe_eq {name line found : List Char} (h : when_safe name line = some found) :
    found = line := by
  unfold when_safe at h
  split_ifs at h
  exact (Option.some.inj h).symm

theorem spells_socket (socket : List Char) : Spells (socket_flag socket)
    ((host_given socket).flatMap Flags.Given.words) := by
  unfold socket_flag host_given
  dsimp only
  split_ifs
  · exact spells_nil
  · have hflag : Spells " -H".toList ["-H".toList] := spells_plain (by decide)
    have h := spells_append hflag (spells_quote ("unix://".toList ++ Text.trim socket))
    exact h

theorem flatMap_option_if (b : Bool) (g : Flags.Given) :
    (Request.option_if b g).flatMap Flags.Given.words = if b then g.words else [] := by
  cases b with
  | false => rfl
  | true => exact List.append_nil _

theorem plain_toDigits (n : ℕ) : PlainWord (Nat.toDigits 10 n) := by
  have hplain : ∀ k < 10, is_plain (Char.ofNat (48 + k)) = true ∧
      is_special_first (Char.ofNat (48 + k)) = false := by
    decide
  have hdigit : ∀ c ∈ Nat.toDigits 10 n, is_plain c = true ∧ is_special_first c = false := by
    intro c hc
    have h := List.all_eq_true.mp (Text.all_isDigit_toDigits n) c hc
    rw [Char.isDigit, Bool.and_eq_true, decide_eq_true_eq, decide_eq_true_eq] at h
    have hc : 48 ≤ c.toNat ∧ c.toNat ≤ 57 := h
    have hk := hplain (c.toNat - 48) (by omega)
    rwa [Nat.add_sub_cancel' hc.1, Char.ofNat_toNat] at hk
  exact ⟨Nat.toDigits_ne_nil, fun c hc => (hdigit c hc).1,
    fun c hc => (hdigit c (List.mem_of_head? hc)).2⟩

/-- A text of plain words and a quoted one. -/
theorem spells_arg {text : List Char} {ws : List (List Char)} (h : Spells text ws)
    (v : List Char) : Spells (text ++ arg v) (ws ++ [v]) := spells_append h (spells_quote v)

/-- Plain words that are written in one piece. -/
theorem spells_text {text : List Char} (ws : List (List Char))
    (htext : text = ws.flatMap (' ' :: ·)) (h : ws.all is_plain_word) : Spells text ws := by
  rw [htext]
  exact spells_plains fun w hw => (is_plain_word_iff w).mp (List.all_eq_true.mp h w hw)

/-- An option of a list that is there or not. -/
theorem spells_each (texts : List (List Char)) (p : List Char → Prop) [DecidablePred p] {c : Char}
    (hc : is_plain_word ['-', c]) :
    Spells (texts.flatMap fun text => if p text then [' ', '-', c] ++ arg text else [])
      ((texts.flatMap fun text => Request.option_if (p text) (.letter_value c text)).flatMap
        Flags.Given.words) := by
  rw [List.flatMap_assoc]
  refine spells_flatMap fun text _ => ?_
  rw [flatMap_option_if]
  by_cases h : p text
  · rw [if_pos h, if_pos (decide_eq_true h)]
    exact spells_arg (spells_plain ((is_plain_word_iff _).mp hc)) text
  · rw [if_neg h, if_neg (by simpa using h)]
    exact spells_nil

theorem spells_policy (policy : List Char) :
    Spells ((restart_policy_flag policy).elim [] fun policy => " --restart".toList ++ ' ' :: policy)
      (((restart_policy_flag policy).elim [] fun policy =>
        [Flags.Given.name_value "restart".toList policy]).flatMap Flags.Given.words) := by
  cases hflag : restart_policy_flag policy with
  | none => exact spells_nil
  | some flag =>
    have hplain := restart_policies_plain flag (restart_policy_flag_mem hflag)
    have hoption : Spells " --restart".toList ["--restart".toList] := spells_plain (by decide)
    have h := spells_append hoption (spells_plain hplain)
    exact h

/-- A named option with a safe name. -/
theorem spells_safe (option : List Char) (ho : is_plain_word ('-' :: '-' :: option))
    (value : List Char) : Spells (if is_safe_name value then
        ' ' :: '-' :: '-' :: option ++ arg value else [])
      ((Request.option_if (is_safe_name value) (.name_value option value)).flatMap
        Flags.Given.words) := by
  rw [flatMap_option_if]
  cases is_safe_name value with
  | false => exact spells_nil
  | true => exact spells_arg (spells_plain ((is_plain_word_iff _).mp ho)) value

/-- The words of a container to create. -/
theorem spells_run (request : RunRequest) :
    Spells (" run".toList ++ (" -d".toList ++
      ((if request.auto_remove then " --rm".toList else []) ++
      ((restart_policy_flag request.restart_policy).elim [] fun policy =>
        " --restart".toList ++ ' ' :: policy) ++
      (if is_safe_name (Text.trim request.network) then
        " --network".toList ++ arg (Text.trim request.network) else []) ++
      (if is_safe_name (Text.trim request.name) then
        " --name".toList ++ arg (Text.trim request.name) else []) ++
      ((request.ports.map Text.trim).flatMap fun port =>
        if port ≠ [] ∧ is_safe_name port then " -p".toList ++ arg port else []) ++
      ((request.env.map Text.trim).flatMap fun entry =>
        if entry ≠ [] then " -e".toList ++ arg entry else []) ++
      ((request.volumes.map Text.trim).flatMap fun volume =>
        if volume ≠ [] ∧ is_safe_name volume then " -v".toList ++ arg volume else [])) ++
      arg request.reference)) (Request.run request).args := by
  have hrun : Spells " run".toList ["run".toList] := spells_plain (by decide)
  have hdetach : Spells " -d".toList ["-d".toList] := spells_plain (by decide)
  have hrm : Spells (if request.auto_remove then " --rm".toList else [])
      ((Request.option_if request.auto_remove (.name "rm".toList)).flatMap
        Flags.Given.words) := by
    rw [flatMap_option_if]
    cases request.auto_remove with
    | false => exact spells_nil
    | true => exact spells_plain (by decide)
  have hpolicy := spells_policy request.restart_policy
  have hnetwork := spells_safe "network".toList (by decide) (Text.trim request.network)
  have hname := spells_safe "name".toList (by decide) (Text.trim request.name)
  have hports := spells_each (request.ports.map Text.trim)
    (fun port => port ≠ [] ∧ is_safe_name port) (c := 'p') (by decide)
  have henv := spells_each (request.env.map Text.trim) (fun entry => entry ≠ []) (c := 'e')
    (by decide)
  have hvolumes := spells_each (request.volumes.map Text.trim)
    (fun volume => volume ≠ [] ∧ is_safe_name volume) (c := 'v') (by decide)
  have hoptions := spells_append (spells_append (spells_append (spells_append (spells_append
    (spells_append hrm hpolicy) hnetwork) hname) hports) henv) hvolumes
  have h := spells_append hrun (spells_append hdetach (spells_arg hoptions request.reference))
  simp only [← List.flatMap_append] at h
  exact h

/-- A line of plain words with a quoted text at the end. -/
theorem spells_line {socket line text v : List Char} {request : Request}
    (ws : List (List Char)) (hrest : request.rest = [])
    (hline : line = "docker".toList ++ socket_flag socket ++ text ++ arg v)
    (htext : text = ws.flatMap (' ' :: ·)) (hplain : ws.all is_plain_word)
    (hargs : request.args = ws ++ [v]) : ∃ text, line = "docker".toList ++
      (socket_flag socket ++ text) ++ request.rest ∧ Spells text request.args := by
  refine ⟨text ++ arg v, ?_, hargs ▸ spells_arg (spells_text ws htext hplain) v⟩
  rw [hline, hrest, List.append_nil]
  simp only [List.append_assoc]

/-- **The words of a line.** -/
theorem Request.body_spells {socket line : List Char} {request : Request}
    (h : request.line socket = some line) : ∃ text, line = "docker".toList ++
      (socket_flag socket ++ text) ++ request.rest ∧ Spells text request.args := by
  cases request with
  | ps all =>
    have hfound : line = ps_command socket all := (Option.some.inj h).symm
    unfold ps_command at hfound
    cases all with
    | false =>
      exact spells_line ["ps".toList, "--no-trunc".toList, "--format".toList] rfl
        (hfound.trans (by simp only [List.append_assoc]; rfl)) rfl (by decide) rfl
    | true =>
      exact spells_line ["ps".toList, "-a".toList, "--no-trunc".toList, "--format".toList] rfl
        (hfound.trans (by simp only [List.append_assoc]; rfl)) rfl (by decide) rfl
  | inspect id => exact spells_line ["inspect".toList] rfl (when_safe_eq h) rfl (by decide) rfl
  | stats id =>
    have hwords := spells_arg (spells_arg (spells_text
      ["stats".toList, "--no-stream".toList, "--format".toList] rfl (by decide)) json) id
    refine ⟨_, ?_, hwords⟩
    rewrite [when_safe_eq h]
    change _ = _ ++ []
    simp only [List.append_assoc, List.append_nil]
    rfl
  | logs id tail =>
    have hwords := spells_arg (spells_append (spells_text ["logs".toList, "--tail".toList] rfl
      (by decide)) (spells_plain (plain_toDigits tail))) id
    refine ⟨_, ?_, hwords⟩
    rewrite [when_safe_eq h]
    change _ = _ ++ " 2>&1".toList
    simp only [List.append_assoc]
    rfl
  | action id act =>
    have hwords := spells_arg (spells_text
      (act.verb :: (Request.action id act).given.flatMap Flags.Given.words) rfl
        (by cases act <;> rfl)) id
    refine ⟨_, ?_, hwords⟩
    rewrite [when_safe_eq h]
    change _ = _ ++ []
    cases act with
    | stop | restart | remove =>
      simp only [List.append_assoc, List.append_nil]
      rfl
    | start | pause | unpause | kill =>
      simp only [List.append_assoc, List.append_nil]
      rfl
  | images =>
    exact spells_line ["images".toList, "--no-trunc".toList, "--format".toList] rfl
      (Option.some.inj h).symm rfl (by decide) rfl
  | pull reference =>
    exact spells_line ["pull".toList] rfl (Option.some.inj h).symm rfl (by decide) rfl
  | remove_image id force =>
    cases force with
    | false =>
      exact spells_line ["rmi".toList] rfl ((when_safe_eq h).trans
        (by simp only [List.append_assoc]; rfl)) rfl (by decide) rfl
    | true =>
      exact spells_line ["rmi".toList, "-f".toList] rfl ((when_safe_eq h).trans
        (by simp only [List.append_assoc]; rfl)) rfl (by decide) rfl
  | volumes =>
    exact spells_line ["volume".toList, "ls".toList, "--format".toList] rfl
      (Option.some.inj h).symm rfl (by decide) rfl
  | create_volume name =>
    exact spells_line ["volume".toList, "create".toList] rfl (when_safe_eq h) rfl (by decide) rfl
  | remove_volume name force =>
    cases force with
    | false =>
      exact spells_line ["volume".toList, "rm".toList] rfl ((when_safe_eq h).trans
        (by simp only [List.append_assoc]; rfl)) rfl (by decide) rfl
    | true =>
      exact spells_line ["volume".toList, "rm".toList, "-f".toList] rfl ((when_safe_eq h).trans
        (by simp only [List.append_assoc]; rfl)) rfl (by decide) rfl
  | prune_volumes =>
    exact spells_line ["volume".toList, "prune".toList, "-f".toList, "--format".toList] rfl
      (Option.some.inj h).symm rfl (by decide) rfl
  | networks =>
    exact spells_line ["network".toList, "ls".toList, "--format".toList] rfl
      (Option.some.inj h).symm rfl (by decide) rfl
  | create_network name driver =>
    have hfound : line = "docker".toList ++ socket_flag socket ++
        " network create --driver".toList ++ arg driver ++ arg name := by
      change create_network_command socket name driver = some line at h
      unfold create_network_command at h
      split_ifs at h
      exact (Option.some.inj h).symm
    have hwords := spells_arg (spells_arg (spells_text
      ["network".toList, "create".toList, "--driver".toList] rfl (by decide)) driver) name
    refine ⟨_, ?_, hwords⟩
    rewrite [hfound]
    change _ = _ ++ []
    simp only [List.append_assoc, List.append_nil]
    rfl
  | remove_network id =>
    exact spells_line ["network".toList, "rm".toList] rfl (when_safe_eq h) rfl (by decide) rfl
  | engine =>
    exact spells_line ["info".toList, "--format".toList] rfl (Option.some.inj h).symm rfl
      (by decide) rfl
  | run request =>
    have hfound : run_command socket request = line := Option.some.inj h
    refine ⟨_, ?_, spells_run request⟩
    rewrite [← hfound]
    unfold run_command Request.rest Request.redirect Request.extra
    simp only [List.append_assoc, List.nil_append]

/-- The first words of a line, and all of them where nothing but words follows. -/
theorem Request.words_line {socket line : List Char} {request : Request}
    (h : request.line socket = some line) :
    leading line = "docker".toList :: ((host_given socket).flatMap Flags.Given.words ++
        request.args) ++ leading request.extra ∧
      ∃ body, line = body ++ request.redirect ∧ words body = (words request.extra).map
        ("docker".toList ::
          ((host_given socket).flatMap Flags.Given.words ++ request.args) ++ ·) := by
  obtain ⟨text, rfl, htext⟩ := request.body_spells h
  have hdocker : PlainWord "docker".toList := by decide
  have hfront := spells_append (spells_socket socket) htext
  have hall := words_of_spells hdocker hfront
  by_cases hextra : request.extra = []
  · have hrest : request.rest = request.redirect := by
      unfold Request.rest
      rw [if_neg (not_not_intro hextra), List.append_nil]
    rw [hrest, hextra]
    refine ⟨?_, _, rfl, ?_⟩
    · have hredirect : request.redirect = [] ∨ request.redirect = " 2>&1".toList := by
        cases request with
        | logs id tail => exact .inr rfl
        | _ => exact .inl rfl
      rcases hredirect with hredirect | hredirect
      · rw [hredirect, List.append_nil, leading_of_spells hdocker hfront]
        exact (List.append_nil _).symm
      · rw [hredirect]
        exact leading_append hdocker hfront "2>&1".toList
    · rw [hall]
      exact congrArg some (List.append_nil _).symm
  · have hredirect : request.redirect = [] := by
      cases request with
      | logs id tail => exact absurd rfl hextra
      | _ => rfl
    have hrest : request.rest = ' ' :: request.extra := by
      unfold Request.rest
      rw [hredirect, if_pos hextra]
      rfl
    rw [hrest, hredirect]
    refine ⟨leading_append hdocker hfront _, _, (List.append_nil _).symm, ?_⟩
    exact words_append hdocker hfront _

/-! ## What docker reads -/

/-- The options docker knows, and the commands behind whose first operand it reads no options. -/
structure Client where
  table : List (List Char) → Flags.Table
  stops : List (List Char) → Bool

/-- An invocation of docker: its own options, the command, and what the command is told. -/
structure Call where
  host : List Flags.Item
  path : List (List Char)
  items : List Flags.Item
  deriving DecidableEq

/-- The commands that have commands. -/
def has_commands (w : List Char) : Bool := w = "volume".toList ∨ w = "network".toList

/-- The command and its words. -/
def split_path : List (List Char) → Option (List (List Char) × List (List Char))
  | [] => none
  | w :: ws =>
    if has_commands w then
      match ws with
      | [] => none
      | v :: ws => some ([w, v], ws)
    else some ([w], ws)

/-- Docker's own options stand before the command. -/
def Client.read (client : Client) : List (List Char) → Option Call
  | [] => none
  | program :: ws =>
    if program = "docker".toList then
      (Flags.read (client.table []) true ws).bind fun own =>
        (split_path (Flags.operands own)).bind fun (path, args) =>
          (Flags.read (client.table path) (client.stops path) args).map fun items =>
            ⟨own.filter fun item => item.word.isNone, path, items⟩
    else none

/-- Docker knows the options of the request, and reads no options behind an image to run. -/
structure Client.Knows (client : Client) (request : Request) : Prop where
  socket : (client.table []).letter 'H' = some .value
  options : ∀ g ∈ request.given, g.Known (client.table request.path)
  stops : ∀ container, request = .run container → client.stops request.path = true

theorem split_path_request (request : Request) (args : List (List Char)) :
    split_path (request.path ++ args) = some (request.path, args) := by
  cases request with
  | action id act => cases act <;> rfl
  | _ => rfl

theorem path_not_option (request : Request) : ∃ w ws, request.path = w :: ws ∧
    Flags.option_like w = false := by
  cases request with
  | action id act => cases act <;> exact ⟨_, _, rfl, rfl⟩
  | _ => exact ⟨_, _, rfl, rfl⟩

theorem filter_givens (gs : List Flags.Given) :
    (gs.map Flags.Given.item).filter (fun item => item.word.isNone) = gs.map Flags.Given.item := by
  rw [List.filter_eq_self]
  intro item hitem
  obtain ⟨g, -, rfl⟩ := List.mem_map.mp hitem
  cases g <;> rfl

theorem filter_operands (ws : List (List Char)) :
    (ws.map Flags.Item.operand).filter (fun item => item.word.isNone) = [] := by
  rw [List.filter_eq_nil_iff]
  intro item hitem
  obtain ⟨w, -, rfl⟩ := List.mem_map.mp hitem
  exact Bool.false_ne_true

/-- Docker reads its own options and the command as they are meant. -/
theorem Client.read_request {client : Client} {request : Request} (h : client.Knows request)
    (socket : List Char) (more : List (List Char)) :
    client.read ("docker".toList :: ((host_given socket).flatMap Flags.Given.words ++
        request.args) ++ more) =
      (Flags.read (client.table request.path) (client.stops request.path)
        (request.operands ++ more)).map fun items =>
          ⟨(host_given socket).map Flags.Given.item, request.path,
            request.given.map Flags.Given.item ++ items⟩ := by
  have hhost : ∀ g ∈ host_given socket, g.Known (client.table []) := by
    unfold host_given
    split_ifs
    · exact nofun
    · intro g hg
      rw [List.mem_singleton.mp hg]
      exact ⟨by decide, h.socket⟩
  obtain ⟨w, ws, hpath, hw⟩ := path_not_option request
  have hargs : request.args ++ more = w :: (ws ++
      (request.given.flatMap Flags.Given.words ++ (request.operands ++ more))) := by
    unfold Request.args
    rw [hpath]
    simp only [List.append_assoc, List.cons_append]
  have hown : Flags.read (client.table []) true ((host_given socket).flatMap Flags.Given.words ++
      (request.args ++ more)) = some ((host_given socket).map Flags.Given.item ++
        (request.args ++ more).map .operand) := by
    rw [Flags.read_givens true _ hhost, hargs, Flags.read_stops hw]
    rfl
  have hsplit : split_path (request.args ++ more) = some (request.path,
      request.given.flatMap Flags.Given.words ++ (request.operands ++ more)) := by
    have hassoc : request.args ++ more = request.path ++
        (request.given.flatMap Flags.Given.words ++ (request.operands ++ more)) := by
      unfold Request.args
      simp only [List.append_assoc]
    rw [hassoc, split_path_request]
  have hoptions := Flags.read_givens (client.stops request.path) (request.operands ++ more)
    h.options
  rw [List.cons_append, List.append_assoc, Client.read, if_pos rfl, hown, Option.bind_some,
    Flags.operands_append, Flags.operands_givens, Flags.operands_words, List.nil_append, hsplit,
    Option.bind_some, List.filter_append, filter_givens, filter_operands, List.append_nil]
  dsimp only
  rw [hoptions, Option.map_map]
  rfl

/-- What is meant. -/
def Request.call (request : Request) (socket : List Char) : Call where
  host := (host_given socket).map Flags.Given.item
  path := request.path
  items := request.given.map Flags.Given.item ++
    (request.operands ++ leading request.extra).map .operand

theorem map_call_iff {request : Request} {socket : List Char} {read : Option (List Flags.Item)} :
    read.map (fun items => (⟨(host_given socket).map Flags.Given.item, request.path,
        request.given.map Flags.Given.item ++ items⟩ : Call)) = some (request.call socket) ↔
      read = some ((request.operands ++ leading request.extra).map .operand) := by
  constructor
  · intro h
    obtain ⟨items, hread, hitems⟩ := Option.map_eq_some_iff.mp h
    rw [hread, List.append_cancel_left (congrArg Call.items hitems)]
  · intro h
    rw [h]
    rfl

/-- At most one operand, and nothing behind it that docker could take for an option. -/
theorem Request.operands_or {client : Client} {request : Request} (h : client.Knows request) :
    (request.operands = [] ∧ leading request.extra = []) ∨ ∃ v, request.operands = [v] ∧
      (leading request.extra = [] ∨ client.stops request.path = true) := by
  cases request with
  | run container => exact .inr ⟨_, rfl, .inr (h.stops container rfl)⟩
  | ps _ | images | volumes | prune_volumes | networks | engine => exact .inl ⟨rfl, rfl⟩
  | inspect _ | stats _ | logs _ _ | action _ _ | pull _ | remove_image _ _ | create_volume _
  | remove_volume _ _ | create_network _ _ | remove_network _ =>
    exact .inr ⟨_, rfl, .inl rfl⟩

/-! ## Some of docker -/

/-- Options of docker, by command. `volume prune` has no format. -/
def docker_options (path : List (List Char)) : List Flags.Given :=
  if path = [] then [.letter_value 'H' []]
  else if path = ["ps".toList] then
    [.letter 'a', .name "all".toList, .name "no-trunc".toList, .name_value "format".toList []]
  else if path = ["stats".toList] then
    [.letter 'a', .name "all".toList, .name "no-stream".toList, .name_value "format".toList []]
  else if path = ["logs".toList] then [.name_value "tail".toList []]
  else if path = ["stop".toList] ∨ path = ["restart".toList] then [.letter_value 't' []]
  else if path = ["rm".toList] ∨ path = ["rmi".toList] ∨ path = ["volume".toList, "rm".toList] ∨
    path = ["volume".toList, "prune".toList] then [.letter 'f', .name "force".toList]
  else if path = ["images".toList] then
    [.letter 'a', .name "all".toList, .name "no-trunc".toList, .name_value "format".toList []]
  else if path = ["volume".toList, "ls".toList] ∨ path = ["network".toList, "ls".toList] ∨
    path = ["info".toList] then [.name_value "format".toList []]
  else if path = ["network".toList, "create".toList] then [.name_value "driver".toList []]
  else if path = ["run".toList] then
    [.letter 'd', .name "rm".toList, .name_value "restart".toList [],
      .name_value "network".toList [], .name_value "name".toList [], .letter_value 'p' [],
      .letter_value 'e' [], .letter_value 'v' []]
  else []

/-- Docker with these options; behind the image to run come the words of its command. -/
def docker : Client where
  table path := .of (docker_options path)
  stops path := path = ["run".toList]

theorem mem_option_if {b : Bool} {g given : Flags.Given}
    (h : g ∈ Request.option_if b given) : g = given := by
  unfold Request.option_if at h
  split_ifs at h
  · exact List.mem_singleton.mp h
  · cases h

/-- What options a container to create can have. -/
theorem mem_run_given {request : RunRequest} {g : Flags.Given} (h : g ∈ Request.run_given request) :
    g = .letter 'd' ∨ (request.auto_remove ∧ g = .name "rm".toList) ∨
      (∃ n ∈ ["restart".toList, "network".toList, "name".toList], ∃ v, g = .name_value n v) ∨
      ∃ c ∈ ['p', 'e', 'v'], ∃ v, g = .letter_value c v := by
  unfold Request.run_given at h
  simp only [List.mem_cons, List.mem_append, List.mem_flatMap] at h
  rcases h with h | ((((((h | h) | h) | h) | ⟨port, -, h⟩) | ⟨entry, -, h⟩) | ⟨volume, -, h⟩)
  · exact .inl h
  · refine .inr (.inl ⟨?_, mem_option_if h⟩)
    by_contra hkept
    rw [Bool.not_eq_true] at hkept
    rw [hkept] at h
    cases h
  · cases hpolicy : restart_policy_flag request.restart_policy with
    | none =>
      rw [hpolicy] at h
      cases h
    | some policy =>
      rw [hpolicy] at h
      exact .inr (.inr (.inl ⟨_, by decide, policy, List.mem_singleton.mp h⟩))
  · exact .inr (.inr (.inl ⟨_, by decide, _, mem_option_if h⟩))
  · exact .inr (.inr (.inl ⟨_, by decide, _, mem_option_if h⟩))
  · exact .inr (.inr (.inr ⟨_, by decide, _, mem_option_if h⟩))
  · exact .inr (.inr (.inr ⟨_, by decide, _, mem_option_if h⟩))
  · exact .inr (.inr (.inr ⟨_, by decide, _, mem_option_if h⟩))

theorem docker_knows_run (request : RunRequest) : docker.Knows (.run request) where
  socket := by decide
  options := by
    change ∀ g ∈ Request.run_given request, g.Known (docker.table ["run".toList])
    have hnames : ∀ n ∈ ["restart".toList, "network".toList, "name".toList], n ≠ [] ∧ '=' ∉ n ∧
        (docker.table ["run".toList]).name n = some .value := by
      decide
    have hletters : ∀ c ∈ ['p', 'e', 'v'], c ≠ '-' ∧
        (docker.table ["run".toList]).letter c = some .value := by
      rw [List.forall_mem_cons, List.forall_mem_cons, List.forall_mem_singleton]
      exact ⟨⟨by decide, by decide⟩, ⟨by decide, by decide⟩, ⟨by decide, by decide⟩⟩
    intro g hg
    rcases mem_run_given hg with rfl | ⟨-, rfl⟩ | ⟨n, hn, v, rfl⟩ | ⟨c, hc, v, rfl⟩
    · exact ⟨by decide, by decide⟩
    · exact ⟨by decide, by decide, by decide⟩
    · exact hnames n hn
    · exact hletters c hc
  stops := fun _ _ => rfl

/-- Docker knows what it is asked for. -/
theorem docker_knows {request : Request} (h : request ≠ .prune_volumes) :
    docker.Knows request := by
  have hjson : ∀ {table : Flags.Table}, table.name "format".toList = some .value →
      Request.as_json.Known table := fun h => ⟨by decide, by decide, h⟩
  refine ⟨by decide, ?_, ?_⟩
  · cases request with
    | run container => exact (docker_knows_run container).options
    | prune_volumes => exact absurd rfl h
    | ps all =>
      change ∀ g : Flags.Given, g ∈ _ ++ [_, _] → g.Known (docker.table ["ps".toList])
      intro g hg
      simp only [List.mem_append, List.mem_cons, List.not_mem_nil, or_false] at hg
      rcases hg with hg | rfl | rfl
      · rw [mem_option_if hg]
        exact ⟨by decide, by decide⟩
      · exact ⟨by decide, by decide, by decide⟩
      · exact hjson (by decide)
    | stats id =>
      change ∀ g : Flags.Given, g ∈ [_, _] → g.Known (docker.table ["stats".toList])
      rw [List.forall_mem_cons, List.forall_mem_singleton]
      exact ⟨⟨by decide, by decide, by decide⟩, hjson (by decide)⟩
    | logs id tail =>
      change ∀ g : Flags.Given, g ∈ [_] → g.Known (docker.table ["logs".toList])
      rw [List.forall_mem_singleton]
      exact ⟨by decide, by decide, by decide⟩
    | action id act =>
      cases act with
      | stop =>
        change ∀ g : Flags.Given, g ∈ [_] → g.Known (docker.table ["stop".toList])
        rw [List.forall_mem_singleton]
        exact ⟨by decide, by decide⟩
      | restart =>
        change ∀ g : Flags.Given, g ∈ [_] → g.Known (docker.table ["restart".toList])
        rw [List.forall_mem_singleton]
        exact ⟨by decide, by decide⟩
      | remove =>
        change ∀ g : Flags.Given, g ∈ [_] → g.Known (docker.table ["rm".toList])
        rw [List.forall_mem_singleton]
        exact ⟨by decide, by decide⟩
      | start | pause | unpause | kill => exact nofun
    | images =>
      change ∀ g : Flags.Given, g ∈ [_, _] → g.Known (docker.table ["images".toList])
      rw [List.forall_mem_cons, List.forall_mem_singleton]
      exact ⟨⟨by decide, by decide, by decide⟩, hjson (by decide)⟩
    | remove_image id force =>
      change ∀ g ∈ Request.option_if force _, g.Known (docker.table ["rmi".toList])
      intro g hg
      rw [mem_option_if hg]
      exact ⟨by decide, by decide⟩
    | remove_volume name force =>
      change ∀ g ∈ Request.option_if force _, g.Known (docker.table ["volume".toList, "rm".toList])
      intro g hg
      rw [mem_option_if hg]
      exact ⟨by decide, by decide⟩
    | volumes =>
      change ∀ g : Flags.Given, g ∈ [_] → g.Known (docker.table ["volume".toList, "ls".toList])
      rw [List.forall_mem_singleton]
      exact hjson (by decide)
    | networks =>
      change ∀ g : Flags.Given, g ∈ [_] → g.Known (docker.table ["network".toList, "ls".toList])
      rw [List.forall_mem_singleton]
      exact hjson (by decide)
    | engine =>
      change ∀ g : Flags.Given, g ∈ [_] → g.Known (docker.table ["info".toList])
      rw [List.forall_mem_singleton]
      exact hjson (by decide)
    | create_network name driver =>
      change ∀ g : Flags.Given, g ∈ [_] → g.Known (docker.table ["network".toList, "create".toList])
      rw [List.forall_mem_singleton]
      exact ⟨by decide, by decide, by decide⟩
    | inspect _ | pull _ | create_volume _ | remove_network _ => exact nofun
  · rintro container rfl
    exact (docker_knows_run container).stops container rfl

/-- **Every line has the words that are meant, and docker reads them as they are meant where no id,
name or reference looks like an option.** -/
theorem commands_iff {request : Request} {socket line : List Char}
    (hline : request.line socket = some line) :
    (∃ body, line = body ++ request.redirect ∧ words body = (words request.extra).map
      ("docker".toList :: ((host_given socket).flatMap Flags.Given.words ++ request.args) ++ ·)) ∧
    ∀ client : Client, client.Knows request →
      (client.read (leading line) = some (request.call socket) ↔
        ∀ operand ∈ request.operands, Flags.option_like operand = false) := by
  obtain ⟨hleading, hbody⟩ := request.words_line hline
  refine ⟨hbody, fun client hknows => ?_⟩
  rw [hleading, Client.read_request hknows, map_call_iff]
  rcases request.operands_or hknows with ⟨hnone, hextra⟩ | ⟨v, hv, hmore⟩
  · rw [hnone, hextra]
    exact ⟨fun _ => nofun, fun _ => rfl⟩
  · rw [hv, List.forall_mem_singleton]
    exact Flags.read_operand_iff hmore

theorem commands_iff_inspect :
    docker.read (leading "docker inspect 'web'".toList) =
      some ((Request.inspect "web".toList).call []) :=
  have hline : (Request.inspect "web".toList).line [] = some "docker inspect 'web'".toList := by
    decide +kernel
  ((commands_iff hline).2 docker (docker_knows nofun)).mpr (by decide)

/-- The statistics of one container are asked for, and those of all are read. -/
theorem stats_of_all : ¬ ∀ (socket line : List Char) (request : Request),
    request.line socket = some line → docker.read (leading line) = some (request.call socket) := by
  intro h
  have hread := h [] _ (.stats "--all".toList) rfl
  revert hread
  decide +kernel

end WaSSH.Docker
