import WaSSH.Lib.Run
import Mathlib.Data.Nat.Notation

/-!
# Pumping a session's events

An SSH tab takes the events of its connection batch by batch, and asks for another password in the
terminal when one is rejected.

* `Entry`: what the tab shows and how it closes; `handle`: one event; `pump`: one batch;
* `prompt_login`, `login_input`, `submit_login`, `retry_login`: the password prompt;
* `Undisturbed`: what a batch must not bring;
* **`splits_agree`**: batches that bring none of it may be split and joined at will.
-/

namespace WaSSH.Ssh.Pump

open StepRun

/-! ## Events -/

inductive SessionStatus
  | idle
  | connecting
  | awaiting_host_key
  | authenticating
  | connected
  | reconnecting
  | disconnected
  | closed
  | failed
  deriving DecidableEq, Repr

/-- How an SSH session ended. -/
inductive SessionEnd
  | exited (status : ℕ)
  | closed
  | failed
  | requested
  deriving DecidableEq, Repr

/-- The remote side ended the session on purpose. -/
def SessionEnd.by_shell : SessionEnd → Bool
  | .failed => false
  | _ => true

structure HostKeyPrompt where
  host : String
  port : ℕ
  fingerprint : String
  mismatch : Bool
  deriving DecidableEq, Repr

structure AuthPromptField where
  label : String
  echo : Bool
  deriving DecidableEq, Repr

structure AuthPrompt where
  name : String
  instructions : String
  fields : List AuthPromptField
  answers : List String
  deriving DecidableEq, Repr

inductive SshEvent
  | data (bytes : List UInt8)
  | status (status : SessionStatus)
  | host_key_prompt (host : String) (port : ℕ) (fingerprint : String) (mismatch : Bool)
  | auth_prompt (name instructions : String) (prompts : List AuthPromptField)
  | auth_failed (detail : String)
  | closed (reason : Option String) (ending : SessionEnd)
  | error (error : String)
  deriving DecidableEq, Repr

/-- Why a transport closed. -/
structure Exit where
  reason : Option String
  from_shell : Bool
  deriving DecidableEq, Repr

/-! ## The tab -/

/-- The password prompt, with the password its connection is opened with. -/
structure LoginPrompt where
  password : List Char
  buffer : List Char
  attempts : ℕ
  /-- Waiting for typing; false once the attempt is running. -/
  active : Bool
  deriving DecidableEq, Repr

structure Entry where
  status : SessionStatus := .connecting
  error : Option String := none
  /-- The transport is an SSH connection; else there is none. -/
  ssh : Bool := false
  host_key_prompt : Option HostKeyPrompt := none
  auth_prompt : Option AuthPrompt := none
  login : Option LoginPrompt := none
  suppress_close : Bool := false
  password : List Char := []
  /-- A tmux or screen probe holds off the connection. -/
  probe : Bool := false
  /-- What the pumps have surfaced in `Pumped::closed`. -/
  notified : List Exit := []
  /-- `Closed` events that ended no tab. -/
  swallowed : ℕ := 0
  deriving DecidableEq, Repr

/-- How the start of a connection goes. -/
inductive Start
  | connecting
  | refused (error : String)
  deriving DecidableEq, Repr

/-- What opening a connection comes to: a jump host that cannot be used, a probe first, or the
connection itself. -/
inductive Opening
  | jump_error (error : String)
  | probe
  | start (start : Start)
  deriving DecidableEq, Repr

namespace Entry

variable (s : Entry)

def start_ssh : Start → Entry
  | .connecting => { s with status := .connecting, ssh := true }
  | .refused error => { s with status := .failed, ssh := false, error := some error }

def begin : Opening → Entry
  | .jump_error error => { s with status := .failed, ssh := false, error := some error }
  | .probe => { s with status := .connecting, probe := true }
  | .start start => s.start_ssh start

/-! ### The password prompt -/

/-- Print the prompt and wait for typing. -/
def prompt_login (password : List Char) : Entry :=
  { s with
    login := some ⟨password, [], (s.login.map (·.attempts)).getD 0, true⟩
    status := .authenticating, error := none, ssh := false }

/-- Close the transport but keep the tab. -/
def disconnect : Entry :=
  { s with
    ssh := false, host_key_prompt := none, auth_prompt := none, login := none
    suppress_close := false
    status := if s.status = .failed ∨ s.status = .disconnected then s.status else .closed }

/-- Abandon the prompt. -/
def cancel_login : Entry :=
  match s.login with
  | none => s
  | some _ => { { s with login := none }.disconnect with error := some "Login cancelled." }

/-- Hand the typed password to a fresh connection attempt. -/
def submit_login (opening : Opening) : Entry :=
  match s.login with
  | none => s
  | some login =>
    { s with
      password := login.buffer
      login := some ⟨login.buffer, [], login.attempts + 1, false⟩ }.begin opening

/-- Ask again after a rejected password. -/
def retry_login : Bool × Entry :=
  match s.login with
  | none => (false, s)
  | some login => (true, { s with suppress_close := true }.prompt_login login.password)

end Entry

/-! ### Typing -/

inductive Key
  | char (c : Char)
  | enter
  | backspace
  | escape
  | other
  deriving DecidableEq, Repr

inductive TerminalInput
  | text (text : List Char)
  | paste (text : List Char)
  | key (key : Key) (ctrl : Bool)
  deriving DecidableEq, Repr

structure Typing where
  buffer : List Char
  submit : Bool := false
  cancel : Bool := false
  deriving DecidableEq, Repr

/-- `char::is_control`. -/
def is_control (c : Char) : Bool := c.toNat < 0x20 || (0x7f ≤ c.toNat && c.toNat ≤ 0x9f)

namespace Typing

variable (t : Typing)

def type_char (c : Char) : Typing :=
  if c = '\r' ∨ c = '\n' then { t with submit := true }
  else if c.toNat = 0x7f then { t with buffer := t.buffer.dropLast }
  else if c.toNat = 3 then { t with cancel := true }
  else if !is_control c then { t with buffer := t.buffer ++ [c] }
  else t

def type : TerminalInput → Typing
  | .text text => text.foldl type_char t
  | .paste text => { t with buffer := t.buffer ++ text.filter (!is_control ·) }
  | .key .enter _ => { t with submit := true }
  | .key .backspace _ => { t with buffer := t.buffer.dropLast }
  | .key .escape _ => { t with cancel := true }
  | .key (.char 'c') true => { t with cancel := true }
  | .key (.char 'u') true => { t with buffer := [] }
  | .key _ _ => t

end Typing

namespace Entry

variable (s : Entry)

/-- Feed keystrokes to the password prompt. -/
def login_input (inputs : List TerminalInput) (opening : Opening) : Entry :=
  match s.login with
  | none => s
  | some login =>
    if !login.active then s
    else
      let typing := inputs.foldl Typing.type { buffer := login.buffer }
      let s := { s with login := some { login with buffer := typing.buffer } }
      if typing.cancel then s.cancel_login
      else if typing.submit then s.submit_login opening
      else s

def respond_host_key (accept : Bool) : Entry :=
  { s with
    host_key_prompt := none
    status := if accept then s.status else .disconnected }

def respond_auth : Entry := { s with auth_prompt := none }

/-- What a restart forgets, and the password it brings. -/
def reset (password : List Char) : Entry :=
  { s with
    error := none, host_key_prompt := none, auth_prompt := none, probe := false
    login := none, suppress_close := false
    password := if password = [] then s.password else password }

/-- Restart the transport, asking for a password where the host wants one and none is kept. -/
def restart (password : List Char) (asks : Bool) (opening : Opening) : Entry :=
  let s := s.reset password
  if asks && s.password = [] then s.prompt_login s.password else s.begin opening

/-! ## Pumping -/

/-- One event: what it surfaces, and the tab after it. -/
def handle : SshEvent → Option Exit × Entry
  | .data _ => (none, s)
  | .status status => (none, { s with status })
  | .host_key_prompt host port fingerprint mismatch =>
    (none, { s with host_key_prompt := some ⟨host, port, fingerprint, mismatch⟩ })
  | .auth_prompt name instructions prompts =>
    (none, { s with
      auth_prompt := some ⟨name, instructions, prompts, prompts.map fun _ => ""⟩ })
  | .auth_failed detail =>
    match s.retry_login with
    | (true, s) => (none, s)
    | (false, s) => (some ⟨none, false⟩, { s with error := some detail, status := .failed })
  | .closed reason ending =>
    if s.suppress_close then
      (none, { s with suppress_close := false, swallowed := s.swallowed + 1 })
    else
      (some ⟨reason, ending.by_shell⟩, { s with
        status :=
          if ending.by_shell then .closed
          else if s.status = .connected then .disconnected
          else s.status
        host_key_prompt := none, auth_prompt := none })
  | .error error =>
    (some ⟨none, false⟩,
      { s with login := none, suppress_close := false, error := some error, status := .failed })

/-- The events of a batch, in order. The batch was taken off its channel as a whole; of what its
events surface, the last one stays. -/
def handle_all : List SshEvent → Option Exit → Entry → Option Exit × Entry
  | [], closed, s => (closed, s)
  | event :: events, closed, s =>
    let (exit, s) := s.handle event
    handle_all events (exit.or closed) s

/-- What a pump does at its end: a connected tab has nothing left to retry. -/
def settle : Entry :=
  if s.status = .connected then { s with login := none, suppress_close := false, error := none }
  else s

def surface (closed : Option Exit) : Entry := { s with notified := s.notified ++ closed.toList }

/-- A batch, with what the pump surfaces. -/
def take_batch (events : List SshEvent) (closed : Option Exit) : Entry :=
  let (closed, s) := handle_all events closed s
  s.settle.surface closed

/-- The events of the connection, if there is one. -/
def take_events (events : List SshEvent) : Entry :=
  if s.ssh then s.take_batch events none else s.settle

/-- The tab a pump reads events for: not while a probe runs. `probe` is what a finished probe leads
to. -/
def opened (probe : Option Start) : Option Entry :=
  if s.probe then probe.map ({ s with probe := false }.start_ssh ·) else some s

def pump (probe : Option Start) (events : List SshEvent) : Entry :=
  match s.opened probe with
  | none => s
  | some s => s.take_events events

end Entry

inductive Input
  | pump (probe : Option Start) (events : List SshEvent)
  | login_input (inputs : List TerminalInput) (opening : Opening)
  | respond_host_key (accept : Bool)
  | respond_auth
  | disconnect
  | restart (password : List Char) (asks : Bool) (opening : Opening)

def step (s : Entry) : Input → Entry
  | .pump probe events => s.pump probe events
  | .login_input inputs opening => s.login_input inputs opening
  | .respond_host_key accept => s.respond_host_key accept
  | .respond_auth => s.respond_auth
  | .disconnect => s.disconnect
  | .restart password asks opening => s.restart password asks opening

/-! ## What a batch must not bring -/

/-- Nothing is left of a login or a failure. -/
def Entry.Clear (s : Entry) : Prop :=
  s.login = none ∧ s.suppress_close = false ∧ s.error = none

instance (s : Entry) : Decidable s.Clear := inferInstanceAs (Decidable (_ ∧ _ ∧ _))

/-- What a pump may read next, after it has surfaced `closed`, with `more` to come: no event that
ends the connected state of a tab the pump itself connected while something was left to clear; a
rejected password that asks again only as the last event; no `Closed` that would be swallowed; and
only one event that surfaces anything. -/
def Admits (s : Entry) (closed : Option Exit) (more : Bool) : SshEvent → Prop
  | .data _ | .host_key_prompt .. | .auth_prompt .. => True
  | .status status => s.status = .connected → status = .connected ∨ s.Clear
  | .auth_failed _ =>
    (s.status = .connected → s.Clear) ∧ if s.login.isSome then more = false else closed = none
  | .closed _ _ =>
    (s.status = .connected → s.Clear) ∧ s.suppress_close = false ∧ closed = none
  | .error _ => (s.status = .connected → s.Clear) ∧ closed = none

/-- Every event of a batch may be read. -/
def AdmitsAll : List SshEvent → Option Exit → Entry → Prop
  | [], _, _ => True
  | event :: events, closed, s =>
    Admits s closed (!events.isEmpty) event ∧
      AdmitsAll events ((s.handle event).1.or closed) (s.handle event).2

def Undisturbed (s : Entry) : Input → Prop
  | .pump probe events =>
    ∀ s', s.opened probe = some s' → s'.ssh = true → AdmitsAll events none s'
  | _ => True

/-- The same events, each in a pump of its own. -/
def Input.singles : Input → List Input
  | .pump none events => events.map fun event => .pump none [event]
  | .pump (some start) events =>
    .pump (some start) [] :: events.map fun event => .pump none [event]
  | input => [input]

/-! ## Batches -/

section Batches

variable {s : Entry} {closed : Option Exit} {event : SshEvent} {events : List SshEvent} {more : Bool}

@[simp] theorem settle_settle : s.settle.settle = s.settle := by
  unfold Entry.settle
  split <;> simp_all

@[simp] theorem settle_ssh : s.settle.ssh = s.ssh := by
  unfold Entry.settle
  split <;> rfl

@[simp] theorem settle_probe : s.settle.probe = s.probe := by
  unfold Entry.settle
  split <;> rfl

@[simp] theorem settle_swallowed : s.settle.swallowed = s.swallowed := by
  unfold Entry.settle
  split <;> rfl

@[simp] theorem surface_ssh : (s.surface closed).ssh = s.ssh := rfl

@[simp] theorem surface_probe : (s.surface closed).probe = s.probe := rfl

@[simp] theorem surface_swallowed : (s.surface closed).swallowed = s.swallowed := rfl

theorem settle_of_clear (h : s.status = .connected → s.Clear) : s.settle = s := by
  unfold Entry.settle
  split
  · rename_i hconnected
    obtain ⟨h1, h2, h3⟩ := h hconnected
    rw [← h1, ← h2, ← h3]
  · rfl

@[simp] theorem surface_none : s.surface none = s := by
  simp [Entry.surface]

theorem surface_settle : (s.surface closed).settle = s.settle.surface closed := by
  unfold Entry.settle Entry.surface
  split <;> rfl

theorem handle_rejected {detail : String} (h : s.login = none) : s.handle (.auth_failed detail) =
    (some ⟨none, false⟩, { s with error := some detail, status := .failed }) := by
  simp [Entry.handle, Entry.retry_login, h]

theorem handle_retried {detail : String} {login : LoginPrompt} (h : s.login = some login) :
    s.handle (.auth_failed detail) =
      (none, { s with suppress_close := true }.prompt_login login.password) := by
  simp [Entry.handle, Entry.retry_login, h]

/-- What has been surfaced plays no part in what comes. -/
theorem handle_surface : (s.surface closed).handle event =
    ((s.handle event).1, (s.handle event).2.surface closed) := by
  cases event with
  | auth_failed detail =>
    have hlogin : (s.surface closed).login = s.login := rfl
    cases h : s.login with
    | none =>
      rw [handle_rejected h, handle_rejected (hlogin.trans h)]
      rfl
    | some login =>
      rw [handle_retried h, handle_retried (hlogin.trans h)]
      rfl
  | closed reason ending =>
    cases h : s.suppress_close <;> simp [Entry.handle, Entry.surface, h]
  | _ => rfl

/-- Settling before an event a pump admits is the same as settling after it, or as not at all. -/
theorem handle_settle (h : Admits s closed more event) :
    Admits s.settle closed more event ∧ (s.settle.handle event).1 = (s.handle event).1 ∧
      ((s.settle.handle event).2 = (s.handle event).2 ∨
        (s.settle.handle event).2 = (s.handle event).2.settle) := by
  by_cases hclear : s.status = .connected → s.Clear
  · rw [settle_of_clear hclear]
    exact ⟨h, rfl, .inl rfl⟩
  · obtain ⟨hconnected, hnot⟩ := Classical.not_imp.mp hclear
    cases event with
    | data bytes => exact ⟨trivial, rfl, .inr rfl⟩
    | status status =>
      obtain rfl := (h hconnected).resolve_right hnot
      refine ⟨fun _ => .inl rfl, rfl, .inr ?_⟩
      simp [Entry.handle, Entry.settle, hconnected]
    | host_key_prompt host port fingerprint mismatch =>
      refine ⟨trivial, rfl, .inr ?_⟩
      simp [Entry.handle, Entry.settle, hconnected]
    | auth_prompt name instructions prompts =>
      refine ⟨trivial, rfl, .inr ?_⟩
      simp [Entry.handle, Entry.settle, hconnected]
    | auth_failed detail => exact absurd h.1 hclear
    | closed reason ending => exact absurd h.1 hclear
    | error error => exact absurd h.1 hclear

theorem admits_surface (h : Admits s closed more event) :
    Admits (s.surface closed) none more event := by
  cases event with
  | data bytes => trivial
  | status status => exact h
  | host_key_prompt host port fingerprint mismatch => trivial
  | auth_prompt name instructions prompts => trivial
  | auth_failed detail =>
    refine ⟨h.1, ?_⟩
    have hlast := h.2
    change if s.login.isSome then more = false else none = none
    split
    · rename_i hlogin
      simpa [hlogin] using hlast
    · rfl
  | closed reason ending => exact ⟨h.1, h.2.1, rfl⟩
  | error error => exact ⟨h.1, rfl⟩

/-- Once something is surfaced, no event a pump admits surfaces anything. -/
theorem handle_quiet {exit : Exit} (h : Admits s (some exit) more event) :
    (s.handle event).1 = none := by
  cases event with
  | auth_failed detail =>
    cases hlogin : s.login with
    | none => simp [Admits, hlogin] at h
    | some login => rw [handle_retried hlogin]
  | closed reason ending => exact nomatch h.2.2
  | error error => exact nomatch h.2
  | _ => rfl

/-- **Settling early** changes nothing in a batch a pump admits. -/
theorem take_batch_settle {w : Entry} (hw : w = s ∨ w = s.settle) (h : AdmitsAll events closed s) :
    AdmitsAll events closed w ∧ w.take_batch events closed = s.take_batch events closed := by
  induction events generalizing s closed w with
  | nil =>
    refine ⟨trivial, ?_⟩
    rcases hw with rfl | rfl <;> simp [Entry.take_batch, Entry.handle_all]
  | cons event events ih =>
    obtain ⟨hadmits, hrest⟩ := h
    obtain ⟨hadmits', hexit, hstate⟩ := handle_settle hadmits
    rcases hw with rfl | rfl
    · exact ⟨⟨hadmits, hrest⟩, rfl⟩
    · obtain ⟨hrest', heq⟩ := ih hstate hrest
      refine ⟨⟨hadmits', hexit ▸ hrest'⟩, ?_⟩
      simp only [Entry.take_batch, Entry.handle_all] at heq ⊢
      rw [hexit]
      exact heq

/-- **Surfacing early** changes nothing either. -/
theorem take_batch_surface (h : AdmitsAll events closed s) :
    AdmitsAll events none (s.surface closed) ∧
      (s.surface closed).take_batch events none = s.take_batch events closed := by
  cases closed with
  | none => exact ⟨by simpa using h, by simp⟩
  | some exit =>
    induction events generalizing s with
    | nil =>
      refine ⟨trivial, ?_⟩
      simp [Entry.take_batch, Entry.handle_all, surface_settle]
    | cons event events ih =>
      obtain ⟨hadmits, hrest⟩ := h
      have hquiet := handle_quiet hadmits
      rw [hquiet, Option.none_or] at hrest
      obtain ⟨hrest', heq⟩ := ih hrest
      refine ⟨⟨admits_surface hadmits, ?_⟩, ?_⟩
      · rw [handle_surface, hquiet]
        exact hrest'
      · simp only [Entry.take_batch, Entry.handle_all, handle_surface, hquiet,
          Option.none_or] at heq ⊢
        exact heq

/-- Only a rejected password that asks again takes the connection away, and a pump admits that as
the last event. -/
theorem handle_ssh (h : Admits s closed true event) : (s.handle event).2.ssh = s.ssh := by
  cases event with
  | auth_failed detail =>
    cases hlogin : s.login with
    | none => rw [handle_rejected hlogin]
    | some login => simp [Admits, hlogin] at h
  | closed reason ending => cases hs : s.suppress_close <;> simp [Entry.handle, hs]
  | _ => rfl

theorem handle_probe : (s.handle event).2.probe = s.probe := by
  cases event with
  | auth_failed detail =>
    cases hlogin : s.login with
    | none => rw [handle_rejected hlogin]
    | some login =>
      rw [handle_retried hlogin]
      rfl
  | closed reason ending => cases hs : s.suppress_close <;> simp [Entry.handle, hs]
  | _ => rfl

theorem handle_swallowed (h : Admits s closed more event) :
    (s.handle event).2.swallowed = s.swallowed := by
  cases event with
  | auth_failed detail =>
    cases hlogin : s.login with
    | none => rw [handle_rejected hlogin]
    | some login =>
      rw [handle_retried hlogin]
      rfl
  | closed reason ending => simp [Entry.handle, h.2.1]
  | _ => rfl

theorem take_batch_swallowed (h : AdmitsAll events closed s) :
    (s.take_batch events closed).swallowed = s.swallowed := by
  induction events generalizing s closed with
  | nil => simp [Entry.take_batch, Entry.handle_all]
  | cons event events ih => exact (ih h.2).trans (handle_swallowed h.1)

/-- One event in a pump of its own, on a settled tab without a probe. -/
theorem pump_one (hprobe : s.probe = false) (hssh : s.ssh = true) :
    s.pump none [event] = ((s.handle event).2.surface (s.handle event).1).settle := by
  simp [Entry.pump, Entry.opened, hprobe, Entry.take_events, hssh, Entry.take_batch,
    Entry.handle_all, surface_settle]

theorem pump_idle (hprobe : s.probe = false) (hssh : s.ssh = false) (hs : s.settle = s) :
    s.pump none events = s := by
  simp [Entry.pump, Entry.opened, hprobe, Entry.take_events, hssh, hs]

theorem run_idle (hprobe : s.probe = false) (hssh : s.ssh = false) (hs : s.settle = s) :
    StepRun.run step s (events.map fun event => .pump none [event]) = s := by
  induction events with
  | nil => rfl
  | cons event events ih =>
    rw [List.map_cons, run_cons, step, pump_idle hprobe hssh hs]
    exact ih

/-- **A batch a pump admits, event by event.** -/
theorem take_batch_eq (hprobe : s.probe = false) (hssh : s.ssh = true) (hs : s.settle = s)
    (h : AdmitsAll events none s) :
    StepRun.run step s (events.map fun event => .pump none [event]) = s.take_batch events none := by
  induction events generalizing s with
  | nil => simp [Entry.take_batch, Entry.handle_all, hs]
  | cons event events ih =>
    obtain ⟨hadmits, hrest⟩ := h
    rw [Option.or_none] at hrest
    rw [List.map_cons, run_cons, step, pump_one hprobe hssh]
    -- surfacing and settling between the events is the same as at the end
    obtain ⟨hrest₁, heq₁⟩ := take_batch_surface hrest
    obtain ⟨hrest₂, heq₂⟩ := take_batch_settle (.inr rfl) hrest₁
    have heq : s.take_batch (event :: events) none =
        ((s.handle event).2.surface (s.handle event).1).settle.take_batch events none := by
      rw [heq₂, heq₁]
      simp [Entry.take_batch, Entry.handle_all]
    rw [heq]
    cases events with
    | nil => simp [Entry.take_batch, Entry.handle_all]
    | cons event' events =>
      refine ih ?_ ?_ settle_settle hrest₂
      · simpa [handle_probe] using hprobe
      · simpa [handle_ssh hadmits] using hssh

end Batches

/-! ## Runs -/

section Runs

variable {s : Entry}

theorem settle_of_ne (h : s.status ≠ .connected) : s.settle = s := if_neg h

theorem clear_of_settle (hs : s.settle = s) (h : s.status = .connected) : s.Clear := by
  rw [← hs]
  simp [Entry.settle, h, Entry.Clear]

theorem start_ne_connected (start : Start) : (s.start_ssh start).status ≠ .connected := by
  cases start <;> simp [Entry.start_ssh]

theorem begin_ne_connected (opening : Opening) : (s.begin opening).status ≠ .connected := by
  cases opening with
  | start start => exact start_ne_connected start
  | _ => simp [Entry.begin]

theorem disconnect_ne_connected : s.disconnect.status ≠ .connected := by
  simp only [Entry.disconnect]
  split
  · rename_i hstatus
    rcases hstatus with h | h <;> simp [h]
  · simp

theorem take_events_settle (events : List SshEvent) :
    (s.take_events events).settle = s.take_events events := by
  unfold Entry.take_events
  split
  · simp [Entry.take_batch, surface_settle]
  · exact settle_settle

theorem login_input_settle (hs : s.settle = s) (inputs : List TerminalInput) (opening : Opening) :
    (s.login_input inputs opening).settle = s.login_input inputs opening := by
  unfold Entry.login_input
  split
  · exact hs
  · rename_i login hlogin
    split
    · exact hs
    · -- a connected tab keeps no login
      have hstatus : s.status ≠ .connected := by
        intro hconnected
        rw [← hs] at hlogin
        simp [Entry.settle, hconnected] at hlogin
      dsimp only
      split
      · exact settle_of_ne disconnect_ne_connected
      · split
        · exact settle_of_ne (begin_ne_connected opening)
        · exact settle_of_ne hstatus

/-- Every step leaves a connected tab settled. -/
theorem step_settle (hs : s.settle = s) (input : Input) : (step s input).settle = step s input := by
  cases input with
  | pump probe events =>
    simp only [step, Entry.pump]
    split
    · exact hs
    · exact take_events_settle events
  | login_input inputs opening => exact login_input_settle hs inputs opening
  | respond_host_key accept =>
    cases accept with
    | true => exact settle_of_clear fun h => (clear_of_settle hs h : s.Clear)
    | false => exact settle_of_ne nofun
  | respond_auth => exact settle_of_clear fun h => (clear_of_settle hs h : s.Clear)
  | disconnect => exact settle_of_ne disconnect_ne_connected
  | restart password asks opening =>
    simp only [step, Entry.restart]
    split
    · exact settle_of_ne nofun
    · exact settle_of_ne (begin_ne_connected opening)

theorem run_events (hs : s.settle = s) (hprobe : s.probe = false) {events : List SshEvent}
    (h : s.ssh = true → AdmitsAll events none s) :
    StepRun.run step s (events.map fun event => .pump none [event]) = s.take_events events := by
  unfold Entry.take_events
  cases hssh : s.ssh with
  | false => exact (run_idle hprobe hssh hs).trans hs.symm
  | true => exact take_batch_eq hprobe hssh hs (h hssh)

theorem run_probing (hprobe : s.probe = true) (events : List SshEvent) :
    StepRun.run step s (events.map fun event => .pump none [event]) = s := by
  induction events with
  | nil => rfl
  | cons event events ih =>
    have hnone : s.pump none [event] = s := by simp [Entry.pump, Entry.opened, hprobe]
    rw [List.map_cons, run_cons, step, hnone]
    exact ih

/-- **One pump, event by event.** -/
theorem run_singles_of_input (hs : s.settle = s) {input : Input} (h : Undisturbed s input) :
    StepRun.run step s input.singles = step s input := by
  cases input with
  | pump probe events =>
    cases hprobe : s.probe with
    | false =>
      have hpump : ∀ probe events, s.pump probe events = s.take_events events := by
        intro probe events
        simp [Entry.pump, Entry.opened, hprobe]
      have hevents := run_events hs hprobe (h s (by simp [Entry.opened, hprobe]))
      have hnil : s.take_events [] = s := by
        unfold Entry.take_events
        split <;> simp [Entry.take_batch, Entry.handle_all, hs]
      cases probe with
      | none => exact hevents.trans (hpump none events).symm
      | some start =>
        rw [Input.singles, run_cons, step, hpump, hnil, step, hpump]
        exact hevents
    | true =>
      cases probe with
      | none =>
        have hnone : s.pump none events = s := by simp [Entry.pump, Entry.opened, hprobe]
        exact (run_probing hprobe events).trans hnone.symm
      | some start =>
        -- the probe has finished: the rest is about the tab it opens
        have hpump : ∀ events, s.pump (some start) events =
            ({ s with probe := false }.start_ssh start).take_events events := by
          intro events
          simp [Entry.pump, Entry.opened, hprobe]
        have hs' : ({ s with probe := false }.start_ssh start).settle = _ :=
          settle_of_ne (start_ne_connected start)
        have hprobe' : ({ s with probe := false }.start_ssh start).probe = false := by
          cases start <;> rfl
        have hnil : ({ s with probe := false }.start_ssh start).take_events [] =
            { s with probe := false }.start_ssh start := by
          unfold Entry.take_events
          split <;> simp [Entry.take_batch, Entry.handle_all, hs']
        rw [Input.singles, run_cons, step, hpump, hnil, step, hpump]
        exact run_events hs' hprobe' (h _ (by simp [Entry.opened, hprobe]))
  | _ => rfl

theorem begin_swallowed (opening : Opening) : (s.begin opening).swallowed = s.swallowed := by
  cases opening with
  | start start => cases start <;> rfl
  | _ => rfl

theorem take_events_swallowed {events : List SshEvent} (h : s.ssh = true → AdmitsAll events none s) :
    (s.take_events events).swallowed = s.swallowed := by
  unfold Entry.take_events
  split
  · exact take_batch_swallowed (h ‹_›)
  · exact settle_swallowed

theorem step_swallowed {input : Input} (h : Undisturbed s input) :
    (step s input).swallowed = s.swallowed := by
  cases input with
  | pump probe events =>
    simp only [step, Entry.pump]
    split
    · rfl
    · rename_i s' hopened
      have hs' : s'.swallowed = s.swallowed := by
        unfold Entry.opened at hopened
        split at hopened
        · obtain ⟨start, -, rfl⟩ := Option.map_eq_some_iff.mp hopened
          cases start <;> rfl
        · cases hopened
          rfl
      exact (take_events_swallowed (h s' hopened)).trans hs'
  | login_input inputs opening =>
    simp only [step, Entry.login_input]
    split
    · rfl
    · split
      · rfl
      · split
        · rfl
        · split
          · exact begin_swallowed opening
          · rfl
  | restart password asks opening =>
    simp only [step, Entry.restart]
    split
    · rfl
    · exact begin_swallowed opening
  | _ => rfl

/-- **A run, event by event.** -/
theorem run_singles (hs : s.settle = s) {inputs : List Input}
    (h : Guarded step Undisturbed s inputs) :
    StepRun.run step s (inputs.flatMap Input.singles) = StepRun.run step s inputs := by
  induction inputs generalizing s with
  | nil => rfl
  | cons input inputs ih =>
    rw [List.flatMap_cons, run_append, run_singles_of_input hs h.1, run_cons]
    exact ih (step_settle hs input) h.2

end Runs

/-- **However the events are split over pumps**, a tab ends the same and swallows no `Closed`, as long
as no pump brings what `Undisturbed` rules out. -/
theorem splits_agree (before inputs inputs' : List Input)
    (h : Guarded step Undisturbed (StepRun.run step {} before) inputs)
    (h' : Guarded step Undisturbed (StepRun.run step {} before) inputs')
    (hsame : inputs.flatMap Input.singles = inputs'.flatMap Input.singles) :
    StepRun.run step {} (before ++ inputs) = StepRun.run step {} (before ++ inputs') ∧
      (StepRun.run step {} (before ++ inputs)).swallowed = (StepRun.run step {} before).swallowed := by
  have hany : Guarded step (fun _ _ => True) {} before := guarded_of_forall fun _ _ => trivial
  have hsettle : (StepRun.run step {} before).settle = StepRun.run step {} before :=
    run_inv (I := fun s : Entry => s.settle = s) (fun _ input hs _ => step_settle hs input) before _
      rfl hany
  rw [run_append, run_append]
  refine ⟨?_, ?_⟩
  · rw [← run_singles hsettle h, hsame, run_singles hsettle h']
  · exact run_inv (I := fun s : Entry => s.swallowed = (StepRun.run step {} before).swallowed)
      (fun _ _ hs hok => (step_swallowed hok).trans hs) inputs _ rfl h

/-- A tab that has asked for a password and opened a connection with the one typed. -/
def password_typed : List Input :=
  [.restart [] true .probe, .login_input [.text "pw\r".toList] (.start .connecting)]

theorem splits_agree_connected :
    StepRun.run step {} (password_typed ++ [.pump none [.status .connected, .data [1]]]) =
      StepRun.run step {} (password_typed ++ [.pump none [.status .connected], .pump none [.data [1]]]) ∧
    (StepRun.run step {} (password_typed ++ [.pump none [.status .connected, .data [1]]])).swallowed =
      (StepRun.run step {} password_typed).swallowed :=
  splits_agree password_typed [.pump none [.status .connected, .data [1]]]
    [.pump none [.status .connected], .pump none [.data [1]]]
    ⟨fun _ _ _ => ⟨fun _ => .inl rfl, trivial, trivial⟩, trivial⟩
    ⟨fun _ _ _ => ⟨fun _ => .inl rfl, trivial⟩, fun _ _ _ => ⟨trivial, trivial⟩, trivial⟩ rfl

/-- A rejected password and the `Closed` of its connection in one pump, or in two: in the second
case the `Closed` of the next connection is swallowed. -/
theorem rejection_split_swallows :
    ∃ inputs inputs' : List Input,
      inputs.flatMap Input.singles = inputs'.flatMap Input.singles ∧
      (StepRun.run step {} (password_typed ++ inputs)).notified = [⟨none, false⟩] ∧
      (StepRun.run step {} (password_typed ++ inputs')).notified = [] ∧
      StepRun.run step {} (password_typed ++ inputs) ≠ StepRun.run step {} (password_typed ++ inputs') := by
  let again : List Input :=
    [.login_input [.text "pw\r".toList] (.start .connecting), .pump none [.closed none .failed]]
  refine ⟨.pump none [.auth_failed "denied", .closed none .failed] :: again,
    .pump none [.auth_failed "denied"] :: .pump none [.closed none .failed] :: again,
    rfl, by decide, by decide, fun h => ?_⟩
  exact absurd (congrArg Entry.notified h) (by decide)

end WaSSH.Ssh.Pump
