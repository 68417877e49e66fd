import WaSSH.Lib.Dialog
import WaSSH.Ssh.Exec
import WaSSH.Ssh.HostKey
import WaSSH.Ssh.Pump

/-!
# One SSH connection

A connection runs on a thread of its own: it reaches the target through the jump hosts, logs in to
each, opens the shell and hands on what comes, in both directions, until one side ends it. The
network, the user and the tab are its world.

* `reach`, `authenticate`, `connect_chain`, `shell_loop`, `run`: the source;
* `SshOptions`: what a connection is given; `Call`, `Answer`: what it asks of its world;
* `visit`: a run through a jump host.
-/

namespace WaSSH.Ssh.Session

open Pump (SessionStatus SessionEnd AuthPromptField SshEvent)

/-! ## What a connection is given -/

inductive SshAuth
  | password (password : String)
  | private_key (path : String) (passphrase : Option String)
  /-- The running agent. -/
  | agent
  /-- Challenge and response; the user answers. -/
  | keyboard_interactive
  deriving DecidableEq

def SshAuth.describe : SshAuth → String
  | .password _ => "password"
  | .private_key _ _ => "private key"
  | .agent => "ssh-agent"
  | .keyboard_interactive => "keyboard-interactive"

/-- One connection of the chain. -/
structure JumpHop where
  endpoint : Endpoint
  username : String
  auth : SshAuth
  deriving DecidableEq

inductive TunnelKind
  | local
  | remote
  | dynamic
  deriving DecidableEq

/-- A forward to establish when a session connects. -/
structure TunnelRequest where
  kind : TunnelKind
  listen_host : String
  listen_port : UInt16
  dest_host : String
  dest_port : UInt16
  deriving DecidableEq

structure SshOptions where
  /-- The target, with its login. -/
  target : JumpHop
  term : String
  cols : UInt16
  rows : UInt16
  command : Option String
  tunnels : List TunnelRequest
  /-- Outermost first. -/
  jumps : List JumpHop
  host_key_policy : HostKeyPolicy

/-- Every connection of the chain, the target last. -/
def SshOptions.hops (options : SshOptions) : List JumpHop := options.jumps ++ [options.target]

/-- A request that runs on a task of its own. -/
inductive Task
  | sftp (request : ℕ)
  | exec (command : String) (input : Option String)
  | forward_tcp (host : String) (port : UInt16)
  deriving DecidableEq

inductive SshCommand
  | write (bytes : List UInt8)
  | resize (cols rows : UInt16)
  | disconnect
  | spawn (task : Task)
  deriving DecidableEq

/-- What wakes the shell loop; `none` where the channel of it is gone. -/
inductive Wake
  | command (command : Option SshCommand)
  | message (message : Option ChannelMsg)
  deriving DecidableEq

/-! ## What it asks of its world -/

structure NetError where
  text : String
  /-- The server said that it disconnects. -/
  disconnect : Bool := false
  deriving DecidableEq

inductive Failure
  /-- The credentials were rejected. -/
  | auth (detail : String)
  | net (error : NetError)
  deriving DecidableEq

/-- What comes of an attempt that the connect timeout bounds. -/
inductive Reach (α : Type)
  | reached (a : α)
  | failed (error : NetError)
  | timed_out
  deriving DecidableEq

inductive Response
  | success
  | failure
  | info_request (name instructions : String) (prompts : List AuthPromptField)
  deriving DecidableEq

/-- What the connection asks. A connection is named by the endpoints it goes through, its own
last. -/
inductive Call
  | known (e : Endpoint)
  | remember (e : Endpoint) (fingerprint : String)
  /-- The user's answer to the host-key prompt. -/
  | decision
  | open_direct_tcpip (path : List Endpoint) (e : Endpoint)
  | dial (path : List Endpoint)
  | establish (path : List Endpoint)
  | unknown_key (path : List Endpoint)
  | password (path : List Endpoint) (username password : String)
  | load_secret_key (path : String) (passphrase : Option String)
  | best_supported_rsa_hash (path : List Endpoint)
  | publickey (path : List Endpoint) (username key : String) (hash : Option String)
  | request_identities
  | publickey_with (path : List Endpoint) (username identity : String) (hash : Option String)
  | keyboard_interactive_start (path : List Endpoint) (username : String)
  /-- The user's answers to the prompts. -/
  | auth_response
  | keyboard_interactive_respond (path : List Endpoint) (answers : List String)
  | tunnel (path : List Endpoint) (request : TunnelRequest)
  | channel_open_session (path : List Endpoint)
  | request_pty (term : String) (cols rows : UInt16)
  | exec (command : String)
  | request_shell
  | wake
  | data (bytes : List UInt8)
  | window_change (cols rows : UInt16)
  | spawn (task : Task)
  | disconnect (path : List Endpoint)
  deriving DecidableEq

/-- What it is answered. -/
def Answer : Call → Type
  | .known _ => Option String
  | .remember _ _ | .spawn _ | .disconnect _ => Unit
  /- no answer in two minutes is a refusal -/
  | .decision => Reach Bool
  | .dial _ => Reach String
  | .establish _ => Reach Unit
  | .unknown_key _ => NetError
  | .password _ _ _ | .publickey _ _ _ _ | .publickey_with _ _ _ _ => Except NetError Bool
  | .load_secret_key _ _ => Except NetError String
  | .best_supported_rsa_hash _ => Except NetError (Option String)
  | .request_identities => Except NetError (List String)
  | .keyboard_interactive_start _ _ | .keyboard_interactive_respond _ _ => Except NetError Response
  /- none: no answer in five minutes -/
  | .auth_response => Option (List String)
  | .tunnel _ _ | .open_direct_tcpip _ _ | .channel_open_session _ | .request_pty _ _ _ | .exec _
  | .request_shell | .data _ | .window_change _ _ => Except NetError Unit
  | .wake => Wake

abbrev Talk (α : Type) : Type := Dialog Call Answer SshEvent Failure α

open Dialog (tell attempt Outcome)

abbrev Trace : Type := List (Dialog.Step Call Answer SshEvent)

def ask (c : Call) : Talk (Answer c) := Dialog.ask c

/-- Go on with the answer, or fail with its error in this context. -/
def context {α : Type} (context : String) : Except NetError α → Talk α
  | .ok a => pure a
  | .error e => .fail (.net ⟨context ++ ": " ++ e.text, e.disconnect⟩)

def address (e : Endpoint) : String := s!"{e.host}:{e.port}"

/-! ## Reaching an endpoint -/

/-- The key the server shows; `none` where the connect timeout falls into the wait for the user. -/
def check_server_key (policy : HostKeyPolicy) (e : Endpoint) (fingerprint : String) :
    Talk (Option Bool) :=
  match policy with
  | .accept_any => pure (some true)
  | .accept_new => do
    match ← ask (.known e) with
    | some recorded => pure (some (recorded = fingerprint))
    | none => do
      ask (.remember e fingerprint)
      pure (some true)
  | .ask => do
    let recorded : Option String ← ask (.known e)
    if recorded = some fingerprint then pure (some true)
    else do
      tell (.host_key_prompt e.host e.port.toNat fingerprint recorded.isSome)
      match ← ask .decision with
      | .reached true => do
        ask (.remember e fingerprint)
        pure (some true)
      | .reached false | .failed _ => pure (some false)
      | .timed_out => pure none

/-- `client::connect` and `client::connect_stream`, with the texts of their errors. -/
def reach (policy : HostKeyPolicy) (path : List Endpoint) (e : Endpoint) (opening late : String) :
    Talk Unit := do
  match ← ask (.dial path) with
  | .failed error => context opening (.error error)
  | .timed_out => .fail (.net ⟨late, false⟩)
  | .reached fingerprint => do
    match ← check_server_key policy e fingerprint with
    | none => .fail (.net ⟨late, false⟩)
    | some false => do context opening (.error (← ask (.unknown_key path)))
    | some true => do
      match ← ask (.establish path) with
      | .failed error => context opening (.error error)
      | .timed_out => .fail (.net ⟨late, false⟩)
      | .reached () => pure ()

/-! ## Logging in -/

def try_identities (path : List Endpoint) (username : String) (hash : Option String) :
    List String → Talk Bool
  | [] => pure false
  | identity :: identities => do
    match ← ask (.publickey_with path username identity hash) with
    | .ok true => pure true
    | .ok false | .error _ => try_identities path username hash identities

/-- Try every identity the running agent offers. -/
def authenticate_agent (path : List Endpoint) (username : String) : Talk Bool := do
  match ← context "listing SSH agent identities" (← ask .request_identities) with
  | [] => pure false
  | identities => do
    let hash ← context "negotiating the RSA hash" (← ask (.best_supported_rsa_hash path))
    try_identities path username hash identities

/-- The rounds of the challenge; the server may ask for as many as it likes. -/
def answer_rounds (path : List Endpoint) : ℕ → Response → Talk Bool
  | _, .success => pure true
  | _, .failure => pure false
  | 0, .info_request _ _ _ => .hang
  | rounds + 1, .info_request name instructions prompts => do
    tell (.auth_prompt name instructions prompts)
    match ← ask .auth_response with
    | none => pure false
    | some answers => do
      answer_rounds path rounds (← context "answering keyboard-interactive prompts"
        (← ask (.keyboard_interactive_respond path answers)))

section

variable (rounds : ℕ)

def authenticate_keyboard_interactive (path : List Endpoint) (username : String) : Talk Bool := do
  answer_rounds path rounds (← context "starting keyboard-interactive authentication"
    (← ask (.keyboard_interactive_start path username)))

def try_login (path : List Endpoint) (username : String) : SshAuth → Talk Bool
  | .password password => do
    context "password authentication" (← ask (.password path username password))
  | .private_key file passphrase => do
    let key ← context s!"loading {file}" (← ask (.load_secret_key file passphrase))
    let hash ← context "negotiating the RSA hash" (← ask (.best_supported_rsa_hash path))
    context "public-key authentication" (← ask (.publickey path username key hash))
  | .agent => authenticate_agent path username
  | .keyboard_interactive => authenticate_keyboard_interactive rounds path username

def authenticate (path : List Endpoint) (username : String) (auth : SshAuth) : Talk Unit := do
  if ← try_login rounds path username auth then pure ()
  else .fail (.auth s!"authentication failed for {username} ({auth.describe})")

/-! ## The chain -/

/-- The next hop, through the connection at `path`. -/
def next_hop (policy : HostKeyPolicy) (path : List Endpoint) (hop : JumpHop) :
    Talk (List Endpoint) := do
  tell (.status .authenticating)
  context s!"opening a tunnel to {address hop.endpoint}" (← ask (.open_direct_tcpip path hop.endpoint))
  reach policy (path ++ [hop.endpoint]) hop.endpoint
    s!"opening the SSH connection to {address hop.endpoint}"
    s!"connection to {address hop.endpoint} timed out"
  authenticate rounds (path ++ [hop.endpoint]) hop.username hop.auth
  pure (path ++ [hop.endpoint])

/-- Connect to the target, tunnelling through the jump hosts when there are any. -/
def connect_chain (options : SshOptions) : Talk (List Endpoint) :=
  match options.jumps with
  | [] => do
    let e := options.target.endpoint
    reach options.host_key_policy [e] e "opening the SSH connection"
      s!"connection to {address e} timed out"
    authenticate rounds [e] options.target.username options.target.auth
    pure [e]
  | first :: rest => do
    let e := first.endpoint
    reach options.host_key_policy [e] e s!"opening the jump host {address e}"
      s!"connection to jump host {address e} timed out"
    authenticate rounds [e] first.username first.auth
    (rest ++ [options.target]).foldlM (next_hop rounds options.host_key_policy) [e]

/-! ## The shell -/

/-- Port forwards come up before the shell. -/
def start_tunnels (path : List Endpoint) : List TunnelRequest → Talk Unit
  | [] => pure ()
  | request :: requests => do
    let _ ← ask (.tunnel path request)
    /- the description, or what failed, goes into the message only -/
    tell (.status .connected)
    start_tunnels path requests

def open_shell (options : SshOptions) (path : List Endpoint) : Talk Unit := do
  context "opening a session channel" (← ask (.channel_open_session path))
  context "requesting a PTY" (← ask (.request_pty options.term options.cols options.rows))
  match options.command with
  | some command => do context "requesting the remote command" (← ask (.exec command))
  | none => do context "requesting a shell" (← ask .request_shell)

/-- The shell loop, for so many wakes. -/
def shell_loop : ℕ → Talk SessionEnd
  | 0 => .hang
  | wakes + 1 => do
    let wake : Wake ← ask .wake
    match wake with
    | .command (some (.write bytes)) => do
      context "writing to the channel" (← ask (.data bytes))
      shell_loop wakes
    | .command (some (.resize cols rows)) => do
      context "resizing the remote PTY" (← ask (.window_change cols rows))
      shell_loop wakes
    | .command (some (.spawn task)) => do
      ask (.spawn task)
      shell_loop wakes
    | .command (some .disconnect) | .command none => pure .requested
    | .message (some (.data data)) | .message (some (.extended_data data)) => do
      tell (.data data)
      shell_loop wakes
    | .message (some (.exit_status status)) => pure (.exited status.toNat)
    | .message (some .eof) | .message (some .close) => pure .closed
    /- the connection itself is gone -/
    | .message none => pure .failed
    | .message (some .other) => shell_loop wakes

variable (wakes : ℕ)

/-- `connect_and_shell`, up to the last login. -/
def log_in (options : SshOptions) : Talk (List Endpoint) := do
  tell (.status .authenticating)
  connect_chain rounds options

/-- `connect_and_shell`, from there up to the shell. -/
def set_up (options : SshOptions) (path : List Endpoint) : Talk Unit := do
  start_tunnels path options.tunnels
  open_shell options path

/-- `connect_and_shell`, from the shell on. -/
def relay_shell (path : List Endpoint) : Talk SessionEnd := do
  tell (.status .connected)
  let ending ← shell_loop wakes
  ask (.disconnect path)
  pure ending

def connect_and_shell (options : SshOptions) : Talk SessionEnd := do
  let path ← log_in rounds options
  set_up options path
  relay_shell wakes path

def exit_reason : SessionEnd → Option String
  | .exited status => some s!"remote exit status {status}"
  | _ => none

/-- What the tab is told of the end. -/
def report : Except Failure SessionEnd → Talk Unit
  | .ok ending => tell (.closed (exit_reason ending) ending)
  | .error (.auth detail) => tell (.auth_failed detail)
  | .error (.net error) => do
    tell (.error error.text)
    tell (.closed (some error.text) (if error.disconnect then .closed else .failed))

def run (options : SshOptions) : Talk Unit := do
  tell (.status .connecting)
  report (← attempt (connect_and_shell rounds wakes options))

end

/-- A call, and what is done with its answer. -/
theorem runs_asked {α : Type} {c : Call} {k : Answer c → Talk α} {t : Trace}
    {o : Outcome Failure α} : (ask c >>= k).Runs t o ↔
      (t = [.unanswered c] ∧ o = .hung) ∨
        ∃ (a : Answer c) (t' : Trace), t = .called c a :: t' ∧ (k a).Runs t' o := Iff.rfl

/-! ## A visit -/

def gate : Endpoint := ⟨"gate", 22⟩

def nas : Endpoint := ⟨"nas", 22⟩

/-- A machine behind a jump host. -/
def behind_gate : SshOptions where
  target := ⟨nas, "ann", .agent⟩
  term := "xterm-256color"
  cols := 80
  rows := 24
  command := none
  tunnels := []
  jumps := [⟨gate, "ops", .password "secret"⟩]
  host_key_policy := .ask

/-- The key of the jump host is known; the user accepts the other one; the shell says one thing and
exits. -/
def visit : Trace :=
  [.said (.status .connecting), .said (.status .authenticating),
    .called (.dial [gate]) (.reached "g"), .called (.known gate) (some "g"),
    .called (.establish [gate]) (.reached ()),
    .called (.password [gate] "ops" "secret") (.ok true),
    .said (.status .authenticating), .called (.open_direct_tcpip [gate] nas) (.ok ()),
    .called (.dial [gate, nas]) (.reached "n"), .called (.known nas) none,
    .said (.host_key_prompt "nas" 22 "n" false), .called .decision (.reached true),
    .called (.remember nas "n") (), .called (.establish [gate, nas]) (.reached ()),
    .called .request_identities (.ok ["id"]),
    .called (.best_supported_rsa_hash [gate, nas]) (.ok none),
    .called (.publickey_with [gate, nas] "ann" "id" none) (.ok true),
    .called (.channel_open_session [gate, nas]) (.ok ()),
    .called (.request_pty "xterm-256color" 80 24) (.ok ()), .called .request_shell (.ok ()),
    .said (.status .connected), .called .wake (.message (some (.data [104, 105]))),
    .said (.data [104, 105]), .called .wake (.message (some (.exit_status 0))),
    .called (.disconnect [gate, nas]) (), .said (.closed (some "remote exit status 0") (.exited 0))]

theorem visit_runs : (run 0 2 behind_gate).Runs visit (.returned ()) := by
  repeat first
    | exact ⟨rfl, rfl⟩
    | refine ⟨_, rfl, ?_⟩
    | refine .inr ⟨_, _, rfl, ?_⟩

end WaSSH.Ssh.Session
