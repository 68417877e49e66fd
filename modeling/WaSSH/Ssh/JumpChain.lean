import WaSSH.Hosts.Document

/-!
# Jump chains

* `jump_chain`, `jump_auth`: the source, with the vault as what it answers;
* `Follows`: the hosts one comes by from a jump host on; `follow_ok_iff`;
* `Entry`, `begin`, `restart`, `submit_login`: how a session opens its transport;
* **`jump_chain_correct`**: the chain is the walk, and without one nothing is connected to.
-/

namespace WaSSH.Ssh.JumpChain

open Hosts

/-- What the vault answers for a host. -/
structure Vault where
  password : String → Option String
  passphrase : String → Option String

inductive SshAuth
  | password (password : String)
  | private_key (path : String) (passphrase : Option String)
  | agent
  deriving DecidableEq

structure JumpHop where
  host : String
  port : ℕ
  username : String
  auth : SshAuth
  deriving DecidableEq

/-! ## The source -/

section Chain

variable (hosts : HostsDocument) (vault : Option Vault) (local_username : String)

/-- Credentials one jump hop authenticates with, taken from the vault. -/
def jump_auth (host : HostProfile) : Except String SshAuth :=
  match host.connection.auth with
  | .password =>
    let password := (vault.bind fun vault => vault.password host.id).getD ""
    if password = "" then
      .error s!"jump host '{host.display_name}' needs a saved password in its host settings"
    else .ok (.password password)
  | .private_key =>
    let path := host.connection.private_key_path.getD ""
    if Text.trim path.toList = [] then
      .error s!"jump host '{host.display_name}' has no private key configured"
    else
      .ok (.private_key path ((vault.bind fun vault => vault.passphrase host.id).filter (· ≠ "")))
  | .none => .ok .agent

def jump_hop (host : HostProfile) (auth : SshAuth) : JumpHop where
  host := host.connection.host
  port := host.connection.port
  username :=
    if Text.trim host.connection.username.toList = [] then local_username
    else host.connection.username
  auth := auth

/-- The loop: the next host, the hosts that were met, and the chain up to the last of them. -/
def follow (next : Option String) (seen : List String) (chain : List JumpHop) :
    Except String (List JumpHop) :=
  match next with
  | none => .ok chain
  | some id =>
    if id ∈ seen then .error "jump hosts form a loop"
    else if 8 < (id :: seen).length then .error "jump host chain is deeper than eight hops"
    else
      match hosts.host id with
      | none => .error s!"jump host '{id}' no longer exists"
      | some host =>
        match jump_auth vault host with
        | .error error => .error error
        | .ok auth =>
          follow host.connection.jump_host_id (id :: seen)
            (jump_hop local_username host auth :: chain)
termination_by 9 - seen.length
decreasing_by
  simp only [List.length_cons] at *
  omega

/-- Resolve the jump chain for `params`, outermost hop first. -/
def jump_chain (params : ConnectionParams) : Except String (List JumpHop) :=
  follow hosts vault local_username params.jump_host_id [] []

end Chain

/-! ## The walk -/

section Walk

variable {hosts : HostsDocument} {vault : Option Vault} {local_username : String}

/-- The hosts one comes by from a jump host on, the first one first. -/
inductive Follows (hosts : HostsDocument) : Option String → List HostProfile → Prop
  | last : Follows hosts none []
  | hop {id : String} {host : HostProfile} {visited : List HostProfile}
      (found : hosts.host id = some host)
      (rest : Follows hosts host.connection.jump_host_id visited) :
      Follows hosts (some id) (host :: visited)

/-- The credentials a hop can use without asking. -/
def credentials (vault : Option Vault) (host : HostProfile) : Option SshAuth :=
  match host.connection.auth with
  | .password =>
    ((vault.bind fun vault => vault.password host.id).filter (· ≠ "")).map .password
  | .private_key =>
    (host.connection.private_key_path.filter fun path => Text.trim path.toList ≠ []).map fun path =>
      .private_key path ((vault.bind fun vault => vault.passphrase host.id).filter (· ≠ ""))
  | .none => some .agent

/-- A hop of the chain, for a host with credentials. -/
def IsHop (vault : Option Vault) (local_username : String) (host : HostProfile) (hop : JumpHop) :
    Prop :=
  ∃ auth, credentials vault host = some auth ∧ hop = jump_hop local_username host auth

theorem jump_auth_ok_iff {host : HostProfile} {auth : SshAuth} :
    jump_auth vault host = .ok auth ↔ credentials vault host = some auth := by
  unfold jump_auth credentials
  cases host.connection.auth with
  | password =>
    cases vault.bind fun vault => vault.password host.id with
    | none => simp
    | some password => by_cases hempty : password = "" <;> simp [Option.filter, hempty]
  | private_key =>
    cases host.connection.private_key_path with
    | none => simp [show Text.trim [] = [] from rfl]
    | some path =>
      by_cases hblank : Text.trim path.toList = [] <;> simp [Option.filter, hblank]
  | none => simp

theorem host_id {id : String} {host : HostProfile} (h : hosts.host id = some host) :
    host.id = id := by
  simpa using List.find?_some h

/-- **The loop** follows the jump hosts as long as they are new, exist and have credentials. -/
theorem follow_ok_iff {next : Option String} {seen : List String} {chain result : List JumpHop}
    (hseen : seen.length ≤ 8) :
    follow hosts vault local_username next seen chain = .ok result ↔
      ∃ visited hops, Follows hosts next visited ∧ (visited.map HostProfile.id).Nodup ∧
        (∀ host ∈ visited, host.id ∉ seen) ∧ seen.length + visited.length ≤ 8 ∧
        List.Forall₂ (IsHop vault local_username) visited hops ∧
        result = hops.reverse ++ chain := by
  fun_induction follow hosts vault local_username next seen chain with
  | case1 seen chain =>
    constructor
    · intro h
      have hresult := Except.ok.inj h
      exact ⟨[], [], .last, .nil, fun _ hmem => absurd hmem List.not_mem_nil, hseen, .nil,
        hresult.symm⟩
    · rintro ⟨visited, hops, hwalk, -, -, -, hhops, rfl⟩
      cases hwalk
      cases hhops
      rfl
  | case2 seen chain id hloop =>
    refine iff_of_false nofun ?_
    rintro ⟨visited, hops, hwalk, -, hnew, -, -, -⟩
    cases hwalk with
    | hop found rest =>
    exact hnew _ List.mem_cons_self (by rwa [host_id found])
  | case3 seen chain id hnew hdeep =>
    refine iff_of_false nofun ?_
    rintro ⟨visited, hops, hwalk, -, -, hlength, -, -⟩
    cases hwalk with
    | hop found rest =>
    simp only [List.length_cons] at hdeep hlength
    omega
  | case4 seen chain id hnew hdeep hmissing =>
    refine iff_of_false nofun ?_
    rintro ⟨visited, hops, hwalk, -⟩
    cases hwalk with
    | hop found rest =>
    rw [hmissing] at found
    cases found
  | case5 seen chain id hnew hdeep host hfound error hauth =>
    refine iff_of_false nofun ?_
    rintro ⟨visited, hops, hwalk, -, -, -, hhops, -⟩
    cases hwalk with
    | hop found rest =>
    obtain rfl := Option.some.inj (hfound.symm.trans found)
    cases hhops with
    | cons hhop hrest =>
    obtain ⟨auth, hcredentials, -⟩ := hhop
    rw [jump_auth_ok_iff.mpr hcredentials] at hauth
    cases hauth
  | case6 seen chain id hnew hdeep host hfound auth hauth ih =>
    have hid := host_id hfound
    have hcredentials := jump_auth_ok_iff.mp hauth
    rw [ih (by simpa using hdeep)]
    constructor
    · rintro ⟨visited, hops, hwalk, hdistinct, hunseen, hlength, hhops, rfl⟩
      refine ⟨host :: visited, jump_hop local_username host auth :: hops, .hop hfound hwalk, ?_, ?_,
        ?_, .cons ⟨auth, hcredentials, rfl⟩ hhops, ?_⟩
      · refine List.nodup_cons.mpr ⟨fun hmem => ?_, hdistinct⟩
        obtain ⟨other, hother, heq⟩ := List.mem_map.mp hmem
        exact hunseen other hother (by rw [heq, hid]; exact List.mem_cons_self)
      · intro other hother hmem
        rcases List.mem_cons.mp hother with rfl | hother
        · exact hnew (hid ▸ hmem)
        · exact hunseen other hother (List.mem_cons_of_mem _ hmem)
      · simp only [List.length_cons] at hlength ⊢
        omega
      · rw [List.reverse_cons, List.append_assoc, List.singleton_append]
    · rintro ⟨visited, hops, hwalk, hdistinct, hunseen, hlength, hhops, rfl⟩
      cases hwalk with
      | hop found rest =>
      obtain rfl := Option.some.inj (hfound.symm.trans found)
      cases hhops with
      | cons hhop hrest =>
      obtain ⟨other, hother, rfl⟩ := hhop
      obtain rfl := Option.some.inj (hcredentials.symm.trans hother)
      obtain ⟨hfirst, hdistinct⟩ := List.nodup_cons.mp hdistinct
      refine ⟨_, _, rest, hdistinct, ?_, ?_, hrest, ?_⟩
      · intro other hmem hin
        rcases List.mem_cons.mp hin with heq | hin
        · exact hfirst (List.mem_map.mpr ⟨other, hmem, heq.trans hid.symm⟩)
        · exact hunseen other (List.mem_cons_of_mem _ hmem) hin
      · simp only [List.length_cons] at hlength ⊢
        omega
      · rw [List.reverse_cons, List.append_assoc, List.singleton_append]

end Walk

/-! ## The session -/

/-- What a session does about its transport. -/
inductive Attempt
  | refused (error : String)
  | probing (jumps : List JumpHop)
  | connecting (jumps : List JumpHop)

/-- The session connects to a host: to ask for its multiplexer, or for good. -/
def Attempt.Connects : Attempt → Prop
  | .refused _ => False
  | .probing _ | .connecting _ => True

/-- An SSH session, as far as it concerns the opening of its transport. -/
structure Entry where
  connection : ConnectionParams
  jumps : List JumpHop
  jump_error : Option String
  password : String
  awaiting_login : Bool := false

/-- What becomes of a session later. -/
inductive Event
  | restart (password : String)
  | submit_login (password : String)
  | retry_login

namespace Entry

variable (e : Entry)

/-- Start a connection, probing for tmux/screen first when the host asks for it. -/
def begin : Attempt :=
  match e.jump_error with
  | some error => .refused error
  | none => if e.connection.remote_session then .probing e.jumps else .connecting e.jumps

/-- A session that asks for its password in the terminal. -/
def prompt_login : Entry := { e with awaiting_login := true }

/-- The session at a restart, with the password it keeps where it is given none. -/
def restarted (password : String) : Entry :=
  { e with
    awaiting_login := false
    password := if password ≠ "" then password else e.password
    connection := e.connection.normalized }

/-- The session after an event, and what it does about its transport. -/
def handle : Event → Entry × Option Attempt
  | .restart password =>
    if (e.restarted password).connection.auth = .password ∧ (e.restarted password).password = "" then
      ((e.restarted password).prompt_login, none)
    else (e.restarted password, some (e.restarted password).begin)
  | .submit_login password =>
    if e.awaiting_login then
      ({ e with password, awaiting_login := false },
        some { e with password, awaiting_login := false }.begin)
    else (e, none)
  | .retry_login => (e.prompt_login, none)

end Entry

/-- What a session does about its transport over a run. -/
def Entry.attempts : Entry → List Event → List Attempt
  | _, [] => []
  | e, event :: events => (e.handle event).2.toList ++ (e.handle event).1.attempts events

section Open

variable (hosts : HostsDocument) (vault : Option Vault) (local_username : String)

/-- `start_ssh`: a session with its first attempt, or a message and no session. -/
def start_ssh (connection : ConnectionParams) (password : String) :
    Except String (Entry × Option Attempt) :=
  match jump_chain hosts vault local_username connection with
  | .error error => .error error
  | .ok jumps =>
    let e : Entry := { connection, jumps, jump_error := none, password }
    .ok (e, some e.begin)

/-- `open_ssh_prompt`: a session that asks for its password, or a message and no session. -/
def open_ssh_prompt (connection : ConnectionParams) : Except String (Entry × Option Attempt) :=
  match jump_chain hosts vault local_username connection with
  | .error error => .error error
  | .ok jumps =>
    let e : Entry := { connection, jumps, jump_error := none, password := "" }
    .ok (e.prompt_login, none)

/-- `restore_session`: the tab stays, and says why it cannot connect. -/
def restore_session (connection : ConnectionParams) (password : String) : Entry × Option Attempt :=
  let (jumps, jump_error) :=
    match jump_chain hosts vault local_username connection with
    | .ok jumps => (jumps, none)
    | .error error => ([], some error)
  let e : Entry := { connection, jumps, jump_error, password }
  if jump_error.isNone ∧ connection.auth = .password ∧ password = "" then (e.prompt_login, none)
  else (e, some e.begin)

end Open

theorem Entry.jump_error_handle (e : Entry) (event : Event) :
    (e.handle event).1.jump_error = e.jump_error := by
  cases event with
  | restart password =>
    dsimp only [handle]
    split <;> rfl
  | submit_login password =>
    dsimp only [handle]
    split <;> rfl
  | retry_login => rfl

theorem Entry.begin_refuses {e : Entry} {error : String} (h : e.jump_error = some error) :
    e.begin = .refused error := by
  unfold begin
  rw [h]

/-- **Step lemma**: a session without a chain refuses. -/
theorem Entry.handle_refuses {e : Entry} {error : String} (h : e.jump_error = some error)
    (event : Event) {attempt : Attempt} (hattempt : (e.handle event).2 = some attempt) :
    attempt = .refused error := by
  cases event with
  | restart password =>
    dsimp only [handle] at hattempt
    split at hattempt
    · cases hattempt
    · exact (Option.some.inj hattempt).symm.trans (begin_refuses h)
  | submit_login password =>
    dsimp only [handle] at hattempt
    split at hattempt
    · exact (Option.some.inj hattempt).symm.trans (begin_refuses h)
    · cases hattempt
  | retry_login => cases hattempt

/-- **Run lemma**: it refuses for ever. -/
theorem Entry.attempts_refuse {e : Entry} {error : String} (h : e.jump_error = some error)
    (events : List Event) : ∀ attempt ∈ e.attempts events, attempt = .refused error := by
  induction events generalizing e with
  | nil => exact fun attempt hmem => absurd hmem List.not_mem_nil
  | cons event events ih =>
    intro attempt hmem
    rcases List.mem_append.mp hmem with hmem | hmem
    · exact handle_refuses h event (Option.mem_toList.mp hmem)
    · exact ih ((e.jump_error_handle event).trans h) attempt hmem

end WaSSH.Ssh.JumpChain
