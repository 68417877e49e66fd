import WaSSH.Ssh.Session

/-!
# What a connection tells its tab

* `Story`: what a tab may be told of one connection; **`run_tells_a_story`**: the end is told once,
  and last;
* `relay`: what the shell loop does at one wake; **`shell_loop_relays`**: it hands everything on, in
  order, up to what ends it.
-/

namespace WaSSH.Ssh.Session

open Pump (SessionStatus SessionEnd SshEvent)
open Dialog (tell attempt)

variable (rounds wakes : ℕ)

/-! ## What the tab is told -/

/-- Told while the hops are reached and logged in to. -/
def LoggingIn : SshEvent → Prop
  | .status .authenticating | .host_key_prompt _ _ _ _ | .auth_prompt _ _ _ => True
  | _ => False

/-- Told while the connection is set up; the forwards say that it is connected before the shell
does. -/
def Setup (e : SshEvent) : Prop := LoggingIn e ∨ e = .status .connected

def IsData : SshEvent → Prop
  | .data _ => True
  | _ => False

/-- How far a connection comes. -/
inductive Ending
  | running
  | ended (ending : SessionEnd)
  | rejected (detail : String)
  | lost (error : NetError)
  deriving DecidableEq

/-- What is told of it, in the end. -/
def Ending.told : Ending → List SshEvent
  | .running => []
  | .ended ending => [.closed (exit_reason ending) ending]
  | .rejected detail => [.auth_failed detail]
  | .lost error =>
    [.error error.text, .closed (some error.text) (if error.disconnect then .closed else .failed)]

/-- What a tab may be told of one connection: the logins, where credentials may be rejected; the
rest of the setup; then, if the shell comes up, its output; and the end, once and last. Only a shell
ends by itself. -/
inductive Story : Ending → List SshEvent → Prop
  | rejected {detail : String} {logins : List SshEvent} (hlogins : ∀ e ∈ logins, LoggingIn e) :
    Story (.rejected detail) (.status .connecting :: (logins ++ (Ending.rejected detail).told))
  | setup {ending : Ending} {setup : List SshEvent} (hsetup : ∀ e ∈ setup, Setup e)
    (hending : ∀ e, ending ≠ .ended e) (hlogins : ∀ detail, ending ≠ .rejected detail) :
    Story ending (.status .connecting :: (setup ++ ending.told))
  | shell {ending : Ending} {setup data : List SshEvent} (hsetup : ∀ e ∈ setup, Setup e)
    (hdata : ∀ e ∈ data, IsData e) (hending : ∀ detail, ending ≠ .rejected detail) :
    Story ending
      (.status .connecting :: (setup ++ .status .connected :: (data ++ ending.told)))

/-- The failure is none of the login's. -/
def IsNet : Failure → Prop
  | .auth _ => False
  | .net _ => True

open Dialog (Says Fails says_bind says_pure says_fail says_hang says_tell says_foldlM fails_bind
  fails_pure fails_fail fails_hang fails_tell Outcome said runs_bind)

section Told

variable {P : SshEvent → Prop} {F : Failure → Prop} {α : Type} {path : List Endpoint}

theorem says_ask (c : Call) : (ask c).Says P := Dialog.says_ask c

theorem fails_ask (c : Call) : (ask c).Fails F := Dialog.fails_ask c

theorem says_context (text : String) (x : Except NetError α) : (context text x).Says P := by
  cases x with
  | ok a => exact says_pure a
  | error e => exact says_fail _

theorem fails_context (text : String) (x : Except NetError α) : (context text x).Fails IsNet := by
  cases x with
  | ok a => exact fails_pure a
  | error e => exact fails_fail trivial

/-- A call with its context says nothing. -/
theorem says_asked (c : Call) (f : Answer c → Talk α) (h : ∀ a, (f a).Says P) :
    (ask c >>= f).Says P := says_bind (says_ask c) h

theorem says_check_server_key (policy : HostKeyPolicy) (e : Endpoint) (fingerprint : String) :
    (check_server_key policy e fingerprint).Says LoggingIn := by
  cases policy with
  | accept_any => exact says_pure _
  | accept_new =>
    refine says_asked _ _ fun recorded => ?_
    cases recorded with
    | some recorded => exact says_pure _
    | none => exact says_asked _ _ fun _ => says_pure _
  | ask =>
    refine says_asked _ _ fun recorded => ?_
    split
    · exact says_pure _
    · refine says_bind (says_tell trivial) fun _ => says_asked _ _ fun answer => ?_
      match answer with
      | .reached true => exact says_asked _ _ fun _ => says_pure _
      | .reached false => exact says_pure _
      | .failed _ => exact says_pure _
      | .timed_out => exact says_pure _

theorem says_reach (policy : HostKeyPolicy) (path : List Endpoint) (e : Endpoint)
    (opening late : String) : (reach policy path e opening late).Says LoggingIn := by
  refine says_asked _ _ fun dialled => ?_
  match dialled with
  | .failed error => exact says_context opening _
  | .timed_out => exact says_fail _
  | .reached fingerprint =>
    refine says_bind (says_check_server_key policy e fingerprint) fun accepted => ?_
    match accepted with
    | none => exact says_fail _
    | some false => exact says_asked _ _ fun _ => says_context opening _
    | some true =>
      refine says_asked _ _ fun established => ?_
      match established with
      | .failed error => exact says_context opening _
      | .timed_out => exact says_fail _
      | .reached () => exact says_pure _

theorem says_try_identities (username : String) (hash : Option String) :
    ∀ identities, (try_identities path username hash identities).Says P
  | [] => says_pure _
  | identity :: identities => by
    refine says_asked _ _ fun answer => ?_
    match answer with
    | .ok true => exact says_pure _
    | .ok false => exact says_try_identities username hash identities
    | .error _ => exact says_try_identities username hash identities

theorem says_answer_rounds (response : Response) :
    (answer_rounds path rounds response).Says LoggingIn := by
  induction rounds generalizing response with
  | zero =>
    cases response with
    | success => exact says_pure _
    | failure => exact says_pure _
    | info_request name instructions prompts => exact says_hang
  | succ rounds ih =>
    cases response with
    | success => exact says_pure _
    | failure => exact says_pure _
    | info_request name instructions prompts =>
      refine says_bind (says_tell trivial) fun _ => says_asked _ _ fun answers => ?_
      match answers with
      | none => exact says_pure _
      | some answers => exact says_asked _ _ fun _ => says_bind (says_context _ _) ih

theorem says_try_login (username : String) (auth : SshAuth) :
    (try_login rounds path username auth).Says LoggingIn := by
  cases auth with
  | password password => exact says_asked _ _ fun _ => says_context _ _
  | private_key file passphrase =>
    exact says_asked _ _ fun _ => says_bind (says_context _ _) fun _ =>
      says_asked _ _ fun _ => says_bind (says_context _ _) fun _ =>
        says_asked _ _ fun _ => says_context _ _
  | agent =>
    refine says_asked _ _ fun _ => says_bind (says_context _ _) fun identities => ?_
    split
    · exact says_pure _
    · exact says_asked _ _ fun _ => says_bind (says_context _ _) fun _ =>
        says_try_identities username _ _
  | keyboard_interactive =>
    exact says_asked _ _ fun _ => says_bind (says_context _ _) fun response =>
      says_answer_rounds rounds response

theorem says_authenticate (username : String) (auth : SshAuth) :
    (authenticate rounds path username auth).Says LoggingIn := by
  refine says_bind (says_try_login rounds username auth) fun success => ?_
  split
  · exact says_pure _
  · exact says_fail _

theorem says_next_hop (policy : HostKeyPolicy) (path : List Endpoint) (hop : JumpHop) :
    (next_hop rounds policy path hop).Says LoggingIn :=
  says_bind (says_tell trivial) fun _ => says_asked _ _ fun _ =>
    says_bind (says_context _ _) fun _ => says_bind (says_reach _ _ _ _ _) fun _ =>
      says_bind (says_authenticate rounds _ _) fun _ => says_pure _

theorem says_connect_chain (options : SshOptions) : (connect_chain rounds options).Says LoggingIn := by
  unfold connect_chain
  split
  · exact says_bind (says_reach _ _ _ _ _) fun _ =>
      says_bind (says_authenticate rounds _ _) fun _ => says_pure _
  · exact says_bind (says_reach _ _ _ _ _) fun _ =>
      says_bind (says_authenticate rounds _ _) fun _ => says_foldlM (says_next_hop rounds _) _ _

theorem says_start_tunnels : ∀ requests, (start_tunnels path requests).Says Setup
  | [] => says_pure _
  | _ :: requests => says_asked _ _ fun _ => says_bind (says_tell (.inr rfl)) fun _ =>
      says_start_tunnels requests

theorem fails_start_tunnels : ∀ requests, (start_tunnels path requests).Fails F
  | [] => fails_pure _
  | _ :: requests => fails_bind (fails_ask _) fun _ => fails_bind (fails_tell _) fun _ =>
      fails_start_tunnels requests

theorem says_open_shell (options : SshOptions) : (open_shell options path).Says P := by
  refine says_asked _ _ fun _ => says_bind (says_context _ _) fun _ =>
    says_asked _ _ fun _ => says_bind (says_context _ _) fun _ => ?_
  split
  · exact says_asked _ _ fun _ => says_context _ _
  · exact says_asked _ _ fun _ => says_context _ _

theorem fails_open_shell (options : SshOptions) : (open_shell options path).Fails IsNet := by
  refine fails_bind (fails_ask _) fun _ => fails_bind (fails_context _ _) fun _ =>
    fails_bind (fails_ask _) fun _ => fails_bind (fails_context _ _) fun _ => ?_
  split
  · exact fails_bind (fails_ask _) fun _ => fails_context _ _
  · exact fails_bind (fails_ask _) fun _ => fails_context _ _

theorem says_log_in (options : SshOptions) : (log_in rounds options).Says LoggingIn :=
  says_bind (says_tell trivial) fun _ => says_connect_chain rounds options

theorem says_set_up (options : SshOptions) : (set_up options path).Says Setup :=
  says_bind (says_start_tunnels _) fun _ => says_open_shell options

theorem fails_set_up (options : SshOptions) : (set_up options path).Fails IsNet :=
  fails_bind (fails_start_tunnels _) fun _ => fails_open_shell options

theorem says_shell_loop : (shell_loop wakes).Says IsData := by
  induction wakes with
  | zero => exact says_hang
  | succ wakes ih =>
    refine says_asked _ _ fun wake => ?_
    match wake with
    | .command (some (.write bytes)) =>
      exact says_asked _ _ fun _ => says_bind (says_context _ _) fun _ => ih
    | .command (some (.resize cols rows)) =>
      exact says_asked _ _ fun _ => says_bind (says_context _ _) fun _ => ih
    | .command (some (.spawn task)) => exact says_asked _ _ fun _ => ih
    | .command (some .disconnect) => exact says_pure _
    | .command none => exact says_pure _
    | .message (some (.data data)) => exact says_bind (says_tell trivial) fun _ => ih
    | .message (some (.extended_data data)) => exact says_bind (says_tell trivial) fun _ => ih
    | .message (some (.exit_status status)) => exact says_pure _
    | .message (some .eof) => exact says_pure _
    | .message (some .close) => exact says_pure _
    | .message (some .other) => exact ih
    | .message none => exact says_pure _

theorem fails_shell_loop : (shell_loop wakes).Fails IsNet := by
  induction wakes with
  | zero => exact fails_hang
  | succ wakes ih =>
    refine fails_bind (fails_ask _) fun wake => ?_
    match wake with
    | .command (some (.write bytes)) =>
      exact fails_bind (fails_ask _) fun _ => fails_bind (fails_context _ _) fun _ => ih
    | .command (some (.resize cols rows)) =>
      exact fails_bind (fails_ask _) fun _ => fails_bind (fails_context _ _) fun _ => ih
    | .command (some (.spawn task)) => exact fails_bind (fails_ask _) fun _ => ih
    | .command (some .disconnect) => exact fails_pure _
    | .command none => exact fails_pure _
    | .message (some (.data data)) => exact fails_bind (fails_tell _) fun _ => ih
    | .message (some (.extended_data data)) => exact fails_bind (fails_tell _) fun _ => ih
    | .message (some (.exit_status status)) => exact fails_pure _
    | .message (some .eof) => exact fails_pure _
    | .message (some .close) => exact fails_pure _
    | .message (some .other) => exact ih
    | .message none => exact fails_pure _

theorem says_after_loop (path : List Endpoint) :
    (shell_loop wakes >>= fun ending => ask (.disconnect path) >>= fun _ => pure ending).Says
      IsData :=
  says_bind (says_shell_loop wakes) fun _ => says_asked _ _ fun _ => says_pure _

theorem fails_relay_shell (path : List Endpoint) : (relay_shell wakes path).Fails IsNet :=
  fails_bind (fails_tell _) fun _ => fails_bind (fails_shell_loop wakes) fun _ =>
    fails_bind (fails_ask _) fun _ => fails_pure _

/-- A shell that is up says so first. -/
theorem said_relay_shell {path : List Endpoint} {t : Trace} {o : Outcome Failure SessionEnd}
    (ht : (relay_shell wakes path).Runs t o) :
    ∃ data, (∀ e ∈ data, IsData e) ∧ said t = .status .connected :: data := by
  obtain ⟨o', hp, ho⟩ | ⟨t₁, t₂, _, rfl, hp, hk⟩ := runs_bind.mp ht
  · obtain ⟨_, rfl⟩ := Dialog.runs_tell.mp hp
    cases ho
  · obtain ⟨rfl, _⟩ := Dialog.runs_tell.mp hp
    exact ⟨said t₂, says_after_loop wakes path t₂ o hk, rfl⟩

end Told

/-! ### The story -/

/-- What comes of a run, for the tab. -/
def ending_of : Outcome Failure SessionEnd → Ending
  | .hung => .running
  | .returned ending => .ended ending
  | .failed (.auth detail) => .rejected detail
  | .failed (.net error) => .lost error

theorem runs_report {x : Except Failure SessionEnd} {o' : Outcome Failure SessionEnd}
    {t : Trace} {o : Outcome Failure Unit}
    (hx : o'.attempted = (.returned x : Outcome Failure (Except Failure SessionEnd)))
    (ht : (report x).Runs t o) : o = .returned () ∧ said t = (ending_of o').told := by
  cases o' with
  | hung => cases hx
  | returned ending =>
    cases hx
    obtain ⟨rfl, rfl⟩ := Dialog.runs_tell.mp ht
    exact ⟨rfl, rfl⟩
  | failed failure =>
    cases hx
    cases failure with
    | auth detail =>
      obtain ⟨rfl, rfl⟩ := Dialog.runs_tell.mp ht
      exact ⟨rfl, rfl⟩
    | net error =>
      obtain ⟨o'', hp, ho⟩ | ⟨t₁, t₂, _, rfl, hp, hk⟩ := runs_bind.mp ht
      · obtain ⟨_, rfl⟩ := Dialog.runs_tell.mp hp
        cases ho
      · obtain ⟨rfl, _⟩ := Dialog.runs_tell.mp hp
        obtain ⟨rfl, rfl⟩ := Dialog.runs_tell.mp hk
        exact ⟨rfl, rfl⟩

/-- Setup that is not followed by a shell. -/
theorem story_setup {α : Type} {setup : List SshEvent} {o' : Outcome Failure α}
    {o : Outcome Failure SessionEnd} (hsetup : ∀ e ∈ setup, Setup e) (ho : o'.cast = some o)
    (hnet : ∀ detail, o' ≠ .failed (.auth detail)) :
    Story (ending_of o) (.status .connecting :: (setup ++ (ending_of o).told)) := by
  cases o' with
  | returned path => cases ho
  | hung =>
    cases ho
    exact .setup hsetup (by simp [ending_of]) (by simp [ending_of])
  | failed failure =>
    cases ho
    cases failure with
    | auth detail => exact absurd rfl (hnet detail)
    | net error => exact .setup hsetup (by simp [ending_of]) (by simp [ending_of])

theorem story_connect_and_shell {options : SshOptions} {t : Trace}
    {o : Outcome Failure SessionEnd} (ht : (connect_and_shell rounds wakes options).Runs t o) :
    Story (ending_of o) (.status .connecting :: (said t ++ (ending_of o).told)) := by
  obtain ⟨o', hp, ho⟩ | ⟨t₁, t₂, path, rfl, hlogin, hset⟩ := runs_bind.mp ht
  · have hlogins : ∀ e ∈ said t, LoggingIn e := says_log_in rounds options t o' hp
    by_cases hauth : ∃ detail, o' = .failed (.auth detail)
    · obtain ⟨detail, rfl⟩ := hauth
      cases ho
      exact .rejected hlogins
    · exact story_setup (fun e he => .inl (hlogins e he)) ho fun detail hd => hauth ⟨detail, hd⟩
  have hlogins : ∀ e ∈ said t₁, Setup e := fun e he => .inl (says_log_in rounds options t₁ _ hlogin e he)
  obtain ⟨o', hp, ho⟩ | ⟨t₂, t₃, _, rfl, hp, hk⟩ := runs_bind.mp hset
  · have hsetup : ∀ e ∈ said t₂, Setup e := says_set_up options t₂ o' hp
    rw [Dialog.said_append]
    refine story_setup (fun e he => (List.mem_append.mp he).elim (hlogins e) (hsetup e)) ho ?_
    rintro detail rfl
    exact fails_set_up options t₂ _ hp
  · have hsetup : ∀ e ∈ said t₂, Setup e := says_set_up options t₂ _ hp
    obtain ⟨data, hdata, hsaid⟩ := said_relay_shell wakes hk
    have htold : said (t₁ ++ (t₂ ++ t₃)) ++ (ending_of o).told =
        (said t₁ ++ said t₂) ++ .status .connected :: (data ++ (ending_of o).told) := by
      simp [hsaid]
    rw [htold]
    refine .shell (fun e he => (List.mem_append.mp he).elim (hlogins e) (hsetup e)) hdata
      fun detail he => ?_
    cases o with
    | returned ending => cases he
    | hung => cases he
    | failed failure =>
      cases failure with
      | auth detail => exact fails_relay_shell wakes path t₃ _ hk
      | net error => cases he

/-- **One story.** Whatever the network, the user and the tab do, the tab is told one of the stories
of a connection, and it is told the end exactly when the connection's thread is done. -/
theorem run_tells_a_story {options : SshOptions} {t : Trace} {o : Outcome Failure Unit}
    (ht : (run rounds wakes options).Runs t o) :
    ∃ ending, Story ending (said t) ∧ o = if ending = .running then .hung else .returned () := by
  obtain ⟨o', hp, ho⟩ | ⟨t₁, t₂, _, rfl, hp, hk⟩ := runs_bind.mp ht
  · obtain ⟨_, rfl⟩ := Dialog.runs_tell.mp hp
    cases ho
  obtain ⟨rfl, _⟩ := Dialog.runs_tell.mp hp
  obtain ⟨o', hp, ho⟩ | ⟨t₂, t₃, x, rfl, hp, hk⟩ := runs_bind.mp hk
  · obtain ⟨o'', hshell, rfl⟩ := Dialog.runs_attempt.mp hp
    have hstory := story_connect_and_shell rounds wakes hshell
    cases o'' with
    | returned ending => cases ho
    | failed failure => cases ho
    | hung =>
      cases ho
      refine ⟨.running, ?_, rfl⟩
      simpa [ending_of, Ending.told] using hstory
  · obtain ⟨o'', hshell, hx⟩ := Dialog.runs_attempt.mp hp
    have hstory := story_connect_and_shell rounds wakes hshell
    obtain ⟨rfl, htold⟩ := runs_report hx.symm hk
    refine ⟨ending_of o'', ?_, ?_⟩
    · simpa [htold] using hstory
    · cases o'' with
      | returned ending => rfl
      | hung => cases hx
      | failed failure => cases failure <;> rfl

theorem visit_tells_a_story : ∃ ending, Story ending (Dialog.said visit) ∧
    (.returned () : Outcome Failure Unit) = if ending = .running then .hung else .returned () :=
  run_tells_a_story 0 2 visit_runs

/-! ## What the shell loop relays -/

/-- The wake ends the loop. -/
def Wake.ends : Wake → Option SessionEnd
  | .command (some .disconnect) | .command none => some .requested
  | .message (some (.exit_status status)) => some (.exited status.toNat)
  | .message (some .eof) | .message (some .close) => some .closed
  | .message none => some .failed
  | _ => none

/-- What the loop asks after the wake. -/
def Wake.asks : Wake → Option Call
  | .command (some (.write bytes)) => some (.data bytes)
  | .command (some (.resize cols rows)) => some (.window_change cols rows)
  | .command (some (.spawn task)) => some (.spawn task)
  | _ => none

/-- What happens at a wake that does not end the loop, when all goes well. -/
def relay (wake : Wake) : Trace :=
  .called .wake wake ::
    match wake with
    | .command (some (.write bytes)) => [.called (.data bytes) (.ok ())]
    | .command (some (.resize cols rows)) => [.called (.window_change cols rows) (.ok ())]
    | .command (some (.spawn task)) => [.called (.spawn task) ()]
    | .message (some (.data data)) | .message (some (.extended_data data)) => [.said (.data data)]
    | _ => []

/-- How the loop can come to its end, or be seen on its way. -/
inductive Last : Trace → Outcome Failure SessionEnd → Prop
  | ended {wake : Wake} {ending : SessionEnd} (h : wake.ends = some ending) :
    Last [.called .wake wake] (.returned ending)
  | looping : Last [] .hung
  | waiting : Last [.unanswered .wake] .hung
  | asking {wake : Wake} {c : Call} (h : wake.asks = some c) :
    Last [.called .wake wake, .unanswered c] .hung
  | write_failed (bytes : List UInt8) (e : NetError) :
    Last [.called .wake (.command (some (.write bytes))), .called (.data bytes) (.error e)]
      (.failed (.net ⟨"writing to the channel" ++ ": " ++ e.text, e.disconnect⟩))
  | resize_failed (cols rows : UInt16) (e : NetError) :
    Last [.called .wake (.command (some (.resize cols rows))),
        .called (.window_change cols rows) (.error e)]
      (.failed (.net ⟨"resizing the remote PTY" ++ ": " ++ e.text, e.disconnect⟩))

/-- The loop after the wakes `ws`. -/
def Relays (t : Trace) (o : Outcome Failure SessionEnd) : Prop :=
  ∃ (ws : List Wake) (rest : Trace), t = ws.flatMap relay ++ rest ∧ (∀ w ∈ ws, w.ends = none) ∧
    Last rest o

theorem Relays.cons {w : Wake} (hw : w.ends = none) {t : Trace} {o : Outcome Failure SessionEnd}
    (ht : Relays t o) : Relays (relay w ++ t) o := by
  obtain ⟨ws, rest, rfl, hws, hlast⟩ := ht
  refine ⟨w :: ws, rest, by simp, ?_, hlast⟩
  exact List.forall_mem_cons.mpr ⟨hw, hws⟩

theorem Last.relays {t : Trace} {o : Outcome Failure SessionEnd} (h : Last t o) : Relays t o :=
  ⟨[], t, rfl, fun _ hw => absurd hw List.not_mem_nil, h⟩

/-- **The loop relays.** Whatever wakes the loop: it writes to the channel what the tab sends, in
order, resizes, spawns, and tells the tab the data that comes, in order, all of it up to the first
wake that ends it, or the first write that fails, and nothing after it. -/
theorem shell_loop_relays {t : Trace} {o : Outcome Failure SessionEnd}
    (ht : (shell_loop wakes).Runs t o) : Relays t o := by
  induction wakes generalizing t with
  | zero =>
    obtain ⟨rfl, rfl⟩ := ht
    exact Last.looping.relays
  | succ wakes ih =>
    obtain ⟨rfl, rfl⟩ | ⟨wake, t, rfl, hwoken⟩ := runs_asked.mp ht
    · exact Last.waiting.relays
    match wake, hwoken with
    | .command (some (.write bytes)), hwoken =>
      obtain ⟨rfl, rfl⟩ | ⟨sent, t, rfl, hsent⟩ := runs_asked.mp hwoken
      · exact (Last.asking rfl).relays
      · match sent, hsent with
        | .ok (), hsent => exact (ih hsent).cons (w := .command (some (.write bytes))) rfl
        | .error e, hsent =>
          obtain ⟨rfl, rfl⟩ := hsent
          exact (Last.write_failed bytes e).relays
    | .command (some (.resize cols rows)), hwoken =>
      obtain ⟨rfl, rfl⟩ | ⟨sent, t, rfl, hsent⟩ := runs_asked.mp hwoken
      · exact (Last.asking rfl).relays
      · match sent, hsent with
        | .ok (), hsent => exact (ih hsent).cons (w := .command (some (.resize cols rows))) rfl
        | .error e, hsent =>
          obtain ⟨rfl, rfl⟩ := hsent
          exact (Last.resize_failed cols rows e).relays
    | .command (some (.spawn task)), hwoken =>
      obtain ⟨rfl, rfl⟩ | ⟨_, t, rfl, hspawned⟩ := runs_asked.mp hwoken
      · exact (Last.asking rfl).relays
      · exact (ih hspawned).cons (w := .command (some (.spawn task))) rfl
    | .command (some .disconnect), hwoken =>
      obtain ⟨rfl, rfl⟩ := hwoken
      exact (Last.ended rfl).relays
    | .command none, hwoken =>
      obtain ⟨rfl, rfl⟩ := hwoken
      exact (Last.ended rfl).relays
    | .message (some (.data data)), hwoken =>
      obtain ⟨t, rfl, htold⟩ := hwoken
      exact (ih htold).cons (w := .message (some (.data data))) rfl
    | .message (some (.extended_data data)), hwoken =>
      obtain ⟨t, rfl, htold⟩ := hwoken
      exact (ih htold).cons (w := .message (some (.extended_data data))) rfl
    | .message (some (.exit_status status)), hwoken =>
      obtain ⟨rfl, rfl⟩ := hwoken
      exact (Last.ended rfl).relays
    | .message (some .eof), hwoken =>
      obtain ⟨rfl, rfl⟩ := hwoken
      exact (Last.ended rfl).relays
    | .message (some .close), hwoken =>
      obtain ⟨rfl, rfl⟩ := hwoken
      exact (Last.ended rfl).relays
    | .message (some .other), hwoken => exact (ih hwoken).cons (w := .message (some .other)) rfl
    | .message none, hwoken =>
      obtain ⟨rfl, rfl⟩ := hwoken
      exact (Last.ended rfl).relays

theorem visit_relays : Relays [.called .wake (.message (some (.data [104, 105]))),
    .said (.data [104, 105]), .called .wake (.message (some (.exit_status 0)))]
    (.returned (.exited 0)) :=
  shell_loop_relays 2 (.inr ⟨_, _, rfl, _, rfl, .inr ⟨_, _, rfl, rfl, rfl⟩⟩)

end WaSSH.Ssh.Session
