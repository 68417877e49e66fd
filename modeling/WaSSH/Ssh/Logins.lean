import WaSSH.Ssh.Session

/-!
# Where credentials go

* `Granted`, `KeyAccepted`, `Through`: what a history shows;
* `Offered`, `Allowed`: where a handshake may go on and a login may be tried;
* `Careful`: a program takes allowed steps only; one lemma for each part of the connection;
* **`run_offers`**: the credentials of a hop go to that hop only, through the hops before it, after
  its key was accepted.
-/

namespace WaSSH.Ssh.Session

open Pump (SessionStatus SessionEnd SshEvent)
open Dialog (tell attempt Outcome runs_bind)

variable (rounds wakes : ℕ)

/-! ## What a history shows -/

/-- The connection a login call goes to. -/
def Call.login? : Call → Option (List Endpoint)
  | .password path _ _ | .publickey path _ _ _ | .publickey_with path _ _ _
  | .keyboard_interactive_start path _ | .keyboard_interactive_respond path _ => some path
  | _ => none

/-- A login call is the hop's own: its user name, and its way to log in. -/
def Call.IsOf (hop : JumpHop) : Call → Prop
  | .password _ username secret => username = hop.username ∧ hop.auth = .password secret
  | .publickey _ username _ _ =>
    username = hop.username ∧ ∃ file passphrase, hop.auth = .private_key file passphrase
  | .publickey_with _ username _ _ => username = hop.username ∧ hop.auth = .agent
  | .keyboard_interactive_start _ username =>
    username = hop.username ∧ hop.auth = .keyboard_interactive
  | .keyboard_interactive_respond _ _ => hop.auth = .keyboard_interactive
  | _ => True

/-- The login at the end of this path succeeded. -/
def Granted (h : Trace) (path : List Endpoint) : Prop :=
  (∃ username password, .called (.password path username password) (.ok true) ∈ h) ∨
    (∃ username key hash, .called (.publickey path username key hash) (.ok true) ∈ h) ∨
    (∃ username key hash, .called (.publickey_with path username key hash) (.ok true) ∈ h) ∨
    (∃ username, .called (.keyboard_interactive_start path username) (.ok .success) ∈ h) ∨
    ∃ answers, .called (.keyboard_interactive_respond path answers) (.ok .success) ∈ h

/-- The key that the end of this path showed was accepted: by the policy, by the record, or by the
user. -/
def KeyAccepted (policy : HostKeyPolicy) (h : Trace) (path : List Endpoint) (e : Endpoint) : Prop :=
  ∃ fingerprint, .called (.dial path) (.reached fingerprint) ∈ h ∧
    (policy = .accept_any ∨ .called (.known e) (some fingerprint) ∈ h ∨
      (policy = .accept_new ∧ .called (.known e) none ∈ h) ∨
      (policy = .ask ∧ .called .decision (.reached true) ∈ h))

/-- The logins at these hops all succeeded, each through the ones before it. -/
def Through (h : Trace) (hops : List JumpHop) : Prop :=
  ∀ passed, passed ≠ [] → passed <+: hops → Granted h (passed.map (·.endpoint))

/-- The hop at the end of the path, behind the hops `passed`. -/
def Offered (options : SshOptions) (h : Trace) (path : List Endpoint) (hop : JumpHop) : Prop :=
  ∃ passed, passed ++ [hop] <+: options.hops ∧ path = (passed ++ [hop]).map (·.endpoint) ∧
    Through h passed

/-- What a step may be: a handshake goes on only once the key is accepted, and a login is offered
only to its own hop, once the handshake is done; both only behind hops that let one in. -/
def Allowed (options : SshOptions) (h : Trace) (step : Dialog.Step Call Answer SshEvent) : Prop :=
  (∀ path, step.call? = some (.establish path) → ∃ hop, Offered options h path hop ∧
    KeyAccepted options.host_key_policy h path hop.endpoint) ∧
  ∀ c path, step.call? = some c → c.login? = some path → ∃ hop, Offered options h path hop ∧
    c.IsOf hop ∧ .called (.establish path) (.reached ()) ∈ h

/-- After the history `h`, the program takes allowed steps only. -/
abbrev Careful {α : Type} (options : SshOptions) (h : Trace) (p : Talk α) : Prop :=
  Dialog.Safe (Allowed options) h p

section Careful

open Dialog (safe_bind)

variable {options : SshOptions} {h : Trace} {α β : Type}

theorem Granted.mono {path : List Endpoint} {h' : Trace} (hg : Granted h path) (hsub : h ⊆ h') :
    Granted h' path := by
  obtain ⟨u, p, hm⟩ | ⟨u, k, r, hm⟩ | ⟨u, k, r, hm⟩ | ⟨u, hm⟩ | ⟨r, hm⟩ := hg
  · exact .inl ⟨u, p, hsub hm⟩
  · exact .inr (.inl ⟨u, k, r, hsub hm⟩)
  · exact .inr (.inr (.inl ⟨u, k, r, hsub hm⟩))
  · exact .inr (.inr (.inr (.inl ⟨u, hsub hm⟩)))
  · exact .inr (.inr (.inr (.inr ⟨r, hsub hm⟩)))

theorem Through.mono {hops : List JumpHop} {h' : Trace} (hg : Through h hops) (hsub : h ⊆ h') :
    Through h' hops := fun passed hne hpre => (hg passed hne hpre).mono hsub

theorem through_nil : Through h [] := fun _ hne hpre => absurd (List.prefix_nil.mp hpre) hne

theorem Through.concat {hops : List JumpHop} {hop : JumpHop} (hg : Through h hops)
    (hlast : Granted h ((hops ++ [hop]).map (·.endpoint))) : Through h (hops ++ [hop]) := by
  intro passed hne hpre
  obtain rfl | hpre := List.prefix_concat_iff.mp hpre
  · exact hlast
  · exact hg passed hne hpre

theorem Offered.mono {path : List Endpoint} {hop : JumpHop} {h' : Trace}
    (ho : Offered options h path hop) (hsub : h ⊆ h') : Offered options h' path hop := by
  obtain ⟨passed, hpre, hpath, hthrough⟩ := ho
  exact ⟨passed, hpre, hpath, hthrough.mono hsub⟩

/-- The call is neither a handshake nor a login. -/
def Call.Plain (c : Call) : Prop := c.login? = none ∧ ∀ path, c ≠ .establish path

theorem allowed_said (e : SshEvent) : Allowed options h (.said e) :=
  ⟨fun _ hc => (Option.some_ne_none _ hc.symm).elim,
    fun _ _ hc => (Option.some_ne_none _ hc.symm).elim⟩

theorem allowed_of_plain {step : Dialog.Step Call Answer SshEvent} {c : Call}
    (hstep : step.call? = some c) (hc : c.Plain) : Allowed options h step := by
  refine ⟨fun path hp => ?_, fun c' path hc' hp => ?_⟩
  · rw [hstep] at hp
    exact absurd (Option.some.inj hp) (hc.2 path)
  · rw [hstep] at hc'
    obtain rfl := Option.some.inj hc'
    rw [hc.1] at hp
    cases hp

/-- A call that is neither, and what follows it. -/
theorem safe_plain {c : Call} {k : Answer c → Talk α} (hc : c.Plain)
    (hk : ∀ a, Careful options (h ++ [.called c a]) (k a)) :
    Careful options h (ask c >>= k) :=
  ⟨allowed_of_plain rfl hc, fun a => ⟨allowed_of_plain rfl hc, hk a⟩⟩

theorem safe_tell {e : SshEvent} {k : Unit → Talk α}
    (hk : Careful options (h ++ [.said e]) (k ())) :
    Careful options h (tell e >>= k) := ⟨allowed_said e, hk⟩

theorem safe_context (text : String) (x : Except NetError α) :
    Careful options h (context text x) := by
  cases x <;> trivial

/-- What is done with the answer, where it is one. -/
theorem safe_context_bind {text : String} {x : Except NetError α} {k : α → Talk β}
    (hk : ∀ a, x = .ok a → Careful options h (k a)) :
    Careful options h (context text x >>= k) := by
  cases x with
  | ok a => exact hk a rfl
  | error e => trivial

/-! ### Each part is careful -/

theorem careful_check_server_key (policy : HostKeyPolicy) (e : Endpoint) (fingerprint : String) :
    Careful options h (check_server_key policy e fingerprint) := by
  cases policy with
  | accept_any => trivial
  | accept_new =>
    refine safe_plain ⟨rfl, by simp⟩ fun recorded => ?_
    cases recorded with
    | some recorded => trivial
    | none => exact safe_plain ⟨rfl, by simp⟩ fun _ => trivial
  | ask =>
    refine safe_plain ⟨rfl, by simp⟩ fun recorded => ?_
    split
    · trivial
    · refine safe_tell (safe_plain ⟨rfl, by simp⟩ fun answer => ?_)
      match answer with
      | .reached true => exact safe_plain ⟨rfl, by simp⟩ fun _ => trivial
      | .reached false => trivial
      | .failed _ => trivial
      | .timed_out => trivial

/-- What a run that returns was answered first. -/
theorem returned_asked {c : Call} {k : Answer c → Talk α} {t : Trace} {b : α}
    (ht : (ask c >>= k).Runs t (.returned b)) :
    ∃ (a : Answer c) (t' : Trace), t = .called c a :: t' ∧ (k a).Runs t' (.returned b) := by
  obtain ⟨_, ho⟩ | h := runs_asked.mp ht
  · cases ho
  · exact h

theorem returned_bind {p : Talk α} {k : α → Talk β} {t : Trace} {b : β}
    (ht : (p >>= k).Runs t (.returned b)) :
    ∃ t₁ t₂ a, t = t₁ ++ t₂ ∧ p.Runs t₁ (.returned a) ∧ (k a).Runs t₂ (.returned b) := by
  obtain ⟨o', _, ho⟩ | h := runs_bind.mp ht
  · cases o' <;> cases ho
  · exact h

theorem returned_context {text : String} {x : Except NetError α} {k : α → Talk β} {t : Trace}
    {b : β} (ht : (context text x >>= k).Runs t (.returned b)) :
    ∃ a, x = .ok a ∧ (k a).Runs t (.returned b) := by
  cases x with
  | ok a => exact ⟨a, rfl, ht⟩
  | error e => exact absurd ht.2 (by simp)

/-- An accepted key was accepted for a reason. -/
theorem key_accepted {policy : HostKeyPolicy} {e : Endpoint} {fingerprint : String} {t : Trace}
    (ht : (check_server_key policy e fingerprint).Runs t (.returned (some true))) :
    policy = .accept_any ∨ .called (.known e) (some fingerprint) ∈ t ∨
      (policy = .accept_new ∧ .called (.known e) none ∈ t) ∨
      (policy = .ask ∧ .called .decision (.reached true) ∈ t) := by
  cases policy with
  | accept_any => exact .inl rfl
  | accept_new =>
    obtain ⟨recorded, t, rfl, hknown⟩ := returned_asked ht
    cases recorded with
    | some recorded =>
      have hsame : true = decide (recorded = fingerprint) :=
        Option.some.inj (Outcome.returned.inj hknown.2)
      rw [of_decide_eq_true hsame.symm]
      exact .inr (.inl List.mem_cons_self)
    | none => exact .inr (.inr (.inl ⟨rfl, List.mem_cons_self⟩))
  | ask =>
    obtain ⟨recorded, t, rfl, hknown⟩ := returned_asked ht
    split at hknown
    · rename_i hrecorded
      subst hrecorded
      exact .inr (.inl List.mem_cons_self)
    · obtain ⟨t₁, t₂, _, rfl, _, hprompted⟩ := returned_bind hknown
      obtain ⟨answer, t₂, rfl, hanswered⟩ := returned_asked hprompted
      match answer, hanswered with
      | .reached true, _ => exact .inr (.inr (.inr ⟨rfl, by simp⟩))
      | .reached false, hanswered => exact absurd hanswered.2 (by simp)
      | .failed _, hanswered => exact absurd hanswered.2 (by simp)
      | .timed_out, hanswered => exact absurd hanswered.2 (by simp)

theorem careful_reach {path : List Endpoint} {hop : JumpHop} (ho : Offered options h path hop)
    (opening late : String) :
    Careful options h (reach options.host_key_policy path hop.endpoint opening late) := by
  refine safe_plain ⟨rfl, by simp⟩ fun dialled => ?_
  match dialled with
  | .failed error => exact safe_context opening (.error error)
  | .timed_out => trivial
  | .reached fingerprint =>
    refine safe_bind (careful_check_server_key _ _ _) fun t accepted ht => ?_
    match accepted, ht with
    | none, _ => trivial
    | some false, _ => exact safe_plain ⟨rfl, by simp⟩ fun error => safe_context opening (.error error)
    | some true, ht =>
      have hallowed : ∀ step : Dialog.Step Call Answer SshEvent,
          step.call? = some (.establish path) →
          Allowed options (h ++ [.called (.dial path) (.reached fingerprint)] ++ t) step := by
        intro step hstep
        refine ⟨fun path' hp => ?_, fun c path' hc hp => ?_⟩
        · rw [hstep] at hp
          cases hp
          refine ⟨hop, ho.mono (by simp), fingerprint, by simp, ?_⟩
          obtain hany | hknown | ⟨hnew, hnone⟩ | ⟨hask, hyes⟩ := key_accepted ht
          · exact .inl hany
          · exact .inr (.inl (List.mem_append_right _ hknown))
          · exact .inr (.inr (.inl ⟨hnew, List.mem_append_right _ hnone⟩))
          · exact .inr (.inr (.inr ⟨hask, List.mem_append_right _ hyes⟩))
        · rw [hstep] at hc
          cases hc
          cases hp
      refine ⟨hallowed _ rfl, fun established => ⟨hallowed _ rfl, ?_⟩⟩
      match established with
      | .failed error => exact safe_context opening (.error error)
      | .timed_out => trivial
      | .reached () => trivial

/-- A handshake that is done is done. -/
theorem reach_done {policy : HostKeyPolicy} {path : List Endpoint} {e : Endpoint}
    {opening late : String} {t : Trace}
    (ht : (reach policy path e opening late).Runs t (.returned ())) :
    .called (.establish path) (.reached ()) ∈ t := by
  obtain ⟨dialled, t, rfl, hdialled⟩ := returned_asked ht
  match dialled, hdialled with
  | .failed error, hdialled => exact absurd hdialled.2 (by simp)
  | .timed_out, hdialled => exact absurd hdialled.2 (by simp)
  | .reached fingerprint, hdialled =>
    obtain ⟨t₁, t₂, accepted, rfl, _, hchecked⟩ := returned_bind hdialled
    match accepted, hchecked with
    | none, hchecked => exact absurd hchecked.2 (by simp)
    | some false, hchecked =>
      obtain ⟨_, t₂, rfl, hrefused⟩ := returned_asked hchecked
      exact absurd hrefused.2 (by simp)
    | some true, hchecked =>
      obtain ⟨established, t₂, rfl, hdone⟩ := returned_asked hchecked
      match established, hdone with
      | .failed error, hdone => exact absurd hdone.2 (by simp)
      | .timed_out, hdone => exact absurd hdone.2 (by simp)
      | .reached (), _ => simp

/-- A login call, and what follows it. -/
theorem safe_login {c : Call} {path : List Endpoint} {hop : JumpHop} {k : Answer c → Talk α}
    (hc : c.login? = some path) (hof : c.IsOf hop) (ho : Offered options h path hop)
    (hdone : .called (.establish path) (.reached ()) ∈ h)
    (hk : ∀ a, Careful options (h ++ [.called c a]) (k a)) :
    Careful options h (ask c >>= k) := by
  have hallowed : ∀ step : Dialog.Step Call Answer SshEvent, step.call? = some c →
      Allowed options h step := by
    intro step hstep
    refine ⟨fun path' hp => ?_, fun c' path' hc' hp => ?_⟩
    · rw [hstep] at hp
      cases hp
      cases hc
    · rw [hstep] at hc'
      cases hc'
      rw [hc] at hp
      cases hp
      exact ⟨hop, ho, hof, hdone⟩
  exact ⟨hallowed _ rfl, fun a => ⟨hallowed _ rfl, hk a⟩⟩

section Login

variable {path : List Endpoint} {hop : JumpHop}

theorem careful_try_identities (hash : Option String) (hauth : hop.auth = .agent) :
    ∀ (identities : List String) {h : Trace}, Offered options h path hop →
      .called (.establish path) (.reached ()) ∈ h →
      Careful options h (try_identities path hop.username hash identities)
  | [], _, _, _ => trivial
  | identity :: identities, h, ho, hdone => by
    refine safe_login rfl ⟨rfl, hauth⟩ ho hdone fun answer => ?_
    match answer with
    | .ok true => trivial
    | .ok false =>
      exact careful_try_identities hash hauth identities (ho.mono (by simp)) (by simp [hdone])
    | .error _ =>
      exact careful_try_identities hash hauth identities (ho.mono (by simp)) (by simp [hdone])

theorem careful_answer_rounds (hauth : hop.auth = .keyboard_interactive) (response : Response)
    (ho : Offered options h path hop) (hdone : .called (.establish path) (.reached ()) ∈ h) :
    Careful options h (answer_rounds path rounds response) := by
  induction rounds generalizing response h with
  | zero => cases response <;> trivial
  | succ rounds ih =>
    cases response with
    | success => trivial
    | failure => trivial
    | info_request name instructions prompts =>
      refine safe_tell (safe_plain ⟨rfl, by simp⟩ fun answers => ?_)
      match answers with
      | none => trivial
      | some answers =>
        refine safe_login rfl hauth (ho.mono (by simp)) (by simp [hdone]) fun answer => ?_
        exact safe_context_bind fun response _ => ih response (ho.mono (by simp)) (by simp [hdone])

theorem careful_try_login (ho : Offered options h path hop)
    (hdone : .called (.establish path) (.reached ()) ∈ h) :
    Careful options h (try_login rounds path hop.username hop.auth) := by
  cases hauth : hop.auth with
  | password password =>
    exact safe_login rfl ⟨rfl, hauth⟩ ho hdone fun answer => safe_context _ _
  | private_key file passphrase =>
    refine safe_plain ⟨rfl, by simp⟩ fun _ => safe_context_bind fun key _ => ?_
    refine safe_plain ⟨rfl, by simp⟩ fun _ => safe_context_bind fun hash _ => ?_
    refine safe_login rfl ⟨rfl, file, passphrase, hauth⟩ (ho.mono (by simp)) (by simp [hdone])
      fun _ => safe_context _ _
  | agent =>
    refine safe_plain ⟨rfl, by simp⟩ fun _ => safe_context_bind fun identities _ => ?_
    split
    · trivial
    · refine safe_plain ⟨rfl, by simp⟩ fun _ => safe_context_bind fun hash _ => ?_
      exact careful_try_identities hash hauth _ (ho.mono (by simp)) (by simp [hdone])
  | keyboard_interactive =>
    refine safe_login rfl ⟨rfl, hauth⟩ ho hdone fun _ => safe_context_bind fun response _ => ?_
    exact careful_answer_rounds rounds hauth response (ho.mono (by simp)) (by simp [hdone])

theorem granted_try_identities {username : String} {hash : Option String} {t : Trace} :
    ∀ {identities : List String},
      (try_identities path username hash identities).Runs t (.returned true) → Granted t path
  | [], ht => absurd ht.2 (by simp)
  | identity :: identities, ht => by
    obtain ⟨answer, t', rfl, hanswer⟩ := returned_asked ht
    match answer, hanswer with
    | .ok true, _ => exact .inr (.inr (.inl ⟨username, identity, hash, List.mem_cons_self⟩))
    | .ok false, hanswer =>
      exact (granted_try_identities hanswer).mono (List.subset_cons_self _ _)
    | .error _, hanswer =>
      exact (granted_try_identities hanswer).mono (List.subset_cons_self _ _)

theorem granted_answer_rounds {response : Response} {t : Trace}
    (ht : (answer_rounds path rounds response).Runs t (.returned true)) :
    response = .success ∨ Granted t path := by
  induction rounds generalizing response t with
  | zero =>
    cases response with
    | success => exact .inl rfl
    | failure => exact absurd ht.2 (by simp)
    | info_request name instructions prompts => exact absurd ht.2 (by simp)
  | succ rounds ih =>
    cases response with
    | success => exact .inl rfl
    | failure => exact absurd ht.2 (by simp)
    | info_request name instructions prompts =>
      obtain ⟨t₁, t₂, _, rfl, _, hprompted⟩ := returned_bind ht
      obtain ⟨answers, t₂, rfl, hanswered⟩ := returned_asked hprompted
      match answers, hanswered with
      | none, hanswered => exact absurd hanswered.2 (by simp)
      | some answers, hanswered =>
        obtain ⟨answer, t₂, rfl, hresponse⟩ := returned_asked hanswered
        obtain ⟨response, rfl, hrounds⟩ := returned_context hresponse
        obtain rfl | hgranted := ih hrounds
        · exact .inr (.inr (.inr (.inr (.inr ⟨answers, by simp⟩))))
        · refine .inr (hgranted.mono ?_)
          intro step hstep
          simp [hstep]

/-- A login that succeeds was granted. -/
theorem granted_try_login {username : String} {auth : SshAuth} {t : Trace}
    (ht : (try_login rounds path username auth).Runs t (.returned true)) : Granted t path := by
  cases auth with
  | password password =>
    obtain ⟨answer, t, rfl, hanswer⟩ := returned_asked ht
    match answer, hanswer with
    | .ok true, _ => exact .inl ⟨username, password, List.mem_cons_self⟩
    | .ok false, hanswer => exact absurd hanswer.2 (by simp)
    | .error _, hanswer => exact absurd hanswer.2 (by simp)
  | private_key file passphrase =>
    obtain ⟨_, t, rfl, hloaded⟩ := returned_asked ht
    obtain ⟨key, rfl, hloaded⟩ := returned_context hloaded
    obtain ⟨_, t, rfl, hhash⟩ := returned_asked hloaded
    obtain ⟨hash, rfl, hhash⟩ := returned_context hhash
    obtain ⟨answer, t, rfl, hanswer⟩ := returned_asked hhash
    match answer, hanswer with
    | .ok true, _ => exact .inr (.inl ⟨username, key, hash, by simp⟩)
    | .ok false, hanswer => exact absurd hanswer.2 (by simp)
    | .error _, hanswer => exact absurd hanswer.2 (by simp)
  | agent =>
    obtain ⟨_, t, rfl, hlisted⟩ := returned_asked ht
    obtain ⟨identities, rfl, htried⟩ := returned_context hlisted
    split at htried
    · exact absurd htried.2 (by simp)
    · obtain ⟨_, t, rfl, hhash⟩ := returned_asked htried
      obtain ⟨hash, rfl, hhash⟩ := returned_context hhash
      refine (granted_try_identities hhash).mono ?_
      intro step hstep
      simp [hstep]
  | keyboard_interactive =>
    obtain ⟨_, t, rfl, hstarted⟩ := returned_asked ht
    obtain ⟨response, rfl, hstarted⟩ := returned_context hstarted
    obtain rfl | hgranted := granted_answer_rounds rounds hstarted
    · exact .inr (.inr (.inr (.inl ⟨username, List.mem_cons_self⟩)))
    · exact hgranted.mono (List.subset_cons_self _ _)

theorem careful_authenticate (ho : Offered options h path hop)
    (hdone : .called (.establish path) (.reached ()) ∈ h) :
    Careful options h (authenticate rounds path hop.username hop.auth) := by
  refine safe_bind (careful_try_login rounds ho hdone) fun _ success _ => ?_
  split <;> trivial

theorem granted_authenticate {username : String} {auth : SshAuth} {t : Trace}
    (ht : (authenticate rounds path username auth).Runs t (.returned ())) : Granted t path := by
  obtain ⟨t₁, t₂, success, rfl, hlogin, hsuccess⟩ := returned_bind ht
  cases success with
  | false => exact absurd hsuccess.2 (by simp)
  | true => exact (granted_try_login rounds hlogin).mono (List.subset_append_left _ _)

end Login

/-! ### The hops in turn -/

/-- The connections at these hops, one behind the other. -/
def hop_path (hops : List JumpHop) : List Endpoint := hops.map (·.endpoint)

theorem hop_path_concat (hops : List JumpHop) (hop : JumpHop) :
    hop_path (hops ++ [hop]) = hop_path hops ++ [hop.endpoint] := List.map_append

/-- Reach a hop and log in there. -/
theorem careful_hop {passed : List JumpHop} {hop : JumpHop} (hpre : passed ++ [hop] <+: options.hops)
    (hthrough : Through h passed) (opening late : String) {k : Talk α}
    (hk : ∀ t, Through (h ++ t) (passed ++ [hop]) → Careful options (h ++ t) k) :
    Careful options h (do
      reach options.host_key_policy (hop_path (passed ++ [hop])) hop.endpoint opening late
      authenticate rounds (hop_path (passed ++ [hop])) hop.username hop.auth
      k) := by
  have ho : Offered options h (hop_path (passed ++ [hop])) hop :=
    ⟨passed, hpre, rfl, hthrough⟩
  refine safe_bind (careful_reach ho opening late) fun t₁ _ h₁ => ?_
  have hdone : .called (.establish (hop_path (passed ++ [hop]))) (.reached ()) ∈ h ++ t₁ :=
    List.mem_append_right _ (reach_done h₁)
  refine safe_bind (careful_authenticate rounds (ho.mono (by simp)) hdone) fun t₂ _ h₂ => ?_
  rw [List.append_assoc]
  refine hk (t₁ ++ t₂) ((hthrough.mono (by simp)).concat ?_)
  refine (granted_authenticate rounds h₂).mono ?_
  intro step hstep
  simp [hstep]

theorem careful_next_hop {passed : List JumpHop} {hop : JumpHop}
    (hpre : passed ++ [hop] <+: options.hops) (hthrough : Through h passed) :
    Careful options h (next_hop rounds options.host_key_policy (hop_path passed) hop) := by
  unfold next_hop
  rw [← hop_path_concat]
  refine safe_tell (safe_plain ⟨rfl, by simp⟩ fun _ => safe_context_bind fun _ _ => ?_)
  exact careful_hop rounds hpre (hthrough.mono (by simp)) _ _ fun _ _ => trivial

theorem next_hop_done {policy : HostKeyPolicy} {passed : List JumpHop} {hop : JumpHop}
    {path : List Endpoint} {t : Trace}
    (ht : (next_hop rounds policy (hop_path passed) hop).Runs t (.returned path)) :
    path = hop_path (passed ++ [hop]) ∧ Granted t path := by
  obtain ⟨t₁, t₂, _, rfl, _, htold⟩ := returned_bind ht
  obtain ⟨opened, t₂, rfl, hopened⟩ := returned_asked htold
  obtain ⟨_, rfl, htunnelled⟩ := returned_context hopened
  obtain ⟨t₂, t₃, _, rfl, _, hreached⟩ := returned_bind htunnelled
  obtain ⟨t₃, t₄, _, rfl, hlogin, hdone⟩ := returned_bind hreached
  obtain ⟨rfl, hpath⟩ := hdone
  obtain rfl := Outcome.returned.inj hpath
  refine ⟨(hop_path_concat passed hop).symm, (granted_authenticate rounds hlogin).mono ?_⟩
  intro step hstep
  simp [hstep]

/-- The loop over the hops: what holds behind the hops that were passed carries it on. -/
theorem careful_next_hops : ∀ (hops passed : List JumpHop) {h : Trace},
    passed ++ hops <+: options.hops → Through h passed →
    Careful options h
      (hops.foldlM (next_hop rounds options.host_key_policy) (hop_path passed))
  | [], _, _, _, _ => trivial
  | hop :: hops, passed, h, hpre, hthrough => by
    rw [List.append_cons] at hpre
    have hhop : passed ++ [hop] <+: options.hops := (List.prefix_append _ hops).trans hpre
    rw [List.foldlM_cons]
    refine safe_bind (careful_next_hop rounds hhop hthrough) fun t path ht => ?_
    obtain ⟨rfl, hgranted⟩ := next_hop_done rounds ht
    have hnext : Through (h ++ t) (passed ++ [hop]) :=
      (hthrough.mono (by simp)).concat (hgranted.mono (by simp))
    exact careful_next_hops hops (passed ++ [hop]) hpre hnext

theorem careful_connect_chain : Careful options h (connect_chain rounds options) := by
  unfold connect_chain
  split
  · rename_i hjumps
    have hpre : [] ++ [options.target] <+: options.hops := by simp [SshOptions.hops, hjumps]
    exact careful_hop rounds hpre through_nil _ _ fun _ _ => trivial
  · rename_i first rest hjumps
    have hpre : [] ++ [first] <+: options.hops := by simp [SshOptions.hops, hjumps]
    refine careful_hop rounds hpre through_nil _ _ fun t hthrough => ?_
    refine careful_next_hops rounds (rest ++ [options.target]) [first] ?_ hthrough
    simp [SshOptions.hops, hjumps]

/-! ### What comes after the logins -/

theorem careful_start_tunnels {path : List Endpoint} : ∀ (requests : List TunnelRequest) {h : Trace},
    Careful options h (start_tunnels path requests)
  | [], _ => trivial
  | _ :: requests, _ =>
    safe_plain ⟨rfl, by simp⟩ fun _ => safe_tell (careful_start_tunnels requests)

theorem careful_open_shell {path : List Endpoint} {given : SshOptions} :
    Careful options h (open_shell given path) := by
  refine safe_plain ⟨rfl, by simp⟩ fun _ => safe_context_bind fun _ _ => ?_
  refine safe_plain ⟨rfl, by simp⟩ fun _ => safe_context_bind fun _ _ => ?_
  split
  · exact safe_plain ⟨rfl, by simp⟩ fun _ => safe_context _ _
  · exact safe_plain ⟨rfl, by simp⟩ fun _ => safe_context _ _

theorem careful_shell_loop : Careful options h (shell_loop wakes) := by
  induction wakes generalizing h with
  | zero => trivial
  | succ wakes ih =>
    refine safe_plain ⟨rfl, by simp⟩ fun wake => ?_
    match wake with
    | .command (some (.write bytes)) =>
      exact safe_plain ⟨rfl, by simp⟩ fun _ => safe_context_bind fun _ _ => ih
    | .command (some (.resize cols rows)) =>
      exact safe_plain ⟨rfl, by simp⟩ fun _ => safe_context_bind fun _ _ => ih
    | .command (some (.spawn task)) => exact safe_plain ⟨rfl, by simp⟩ fun _ => ih
    | .command (some .disconnect) => trivial
    | .command none => trivial
    | .message (some (.data data)) => exact safe_tell ih
    | .message (some (.extended_data data)) => exact safe_tell ih
    | .message (some (.exit_status status)) => trivial
    | .message (some .eof) => trivial
    | .message (some .close) => trivial
    | .message (some .other) => exact ih
    | .message none => trivial

theorem careful_connect_and_shell : Careful options h (connect_and_shell rounds wakes options) := by
  refine safe_bind (safe_tell (careful_connect_chain rounds)) fun _ path _ => ?_
  refine safe_bind ?_ fun _ _ _ => ?_
  · exact safe_bind (careful_start_tunnels _) fun _ _ _ => careful_open_shell
  · exact safe_tell (safe_bind (careful_shell_loop wakes) fun _ _ _ =>
      safe_plain ⟨rfl, by simp⟩ fun _ => trivial)

theorem careful_run : Careful options h (run rounds wakes options) := by
  refine safe_tell (safe_bind (Dialog.safe_attempt (careful_connect_and_shell rounds wakes))
    fun _ ended _ => ?_)
  match ended with
  | .ok ending => exact ⟨allowed_said _, trivial⟩
  | .error (.auth detail) => exact ⟨allowed_said _, trivial⟩
  | .error (.net error) => exact safe_tell ⟨allowed_said _, trivial⟩

end Careful

end WaSSH.Ssh.Session
