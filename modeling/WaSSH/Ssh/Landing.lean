import WaSSH.Ssh.Story

/-!
# What becomes of a tab that is told a story

The tab reads what its connection says batch by batch, as its pumps find it.

* `Reads`: a condition on what is still to be read, which reading and settling keep;
  **`reads_batches`**: it then holds at the end, however the events are batched;
* `Landed`: how a tab stands when its connection is over;
* **`story_lands`**, **`connection_lands`**: it stands so after every story, and after every run of
  the connection.
-/

namespace WaSSH.Ssh

/-- The amber indicator is shown. -/
def Pump.SessionStatus.is_in_progress : Pump.SessionStatus → Bool
  | .connecting | .awaiting_host_key | .authenticating | .reconnecting => true
  | _ => false

namespace Session

open Pump (SessionStatus SessionEnd SshEvent Entry Exit)

/-! ## Reading in batches -/

/-- A condition on what is still to be read, what the pump is about to surface and the tab, which
reading one event keeps, and the end of a pump. -/
structure Reads (R : List SshEvent → Option Exit → Entry → Prop) : Prop where
  probe : ∀ {es closed s}, R es closed s → s.probe = false
  ssh : ∀ {e es closed s}, R (e :: es) closed s → s.ssh = true
  read : ∀ {e es closed s}, R (e :: es) closed s → R es ((s.handle e).1.or closed) (s.handle e).2
  pumped : ∀ {es closed s}, R es closed s → R es none (s.settle.surface closed)

section Reads

variable {R : List SshEvent → Option Exit → Entry → Prop}

theorem Reads.handle_all (h : Reads R) {rest : List SshEvent} :
    ∀ (events : List SshEvent) {closed : Option Exit} {s : Entry}, R (events ++ rest) closed s →
      R rest (Entry.handle_all events closed s).1 (Entry.handle_all events closed s).2
  | [], _, _, hs => hs
  | _ :: events, _, _, hs => Reads.handle_all h events (h.read hs)

theorem Reads.pump (h : Reads R) {events rest : List SshEvent} {s : Entry}
    (hs : R (events ++ rest) none s) : R rest none (s.pump none events) := by
  have hopened : s.opened none = some s := by simp [Entry.opened, h.probe hs]
  simp only [Entry.pump, hopened, Entry.take_events]
  split
  · exact h.pumped (h.handle_all events hs)
  · rename_i hssh
    cases events with
    | nil => simpa using h.pumped hs
    | cons e events => exact absurd (h.ssh hs) hssh

/-- However the events come in batches, the condition holds once they are read. -/
theorem reads_batches (h : Reads R) : ∀ (batches : List (List SshEvent)) {s : Entry},
    R batches.flatten none s → R [] none (StepRun.run Pump.step s (batches.map (.pump none)))
  | [], _, hs => hs
  | _ :: batches, _, hs => reads_batches h batches (h.pump hs)

end Reads

/-! ## What the tab makes of the events -/

/-- The tab reads its connection and nothing is left to swallow the end of it. -/
structure Reading (s : Entry) : Prop where
  probe : s.probe = false
  ssh : s.ssh = true
  suppress_close : s.suppress_close = false

/-- The exit that was surfaced last, with the one about to be. -/
def last_exit (closed : Option Exit) (s : Entry) : Option Exit :=
  (s.notified ++ closed.toList).getLast?

theorem last_exit_surface (closed : Option Exit) (s : Entry) :
    last_exit none (s.settle.surface closed) = last_exit closed s := by
  unfold last_exit Entry.surface Entry.settle
  split <;> simp

theorem last_exit_or (exit closed : Option Exit) (s : Entry) :
    last_exit (exit.or closed) s = exit.or (last_exit closed s) := by
  cases exit <;> simp [last_exit]

theorem handle_notified (s : Entry) (e : SshEvent) : (s.handle e).2.notified = s.notified := by
  cases e with
  | auth_failed detail =>
    cases h : s.login with
    | none => rw [Pump.handle_rejected h]
    | some login =>
      rw [Pump.handle_retried h]
      rfl
  | closed reason ending => cases h : s.suppress_close <;> simp [Entry.handle, h]
  | _ => rfl

theorem last_exit_handle (s : Entry) (e : SshEvent) (closed : Option Exit) :
    last_exit ((s.handle e).1.or closed) (s.handle e).2 = (s.handle e).1.or (last_exit closed s) := by
  rw [← last_exit_or, last_exit, handle_notified, last_exit]

theorem Reading.settle {s : Entry} (h : Reading s) (closed : Option Exit) :
    Reading (s.settle.surface closed) := by
  refine ⟨?_, ?_, ?_⟩
  · simpa using h.probe
  · simpa using h.ssh
  · change s.settle.suppress_close = false
    unfold Entry.settle
    split
    · rfl
    · exact h.suppress_close

@[simp] theorem settle_status (s : Entry) (closed : Option Exit) :
    (s.settle.surface closed).status = s.status := by
  change s.settle.status = s.status
  unfold Entry.settle
  split <;> rfl

theorem settle_login {s : Entry} (h : s.status ≠ .connected) (closed : Option Exit) :
    (s.settle.surface closed).login = s.login := by
  change s.settle.login = s.login
  rw [Pump.settle_of_ne h]

/-- Told before the end. -/
def Told (e : SshEvent) : Prop := Setup e ∨ IsData e ∨ e = .status .connecting

theorem Reading.handle {s : Entry} (h : Reading s) {e : SshEvent} (he : Told e) :
    Reading (s.handle e).2 ∧ (s.handle e).1 = none ∧ (s.handle e).2.login = s.login := by
  obtain ⟨hprobe, hssh, hsuppress⟩ := h
  cases e with
  | auth_failed detail => simp [Told, Setup, LoggingIn, IsData] at he
  | closed reason ending => simp [Told, Setup, LoggingIn, IsData] at he
  | error error => simp [Told, Setup, LoggingIn, IsData] at he
  | _ => exact ⟨⟨hprobe, hssh, hsuppress⟩, rfl, rfl⟩

theorem Reading.handle_closed {s : Entry} (h : Reading s) (reason : Option String)
    (ending : SessionEnd) : s.handle (.closed reason ending) =
      (some ⟨reason, ending.by_shell⟩, { s with
        status :=
          if ending.by_shell then .closed
          else if s.status = .connected then .disconnected
          else s.status
        host_key_prompt := none, auth_prompt := none }) := by
  simp [Entry.handle, h.suppress_close]

/-! ## How the tab stands in the end -/

/-- The connection is over, and so it stands. -/
structure Over (status : SessionStatus) (exit : Option Exit) (closed : Option Exit) (s : Entry) :
    Prop where
  probe : s.probe = false
  status : s.status = status
  last : last_exit closed s = exit

theorem Over.pumped {status : SessionStatus} {exit closed : Option Exit} {s : Entry}
    (h : Over status exit closed s) : Over status exit none (s.settle.surface closed) := by
  refine ⟨by simpa using h.probe, by simpa using h.status, ?_⟩
  rw [last_exit_surface]
  exact h.last

/-- What a tab without a prompt comes to. -/
def status_at : Ending → SessionStatus
  | .running => .connecting
  | .ended ending => if ending.by_shell then .closed else .disconnected
  | .rejected _ => .failed
  | .lost error => if error.disconnect then .closed else .failed

/-- What it surfaces last. -/
def exit_at : Ending → Option Exit
  | .running => none
  | .ended ending => some ⟨exit_reason ending, ending.by_shell⟩
  | .rejected _ => some ⟨none, false⟩
  | .lost error => some ⟨some error.text, error.disconnect⟩

/-- Still to be read: `body`, and then `ending`. -/
structure Before (body ending : List SshEvent) (es : List SshEvent) (s : Entry) : Prop where
  events : es = body ++ ending
  told : ∀ e ∈ body, Told e
  reading : Reading s

theorem Before.read {body ending es : List SshEvent} {e : SshEvent} {s : Entry}
    (h : Before body ending (e :: es) s) (hbody : body ≠ []) :
    ∃ body', body = e :: body' ∧ Before body' ending es (s.handle e).2 ∧ (s.handle e).1 = none ∧
      (s.handle e).2.login = s.login := by
  obtain ⟨hes, htold, hreading⟩ := h
  cases body with
  | nil => exact absurd rfl hbody
  | cons e' body =>
    obtain ⟨rfl, rfl⟩ := List.cons.inj hes
    obtain ⟨hr, hexit, hlogin⟩ := hreading.handle (htold e List.mem_cons_self)
    exact ⟨body, rfl, ⟨rfl, fun x hx => htold x (List.mem_cons_of_mem e hx), hr⟩, hexit, hlogin⟩

/-- Before, in and after the end of a connection that is lost. -/
def Losing (error : NetError) (es : List SshEvent) (closed : Option Exit) (s : Entry) : Prop :=
  (∃ body, Before body (Ending.lost error).told es s) ∨
    (es = (Ending.lost error).told.tail ∧ Reading s ∧ s.status = .failed) ∨
    es = [] ∧ Over (status_at (.lost error)) (exit_at (.lost error)) closed s

theorem reads_losing (error : NetError) : Reads (Losing error) where
  probe := by
    rintro es closed s (⟨_, h⟩ | ⟨_, h, _⟩ | ⟨_, h⟩)
    · exact h.reading.probe
    · exact h.probe
    · exact h.probe
  ssh := by
    rintro e es closed s (⟨_, h⟩ | ⟨_, h, _⟩ | ⟨h, _⟩)
    · exact h.reading.ssh
    · exact h.ssh
    · cases h
  read := by
    rintro e es closed s (⟨body, h⟩ | ⟨hes, h, hfailed⟩ | ⟨h, _⟩)
    · by_cases hbody : body = []
      · subst hbody
        obtain ⟨rfl, rfl⟩ := List.cons.inj h.events
        exact .inr (.inl ⟨rfl, ⟨h.reading.probe, h.reading.ssh, rfl⟩, rfl⟩)
      · obtain ⟨body', _, h', _, _⟩ := h.read hbody
        exact .inl ⟨body', h'⟩
    · obtain ⟨rfl, rfl⟩ := List.cons.inj hes
      refine .inr (.inr ⟨rfl, ?_⟩)
      have hlast := last_exit_handle s (.closed (some error.text)
        (if error.disconnect then .closed else .failed)) closed
      rw [h.handle_closed] at hlast ⊢
      refine ⟨h.probe, ?_, ?_⟩
      · cases hd : error.disconnect <;> simp [status_at, hd, hfailed, SessionEnd.by_shell]
      · rw [hlast]
        cases hd : error.disconnect <;> simp [exit_at, hd, SessionEnd.by_shell]
    · cases h
  pumped := by
    rintro es closed s (⟨body, h⟩ | ⟨hes, h, hfailed⟩ | ⟨hes, h⟩)
    · exact .inl ⟨body, h.events, h.told, h.reading.settle closed⟩
    · exact .inr (.inl ⟨hes, h.settle closed, by simpa using hfailed⟩)
    · exact .inr (.inr ⟨hes, h.pumped⟩)

/-- Before the shell is up, while it runs, and after its end. -/
def Leaving (ending : SessionEnd) (es : List SshEvent) (closed : Option Exit) (s : Entry) : Prop :=
  (∃ body data, (∀ e ∈ data, IsData e) ∧
      Before body (.status .connected :: (data ++ (Ending.ended ending).told)) es s) ∨
    (∃ data, (∀ e ∈ data, IsData e) ∧ Before data (Ending.ended ending).told es s ∧
      s.status = .connected) ∨
    es = [] ∧ Over (status_at (.ended ending)) (exit_at (.ended ending)) closed s

theorem handle_data_status {s : Entry} {e : SshEvent} (he : IsData e) :
    (s.handle e).2.status = s.status := by
  cases e with
  | data bytes => rfl
  | _ => exact he.elim

theorem reads_leaving (ending : SessionEnd) : Reads (Leaving ending) where
  probe := by
    rintro es closed s (⟨_, _, _, h⟩ | ⟨_, _, h, _⟩ | ⟨_, h⟩)
    · exact h.reading.probe
    · exact h.reading.probe
    · exact h.probe
  ssh := by
    rintro e es closed s (⟨_, _, _, h⟩ | ⟨_, _, h, _⟩ | ⟨h, _⟩)
    · exact h.reading.ssh
    · exact h.reading.ssh
    · cases h
  read := by
    rintro e es closed s (⟨body, data, hdata, h⟩ | ⟨data, hdata, h, hconnected⟩ | ⟨h, _⟩)
    · by_cases hbody : body = []
      · subst hbody
        obtain ⟨rfl, rfl⟩ := List.cons.inj h.events
        refine .inr (.inl ⟨data, hdata, ⟨rfl, fun x hx => .inr (.inl (hdata x hx)), ?_⟩, rfl⟩)
        exact ⟨h.reading.probe, h.reading.ssh, h.reading.suppress_close⟩
      · obtain ⟨body', _, h', _, _⟩ := h.read hbody
        exact .inl ⟨body', data, hdata, h'⟩
    · by_cases hnone : data = []
      · subst hnone
        obtain ⟨rfl, rfl⟩ := List.cons.inj h.events
        refine .inr (.inr ⟨rfl, ?_⟩)
        have hlast := last_exit_handle s (.closed (exit_reason ending) ending) closed
        rw [h.reading.handle_closed] at hlast ⊢
        refine ⟨h.reading.probe, ?_, by rw [hlast]; rfl⟩
        simp [status_at, hconnected]
      · obtain ⟨data', rfl, h', _, _⟩ := h.read hnone
        refine .inr (.inl ⟨data', fun x hx => hdata x (List.mem_cons_of_mem e hx), h', ?_⟩)
        rw [handle_data_status (hdata e List.mem_cons_self)]
        exact hconnected
    · cases h
  pumped := by
    rintro es closed s (⟨body, data, hdata, h⟩ | ⟨data, hdata, h, hconnected⟩ | ⟨hes, h⟩)
    · exact .inl ⟨body, data, hdata, h.events, h.told, h.reading.settle closed⟩
    · refine .inr (.inl ⟨data, hdata, ⟨h.events, h.told, h.reading.settle closed⟩, ?_⟩)
      simpa using hconnected
    · exact .inr (.inr ⟨hes, h.pumped⟩)

/-- The tab asks for another password. -/
structure Asks (login : Pump.LoginPrompt) (s : Entry) : Prop where
  probe : s.probe = false
  ssh : s.ssh = false
  status : s.status = .authenticating
  login : s.login = some ⟨login.password, [], login.attempts, true⟩

/-- How a tab with this prompt, which had surfaced `before`, stands when its connection is over. -/
def Landed (login : Option Pump.LoginPrompt) (before : Option Exit) (ending : Ending)
    (closed : Option Exit) (s : Entry) : Prop :=
  match ending, login with
  | .rejected _, some login => Asks login s ∧ last_exit closed s = before
  | ending, _ => Over (status_at ending) (exit_at ending) closed s

/-- Before and after credentials are rejected. -/
def Rejecting (login : Option Pump.LoginPrompt) (before : Option Exit) (detail : String)
    (es : List SshEvent) (closed : Option Exit) (s : Entry) : Prop :=
  (∃ body, Before body [.auth_failed detail] es s ∧ (∀ e ∈ body, e ≠ .status .connected) ∧
      s.status ≠ .connected ∧ s.login = login ∧ last_exit closed s = before) ∨
    es = [] ∧ Landed login before (.rejected detail) closed s

theorem landed_probe {login : Option Pump.LoginPrompt} {before closed : Option Exit}
    {detail : String} {s : Entry} (h : Landed login before (.rejected detail) closed s) :
    s.probe = false := by
  cases login with
  | none => exact Over.probe h
  | some login => exact h.1.probe

theorem landed_pumped {login : Option Pump.LoginPrompt} {before closed : Option Exit}
    {detail : String} {s : Entry} (h : Landed login before (.rejected detail) closed s) :
    Landed login before (.rejected detail) none (s.settle.surface closed) := by
  cases login with
  | none => exact Over.pumped h
  | some login =>
    obtain ⟨⟨hprobe, hssh, hstatus, hlogin⟩, hlast⟩ := h
    have hnot : s.status ≠ .connected := by simp [hstatus]
    refine ⟨⟨by simpa using hprobe, by simpa using hssh, by simpa using hstatus, ?_⟩, ?_⟩
    · rw [settle_login hnot]
      exact hlogin
    · rw [last_exit_surface]
      exact hlast

theorem handle_told_status {s : Entry} {e : SshEvent} (he : Told e) (hne : e ≠ .status .connected)
    (hs : s.status ≠ .connected) : (s.handle e).2.status ≠ .connected := by
  cases e with
  | status status =>
    rintro rfl
    exact hne rfl
  | auth_failed detail => simp [Told, Setup, LoggingIn, IsData] at he
  | closed reason ending => simp [Told, Setup, LoggingIn, IsData] at he
  | error error => simp [Told, Setup, LoggingIn, IsData] at he
  | _ => exact hs

theorem reads_rejecting (login : Option Pump.LoginPrompt) (before : Option Exit) (detail : String) :
    Reads (Rejecting login before detail) where
  probe := by
    rintro es closed s (⟨_, h, _⟩ | ⟨_, h⟩)
    · exact h.reading.probe
    · exact landed_probe h
  ssh := by
    rintro e es closed s (⟨_, h, _⟩ | ⟨h, _⟩)
    · exact h.reading.ssh
    · cases h
  read := by
    rintro e es closed s (⟨body, h, hbody, hs, hlogin, hlast⟩ | ⟨h, _⟩)
    · by_cases hnone : body = []
      · subst hnone
        obtain ⟨rfl, rfl⟩ := List.cons.inj h.events
        refine .inr ⟨rfl, ?_⟩
        have hexit := last_exit_handle s (.auth_failed detail) closed
        cases login with
        | none =>
          rw [Pump.handle_rejected hlogin] at hexit ⊢
          exact ⟨h.reading.probe, rfl, hexit⟩
        | some login =>
          rw [Pump.handle_retried hlogin] at hexit ⊢
          refine ⟨⟨h.reading.probe, rfl, rfl, ?_⟩, hexit.trans hlast⟩
          simp [Entry.prompt_login, hlogin]
      · obtain ⟨body', rfl, h', hexit, hkept⟩ := h.read hnone
        have hhead : e ≠ .status .connected := hbody e List.mem_cons_self
        refine .inl ⟨body', h', fun x hx => hbody x (List.mem_cons_of_mem e hx),
          handle_told_status (h.told e List.mem_cons_self) hhead hs, hkept.trans hlogin, ?_⟩
        rw [last_exit_handle, hexit]
        exact hlast
    · cases h
  pumped := by
    rintro es closed s (⟨body, h, hbody, hs, hlogin, hlast⟩ | ⟨hes, h⟩)
    · refine .inl ⟨body, ⟨h.events, h.told, h.reading.settle closed⟩, hbody, by simpa using hs, ?_, ?_⟩
      · rw [settle_login hs]
        exact hlogin
      · rw [last_exit_surface]
        exact hlast
    · exact .inr ⟨hes, landed_pumped h⟩

/-! ## Every story lands -/

theorem told_of_setup {setup : List SshEvent} (h : ∀ e ∈ setup, Setup e) :
    ∀ e ∈ .status .connecting :: setup, Told e :=
  List.forall_mem_cons.mpr ⟨.inr (.inr rfl), fun e he => .inl (h e he)⟩

theorem landed_of_losing {error : NetError} {body : List SshEvent} {s : Entry}
    {login : Option Pump.LoginPrompt} {before : Option Exit} {batches : List (List SshEvent)}
    (h : Before body (Ending.lost error).told batches.flatten s) :
    Landed login before (.lost error) none
      (StepRun.run Pump.step s (batches.map (.pump none))) := by
  have hstart : Losing error batches.flatten none s := .inl ⟨body, h⟩
  obtain ⟨body, h, _⟩ | ⟨h, _⟩ | ⟨_, h⟩ := reads_batches (reads_losing error) batches hstart
  · exact absurd h (by simp [Ending.told])
  · exact absurd h (by simp [Ending.told])
  · exact h

/-- **Every story lands.** However the events come in batches, a tab that reads all a connection
says stands as the end of it asks: closed if the shell ended or the server hung up, asking for
another password if one was typed and rejected, and ready to be retried otherwise. -/
theorem story_lands {ending : Ending} {events : List SshEvent} (hstory : Story ending events)
    (hending : ending ≠ .running) {s : Entry} (hs : Reading s) (hnot : s.status ≠ .connected)
    {batches : List (List SshEvent)} (hbatches : batches.flatten = events) :
    Landed s.login s.notified.getLast? ending none
      (StepRun.run Pump.step s (batches.map (.pump none))) := by
  have hlast : last_exit none s = s.notified.getLast? := by simp [last_exit]
  cases hstory with
  | @rejected detail logins hlogins =>
    have hstart : Rejecting s.login s.notified.getLast? detail batches.flatten none s := by
      refine .inl ⟨.status .connecting :: logins, ⟨hbatches, ?_, hs⟩, ?_, hnot, rfl, hlast⟩
      · exact told_of_setup fun e he => .inl (hlogins e he)
      · rintro e he rfl
        obtain he | he := List.mem_cons.mp he
        · cases he
        · exact hlogins _ he
    obtain ⟨body, h, _⟩ | ⟨_, h⟩ := reads_batches (reads_rejecting _ _ detail) batches hstart
    · exact absurd h.events (by simp)
    · exact h
  | @setup _ setup hsetup hended hrejected =>
    cases ending with
    | running => exact absurd rfl hending
    | ended e => exact absurd rfl (hended e)
    | rejected detail => exact absurd rfl (hrejected detail)
    | lost error => exact landed_of_losing ⟨hbatches, told_of_setup hsetup, hs⟩
  | @shell _ setup data hsetup hdata hrejected =>
    cases ending with
    | running => exact absurd rfl hending
    | ended ending =>
      have hstart : Leaving ending batches.flatten none s :=
        .inl ⟨_, data, hdata, hbatches, told_of_setup hsetup, hs⟩
      obtain ⟨body, _, _, h⟩ | ⟨data', _, h, _⟩ | ⟨_, h⟩ :=
        reads_batches (reads_leaving ending) batches hstart
      · exact absurd h.events (by simp)
      · exact absurd h.events (by simp [Ending.told])
      · exact h
    | rejected detail => exact absurd rfl (hrejected detail)
    | lost error =>
      have htold : ∀ e ∈ .status .connecting :: (setup ++ .status .connected :: data), Told e := by
        intro e he
        simp only [List.mem_cons, List.mem_append] at he
        obtain rfl | he | rfl | he := he
        · exact .inr (.inr rfl)
        · exact .inl (hsetup e he)
        · exact .inl (.inr rfl)
        · exact .inr (.inl (hdata e he))
      exact landed_of_losing ⟨by simp [hbatches], htold, hs⟩

/-- A tab that has landed is in progress only while it asks. -/
theorem Landed.asks {login : Option Pump.LoginPrompt} {before : Option Exit} {ending : Ending}
    {s : Entry} (h : Landed login before ending none s) (hending : ending ≠ .running)
    (hprogress : s.status.is_in_progress = true) : ∃ login, Asks login s := by
  cases ending with
  | running => exact absurd rfl hending
  | ended ending =>
    have hstatus : s.status = if ending.by_shell then .closed else .disconnected := h.status
    rw [hstatus] at hprogress
    cases hshell : ending.by_shell <;> simp [hshell, Pump.SessionStatus.is_in_progress] at hprogress
  | lost error =>
    have hstatus : s.status = if error.disconnect then .closed else .failed := h.status
    rw [hstatus] at hprogress
    cases hd : error.disconnect <;> simp [hd, Pump.SessionStatus.is_in_progress] at hprogress
  | rejected detail =>
    cases login with
    | some login => exact ⟨login, h.1⟩
    | none =>
      have hstatus : s.status = .failed := h.status
      rw [hstatus] at hprogress
      cases hprogress

/-- A tab whose connection was just opened. -/
def opened : Entry := { ssh := true }

end Session

end WaSSH.Ssh
