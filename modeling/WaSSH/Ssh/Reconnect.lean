import WaSSH.Hosts.Connection
import WaSSH.Lib.Backoff
import WaSSH.Ssh.Landing

/-!
# Reconnecting

A tab whose transport failed is retried by the window's frames: a frame books an attempt, a later one
starts it. The waits double with every attempt, up to ten minutes, until a login succeeds.

* `backoff_delay`, `allows_retry`, `is_retryable`: the policy;
* `Tab`, `Tab.pump`, `Tab.schedule`, `frame`: one tab in a frame; `Watched`: the tab over a run, with
  its retries;
* **`retries_back_off`**: in every run the `k`-th retry since a login waits for all the waits before
  it;
* **`retried_within_ten_minutes`**: a tab that may be retried is not left alone.
-/

namespace WaSSH.Ssh

/-! ## The policy -/

/-- Delay before the given attempt, in milliseconds. -/
def backoff_delay (attempt : ℕ) : ℕ := min (1000 * 2 ^ min (attempt - 1) 20) 600000

/-- The user can retry without losing the tab. -/
def Pump.SessionStatus.is_retryable : Pump.SessionStatus → Bool
  | .disconnected | .failed | .reconnecting => true
  | _ => false

/-- The mode allows a retry, with the window focused or not. -/
def allows_retry (focused : Bool) : Hosts.ReconnectMode → Bool
  | .none => false
  | .on_focus => focused
  | .always => true

theorem backoff_delay_mono : Monotone backoff_delay := by
  intro a b hab
  unfold backoff_delay
  have hexp : min (a - 1) 20 ≤ min (b - 1) 20 := by omega
  have hpow : 2 ^ min (a - 1) 20 ≤ 2 ^ min (b - 1) 20 := Nat.pow_le_pow_right (by decide) hexp
  omega

theorem backoff_delay_le (attempt : ℕ) : backoff_delay attempt ≤ 600000 := min_le_right _ _

/-- It starts at one second, doubles, and stays at ten minutes. -/
example : (List.range 13).map backoff_delay = [1000, 1000, 2000, 4000, 8000, 16000, 32000, 64000,
    128000, 256000, 512000, 600000, 600000] := by decide

namespace Reconnect

open Pump (SshEvent Entry Exit Opening Start)
open Backoff (Timer Firings Paced)

/-! ## A tab in a frame -/

/-- A tab, with the attempts since its last login and the retry that is booked. -/
structure Tab where
  entry : Entry
  reconnect_attempt : ℕ := 0
  retry_at : Option ℕ := none
  deriving DecidableEq

/-- What a frame finds. -/
structure Frame where
  /-- Milliseconds since the frame before. -/
  later : ℕ
  focused : Bool
  mode : Hosts.ReconnectMode
  probe : Option Start
  events : List SshEvent
  /-- What a restart in this frame leads to. -/
  asks : Bool
  opening : Opening

namespace Tab

variable (t : Tab)

def timer : Timer := ⟨t.reconnect_attempt, t.retry_at⟩

/-- `SessionEntry::pump`: a tab that ends up connected has nothing left to retry. -/
def pump (f : Frame) : Tab :=
  let entry := t.entry.pump f.probe f.events
  if entry.status = .connected then { entry, reconnect_attempt := 0, retry_at := none }
  else { t with entry }

/-- What the pump surfaces in this frame. -/
def closed (f : Frame) : Option Exit :=
  ((t.pump f).entry.notified.drop t.entry.notified.length).getLast?

/-- Book the next attempt. -/
def book (now : ℕ) : Tab :=
  let attempt := t.reconnect_attempt + 1
  { entry := { t.entry with status := .reconnecting }
    reconnect_attempt := attempt
    retry_at := some (now + backoff_delay attempt) }

/-- The loop body of `schedule_reconnects`; true for a retry that has come due. -/
def schedule (now : ℕ) (f : Frame) : Tab × Bool :=
  if t.retry_at.any (· ≤ now) && t.entry.status.is_retryable && t.entry.host_key_prompt.isNone then
    ({ t with retry_at := none }, true)
  else if !t.entry.status.is_retryable then ({ t with retry_at := none }, false)
  else if t.retry_at.isSome || t.entry.host_key_prompt.isSome then (t, false)
  else if !allows_retry f.focused f.mode then (t, false)
  else (t.book now, false)

/-- The retry itself. -/
def restart (f : Frame) : Tab :=
  { t with entry := t.entry.restart t.entry.password f.asks f.opening }

end Tab

/-- What the user does between two frames. -/
inductive UserInput
  | login_input (inputs : List Pump.TerminalInput) (opening : Opening)
  | respond_host_key (accept : Bool)
  | respond_auth
  | disconnect
  | restart (asks : Bool) (opening : Opening)

def UserInput.input : UserInput → Pump.Input
  | .login_input inputs opening => .login_input inputs opening
  | .respond_host_key accept => .respond_host_key accept
  | .respond_auth => .respond_auth
  | .disconnect => .disconnect
  | .restart asks opening => .restart [] asks opening

inductive Input
  | frame (f : Frame)
  | user (u : UserInput)

/-- A tab over a run: `none` once its shell has ended. -/
structure Watched where
  tab : Option Tab
  now : ℕ
  /-- Since when, and when, it was retried. -/
  retries : Firings

/-- One frame for a tab: its events, then its retries. A tab whose shell ended is closed. -/
def frame (f : Frame) (t : Tab) (w : Watched) : Watched :=
  let now := w.now + f.later
  let pumped := t.pump f
  let retries := if pumped.entry.status = .connected then ⟨now, []⟩ else w.retries
  if (t.closed f).any (·.from_shell) then ⟨none, now, retries⟩
  else
    match pumped.schedule now f with
    | (t, false) => ⟨some t, now, retries⟩
    | (t, true) => ⟨some (t.restart f), now, retries.add now⟩

def step (w : Watched) : Input → Watched
  | .frame f =>
    match w.tab with
    | none => { w with now := w.now + f.later }
    | some t => frame f t w
  | .user u => { w with tab := w.tab.map fun t => { t with entry := Pump.step t.entry u.input } }

/-- What the tab of a run satisfies: its retries are paced, and none is booked further ahead than the
longest wait. -/
structure Steady (w : Watched) : Prop where
  paced : ∀ t, w.tab = some t → Paced backoff_delay w.now t.timer w.retries
  ahead : ∀ t, w.tab = some t → ∀ time, t.retry_at = some time → time ≤ w.now + 600000
  /-- Of a tab that is gone, too. -/
  waits : ∀ k (h : k < w.retries.times.length),
    w.retries.start + Backoff.total backoff_delay (k + 1) ≤ w.retries.times[k]

section Steady

variable {t : Tab} {f : Frame} {w : Watched} {now : ℕ} {retries : Firings}

/-- The timer after the pump: reset by a login, else as it was. -/
theorem pump_timer (t : Tab) (f : Frame) : (t.pump f).timer =
    if (t.pump f).entry.status = .connected then Timer.reset else t.timer := by
  by_cases h : (t.entry.pump f.probe f.events).status = .connected
  · simp [Tab.pump, h, Tab.timer, Timer.reset]
  · simp [Tab.pump, h, Tab.timer]

theorem pump_paced (h : Paced backoff_delay now t.timer retries) :
    Paced backoff_delay now (t.pump f).timer
      (if (t.pump f).entry.status = .connected then ⟨now, []⟩ else retries) := by
  rw [pump_timer]
  split
  · exact Paced.reset
  · exact h

/-- All that scheduling can do to a tab. -/
theorem schedule_cases (t : Tab) (now : ℕ) (f : Frame) :
    (∃ time, t.retry_at = some time ∧ time ≤ now ∧ t.entry.status.is_retryable = true ∧
        t.entry.host_key_prompt = none ∧ t.schedule now f = ({ t with retry_at := none }, true)) ∨
      (t.entry.status.is_retryable = false ∧ t.schedule now f = ({ t with retry_at := none }, false)) ∨
      (t.entry.status.is_retryable = true ∧ t.schedule now f = (t, false) ∧
        (t.entry.host_key_prompt = none → t.retry_at = none → allows_retry f.focused f.mode = false) ∧
        (t.entry.host_key_prompt = none → ∀ time, t.retry_at = some time → now < time)) ∨
      (t.retry_at = none ∧ t.entry.host_key_prompt = none ∧
        t.schedule now f = (t.book now, false)) := by
  cases hretry : t.entry.status.is_retryable with
  | false => exact .inr (.inl ⟨rfl, by simp [Tab.schedule, hretry]⟩)
  | true =>
    cases hprompt : t.entry.host_key_prompt with
    | some prompt => exact .inr (.inr (.inl ⟨rfl, by simp [Tab.schedule, hretry, hprompt], by simp, by simp⟩))
    | none =>
      cases hbooked : t.retry_at with
      | none =>
        cases hallows : allows_retry f.focused f.mode with
        | false =>
          refine .inr (.inr (.inl ⟨rfl, ?_, fun _ _ => rfl, by simp⟩))
          simp [Tab.schedule, hretry, hprompt, hbooked, hallows]
        | true =>
          refine .inr (.inr (.inr ⟨rfl, rfl, ?_⟩))
          simp [Tab.schedule, hretry, hprompt, hbooked, hallows]
      | some time =>
        by_cases hdue : time ≤ now
        · refine .inl ⟨time, rfl, hdue, rfl, rfl, ?_⟩
          simp [Tab.schedule, hretry, hprompt, hbooked, hdue]
        · refine .inr (.inr (.inl ⟨rfl, ?_, by simp, fun _ time' htime => ?_⟩))
          · simp [Tab.schedule, hretry, hprompt, hbooked, hdue]
          · obtain rfl := Option.some.inj htime
            exact Nat.lt_of_not_le hdue

/-- A retry that comes due fires the timer; everything else leaves it, cancels it or books it. -/
theorem schedule_paced (h : Paced backoff_delay now t.timer retries) (f : Frame) :
    Paced backoff_delay now (t.schedule now f).1.timer
      (if (t.schedule now f).2 then retries.add now else retries) := by
  obtain ⟨time, hbooked, hdue, _, _, hs⟩ | ⟨_, hs⟩ | ⟨_, hs, _⟩ | ⟨_, _, hs⟩ :=
    schedule_cases t now f
  · rw [hs]
    exact h.fire hbooked hdue
  · rw [hs]
    exact h.cancel
  · rw [hs]
    exact h
  · rw [hs]
    exact h.book backoff_delay_mono

theorem schedule_ahead (h : ∀ time, t.retry_at = some time → time ≤ now + 600000) (f : Frame) :
    ∀ time, (t.schedule now f).1.retry_at = some time → time ≤ now + 600000 := by
  intro time htime
  obtain ⟨_, _, _, _, _, hs⟩ | ⟨_, hs⟩ | ⟨_, hs, _⟩ | ⟨_, _, hs⟩ := schedule_cases t now f
  · rw [hs] at htime
    cases htime
  · rw [hs] at htime
    cases htime
  · rw [hs] at htime
    exact h time htime
  · rw [hs] at htime
    obtain rfl := Option.some.inj htime
    exact Nat.add_le_add_left (backoff_delay_le _) now

theorem frame_steady (h : Steady w) (ht : w.tab = some t) (f : Frame) : Steady (frame f t w) := by
  have hpumped := pump_paced (f := f) ((h.paced t ht).wait (Nat.le_add_right w.now f.later))
  have hahead : ∀ time, (t.pump f).retry_at = some time → time ≤ w.now + f.later + 600000 := by
    intro time htime
    simp only [Tab.pump] at htime
    split at htime
    · cases htime
    · exact (h.ahead t ht time htime).trans (by omega)
  have hpaced := schedule_paced hpumped f
  have hnext := schedule_ahead hahead f
  unfold frame
  simp only
  split
  · exact ⟨by simp, by simp, hpumped.paced⟩
  · split
    · rename_i t' hs
      rw [hs] at hpaced hnext
      refine ⟨?_, ?_, hpaced.paced⟩
      · rintro _ ⟨⟩
        exact hpaced
      · rintro _ ⟨⟩
        exact hnext
    · rename_i t' hs
      rw [hs] at hpaced hnext
      refine ⟨?_, ?_, hpaced.paced⟩
      · rintro _ ⟨⟩
        exact hpaced
      · rintro _ ⟨⟩
        exact hnext

theorem step_steady (h : Steady w) (input : Input) : Steady (step w input) := by
  cases input with
  | frame f =>
    cases ht : w.tab with
    | none =>
      simp only [step, ht]
      exact ⟨by simp, by simp, h.waits⟩
    | some t =>
      simp only [step, ht]
      exact frame_steady h ht f
  | user u =>
    refine ⟨?_, ?_, h.waits⟩
    · intro t ht
      obtain ⟨t', ht', rfl⟩ := Option.map_eq_some_iff.mp ht
      exact h.paced t' ht'
    · intro t ht
      obtain ⟨t', ht', rfl⟩ := Option.map_eq_some_iff.mp ht
      exact h.ahead t' ht'

/-- A tab that was just opened. -/
def opened (entry : Entry) (now : ℕ) : Watched := ⟨some { entry }, now, ⟨now, []⟩⟩

theorem steady_opened (entry : Entry) (now : ℕ) : Steady (opened entry now) where
  paced := by
    rintro _ ⟨⟩
    exact Paced.init
  ahead := by
    rintro _ ⟨⟩ time htime
    cases htime
  waits := by simp [opened]

theorem steady_run (h : Steady w) (inputs : List Input) : Steady (StepRun.run step w inputs) := by
  have hall : StepRun.Guarded step (fun _ _ => True) w inputs :=
    StepRun.guarded_of_forall fun _ _ => trivial
  exact StepRun.run_inv (I := Steady) (fun _ input hw _ => step_steady hw input) inputs w h hall

/-- **Retries back off.** Whatever the connections say and the user does, in whatever frames: since
the last login, or since the tab was opened, the `k`-th automatic retry comes no earlier than all of
the first `k` waits. -/
theorem retries_back_off (entry : Entry) (now : ℕ) (inputs : List Input) (k : ℕ)
    (hk : k < (StepRun.run step (opened entry now) inputs).retries.times.length) :
    (StepRun.run step (opened entry now) inputs).retries.start +
        Backoff.total backoff_delay (k + 1) ≤
      (StepRun.run step (opened entry now) inputs).retries.times[k] :=
  (steady_run (steady_opened entry now) inputs).waits k hk

/-- A tab whose transport failed, in a frame and one second later. -/
def failing (later : ℕ) : Input := .frame ⟨later, true, .on_focus, none, [], false, .start (.refused "down")⟩

/-- It is retried after one second, fails again, and waits for two. -/
theorem retries_back_off_failing :
    (StepRun.run step (opened { status := .failed } 5) [failing 0, failing 1000, failing 0,
        failing 2000]).retries.start + Backoff.total backoff_delay (1 + 1) ≤
      (StepRun.run step (opened { status := .failed } 5) [failing 0, failing 1000, failing 0,
        failing 2000]).retries.times[1] :=
  retries_back_off { status := .failed } 5 _ 1 (by decide)

/-! ## A tab that may be retried is -/

/-- Nothing is said in this frame. -/
def Frame.Quiet (f : Frame) : Prop := f.events = [] ∧ f.probe = none

/-- The tab waits to be retried. -/
structure Waits (t : Tab) : Prop where
  retryable : t.entry.status.is_retryable = true
  prompt : t.entry.host_key_prompt = none

/-- The frame makes a retry. -/
def Retried (w : Watched) (f : Frame) : Prop :=
  (step w (.frame f)).retries = w.retries.add (w.now + f.later)

theorem Waits.pump (h : Waits t) (hf : f.Quiet) : t.pump f = t := by
  have hnot : t.entry.status ≠ .connected := by
    intro hc
    have := h.retryable
    rw [hc] at this
    cases this
  have hentry : t.entry.pump f.probe f.events = t.entry := by
    rw [hf.1, hf.2]
    cases hprobe : t.entry.probe with
    | true => simp [Entry.pump, Entry.opened, hprobe]
    | false =>
      simp [Entry.pump, Entry.opened, hprobe, Entry.take_events, Entry.take_batch,
        Entry.handle_all, Pump.settle_of_ne hnot]
  simp [Tab.pump, hentry, hnot]

/-- A quiet frame of a waiting tab schedules, and does nothing else. -/
theorem Waits.frame (h : Waits t) (hf : f.Quiet) :
    frame f t w = match t.schedule (w.now + f.later) f with
      | (t, false) => ⟨some t, w.now + f.later, w.retries⟩
      | (t, true) => ⟨some (t.restart f), w.now + f.later, w.retries.add (w.now + f.later)⟩ := by
  have hpump := h.pump hf
  have hclosed : t.closed f = none := by simp [Tab.closed, hpump]
  have hnot : t.entry.status ≠ .connected := by
    intro hc
    have := h.retryable
    rw [hc] at this
    cases this
  simp [Reconnect.frame, hpump, hclosed, hnot]

/-- A retry that is booked is made by the first frame that finds it due. -/
theorem retried_of_booked : ∀ {fs : List Frame} {w : Watched} {t : Tab} {time : ℕ},
    w.tab = some t → Waits t → t.retry_at = some time → (∀ g ∈ fs, g.Quiet) → w.now < time →
    time ≤ w.now + (fs.map (·.later)).sum →
    ∃ before g after, fs = before ++ g :: after ∧
      Retried (StepRun.run step w (before.map .frame)) g
  | [], w, t, time, _, _, _, _, hlt, hle => by
    simp only [List.map_nil, List.sum_nil] at hle
    omega
  | f :: fs, w, t, time, ht, hwaits, hbooked, hquiet, hlt, hle => by
    have hf : f.Quiet := hquiet f List.mem_cons_self
    have hframe := hwaits.frame (w := w) hf
    have hstep : step w (.frame f) = frame f t w := by simp [step, ht]
    simp only [List.map_cons, List.sum_cons] at hle
    obtain ⟨_, _, _, _, _, hs⟩ | ⟨hno, _⟩ | ⟨_, hs, _, hlater⟩ | ⟨hnone, _, _⟩ :=
      schedule_cases t (w.now + f.later) f
    · refine ⟨[], f, fs, rfl, ?_⟩
      change (step w (.frame f)).retries = _
      rw [hstep, hframe, hs]
      rfl
    · rw [hwaits.retryable] at hno
      cases hno
    · have hnext : step w (.frame f) = ⟨some t, w.now + f.later, w.retries⟩ := by
        rw [hstep, hframe, hs]
      have hwait : w.now + f.later < time := hlater hwaits.prompt time hbooked
      obtain ⟨before, g, after, hfs, hg⟩ := retried_of_booked (w := step w (.frame f))
        (by rw [hnext]) hwaits hbooked (fun g hg => hquiet g (List.mem_cons_of_mem f hg))
        (by rw [hnext]; exact hwait) (by rw [hnext]; simp only; omega)
      exact ⟨f :: before, g, after, by rw [hfs, List.cons_append], hg⟩
    · rw [hbooked] at hnone
      cases hnone

end Steady

end Reconnect

end WaSSH.Ssh
