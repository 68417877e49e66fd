import Mathlib.Data.List.Chain
import WaSSH.Lib.Run
import WaSSH.Logger.Log

/-!
# The history offered on every frame

Every frame offers the whole history of the session to the log, which compares only its newest
entry. An event offered before is recorded again unless it is that entry.

* `Host`, `step`: a session, its pane and the stored log, over status changes, frames, reopened
  panes and restarts;
* `Exact`: the log is the newest part of the events offered, each once;
* **`absorb_events`**: what one frame adds;
* **`exact_of_quiet`**: the log is exact in every run whose frames are `Quiet`.
-/

namespace WaSSH.Logger

open Newest StepRun

/-! ## Events and entries -/

/-- What an entry says of its event; the duration is worked out by the log. -/
abbrev Record := UInt64 × LogKind × Option String

def LogEntry.record (e : LogEntry) : Record := (e.at_ms, e.kind, e.message)

def ConnectionEvent.record (e : ConnectionEvent) : Option Record :=
  (LogKind.of e.status).map fun kind => (e.at_ms, kind, e.message)

/-- The records of a history. -/
def records (events : List ConnectionEvent) : List Record :=
  events.filterMap ConnectionEvent.record

theorem records_append (xs ys : List ConnectionEvent) :
    records (xs ++ ys) = records xs ++ records ys := List.filterMap_append

/-! ## One frame -/

section Frame

variable {max : ℕ} {l : ConnectionLogger} {event : ConnectionEvent} {events : List ConnectionEvent}

/-- The first event of a history is the newest entry of the log. -/
def ConnectionLogger.repeats_first (l : ConnectionLogger) (events : List ConnectionEvent) : Bool :=
  events.head?.any fun event => (LogKind.of event.status).any (l.repeats event.at_ms)

/-- Consecutive events of a history have different statuses, all of them loggable. -/
structure Alternates (events : List ConnectionEvent) : Prop where
  loggable : ∀ e ∈ events, e.status.is_loggable
  chain : events.IsChain (·.status ≠ ·.status)

theorem alternates_nil : Alternates [] := ⟨fun _ h => (nomatch h), .nil⟩

theorem Alternates.tail (h : Alternates (event :: events)) : Alternates events :=
  ⟨fun e he => h.loggable e (List.mem_cons_of_mem _ he), h.chain.tail⟩

theorem Alternates.suffix {tail : List ConnectionEvent} (h : Alternates events)
    (ht : tail <:+ events) : Alternates tail :=
  ⟨fun e he => h.loggable e (ht.subset he), h.chain.suffix ht⟩

theorem exists_kind (h : event.status.is_loggable) : ∃ k, LogKind.of event.status = some k := by
  rw [← Option.isSome_iff_exists, LogKind.isSome_of_iff]
  exact h

theorem records_cons {k : LogKind} (hk : LogKind.of event.status = some k) :
    records (event :: events) = (event.at_ms, k, event.message) :: records events := by
  have he : event.record = some (event.at_ms, k, event.message) := by
    rw [ConnectionEvent.record, hk]
    rfl
  exact List.filterMap_cons_some he

theorem length_records (h : ∀ e ∈ events, e.status.is_loggable) :
    (records events).length = events.length := by
  induction events with
  | nil => rfl
  | cons e events ih =>
    obtain ⟨k, hk⟩ := exists_kind (h e List.mem_cons_self)
    rw [records_cons hk, List.length_cons, List.length_cons,
      ih fun e he => h e (List.mem_cons_of_mem _ he)]

variable (max) in
/-- An event that is the newest entry adds nothing. -/
theorem merge_repeats {k : LogKind} (hk : LogKind.of event.status = some k)
    (h : l.repeats event.at_ms k) :
    (l.merge event max).1.entries = l.entries ∧ (l.merge event max).2 = false := by
  have hsame : ∀ since, ({ l with connected_since := since } : ConnectionLogger).repeats
      event.at_ms k = true := fun _ => h
  unfold ConnectionLogger.merge
  rw [hk]
  dsimp only
  by_cases hc : k = .connected
  · rw [if_pos hc, if_pos (hsame _)]
    exact ⟨rfl, rfl⟩
  · rw [if_neg hc, if_pos h]
    exact ⟨rfl, rfl⟩

variable (max) in
/-- Any other event is added. -/
theorem merge_adds {k : LogKind} (hk : LogKind.of event.status = some k)
    (h : l.repeats event.at_ms k = false) :
    ∃ entry : LogEntry, entry.record = (event.at_ms, k, event.message) ∧
      (l.merge event max).1.entries = trim max (l.entries ++ [entry]) ∧
      (l.merge event max).2 = true := by
  have hsame : ∀ since, ¬ ({ l with connected_since := since } : ConnectionLogger).repeats
      event.at_ms k = true := fun _ => ne_true_of_eq_false h
  unfold ConnectionLogger.merge
  rw [hk]
  dsimp only
  by_cases hc : k = .connected
  · rw [if_pos hc, if_neg (hsame _)]
    exact ⟨_, rfl, rfl, rfl⟩
  · rw [if_neg hc, if_neg (ne_true_of_eq_false h)]
    exact ⟨_, rfl, rfl, rfl⟩

/-- When the newest entry is of the kind of an event, the next event is not that entry. -/
theorem repeats_first_next {k : LogKind} {last : LogEntry} (ha : Alternates (event :: events))
    (hk : LogKind.of event.status = some k) (hlast : l.entries.getLast? = some last)
    (hkind : last.kind = k) : l.repeats_first events = false := by
  rcases events with _ | ⟨next, events⟩
  · rfl
  obtain ⟨k', hk'⟩ := exists_kind (ha.tail.loggable next List.mem_cons_self)
  have hne : k ≠ k' := by
    rintro rfl
    exact (List.isChain_cons_cons.mp ha.chain).1 (LogKind.of_injective hk hk')
  simp [ConnectionLogger.repeats_first, ConnectionLogger.repeats, hk', hlast, hkind, hne]

/-- Once its first event is added, a history is added to its end. -/
theorem absorb_fresh (hmax : 0 < max) (hlen : l.entries.length ≤ max) (ha : Alternates events)
    (h : l.repeats_first events = false) :
    (l.absorb max events).1.entries.map LogEntry.record =
        trim max (l.entries.map LogEntry.record ++ records events) ∧
      (l.absorb max events).2 = !events.isEmpty := by
  induction events generalizing l with
  | nil =>
    refine ⟨?_, rfl⟩
    rw [records, List.filterMap_nil, List.append_nil, trim_of_le (by rwa [List.length_map])]
    rfl
  | cons event events ih =>
    obtain ⟨k, hk⟩ := exists_kind (ha.loggable event List.mem_cons_self)
    have hnew : l.repeats event.at_ms k = false := by
      simpa [ConnectionLogger.repeats_first, hk] using h
    obtain ⟨entry, hentry, hentries, hadded⟩ := merge_adds max hk hnew
    set mid := (l.merge event max).1 with hmid
    have hmidlen : mid.entries.length ≤ max := by
      rw [hentries, length_trim]
      exact Nat.min_le_right _ _
    have hlast : mid.entries.getLast? = some entry := by rw [hentries, getLast?_trim_concat hmax]
    have hnext : mid.repeats_first events = false :=
      repeats_first_next ha hk hlast (congrArg (fun r : Record => r.2.1) hentry)
    obtain ⟨hrec, -⟩ := ih hmidlen ha.tail hnext
    constructor
    · change (ConnectionLogger.absorb max events mid).1.entries.map LogEntry.record = _
      rw [hrec, hentries, map_trim, List.map_append, List.map_singleton, hentry, trim_append_trim,
        records_cons hk, List.append_assoc, List.singleton_append]
    · change ((l.merge event max).2 || _) = _
      rw [hadded]
      rfl

/-- **One frame** adds the whole history, but for a first event that is the newest entry. -/
theorem absorb_events (hmax : 0 < max) (hlen : l.entries.length ≤ max) (ha : Alternates events) :
    (l.absorb max events).1.entries.map LogEntry.record =
        trim max (l.entries.map LogEntry.record ++
          records (events.drop (l.repeats_first events).toNat)) ∧
      ((l.absorb max events).2 = false → (l.absorb max events).1.entries = l.entries) := by
  cases hr : l.repeats_first events with
  | false =>
    obtain ⟨hrec, hchanged⟩ := absorb_fresh hmax hlen ha hr
    refine ⟨hrec, fun h => ?_⟩
    rw [hchanged, Bool.not_eq_false', List.isEmpty_iff] at h
    rw [h]
    rfl
  | true =>
    rcases events with _ | ⟨event, events⟩
    · exact nomatch hr
    obtain ⟨k, hk⟩ := exists_kind (ha.loggable event List.mem_cons_self)
    have hsame : l.repeats event.at_ms k = true := by
      simpa [ConnectionLogger.repeats_first, hk] using hr
    obtain ⟨hentries, hadded⟩ := merge_repeats max hk hsame
    set mid := (l.merge event max).1 with hmid
    rcases hlast : l.entries.getLast? with _ | last
    · simp [ConnectionLogger.repeats, hlast] at hsame
    have hkind : last.kind = k := by
      simp [ConnectionLogger.repeats, hlast] at hsame
      exact hsame.2
    have hnext : mid.repeats_first events = false :=
      repeats_first_next ha hk (by rw [hentries, hlast]) hkind
    obtain ⟨hrec, hchanged⟩ := absorb_fresh hmax (by rwa [hentries]) ha.tail hnext
    constructor
    · change (ConnectionLogger.absorb max events mid).1.entries.map LogEntry.record = _
      rw [hrec, hentries]
      rfl
    · intro h
      change ((l.merge event max).2 || (ConnectionLogger.absorb max events mid).2) = false at h
      rw [hadded, Bool.false_or, hchanged, Bool.not_eq_false', List.isEmpty_iff] at h
      subst h
      exact hentries

end Frame

/-! ## Runs -/

/-- A session, its pane and the store. `offered` counts the events at the front of the history that
an earlier frame has offered; `expected` lists what was offered, each event once and in order. -/
structure Host where
  history : List ConnectionEvent
  logger : ConnectionLogger
  stored : Option Json
  offered : ℕ
  expected : List Record

inductive Step
  | record_status (status : SessionStatus) (error : Option String) (now : UInt64)
  | draw (enabled_value : Option Json)
  /-- The pane is closed and opened again. -/
  | reopen
  /-- The program starts anew, with the store it left. -/
  | restart

def Host.start : Host := ⟨[], .default, none, 0, []⟩

/-- The status is recorded. -/
def is_news (history : List ConnectionEvent) (status : SessionStatus) : Bool :=
  status.is_loggable && !history.getLast?.any (·.status = status)

section Runs

variable (max_value : Option Json)

def step (s : Host) : Step → Host
  | .record_status status error now =>
    let history := record_status s.history status error now
    let drained := if is_news s.history status then s.history.length + 1 - history.length else 0
    { s with history, offered := s.offered - drained }
  | .draw enabled_value =>
    let (logger, stored) := keep_log enabled_value max_value s.history s.logger s.stored
    if enabled enabled_value then
      { s with
        logger, stored
        offered := s.history.length
        expected := s.expected ++ records (s.history.drop s.offered) }
    else { s with logger, stored }
  | .reopen => { s with logger := .default }
  | .restart => { s with history := [], logger := .default, offered := 0 }

/-- The log as the next frame finds it. -/
def Host.log (s : Host) : ConnectionLogger := if s.logger.loaded then s.logger else .load s.stored

/-- The log, shown and stored, is the newest part of what was offered. -/
structure Exact (s : Host) : Prop where
  shown : s.log.entries.map LogEntry.record = trim (max_entries max_value) s.expected
  stored : parse_log s.stored = s.log.entries

/-- A frame offers nothing a second time except the newest entry, at the front, or offers enough
to fill the whole log. -/
def Quiet (s : Host) : Step → Prop
  | .draw enabled_value =>
    enabled enabled_value →
      s.offered = (s.log.repeats_first s.history).toNat ∨
        max_entries max_value + (s.log.repeats_first s.history).toNat ≤ s.history.length
  | _ => True

instance (s : Host) : ∀ a, Decidable (Quiet max_value s a)
  | .draw enabled_value => inferInstanceAs (Decidable (enabled enabled_value = true → _))
  | .record_status .. | .reopen | .restart => isTrue trivial

variable {max_value} {s : Host}

/-- What the steps keep. -/
structure Inv (max_value : Option Json) (s : Host) : Prop extends Exact max_value s where
  alternates : Alternates s.history
  offered_le : s.offered ≤ s.history.length
  recorded : records (s.history.take s.offered) <:+ s.expected

theorem record_status_eq (history : List ConnectionEvent) (status : SessionStatus)
    (error : Option String) (now : UInt64) :
    ∃ e : ConnectionEvent, e.status = status ∧ record_status history status error now =
      if is_news history status then trim MAX_STATUS_HISTORY (history ++ [e]) else history := by
  unfold record_status is_news
  refine ⟨⟨now, status, if status = .failed ∨ status = .disconnected then error else none⟩, rfl, ?_⟩
  cases status.is_loggable <;> cases history.getLast?.any (·.status = status) <;> rfl

theorem alternates_concat {history : List ConnectionEvent} {e : ConnectionEvent}
    (h : Alternates history) (hnews : is_news history e.status) : Alternates (history ++ [e]) := by
  rw [is_news, Bool.and_eq_true, Bool.not_eq_true', Option.any_eq_false] at hnews
  obtain ⟨hloggable, hlast⟩ := hnews
  refine ⟨fun x hx => ?_, h.chain.append (List.isChain_singleton _) fun x hx y hy => ?_⟩
  · rcases List.mem_append.mp hx with hx | hx
    · exact h.loggable x hx
    · rwa [List.mem_singleton.mp hx]
  · obtain rfl : e = y := by simpa using hy
    simpa using hlast x hx

theorem inv_record_status (hs : Inv max_value s) (status : SessionStatus) (error : Option String)
    (now : UInt64) : Inv max_value (step max_value s (.record_status status error now)) := by
  obtain ⟨e, he, heq⟩ := record_status_eq s.history status error now
  cases hnews : is_news s.history status with
  | false =>
    have hstep : step max_value s (.record_status status error now) = s := by
      simp only [step, heq, hnews, Bool.false_eq_true, if_false, Nat.sub_zero]
    rwa [hstep]
  | true =>
    subst he
    rw [hnews, if_pos rfl] at heq
    have ha := alternates_concat hs.alternates hnews
    have hlen : (trim MAX_STATUS_HISTORY (s.history ++ [e])).length =
        s.history.length + 1 - (s.history.length + 1 - MAX_STATUS_HISTORY) := by
      rw [length_trim, List.length_append, List.length_singleton]
      omega
    have hdrained : s.history.length + 1 -
        (trim MAX_STATUS_HISTORY (s.history ++ [e])).length =
          s.history.length + 1 - MAX_STATUS_HISTORY := by
      rw [hlen]
      omega
    set drained := s.history.length + 1 - MAX_STATUS_HISTORY with hd
    have hstep : step max_value s (.record_status e.status error now) =
        { s with
          history := trim MAX_STATUS_HISTORY (s.history ++ [e])
          offered := s.offered - drained } := by
      simp only [step, heq, hnews, if_true, hdrained]
    rw [hstep]
    refine ⟨⟨hs.shown, hs.stored⟩, ha.suffix (trim_suffix _ _), ?_, ?_⟩
    · have := hs.offered_le
      change s.offered - drained ≤ (trim MAX_STATUS_HISTORY (s.history ++ [e])).length
      rw [hlen]
      omega
    · -- what is left of the events offered are the last of them
      have htrim : trim MAX_STATUS_HISTORY (s.history ++ [e]) = (s.history ++ [e]).drop drained := by
        rw [trim_eq_drop, List.length_append, List.length_singleton]
      change records ((trim MAX_STATUS_HISTORY (s.history ++ [e])).take (s.offered - drained)) <:+ _
      rw [htrim, ← List.drop_take, List.take_append_of_le_length hs.offered_le]
      exact ((List.drop_suffix _ _).filterMap _).trans hs.recorded

theorem log_keep_log {enabled_value : Option Json} {events : List ConnectionEvent}
    (he : enabled enabled_value) :
    keep_log enabled_value max_value events s.logger s.stored =
      ((s.log.absorb (max_entries max_value) events).1,
        if (s.log.absorb (max_entries max_value) events).2 then
          some (to_value (s.log.absorb (max_entries max_value) events).1.entries)
        else s.stored) := by
  rw [keep_log, if_pos he]
  rfl

theorem absorb_loaded {max : ℕ} {events : List ConnectionEvent} {l : ConnectionLogger}
    (h : l.loaded) : (l.absorb max events).1.loaded := by
  induction events generalizing l with
  | nil => exact h
  | cons event events ih =>
    refine ih (l := (l.merge event max).1) ?_
    unfold ConnectionLogger.merge
    rcases LogKind.of event.status with _ | kind
    · exact h
    · dsimp only
      split_ifs <;> exact h

theorem log_loaded : s.log.loaded := by
  unfold Host.log
  split_ifs with h
  · exact h
  · rfl

theorem length_log (hs : Exact max_value s) : s.log.entries.length ≤ max_entries max_value := by
  rw [← List.length_map LogEntry.record, hs.shown, length_trim]
  exact Nat.min_le_right _ _

/-- A quiet frame adds exactly what was not offered before. -/
theorem trim_quiet (hs : Inv max_value s)
    (h : s.offered = (s.log.repeats_first s.history).toNat ∨
      max_entries max_value + (s.log.repeats_first s.history).toNat ≤ s.history.length) :
    trim (max_entries max_value) (s.log.entries.map LogEntry.record ++
        records (s.history.drop (s.log.repeats_first s.history).toNat)) =
      trim (max_entries max_value) (s.expected ++ records (s.history.drop s.offered)) := by
  rcases h with h | h
  · rw [← h, hs.shown, trim_append_trim]
  · -- the history fills the log, whichever of its entries were there already
    set skipped := (s.log.repeats_first s.history).toNat
    have hloggable := hs.alternates.loggable
    have hlen : max_entries max_value ≤ (records (s.history.drop skipped)).length := by
      rw [length_records fun e he => hloggable e (List.mem_of_mem_drop he), List.length_drop]
      omega
    have hrest : records (s.history.drop skipped) <:+ records s.history :=
      (List.drop_suffix _ _).filterMap _
    have hall : records s.history <:+ s.expected ++ records (s.history.drop s.offered) := by
      obtain ⟨front, hfront⟩ := hs.recorded
      refine ⟨front, ?_⟩
      rw [← hfront, List.append_assoc, ← records_append, List.take_append_drop]
    rw [trim_append_of_le hlen, trim_eq_of_suffix (hrest.trans hall) hlen]

theorem inv_draw (hs : Inv max_value s) {enabled_value : Option Json}
    (hq : Quiet max_value s (.draw enabled_value)) :
    Inv max_value (step max_value s (.draw enabled_value)) := by
  by_cases he : enabled enabled_value
  case neg =>
    have hstep : step max_value s (.draw enabled_value) = { s with logger := s.log } := by
      simp only [step, keep_log, if_neg he]
      rfl
    have hlog : ({ s with logger := s.log } : Host).log = s.log := if_pos log_loaded
    rw [hstep]
    refine ⟨⟨?_, ?_⟩, hs.alternates, hs.offered_le, hs.recorded⟩
    · rw [hlog]
      exact hs.shown
    · rw [hlog]
      exact hs.stored
  set after := s.log.absorb (max_entries max_value) s.history with hafter
  have hstep : step max_value s (.draw enabled_value) =
      { s with
        logger := after.1
        stored := if after.2 then some (to_value after.1.entries) else s.stored
        offered := s.history.length
        expected := s.expected ++ records (s.history.drop s.offered) } := by
    simp only [step, log_keep_log he, if_pos he]
    rfl
  obtain ⟨hrec, hsame⟩ :=
    absorb_events (max_entries_pos max_value) (length_log hs.toExact) hs.alternates
  have hlog : (step max_value s (.draw enabled_value)).log = after.1 := by
    rw [hstep]
    exact if_pos (absorb_loaded log_loaded)
  refine ⟨⟨?_, ?_⟩, ?_, ?_, ?_⟩
  · rw [hlog, hrec, trim_quiet hs (hq he), hstep]
  · rw [hlog, hstep]
    dsimp only
    cases hchanged : after.2 with
    | true =>
      rw [if_pos rfl]
      exact parse_log_to_value _
    | false =>
      rw [if_neg Bool.false_ne_true, hs.stored, hsame hchanged]
  · rw [hstep]
    exact hs.alternates
  · rw [hstep]
  · rw [hstep]
    dsimp only
    obtain ⟨front, hfront⟩ := hs.recorded
    refine ⟨front, ?_⟩
    rw [List.take_length, ← hfront, List.append_assoc, ← records_append, List.take_append_drop]

/-- **Step lemma.** -/
theorem inv_step (s : Host) (a : Step) (hs : Inv max_value s) (hq : Quiet max_value s a) :
    Inv max_value (step max_value s a) := by
  cases a with
  | record_status status error now => exact inv_record_status hs status error now
  | draw enabled_value => exact inv_draw hs hq
  | reopen =>
    have hlog : (step max_value s .reopen).log.entries = s.log.entries := hs.stored
    refine ⟨⟨?_, ?_⟩, hs.alternates, hs.offered_le, hs.recorded⟩
    · rw [hlog]
      exact hs.shown
    · rw [hlog]
      exact hs.stored
  | restart =>
    have hlog : (step max_value s .restart).log.entries = s.log.entries := hs.stored
    refine ⟨⟨?_, ?_⟩, alternates_nil, Nat.le_refl 0, List.nil_suffix⟩
    · rw [hlog]
      exact hs.shown
    · rw [hlog]
      exact hs.stored

theorem inv_start : Inv max_value .start :=
  ⟨⟨rfl, rfl⟩, alternates_nil, Nat.le_refl 0, List.nil_suffix⟩

/-- **The log is exact in every state of a run whose frames are quiet.** -/
theorem exact_of_quiet (max_value : Option Json) (steps : List Step)
    (h : Guarded (step max_value) (Quiet max_value) .start steps) :
    ∀ s, Reached (step max_value) .start steps s → Exact max_value s := by
  intro s hs
  exact (reached_inv inv_step inv_start h hs).toExact

/-- A host goes up and down, with a frame after each change, and up again after a restart. -/
def drawn_in_time : List Step :=
  [.record_status .connected none 1000, .draw none, .draw none,
    .record_status .disconnected none 61000, .draw none, .restart,
    .record_status .connected none 90000, .draw none]

theorem exact_drawn_in_time : Exact none (run (step none) .start drawn_in_time) :=
  exact_of_quiet none drawn_in_time (by decide) _ ⟨drawn_in_time, List.prefix_rfl, rfl⟩

/-- A host goes up and down; then two frames are drawn. -/
def drawn_twice : List Step :=
  [.record_status .connected none 1000, .record_status .disconnected none 61000, .draw none,
    .draw none]

/-- The second frame records both events again. -/
theorem drawn_twice_duplicates :
    (run (step none) .start drawn_twice).log.entries.map LogEntry.record =
        [(1000, .connected, none), (61000, .disconnected, none),
          (1000, .connected, none), (61000, .disconnected, none)] ∧
      (run (step none) .start drawn_twice).expected =
        [(1000, .connected, none), (61000, .disconnected, none)] ∧
      ¬ ∀ s, Reached (step none) .start drawn_twice s → Exact none s := by
  refine ⟨rfl, rfl, fun h => ?_⟩
  have := (h _ ⟨drawn_twice, List.prefix_rfl, rfl⟩).shown
  exact absurd (congrArg List.length this) (by decide)

end Runs

end WaSSH.Logger
