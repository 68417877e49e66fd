import Mathlib.Data.UInt
import WaSSH.Lib.Json
import WaSSH.Lib.Newest

/-!
# The connection log

A session records its status changes in a bounded history; on every frame the Connection Logger
folds the whole history into its stored log.

* `record_status`: the history of a session;
* `ConnectionLogger.merge`, `absorb`, `load`, `keep_log`: the log;
* `to_value`, `parse_log`: the stored form, with **`parse_log_to_value`**.
-/

namespace WaSSH.Logger

open Newest

/-! ## Events -/

inductive SessionStatus
  | idle
  | connecting
  | awaiting_host_key
  | authenticating
  | connected
  | reconnecting
  | disconnected
  | closed
  | failed
  deriving DecidableEq

/-- A connection log records a transition into this state. -/
def SessionStatus.is_loggable : SessionStatus → Bool
  | connected | reconnecting | disconnected | failed => true
  | _ => false

/-- One status change a session went through. -/
structure ConnectionEvent where
  at_ms : UInt64
  status : SessionStatus
  message : Option String

def MAX_STATUS_HISTORY : ℕ := 200

/-- Note a status change; `error` is the session's error text and `now` the clock. -/
def record_status (history : List ConnectionEvent) (status : SessionStatus)
    (error : Option String) (now : UInt64) : List ConnectionEvent :=
  if !status.is_loggable then history
  else if history.getLast?.any (·.status = status) then history
  else
    let message := if status = .failed ∨ status = .disconnected then error else none
    trim MAX_STATUS_HISTORY (history ++ [⟨now, status, message⟩])

/-! ## Entries -/

inductive LogKind
  | connected
  | reconnecting
  | disconnected
  | failed
  deriving DecidableEq

namespace LogKind

/-- The kind recorded for a status, if a log does not skip it. -/
def of : SessionStatus → Option LogKind
  | .connected => some connected
  | .reconnecting => some reconnecting
  | .disconnected => some disconnected
  | .failed => some failed
  | _ => none

/-- The session was up before this entry. -/
def ends_a_session : LogKind → Bool
  | disconnected | failed | reconnecting => true
  | connected => false

def name : LogKind → String
  | connected => "connected"
  | reconnecting => "reconnecting"
  | disconnected => "disconnected"
  | failed => "failed"

def of_name (name : String) : Option LogKind :=
  if name = "connected" then some connected
  else if name = "reconnecting" then some reconnecting
  else if name = "disconnected" then some disconnected
  else if name = "failed" then some failed
  else none

@[simp] theorem of_name_name (k : LogKind) : of_name k.name = some k := by cases k <;> rfl

theorem isSome_of_iff (s : SessionStatus) : (of s).isSome = s.is_loggable := by cases s <;> rfl

theorem of_injective {s s' : SessionStatus} {k : LogKind} (h : of s = some k)
    (h' : of s' = some k) : s = s' := by
  cases s <;> cases s' <;> grind [of]

end LogKind

/-- One line of the log. -/
structure LogEntry where
  at_ms : UInt64
  kind : LogKind
  message : Option String
  duration_ms : Option UInt64

/-! ## The stored form -/

namespace LogEntry

/-- Fields that hold nothing are not written. -/
def to_json (e : LogEntry) : Json :=
  .obj ([("atMs", .int e.at_ms.toNat), ("kind", .str e.kind.name)] ++
    (e.message.map fun text => ("message", .str text)).toList ++
    (e.duration_ms.map fun ms => ("durationMs", .int ms.toNat)).toList)

def kind_of_json : Json → Option LogKind
  | .str name | .obj [(name, .null)] => LogKind.of_name name
  | _ => none

def ms_of_json (v : Json) : Option UInt64 := v.as_u64.map UInt64.ofNat

/-- An optional field: nothing when it is absent or null. -/
def optional {α : Type} (read : Json → Option α) : Json → Option (Option α)
  | .null => some none
  | v => (read v).map some

def of_fields (at_ms kind message duration_ms : Json) : Option LogEntry := do
  pure ⟨← ms_of_json at_ms, ← kind_of_json kind, ← optional Json.as_str message,
    ← optional ms_of_json duration_ms⟩

/-- Read an entry from its fields by name, or in their order. -/
def of_json : Json → Option LogEntry
  | .obj fields =>
    let v := Json.obj fields
    of_fields (v.get "atMs") (v.get "kind") (v.get "message") (v.get "durationMs")
  | .arr (at_ms :: kind :: rest) =>
    if rest.length ≤ 2 then of_fields at_ms kind (rest.getD 0 .null) (rest.getD 1 .null) else none
  | _ => none

@[simp] theorem ms_of_json_int (ms : UInt64) : ms_of_json (.int ms.toNat) = some ms := by
  have h : (0 : ℤ) ≤ ms.toNat ∧ (ms.toNat : ℤ) < 2 ^ 64 := by
    have := ms.toNat_lt
    omega
  rw [ms_of_json, Json.as_u64, if_pos h, Option.map_some, Int.toNat_natCast, UInt64.ofNat_toNat]

theorem of_json_to_json (e : LogEntry) : of_json e.to_json = some e := by
  obtain ⟨at_ms, kind, message, duration⟩ := e
  have hms := ms_of_json_int at_ms
  have hkind := LogKind.of_name_name kind
  cases message <;> cases duration with
  | none => simp [to_json, of_json, of_fields, Json.get, kind_of_json, optional, Json.as_str]
  | some ms =>
    have hduration := ms_of_json_int ms
    simp [to_json, of_json, of_fields, Json.get, kind_of_json, optional, Json.as_str]

end LogEntry

/-- Read a stored log, skipping entries that no longer parse. -/
def parse_log (stored : Option Json) : List LogEntry :=
  ((stored.bind Json.as_array).map fun items => items.filterMap LogEntry.of_json).getD []

/-- Serialise the log for storage. -/
def to_value (entries : List LogEntry) : Json := .arr (entries.map LogEntry.to_json)

/-- **A stored log reads back** as it was written. -/
theorem parse_log_to_value (entries : List LogEntry) :
    parse_log (some (to_value entries)) = entries := by
  change (entries.map LogEntry.to_json).filterMap LogEntry.of_json = entries
  induction entries with
  | nil => rfl
  | cons e entries ih =>
    rw [List.map_cons, List.filterMap_cons_some (LogEntry.of_json_to_json e), ih]

/-! ## The logger -/

structure ConnectionLogger where
  entries : List LogEntry
  loaded : Bool
  connected_since : Option UInt64

def ConnectionLogger.default : ConnectionLogger := ⟨[], false, none⟩

/-- `saturating_sub`. -/
def saturating_sub (a b : UInt64) : UInt64 := if b ≤ a then a - b else 0

namespace ConnectionLogger

/-- The newest entry has this time and kind. -/
def repeats (l : ConnectionLogger) (at_ms : UInt64) (kind : LogKind) : Bool :=
  l.entries.getLast?.any fun last => last.at_ms = at_ms && last.kind = kind

/-- Fold one event into the log and tell whether anything was added. -/
def merge (l : ConnectionLogger) (event : ConnectionEvent) (max_entries : ℕ) :
    ConnectionLogger × Bool :=
  match LogKind.of event.status with
  | none => (l, false)
  | some kind =>
    let l := if kind = .connected then { l with connected_since := some event.at_ms } else l
    if l.repeats event.at_ms kind then (l, false)
    else
      let duration_ms :=
        if kind.ends_a_session then l.connected_since.map (saturating_sub event.at_ms) else none
      let connected_since := if kind.ends_a_session then none else l.connected_since
      let entry := ⟨event.at_ms, kind, event.message, duration_ms⟩
      ({ l with entries := trim max_entries (l.entries ++ [entry]), connected_since }, true)

/-- Fold in everything new from the session and tell whether the log changed. -/
def absorb (max_entries : ℕ) : List ConnectionEvent → ConnectionLogger → ConnectionLogger × Bool
  | [], l => (l, false)
  | event :: events, l =>
    let (l, added) := l.merge event max_entries
    let (l, changed) := absorb max_entries events l
    (l, added || changed)

/-- Read the stored log and rebuild the current connection's start time. -/
def load (stored : Option Json) : ConnectionLogger :=
  let entries := parse_log stored
  ⟨entries, true,
    (entries.getLast?.filter fun entry => entry.kind = .connected).map LogEntry.at_ms⟩

end ConnectionLogger

def DEFAULT_MAX_ENTRIES : ℕ := 500

/-- How many entries to keep, read from the settings. -/
def max_entries (value : Option Json) : ℕ :=
  ((value.bind Json.as_u64).filter (0 < ·)).getD DEFAULT_MAX_ENTRIES

theorem max_entries_pos (value : Option Json) : 0 < max_entries value := by
  unfold max_entries
  rcases h : (value.bind Json.as_u64).filter (0 < ·) with _ | n <;> rw [h]
  · exact Nat.succ_pos 499
  · exact of_decide_eq_true (Option.filter_eq_some_iff.mp h).2

/-- Logging goes on unless the settings pause it. -/
def enabled (value : Option Json) : Bool := (value.bind Json.as_bool).getD true

/-- What a frame of the pane does with the log: `show` up to its drawing. -/
def keep_log (enabled_value max_value : Option Json) (events : List ConnectionEvent)
    (l : ConnectionLogger) (stored : Option Json) : ConnectionLogger × Option Json :=
  let l := if l.loaded then l else .load stored
  if enabled enabled_value then
    let (l, changed) := l.absorb (max_entries max_value) events
    (l, if changed then some (to_value l.entries) else stored)
  else (l, stored)

end WaSSH.Logger
