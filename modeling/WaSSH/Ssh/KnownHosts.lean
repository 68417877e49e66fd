import WaSSH.Lib.Json
import WaSSH.Lib.Run
import Mathlib.Data.List.Basic
import Mathlib.Tactic

/-!
# Known-host storage

`known_hosts.json` is a JSON array of `{ host, port, fingerprint }` entries. It is read once and
written back whole on every change.

* `KnownHosts`: the entries in memory, with `get`, `remember`, `forget`;
* `load`, `step`: the entries next to the file;
* **`run_keeps_records_iff`**: when a run keeps the records of the endpoints it is not about;
* `guarded_of_clean`: it does when every load reads the file and every write succeeds.
-/

namespace WaSSH.Ssh

/-! ## The entries -/

@[ext]
structure Endpoint where
  host : String
  port : UInt16
  deriving DecidableEq

/-- A verified host key, keyed by endpoint. -/
structure HostKeyFingerprint where
  host : String
  port : UInt16
  fingerprint : String
  deriving DecidableEq

def HostKeyFingerprint.endpoint (entry : HostKeyFingerprint) : Endpoint := ⟨entry.host, entry.port⟩

/-- True when both fields describe the same endpoint. -/
def HostKeyFingerprint.matches (entry : HostKeyFingerprint) (e : Endpoint) : Bool :=
  entry.host = e.host ∧ entry.port = e.port

theorem matches_iff {entry : HostKeyFingerprint} {e : Endpoint} :
    entry.matches e ↔ entry.endpoint = e := by
  rw [HostKeyFingerprint.matches, decide_eq_true_iff, Endpoint.ext_iff]
  rfl

namespace KnownHosts

/-- Recorded fingerprint for an endpoint, if any. -/
def get (entries : List HostKeyFingerprint) (e : Endpoint) : Option String :=
  (entries.find? (·.matches e)).map (·.fingerprint)

/-- Add or replace the entry for its endpoint. -/
def remember (entries : List HostKeyFingerprint) (entry : HostKeyFingerprint) :
    List HostKeyFingerprint :=
  entries.filter (!·.matches entry.endpoint) ++ [entry]

/-- Remove an endpoint. -/
def forget (entries : List HostKeyFingerprint) (e : Endpoint) : List HostKeyFingerprint :=
  entries.filter (!·.matches e)

theorem get_forget (entries : List HostKeyFingerprint) {e e' : Endpoint} (h : e' ≠ e) :
    get (forget entries e) e' = get entries e' := by
  induction entries with
  | nil => rfl
  | cons entry entries ih =>
    unfold get forget at ih ⊢
    rw [List.filter_cons, List.find?_cons]
    by_cases he : entry.matches e
    · have he' : entry.matches e' = false := by
        rw [Bool.eq_false_iff, Ne, matches_iff, matches_iff.mp he]
        exact h.symm
      rw [he, he']
      exact ih
    · rw [Bool.not_eq_true] at he
      rw [he]
      simp only [Bool.not_false, if_true, List.find?_cons]
      cases entry.matches e' with
      | true => rfl
      | false => exact ih

theorem get_forget_self (entries : List HostKeyFingerprint) (e : Endpoint) :
    get (forget entries e) e = none := by
  rw [get, Option.map_eq_none_iff, List.find?_eq_none]
  intro entry hmem
  have := (List.mem_filter.mp hmem).2
  simpa using this

theorem get_remember (entries : List HostKeyFingerprint) (entry : HostKeyFingerprint) {e : Endpoint}
    (h : e ≠ entry.endpoint) : get (remember entries entry) e = get entries e := by
  have hlast : entry.matches e = false := by
    rw [Bool.eq_false_iff, Ne, matches_iff]
    exact h.symm
  rw [← get_forget entries h]
  unfold get remember forget
  rw [List.find?_append, List.find?_singleton, hlast]
  simp

theorem get_remember_self (entries : List HostKeyFingerprint) (entry : HostKeyFingerprint) :
    get (remember entries entry) entry.endpoint = some entry.fingerprint := by
  have hnone := get_forget_self entries entry.endpoint
  unfold get forget at hnone
  rw [Option.map_eq_none_iff] at hnone
  have hlast : entry.matches entry.endpoint = true := matches_iff.mpr rfl
  unfold get remember
  rw [List.find?_append, hnone, List.find?_singleton, hlast]
  rfl

end KnownHosts

/-! ## The file -/

/-- What the path holds: no file, a file that is no JSON, or a JSON value. -/
inductive Document
  | absent
  | broken
  | json (value : Json)

/-- An entry as it is read: an object, or its values in order. -/
def read_entry (v : Json) : Option HostKeyFingerprint :=
  let fields (host port fingerprint : Json) : Option HostKeyFingerprint := do
    let host ← host.as_str
    let port ← (port.as_u64.filter (· < 2 ^ 16)).map UInt16.ofNat
    let fingerprint ← fingerprint.as_str
    some ⟨host, port, fingerprint⟩
  match v with
  | .obj _ => fields (v.get "host") (v.get "port") (v.get "fingerprint")
  | .arr [host, port, fingerprint] => fields host port fingerprint
  | _ => none

def write_entry (entry : HostKeyFingerprint) : Json :=
  .obj [("host", .str entry.host), ("port", .int entry.port.toNat),
    ("fingerprint", .str entry.fingerprint)]

/-- `read_json`: the whole document, nothing for a missing file, an error if any part of it does not
fit or the file cannot be read now. -/
def read_json (readable : Bool) : Document → Except Unit (Option (List HostKeyFingerprint))
  | doc =>
    if !readable then .error ()
    else match doc with
      | .absent => .ok none
      | .broken => .error ()
      | .json v =>
        match v.as_array.bind (·.mapM read_entry) with
        | some entries => .ok (some entries)
        | none => .error ()

/-- The fingerprint the file records for an endpoint: that of the first entry for it. -/
def recorded (doc : Document) (e : Endpoint) : Option String :=
  match doc with
  | .json v => KnownHosts.get ((v.as_array.getD []).filterMap read_entry) e
  | _ => none

/-! ## The store -/

/-- How a write of the document ends: the new one is there, the old one is, or, where a rename does
not replace a file, none. -/
inductive Written
  | written
  | kept
  | removed
  deriving DecidableEq

/-- The file and the entries in memory. -/
structure Store where
  doc : Document
  entries : List HostKeyFingerprint

inductive Op
  /-- Load the document; `readable` says whether the file can be read now. -/
  | load (readable : Bool)
  | remember (entry : HostKeyFingerprint) (w : Written)
  | forget (e : Endpoint) (w : Written)

/-- A missing or invalid file starts empty. -/
def load (readable : Bool) (doc : Document) : List HostKeyFingerprint :=
  match read_json readable doc with
  | .ok (some entries) => entries
  | _ => []

def Store.persist (s : Store) : Written → Store
  | .written => { s with doc := .json (.arr (s.entries.map write_entry)) }
  | .kept => s
  | .removed => { s with doc := .absent }

def step (s : Store) : Op → Store
  | .load readable => { s with entries := load readable s.doc }
  | .remember entry w => { s with entries := KnownHosts.remember s.entries entry }.persist w
  | .forget e w => { s with entries := KnownHosts.forget s.entries e }.persist w

/-- The endpoint an operation is for. -/
def Op.endpoint : Op → Option Endpoint
  | .load _ => none
  | .remember entry _ => some entry.endpoint
  | .forget e _ => some e

/-! ## Keeping the records -/

/-- Every record of the file stays, in the file and after a load that reads it, unless the operation
is for its endpoint. -/
def KeepsRecords (s : Store) (op : Op) : Prop :=
  ∀ e fingerprint, op.endpoint ≠ some e → recorded s.doc e = some fingerprint →
    recorded (step s op).doc e = some fingerprint ∧
      ∀ readable, op = .load readable → (∃ entries, read_json readable s.doc = .ok entries) →
        KnownHosts.get (step s op).entries e = some fingerprint

/-- The entries in memory have what the file records for the other endpoints. -/
def Covers (s : Store) (e : Endpoint) : Prop :=
  ∀ e', e' ≠ e → ∀ fingerprint, recorded s.doc e' = some fingerprint →
    KnownHosts.get s.entries e' = some fingerprint

/-- What is written in place of the file loses nothing. -/
def WritesAll (s : Store) (e : Endpoint) : Written → Prop
  | .written => Covers s e
  | .kept => True
  | .removed => ∀ e', e' ≠ e → recorded s.doc e' = none

def CanWrite (s : Store) : Op → Prop
  | .load _ => True
  | .remember entry w => WritesAll s entry.endpoint w
  | .forget e w => WritesAll s e w

theorem read_write_entry (entry : HostKeyFingerprint) :
    read_entry (write_entry entry) = some entry := by
  have h := entry.port.toNat_lt
  have hport : ((Json.int entry.port.toNat).as_u64.filter (· < 2 ^ 16)).map UInt16.ofNat =
      some entry.port := by
    simp only [Json.as_u64]
    rw [if_pos (by omega), Int.toNat_natCast, Option.filter_some, if_pos (by simpa using h),
      Option.map_some, UInt16.ofNat_toNat]
  simp only [read_entry, write_entry, Json.get, List.find?_cons, beq_self_eq_true, Option.map_some,
    Option.getD_some, String.reduceBEq, Json.as_str, hport, Option.bind_some,
    Option.bind_eq_bind]

theorem filterMap_read_write (entries : List HostKeyFingerprint) :
    (entries.map write_entry).filterMap read_entry = entries := by
  rw [List.filterMap_map]
  exact (congrArg (List.filterMap · entries) (funext read_write_entry)).trans
    List.filterMap_some

theorem recorded_written (entries : List HostKeyFingerprint) (e : Endpoint) :
    recorded (.json (.arr (entries.map write_entry))) e = KnownHosts.get entries e := by
  simp only [recorded, Json.as_array, Option.getD_some, filterMap_read_write]

theorem filterMap_of_mapM {α β : Type} {f : α → Option β} : ∀ {xs : List α} {ys : List β},
    xs.mapM f = some ys → xs.filterMap f = ys
  | [], _, h => (Option.some.inj h)
  | x :: xs, ys, h => by
    rw [List.mapM_cons, Option.bind_eq_bind, Option.bind_eq_some_iff] at h
    obtain ⟨y, hy, h⟩ := h
    obtain ⟨ys', hys, h⟩ := Option.bind_eq_some_iff.mp h
    obtain rfl := Option.some.inj h
    rw [List.filterMap_cons_some hy, filterMap_of_mapM hys]

/-- What a load that reads the file holds is what the file records. -/
theorem get_load {readable : Bool} {doc : Document} {entries : Option (List HostKeyFingerprint)}
    (h : read_json readable doc = .ok entries) (e : Endpoint) :
    KnownHosts.get (load readable doc) e = recorded doc e := by
  cases readable with
  | false => exact nomatch h
  | true =>
    cases doc with
    | absent => rfl
    | broken => exact nomatch h
    | json v =>
      simp only [read_json, Bool.not_true, Bool.false_eq_true, if_false] at h
      cases hv : v.as_array.bind (·.mapM read_entry) with
      | none =>
        rw [hv] at h
        exact nomatch h
      | some es =>
        have hload : load true (.json v) = es := by
          simp only [load, read_json, Bool.not_true, Bool.false_eq_true, if_false, hv]
        obtain ⟨items, hitems, hmap⟩ := Option.bind_eq_some_iff.mp hv
        rw [hload, recorded, hitems, Option.getD_some, filterMap_of_mapM hmap]

/-- The record of another endpoint after a write. -/
theorem recorded_persist (s : Store) (e : Endpoint) (w : Written) :
    recorded (s.persist w).doc e =
      match w with
      | .written => KnownHosts.get s.entries e
      | .kept => recorded s.doc e
      | .removed => none := by
  cases w with
  | written => exact recorded_written s.entries e
  | kept => rfl
  | removed => rfl

/-- A change for `e` that leaves the other entries in memory alone keeps the records exactly if what
it writes has them all. -/
theorem writes_all_iff {s : Store} {entries : List HostKeyFingerprint} {e : Endpoint} (w : Written)
    (hget : ∀ e', e' ≠ e → KnownHosts.get entries e' = KnownHosts.get s.entries e') :
    (∀ e' fingerprint, e' ≠ e → recorded s.doc e' = some fingerprint →
      recorded (({ s with entries } : Store).persist w).doc e' = some fingerprint) ↔
        WritesAll s e w := by
  simp only [recorded_persist]
  cases w with
  | written =>
    constructor
    · intro h e' he' fingerprint hr
      rw [← hget e' he']
      exact h e' fingerprint he' hr
    · intro h e' fingerprint he' hr
      rw [hget e' he']
      exact h e' he' fingerprint hr
  | kept => exact iff_of_true (fun _ _ _ h => h) trivial
  | removed =>
    constructor
    · intro h e' he'
      rw [Option.eq_none_iff_forall_not_mem]
      exact fun fingerprint hr => nomatch h e' fingerprint he' hr
    · intro h e' fingerprint he' hr
      rw [h e' he'] at hr
      exact nomatch hr

theorem keeps_records_iff (s : Store) (op : Op) : KeepsRecords s op ↔ CanWrite s op := by
  have hload : ∀ {op : Op} {e : Endpoint}, op.endpoint = some e →
      (KeepsRecords s op ↔ ∀ e' fingerprint, e' ≠ e → recorded s.doc e' = some fingerprint →
        recorded (step s op).doc e' = some fingerprint) := by
    intro op e he
    constructor
    · intro h e' fingerprint hne hr
      exact (h e' fingerprint (by rw [he]; simpa using hne.symm) hr).1
    · intro h e' fingerprint hne hr
      rw [he] at hne
      refine ⟨h e' fingerprint (fun heq => hne (congrArg some heq.symm)) hr, ?_⟩
      rintro readable rfl
      exact nomatch he
  cases op with
  | load readable =>
    refine iff_of_true (fun e fingerprint _ hr => ⟨hr, ?_⟩) trivial
    rintro _ heq ⟨entries, hread⟩
    obtain rfl := Op.load.inj heq
    exact (get_load hread e).trans hr
  | remember entry w =>
    rw [hload rfl]
    exact writes_all_iff w fun e' he' => KnownHosts.get_remember s.entries entry he'
  | forget e w =>
    rw [hload rfl]
    exact writes_all_iff w fun e' he' => KnownHosts.get_forget s.entries he'

/-- **Every operation of a run keeps the records of the other endpoints exactly if each write has
them in memory.** -/
theorem run_keeps_records_iff (s : Store) (ops : List Op) :
    StepRun.Guarded step KeepsRecords s ops ↔ StepRun.Guarded step CanWrite s ops :=
  StepRun.guarded_congr step KeepsRecords keeps_records_iff s ops

/-! ## Runs without failures -/

/-- A load reads the file or finds no record in it, and a write succeeds. -/
def Clean (s : Store) : Op → Prop
  | .load readable => (∃ entries, read_json readable s.doc = .ok entries) ∨ ∀ e, recorded s.doc e = none
  | .remember _ w | .forget _ w => w = .written

/-- The entries in memory have what the file records. -/
def Agrees (s : Store) : Prop :=
  ∀ e fingerprint, recorded s.doc e = some fingerprint → KnownHosts.get s.entries e = some fingerprint

theorem agrees_written (s : Store) (entries : List HostKeyFingerprint) :
    Agrees (({ s with entries } : Store).persist .written) := by
  intro e fingerprint h
  rw [recorded_persist] at h
  exact h

theorem step_agrees {s : Store} {op : Op} (hclean : Clean s op) : Agrees (step s op) := by
  cases op with
  | load readable =>
    intro e fingerprint hr
    rcases hclean with ⟨entries, hread⟩ | hnone
    · exact (get_load hread e).trans hr
    · exact nomatch (hnone e).symm.trans hr
  | remember entry w =>
    obtain rfl := hclean
    exact agrees_written s _
  | forget e w =>
    obtain rfl := hclean
    exact agrees_written s _

theorem can_write_of_agrees {s : Store} {op : Op} (hs : Agrees s) (hclean : Clean s op) :
    CanWrite s op := by
  cases op with
  | load readable => trivial
  | remember entry w =>
    obtain rfl := hclean
    exact fun e' _ => hs e'
  | forget e w =>
    obtain rfl := hclean
    exact fun e' _ => hs e'

/-- A run without failed loads of a file with records, and without failed writes, loses none. -/
theorem guarded_of_clean : ∀ {s : Store} {ops : List Op}, Agrees s →
    StepRun.Guarded step Clean s ops → StepRun.Guarded step CanWrite s ops
  | _, [], _, _ => trivial
  | _, _ :: _, hs, ⟨hop, hops⟩ =>
    ⟨can_write_of_agrees hs hop, guarded_of_clean (step_agrees hop) hops⟩

/-- A file with one record, which cannot be read for a moment. -/
def one_record : Store where
  doc := .json (.arr [write_entry ⟨"db", 22, "SHA256:a"⟩])
  entries := []

/-- Recording another host then loses it. -/
theorem unreadable_load_loses_record :
    ¬ StepRun.Guarded step KeepsRecords one_record
      [.load false, .remember ⟨"web", 22, "SHA256:b"⟩ .written] := by
  rintro ⟨-, hremember, -⟩
  have hkept := (hremember ⟨"db", 22⟩ "SHA256:a" (by decide) (by decide)).1
  exact absurd hkept (by decide)

end WaSSH.Ssh
