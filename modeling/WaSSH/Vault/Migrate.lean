import WaSSH.Vault.Panes

/-!
# The migration at start-up

Earlier builds kept secret fields in plain text in the settings, in the saved hosts and in the
plugins' own documents. At start-up they are sealed, and taken out of those files.

* `sanitize`, `Document`: the documents of the plugins, in files named after what they belong to;
* `settings_pending`, `hosts_pending`, `take_document_secrets`: what is sealed, and under what;
* `seal_pending`, `migrate`: the migration;
* `filed`, **`reads_seal_pending`**: what the vault holds after the sealing.
-/

namespace WaSSH.Vault

open Assoc
open Hosts (PluginSettings HostProfile)

/-! ## Documents -/

/-- What a file name keeps of an id. -/
def sanitize (value : String) : String :=
  let cleaned := value.toList.map fun c =>
    if c.isAlphanum ∨ c = '.' ∨ c = '_' ∨ c = '-' then c else '_'
  if cleaned.isEmpty then "_" else String.ofList cleaned

/-- The scope a document is saved under: the id of the host, or of the tab that has none; the
plugin-wide file has none. -/
def plugin_scope : Owner → Option String
  | .application => none
  | .host id => some id
  | .tab session => some ("tab:" ++ session)

/-- A document of a plugin: what it belongs to, and the object its file holds, if it can be read and
holds one. -/
structure Document where
  id : PluginId
  owner : Owner
  data : Option Values

/-- The scope the file name carries, as `plugin_data_scopes` reads it back. -/
def Document.scope (d : Document) : Option String := (plugin_scope d.owner).map sanitize

/-- What is read at start-up. The documents are in the order the migration reads them. -/
structure Startup where
  settings : PluginSettings
  hosts : List HostProfile
  documents : List Document
  secrets : Option SecretsStore

/-! ## What is sealed -/

/-- Scope, plugin and field. -/
abbrev Slot := String × String × String

/-- A text to be sealed. -/
structure Pending where
  scope : String
  plugin : String
  field : String
  text : String

def Pending.slot (p : Pending) : Slot := (p.scope, p.plugin, p.field)

/-- Secret-named fields of a plugin this build does not know. -/
def unknown_plugin_secrets (scope plugin : String) (values : Values) : List Pending :=
  values.filterMap fun (key, value) =>
    (secret_text value).bind fun text =>
      if names_a_secret key then some ⟨scope, plugin, key, text⟩ else none

/-- The non-empty texts under the schema's secret fields of one kind. -/
def schema_secrets (id : PluginId) (wide : Bool) (scope plugin : String) (values : Values) :
    List Pending :=
  (secret_fields id).filterMap fun (key, app_wide) =>
    if app_wide = wide then
      ((get values key).bind secret_text).map fun text => ⟨scope, plugin, key, text⟩
    else none

/-- The pass over `settings.json`: application-wide fields, and the keys of older builds. -/
def settings_pending (settings : PluginSettings) : List Pending :=
  settings.flatMap fun (plugin, values) =>
    match PluginId.parse plugin with
    | none => unknown_plugin_secrets APP_SCOPE plugin values
    | some id =>
      schema_secrets id true APP_SCOPE plugin values ++
        (legacy_secrets id values).map fun (field, text) => ⟨APP_SCOPE, plugin, field, text⟩

/-- The pass over `hosts.json`: the fields of a host. -/
def hosts_pending (hosts : List HostProfile) : List Pending :=
  hosts.flatMap fun host => host.plugin_settings.flatMap fun (plugin, values) =>
    match PluginId.parse plugin with
    | none => unknown_plugin_secrets host.id plugin values
    | some id => schema_secrets id false host.id plugin values

/-- Plain-text secrets a document still holds, and the document without them. An empty text is one
of them. -/
def take_document_secrets (id : PluginId) (scope : Option String) (values : Values) :
    List Pending × Values :=
  let host_scope := scope.getD APP_SCOPE
  let found := (secret_fields id).filterMap fun (key, app_wide) =>
    ((get values key).bind Json.as_str).map fun text =>
      (⟨if app_wide then APP_SCOPE else host_scope, id.as_str, key, text⟩ : Pending)
  let left := (secret_fields id).foldl (fun values field => remove values field.1) values
  (found ++ (legacy_secrets id left).map fun (field, text) => ⟨APP_SCOPE, id.as_str, field, text⟩,
    without_legacy id left)

namespace Document

variable (d : Document)

def found : List Pending :=
  d.data.elim [] fun values => (take_document_secrets d.id d.scope values).1

/-- The document without what was found. -/
def taken : Document :=
  { d with data := d.data.map fun values => (take_document_secrets d.id d.scope values).2 }

end Document

namespace Startup

variable (s : Startup)

def pending : List Pending :=
  settings_pending s.settings ++ hosts_pending s.hosts ++ s.documents.flatMap Document.found

/-- Something is filed under a host. -/
def from_hosts : Bool := s.pending.any fun p => p.scope ≠ APP_SCOPE

end Startup

/-! ## The migration -/

/-- What the migration meets: the sealing of each text, and the writes of the files. -/
structure Env where
  call : ℕ → Call
  settings_written : Bool
  hosts_written : Bool
  document_written : Document → Bool

/-- The texts, each with the call that seals it. -/
def calls (env : Env) (s : Startup) : List (Pending × Call) :=
  s.pending.zipIdx.map fun (p, i) => (p, env.call i)

/-- One write of the sealing loop. -/
def seal_one (store : SecretsStore) (x : Pending × Call) : SecretsStore × Except StoreError Unit :=
  store.set_plugin_secret x.2 x.1.scope x.1.plugin x.1.field (some x.1.text)

/-- The sealing loop, with whether a write failed. -/
def seal_pending (store : SecretsStore) (xs : List (Pending × Call)) : SecretsStore × Bool :=
  xs.foldl (fun (store, failed) x => ((seal_one store x).1, failed || ¬ (seal_one store x).2.isOk))
    (store, false)

def strip_host (host : HostProfile) : HostProfile :=
  { host with plugin_settings := strip_plugin_secrets host.plugin_settings }

/-- `migrate_plugin_secrets`, on what the files and the vault hold. -/
def migrate (env : Env) (s : Startup) : Startup :=
  if s.pending.isEmpty then s
  else match s.secrets with
    | none => s
    | some store =>
      let (store, failed) := seal_pending store (calls env s)
      if failed then { s with secrets := some store }
      else
        { settings := if env.settings_written then strip_plugin_secrets s.settings else s.settings
          hosts :=
            if s.from_hosts ∧ env.hosts_written then s.hosts.map strip_host else s.hosts
          documents := s.documents.map fun d =>
            if d.found.isEmpty ∨ ¬ env.document_written d then d else d.taken
          secrets := some store }

/-! ## What the sealing leaves -/

/-- What the vault reads in a slot. -/
def SecretsStore.reads (store : SecretsStore) (σ : Slot) : Option String :=
  store.plugin_secret σ.1 σ.2.1 σ.2.2

/-- The text the last of the writes that seal one files in a slot. -/
def filed (store : SecretsStore) (xs : List (Pending × Call)) (σ : Slot) : Option String :=
  (xs.filter fun x => x.1.slot = σ ∧ store.takes x.2 (some x.1.text)).getLast?.map fun x => x.1.text

variable {store store' : SecretsStore} {xs : List (Pending × Call)} {x : Pending × Call} {σ : Slot}

theorem takes_congr (h : store'.cipher = store.cipher) (call : Call) (value : Option String) :
    store'.takes call value = store.takes call value := by
  unfold SecretsStore.takes
  rw [h]

theorem seal_pending_concat (store : SecretsStore) (xs : List (Pending × Call))
    (x : Pending × Call) :
    seal_pending store (xs ++ [x]) =
      ((seal_one (seal_pending store xs).1 x).1,
        (seal_pending store xs).2 || ¬ (seal_one (seal_pending store xs).1 x).2.isOk) := by
  unfold seal_pending
  rw [List.foldl_append]
  rfl

@[simp] theorem cipher_seal_pending (store : SecretsStore) (xs : List (Pending × Call)) :
    (seal_pending store xs).1.cipher = store.cipher := by
  induction xs using List.reverseRecOn with
  | nil => rfl
  | append_singleton xs x ih =>
    rw [seal_pending_concat]
    exact (SecretsStore.cipher_set_plugin_secret _ _).trans ih

/-- One write of the loop. -/
theorem reads_seal_one (store : SecretsStore) (x : Pending × Call) (σ : Slot) :
    (seal_one store x).1.reads σ =
      if x.1.slot = σ ∧ store.takes x.2 (some x.1.text)
      then (some x.1.text).filter fun text => text ≠ ""
      else store.reads σ := by
  unfold seal_one SecretsStore.reads
  by_cases ht : store.takes x.2 (some x.1.text)
  · rw [SecretsStore.plugin_secret_set_plugin_secret ht]
    refine if_congr ?_ rfl rfl
    rw [and_iff_left ht]
    constructor
    · rintro ⟨h₁, h₂, h₃⟩
      exact Prod.ext h₁.symm (Prod.ext h₂.symm h₃.symm)
    · rintro rfl
      exact ⟨rfl, rfl, rfl⟩
  · obtain ⟨e, he⟩ := SecretsStore.set_plugin_secret_of_not_takes ht x.1.scope x.1.plugin x.1.field
    rw [he, if_neg fun h => ht h.2]

/-- **The sealing**: a slot holds the last text filed in it, if that is not empty, and what it held
where none is. -/
theorem reads_seal_pending (store : SecretsStore) (xs : List (Pending × Call)) (σ : Slot) :
    (seal_pending store xs).1.reads σ =
      (filed store xs σ).elim (store.reads σ) fun text =>
        (some text).filter fun text => text ≠ "" := by
  induction xs using List.reverseRecOn with
  | nil => rfl
  | append_singleton xs x ih =>
    rw [seal_pending_concat, reads_seal_one, takes_congr (cipher_seal_pending store xs), ih]
    unfold filed
    rw [List.filter_append]
    by_cases hx : x.1.slot = σ ∧ store.takes x.2 (some x.1.text)
    · rw [if_pos hx, List.filter_singleton, decide_eq_true hx, cond_true, List.getLast?_concat]
      rfl
    · rw [if_neg hx, List.filter_singleton, decide_eq_false hx, cond_false, List.append_nil]

/-- A write of the loop fails where its text is not sealed or the file not written. -/
theorem failed_seal_pending (store : SecretsStore) (xs : List (Pending × Call)) :
    (seal_pending store xs).2 = true ↔
      ∃ x ∈ xs, ¬ (store.takes x.2 (some x.1.text) ∧ x.2.written) := by
  induction xs using List.reverseRecOn with
  | nil => exact iff_of_false nofun fun ⟨_, h, _⟩ => nomatch h
  | append_singleton xs x ih =>
    have hone : (seal_one (seal_pending store xs).1 x).2.isOk ↔
        store.takes x.2 (some x.1.text) ∧ x.2.written := by
      rw [← takes_congr (cipher_seal_pending store xs)]
      have hok : (seal_one (seal_pending store xs).1 x).2 = .ok () ↔ _ :=
        SecretsStore.set_plugin_secret_ok_iff
      rw [← hok]
      rcases (seal_one (seal_pending store xs).1 x).2 with e | u
      · exact iff_of_false nofun nofun
      · exact iff_of_true rfl rfl
    rw [seal_pending_concat, Bool.or_eq_true, ih, decide_eq_true_iff, hone]
    simp only [List.mem_append, List.mem_singleton, or_and_right, exists_or, exists_eq_left]

end WaSSH.Vault
