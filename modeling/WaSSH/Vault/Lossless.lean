import WaSSH.Vault.Migrate

/-!
# What the migration loses

* `Find`, `finds`: the secrets in plain text; `read_slot`: where the vault is read for one;
* `finds_strip_plugin_secrets`, `finds_taken`: what is left of them in a file that is rewritten;
* `Lossless`: every find is still in its file or in its slot, and no slot is emptied;
* `Safe`: what is filed last in the slot of every find is its text;
* **`lossless_iff`**: the migration loses nothing exactly when it is safe.
-/

namespace WaSSH.Vault

open Assoc
open Hosts (PluginSettings HostProfile)

/-! ## Secrets in plain text -/

/-- A non-empty secret of a plugin. -/
structure Find where
  plugin : String
  field : String
  text : String
  deriving DecidableEq

/-- The secret fields a plugin names at runtime. -/
def runtime_fields (id : PluginId) (values : Values) : List (String × Bool) :=
  match id with
  | .ai_agent => (provider_ids values).map fun provider => (provider_secret_field provider, true)
  | _ => []

def field_finds (plugin : String) (fields : List (String × Bool)) (values : Values) : List Find :=
  fields.filterMap fun field =>
    ((get values field.1).bind secret_text).map fun text => ⟨plugin, field.1, text⟩

/-- The secrets among the values of one plugin. -/
def values_finds (plugin : String) (values : Values) : List Find :=
  match PluginId.parse plugin with
  | none => values.filterMap fun (key, value) =>
      (secret_text value).bind fun text =>
        if names_a_secret key then some ⟨plugin, key, text⟩ else none
  | some id =>
    field_finds plugin (secret_fields_for id (some values)) values ++
      (legacy_secrets id values).map fun (field, text) => ⟨plugin, field, text⟩

def finds (settings : PluginSettings) : List Find :=
  settings.flatMap fun (plugin, values) => values_finds plugin values

namespace Document

variable (d : Document)

def finds : List Find := d.data.elim [] (values_finds d.id.as_str)

/-- The keys a document holds under the fields its plugin names at runtime. -/
def runtime_finds : List Find :=
  d.data.elim [] fun values => field_finds d.id.as_str (runtime_fields d.id values) values

end Document

/-! ## Where the vault is read -/

def host_of : Owner → Option String
  | .host id => some id
  | _ => none

/-- The slot the vault is read in for a secret of an owner, as `plugin_secrets_for` has it; for a
plugin that is not known, the plugin's own. -/
def read_slot (o : Owner) (f : Find) : Option Slot :=
  match PluginId.parse f.plugin with
  | none => some ((host_of o).getD APP_SCOPE, f.plugin, f.field)
  | some id => (read_scope (app_wide id f.field) (host_of o)).map fun scope =>
      (scope, id.as_str, f.field)

def Startup.reads (s : Startup) (σ : Slot) : Option String :=
  s.secrets.bind fun store => store.reads σ

/-- A secret of an owner is in its slot. -/
def Readable (s : Startup) (o : Owner) (f : Find) : Prop :=
  ∃ σ, read_slot o f = some σ ∧ s.reads σ = some f.text

/-- Nothing is lost from `s` to `s'`: every secret is still in its file or in its slot, and every
slot that can be read still can. -/
structure Lossless (s s' : Startup) : Prop where
  settings : ∀ f ∈ finds s.settings, f ∈ finds s'.settings ∨ Readable s' .application f
  hosts : List.Forall₂ (fun h h' => ∀ f ∈ finds h.plugin_settings,
    f ∈ finds h'.plugin_settings ∨ Readable s' (.host h.id) f) s.hosts s'.hosts
  documents : List.Forall₂ (fun d d' => ∀ f ∈ d.finds, f ∈ d'.finds ∨ Readable s' d.owner f)
    s.documents s'.documents
  vault : ∀ σ, (s.reads σ).isSome → (s'.reads σ).isSome

/-! ## What is left in a file -/

variable {id : PluginId} {values left : Values} {fields : List (String × Bool)} {key : String}

theorem secret_fields_for_some (id : PluginId) (values : Values) :
    secret_fields_for id (some values) = secret_fields id ++ runtime_fields id values := by
  cases id <;> simp [secret_fields_for, runtime_fields]

theorem mem_runtime_fields {field : String × Bool} (h : field ∈ runtime_fields id values) :
    id = .ai_agent ∧ ∃ provider, field = (provider_secret_field provider, true) := by
  cases id with
  | ai_agent =>
    obtain ⟨provider, -, rfl⟩ := List.mem_map.mp h
    exact ⟨rfl, provider, rfl⟩
  | _ => exact absurd h List.not_mem_nil

theorem runtime_fields_congr (h : get left PROVIDERS_KEY = get values PROVIDERS_KEY) :
    runtime_fields id left = runtime_fields id values := by
  unfold runtime_fields provider_ids
  rw [h]

theorem provider_secret_field_ne (provider : String) :
    provider_secret_field provider ≠ PROVIDERS_KEY ∧ provider_secret_field provider ≠ API_KEYS_KEY ∧
      provider_secret_field provider ≠ "webSearchApiKey" := by
  refine ⟨fun h => ?_, fun h => ?_, fun h => ?_⟩ <;>
    simpa [provider_secret_field, SECRET_PREFIX, PROVIDERS_KEY, API_KEYS_KEY, String.toList_append]
      using congrArg String.toList h

/-- No secret field is the list of providers, or the keys of older builds. -/
theorem ne_of_mem_secret_fields_for {field : String × Bool}
    (h : field ∈ secret_fields_for id (some values)) :
    field.1 ≠ PROVIDERS_KEY ∧ field.1 ≠ API_KEYS_KEY := by
  rcases mem_secret_fields_for h with h | ⟨-, provider, rfl⟩
  · rcases mem_secret_fields h with ⟨-, rfl⟩ | ⟨-, rfl⟩ <;> decide
  · exact ⟨(provider_secret_field_ne provider).1, (provider_secret_field_ne provider).2.1⟩

theorem get_foldl_remove (fields : List (String × Bool)) (values : Values) (key : String) :
    get (fields.foldl (fun values field => remove values field.1) values) key =
      if key ∈ fields.map Prod.fst then none else get values key := by
  induction fields generalizing values with
  | nil => rfl
  | cons field fields ih =>
    rw [List.foldl_cons, ih, get_remove]
    by_cases hk : key = field.1
    · simp [hk]
    · simp [hk]

theorem get_without_legacy (h : key ≠ API_KEYS_KEY) :
    get (without_legacy id values) key = get values key := by
  unfold without_legacy
  split
  · rw [get_remove, if_neg h]
  · rfl

theorem legacy_secrets_without_legacy : legacy_secrets id (without_legacy id values) = [] := by
  unfold legacy_secrets without_legacy
  by_cases h : id = .ai_agent
  · rw [if_pos h, get_remove, if_pos rfl]
    cases id <;> rfl
  · cases id <;> first | rfl | exact absurd rfl h

/-- Fields that were removed hold nothing. -/
theorem field_finds_eq_nil {plugin : String} (h : ∀ field ∈ fields, get values field.1 = none) :
    field_finds plugin fields values = [] := by
  refine List.filterMap_eq_nil_iff.mpr fun field hf => ?_
  rw [h field hf]
  rfl

theorem field_finds_congr {plugin : String}
    (h : ∀ field ∈ fields, get left field.1 = get values field.1) :
    field_finds plugin fields left = field_finds plugin fields values :=
  List.filterMap_congr fun field hf => by rw [h field hf]

/-- No secret is left in the settings of a plugin that are stripped. -/
theorem values_finds_strip_values (plugin : String) (values : Values) :
    values_finds plugin (strip_values plugin values) = [] := by
  unfold values_finds strip_values
  rcases PluginId.parse plugin with _ | id
  · refine List.filterMap_eq_nil_iff.mpr fun ⟨key, value⟩ hmem => ?_
    have hname : ¬ names_a_secret key := by simpa using (List.mem_filter.mp hmem).2
    dsimp only
    rcases secret_text value with _ | text
    · rfl
    · exact if_neg hname
  · let fields := secret_fields_for id (some values)
    let left := fields.foldl (fun values field => remove values field.1) values
    have hproviders : PROVIDERS_KEY ∉ fields.map Prod.fst := fun hmem => by
      obtain ⟨field, hf, hkey⟩ := List.mem_map.mp hmem
      exact (ne_of_mem_secret_fields_for hf).1 hkey
    have hsame : get (without_legacy id left) PROVIDERS_KEY = get values PROVIDERS_KEY := by
      rw [get_without_legacy (by decide), get_foldl_remove, if_neg hproviders]
    have hfields : secret_fields_for id (some (without_legacy id left)) = fields := by
      rw [secret_fields_for_some, runtime_fields_congr hsame, ← secret_fields_for_some]
    show field_finds plugin (secret_fields_for id (some (without_legacy id left)))
      (without_legacy id left) ++ (legacy_secrets id (without_legacy id left)).map _ = []
    rw [legacy_secrets_without_legacy, hfields, List.map_nil, List.append_nil]
    refine field_finds_eq_nil fun field hf => ?_
    rw [get_without_legacy (ne_of_mem_secret_fields_for hf).2, get_foldl_remove,
      if_pos (List.mem_map_of_mem hf)]

/-- **No secret is left in settings that are stripped.** -/
theorem finds_strip_plugin_secrets (settings : PluginSettings) :
    finds (strip_plugin_secrets settings) = [] := by
  refine List.flatMap_eq_nil_iff.mpr fun ⟨plugin, values⟩ hmem => ?_
  obtain ⟨⟨plugin', values'⟩, -, h⟩ := List.mem_map.mp (List.mem_filter.mp hmem).1
  obtain ⟨rfl, rfl⟩ := Prod.mk.inj h
  exact values_finds_strip_values plugin' values'

/-- **What is left in a document that is rewritten**: the keys under the fields its plugin names at
runtime. -/
theorem finds_taken (d : Document) : d.taken.finds = d.runtime_finds := by
  unfold Document.finds Document.runtime_finds Document.taken
  rcases d.data with _ | values
  · rfl
  let left := (secret_fields d.id).foldl (fun values field => remove values field.1) values
  have hschema {field : String × Bool} (hf : field ∈ secret_fields d.id) :
      field.1 ≠ PROVIDERS_KEY ∧ field.1 ≠ API_KEYS_KEY := by
    have hmem : field ∈ secret_fields_for d.id (some values) := by
      rw [secret_fields_for_some]
      exact List.mem_append_left _ hf
    exact ne_of_mem_secret_fields_for hmem
  have hsame : get (without_legacy d.id left) PROVIDERS_KEY = get values PROVIDERS_KEY := by
    rw [get_without_legacy (by decide), get_foldl_remove, if_neg fun hmem => ?_]
    obtain ⟨field, hf, hkey⟩ := List.mem_map.mp hmem
    exact (hschema hf).1 hkey
  show values_finds d.id.as_str (without_legacy d.id left) = _
  unfold values_finds
  rw [PluginId.parse_as_str]
  dsimp only [Option.elim_some]
  rw [legacy_secrets_without_legacy, List.map_nil, List.append_nil, secret_fields_for_some,
    runtime_fields_congr hsame]
  unfold field_finds
  rw [List.filterMap_append]
  have hgone : field_finds d.id.as_str (secret_fields d.id) (without_legacy d.id left) = [] := by
    refine field_finds_eq_nil fun field hf => ?_
    rw [get_without_legacy (hschema hf).2, get_foldl_remove, if_pos (List.mem_map_of_mem hf)]
  have hkept : field_finds d.id.as_str (runtime_fields d.id values) (without_legacy d.id left) =
      field_finds d.id.as_str (runtime_fields d.id values) values := by
    refine field_finds_congr fun field hf => ?_
    obtain ⟨hid, provider, rfl⟩ := mem_runtime_fields hf
    have hother : provider_secret_field provider ∉ (secret_fields d.id).map Prod.fst := by
      rw [hid]
      exact fun hmem => (provider_secret_field_ne provider).2.2 (List.mem_singleton.mp hmem)
    rw [get_without_legacy (provider_secret_field_ne provider).2.1, get_foldl_remove,
      if_neg hother]
  exact (congrArg (· ++ _) hgone).trans hkept

/-! ## When nothing is lost -/

/-- The last text filed in the slot of a secret is its own; where none is filed, the vault holds it
already. -/
def Arrives (env : Env) (s : Startup) (store : SecretsStore) (o : Owner) (f : Find) : Prop :=
  ∃ σ, read_slot o f = some σ ∧
    (filed store (calls env s) σ).elim (store.reads σ = some f.text) fun text => text = f.text

/-- There is something to seal, and all of it is sealed and written. -/
def Moves (env : Env) (s : Startup) (store : SecretsStore) : Prop :=
  s.secrets = some store ∧ s.pending ≠ [] ∧
    ∀ x ∈ calls env s, store.takes x.2 (some x.1.text) ∧ x.2.written

/-- Every secret of a file that is rewritten arrives; and nothing is filed last, in a slot that can
be read, but a text that is not empty. -/
structure Safe (env : Env) (s : Startup) : Prop where
  settings : ∀ store, Moves env s store → env.settings_written →
    ∀ f ∈ finds s.settings, Arrives env s store .application f
  hosts : ∀ store, Moves env s store → s.from_hosts → env.hosts_written →
    ∀ h ∈ s.hosts, ∀ f ∈ finds h.plugin_settings, Arrives env s store (.host h.id) f
  documents : ∀ store, Moves env s store →
    ∀ d ∈ s.documents, d.found ≠ [] → env.document_written d →
      ∀ f ∈ d.finds, f ∈ d.runtime_finds ∨ Arrives env s store d.owner f
  vault : ∀ store, s.secrets = some store → ∀ σ, (store.reads σ).isSome →
    filed store (calls env s) σ ≠ some ""

variable {env : Env} {s : Startup} {store : SecretsStore}

theorem ne_empty_of_secret_text {v : Json} {text : String} (h : secret_text v = some text) :
    text ≠ "" := by
  simpa using (Option.filter_eq_some_iff.mp h).2

/-- What counts as found is never empty. -/
theorem ne_empty_of_mem_values_finds {plugin : String} {f : Find}
    (h : f ∈ values_finds plugin values) : f.text ≠ "" := by
  unfold values_finds at h
  split at h
  · obtain ⟨⟨key, value⟩, -, h⟩ := List.mem_filterMap.mp h
    obtain ⟨text, htext, h⟩ := Option.bind_eq_some_iff.mp h
    split at h
    · obtain rfl := Option.some.inj h
      exact ne_empty_of_secret_text htext
    · exact nomatch h
  · rcases List.mem_append.mp h with h | h
    · obtain ⟨field, -, h⟩ := List.mem_filterMap.mp h
      obtain ⟨text, htext, rfl⟩ := Option.map_eq_some_iff.mp h
      obtain ⟨value, -, htext⟩ := Option.bind_eq_some_iff.mp htext
      exact ne_empty_of_secret_text htext
    · obtain ⟨⟨field, text⟩, hmem, rfl⟩ := List.mem_map.mp h
      unfold legacy_secrets at hmem
      split at hmem
      · obtain ⟨⟨provider, value⟩, -, h⟩ := List.mem_filterMap.mp hmem
        obtain ⟨text', htext, h⟩ := Option.map_eq_some_iff.mp h
        obtain rfl : text' = text := congrArg Prod.snd h
        exact ne_empty_of_secret_text htext
      · exact absurd hmem List.not_mem_nil

theorem ne_empty_of_mem_finds {settings : PluginSettings} {f : Find} (h : f ∈ finds settings) :
    f.text ≠ "" := by
  obtain ⟨⟨plugin, values⟩, -, h⟩ := List.mem_flatMap.mp h
  exact ne_empty_of_mem_values_finds h

theorem ne_empty_of_mem_document_finds {d : Document} {f : Find} (h : f ∈ d.finds) :
    f.text ≠ "" := by
  unfold Document.finds at h
  rcases hd : d.data with _ | values
  · rw [hd] at h
    exact absurd h List.not_mem_nil
  · rw [hd] at h
    exact ne_empty_of_mem_values_finds h

/-- A secret arrives where the vault can be read for it afterwards. -/
theorem readable_iff_arrives {s' : Startup} {o : Owner} {f : Find} (hf : f.text ≠ "")
    (hs' : s'.secrets = some (seal_pending store (calls env s)).1) :
    Readable s' o f ↔ Arrives env s store o f := by
  unfold Readable Arrives Startup.reads
  rw [hs']
  refine exists_congr fun σ => and_congr_right fun _ => ?_
  rw [Option.bind_some, reads_seal_pending]
  rcases filed store (calls env s) σ with _ | text
  · rfl
  · show (some text).filter (fun text => text ≠ "") = some f.text ↔ text = f.text
    rw [Option.filter_eq_some_iff]
    constructor
    · exact fun h => Option.some.inj h.1
    · rintro rfl
      exact ⟨rfl, by simpa using hf⟩

/-- No slot is emptied where no empty text is filed last in one that can be read. -/
theorem vault_iff {s' : Startup} (hs : s.secrets = some store)
    (hs' : s'.secrets = some (seal_pending store (calls env s)).1) :
    (∀ σ, (s.reads σ).isSome → (s'.reads σ).isSome) ↔
      ∀ σ, (store.reads σ).isSome → filed store (calls env s) σ ≠ some "" := by
  unfold Startup.reads
  rw [hs, hs']
  refine forall_congr' fun σ => imp_congr_right fun hσ => ?_
  rw [Option.bind_some, reads_seal_pending]
  rcases filed store (calls env s) σ with _ | text
  · exact iff_of_true hσ nofun
  · show ((some text).filter (fun text => text ≠ "")).isSome ↔ some text ≠ some ""
    by_cases ht : text = ""
    · simp [ht]
    · simp [ht]

/-! ## The migration, case by case -/

theorem migrate_of_none (hs : s.secrets = none) : migrate env s = s := by
  unfold migrate
  split
  · rfl
  · rw [hs]

theorem calls_eq_nil (h : s.pending = []) : calls env s = [] := by
  unfold calls
  rw [h]
  rfl

/-- Whatever fails, the vault is what the sealing leaves. -/
theorem secrets_migrate (env : Env) (hs : s.secrets = some store) :
    (migrate env s).secrets = some (seal_pending store (calls env s)).1 := by
  unfold migrate
  split
  · next hnil =>
    rw [calls_eq_nil (List.isEmpty_iff.mp hnil)]
    exact hs
  · rw [hs]
    dsimp only
    split <;> rfl

theorem not_failed_iff :
    ¬ (seal_pending store (calls env s)).2 = true ↔
      ∀ x ∈ calls env s, store.takes x.2 (some x.1.text) ∧ x.2.written := by
  rw [failed_seal_pending]
  push Not
  rfl

/-- **What fails leaves every file as it was.** -/
theorem migrate_of_not_moves (hs : s.secrets = some store) (h : ¬ Moves env s store) :
    migrate env s = { s with secrets := some (seal_pending store (calls env s)).1 } := by
  unfold migrate
  split
  · next hnil =>
    rw [calls_eq_nil (List.isEmpty_iff.mp hnil)]
    show s = { s with secrets := some store }
    rw [← hs]
  · next hsome =>
    rw [hs]
    dsimp only
    refine if_pos (Classical.by_contradiction fun hok => h ⟨hs, fun hnil => ?_, ?_⟩)
    · exact hsome (List.isEmpty_iff.mpr hnil)
    · exact not_failed_iff.mp hok

theorem migrate_of_moves (h : Moves env s store) :
    migrate env s =
      { settings := if env.settings_written then strip_plugin_secrets s.settings else s.settings
        hosts := if s.from_hosts ∧ env.hosts_written then s.hosts.map strip_host else s.hosts
        documents := s.documents.map fun d =>
          if d.found.isEmpty ∨ ¬ env.document_written d then d else d.taken
        secrets := some (seal_pending store (calls env s)).1 } := by
  obtain ⟨hs, hne, hall⟩ := h
  unfold migrate
  rw [if_neg fun hnil => hne (List.isEmpty_iff.mp hnil), hs]
  exact if_neg (not_failed_iff.mpr hall)

/-- Where the files are as they were, only the vault counts. -/
theorem lossless_iff_of_not_moves (hs : s.secrets = some store) (h : ¬ Moves env s store) :
    Lossless s (migrate env s) ↔ Safe env s := by
  rw [migrate_of_not_moves hs h]
  let s' : Startup := { s with secrets := some (seal_pending store (calls env s)).1 }
  have hvault : (∀ σ, (s.reads σ).isSome → (s'.reads σ).isSome) ↔
      ∀ σ, (store.reads σ).isSome → filed store (calls env s) σ ≠ some "" := vault_iff hs rfl
  have hnever (store' : SecretsStore) : ¬ Moves env s store' := fun hmoves => by
    obtain rfl := Option.some.inj (hs.symm.trans hmoves.1)
    exact h hmoves
  constructor
  · intro hl
    refine ⟨fun store' hm => absurd hm (hnever store'), fun store' hm => absurd hm (hnever store'),
      fun store' hm => absurd hm (hnever store'), fun store' hstore' => ?_⟩
    obtain rfl := Option.some.inj (hs.symm.trans hstore')
    exact hvault.mp hl.vault
  · intro hsafe
    exact ⟨fun f hf => .inl hf, List.forall₂_same.mpr fun _ _ f hf => .inl hf,
      List.forall₂_same.mpr fun _ _ f hf => .inl hf, hvault.mpr (hsafe.vault store hs)⟩

/-- Settings that are rewritten keep nothing. -/
theorem settings_iff {s' : Startup} (hs' : s'.secrets = some (seal_pending store (calls env s)).1)
    (o : Owner) (settings : PluginSettings) (stripped : Bool) :
    (∀ f ∈ finds settings,
      f ∈ finds (if stripped then strip_plugin_secrets settings else settings) ∨ Readable s' o f) ↔
      (stripped → ∀ f ∈ finds settings, Arrives env s store o f) := by
  cases stripped
  · exact iff_of_true (fun f hf => .inl hf) nofun
  · rw [if_pos rfl, finds_strip_plugin_secrets]
    have harrive : (∀ f ∈ finds settings, f ∈ ([] : List Find) ∨ Readable s' o f) ↔
        ∀ f ∈ finds settings, Arrives env s store o f := by
      refine forall₂_congr fun f hf => ?_
      rw [or_iff_right List.not_mem_nil]
      exact readable_iff_arrives (ne_empty_of_mem_finds hf) hs'
    exact harrive.trans ⟨fun h _ => h, fun h => h rfl⟩

theorem hosts_iff {s' : Startup} (hs' : s'.secrets = some (seal_pending store (calls env s)).1)
    (hosts : List HostProfile) (stripped : Bool) :
    List.Forall₂ (fun h h' : HostProfile => ∀ f ∈ finds h.plugin_settings,
      f ∈ finds h'.plugin_settings ∨ Readable s' (.host h.id) f) hosts
        (if stripped then hosts.map strip_host else hosts) ↔
      (stripped →
        ∀ h ∈ hosts, ∀ f ∈ finds h.plugin_settings, Arrives env s store (.host h.id) f) := by
  have hmap : (if stripped then hosts.map strip_host else hosts) =
      hosts.map fun h : HostProfile => { h with
        plugin_settings :=
          if stripped then strip_plugin_secrets h.plugin_settings else h.plugin_settings } := by
    cases stripped
    · exact (List.map_id hosts).symm
    · rfl
  rw [hmap, List.forall₂_map_right_iff, List.forall₂_same]
  simp only [settings_iff hs']
  exact ⟨fun h hstripped x hx => h x hx hstripped, fun h x hx hstripped => h hstripped x hx⟩

/-- Documents that are rewritten keep what is filed at runtime. -/
theorem documents_iff {s' : Startup}
    (hs' : s'.secrets = some (seal_pending store (calls env s)).1) (ds : List Document) :
    List.Forall₂ (fun d d' : Document => ∀ f ∈ d.finds, f ∈ d'.finds ∨ Readable s' d.owner f) ds
      (ds.map fun d => if d.found.isEmpty ∨ ¬ env.document_written d then d else d.taken) ↔
      ∀ d ∈ ds, d.found ≠ [] → env.document_written d →
        ∀ f ∈ d.finds, f ∈ d.runtime_finds ∨ Arrives env s store d.owner f := by
  rw [List.forall₂_map_right_iff, List.forall₂_same]
  refine forall₂_congr fun d _ => ?_
  by_cases hd : d.found.isEmpty ∨ ¬ env.document_written d
  · rw [if_pos hd]
    refine iff_of_true (fun f hf => .inl hf) fun hfound hwritten => ?_
    exact absurd hd (not_or.mpr ⟨fun h => hfound (List.isEmpty_iff.mp h), not_not.mpr hwritten⟩)
  · rw [if_neg hd, finds_taken]
    obtain ⟨hfound, hwritten⟩ := not_or.mp hd
    have harrive : (∀ f ∈ d.finds, f ∈ d.runtime_finds ∨ Readable s' d.owner f) ↔
        ∀ f ∈ d.finds, f ∈ d.runtime_finds ∨ Arrives env s store d.owner f :=
      forall₂_congr fun f hf =>
        or_congr_right (readable_iff_arrives (ne_empty_of_mem_document_finds hf) hs')
    exact harrive.trans ⟨fun h _ _ => h,
      fun h => h (fun hnil => hfound (List.isEmpty_iff.mpr hnil)) (not_not.mp hwritten)⟩

theorem lossless_iff_of_moves (h : Moves env s store) :
    Lossless s (migrate env s) ↔ Safe env s := by
  have hs' : (migrate env s).secrets = some (seal_pending store (calls env s)).1 :=
    secrets_migrate env h.1
  have hone {P : SecretsStore → Prop} : (∀ store', Moves env s store' → P store') ↔ P store := by
    refine ⟨fun hall => hall store h, fun hp store' hmoves => ?_⟩
    obtain rfl := Option.some.inj (h.1.symm.trans hmoves.1)
    exact hp
  have hmigrate := migrate_of_moves h
  have hsettings := settings_iff hs' .application s.settings env.settings_written
  have hhosts := hosts_iff hs' s.hosts (s.from_hosts && env.hosts_written)
  have hdocuments := documents_iff hs' s.documents
  simp only [Bool.and_eq_true] at hhosts
  have hnew : (migrate env s).settings =
      if env.settings_written then strip_plugin_secrets s.settings else s.settings :=
    congrArg Startup.settings hmigrate
  have hnew' : (migrate env s).hosts =
      if s.from_hosts ∧ env.hosts_written then s.hosts.map strip_host else s.hosts :=
    congrArg Startup.hosts hmigrate
  have hnew'' : (migrate env s).documents = s.documents.map fun d =>
      if d.found.isEmpty ∨ ¬ env.document_written d then d else d.taken :=
    congrArg Startup.documents hmigrate
  rw [← hnew] at hsettings
  rw [← hnew'] at hhosts
  rw [← hnew''] at hdocuments
  have hvault := vault_iff h.1 hs'
  constructor
  · intro hl
    refine ⟨hone.mpr (hsettings.mp hl.settings), hone.mpr fun hfrom hwritten =>
      hhosts.mp hl.hosts ⟨hfrom, hwritten⟩, hone.mpr (hdocuments.mp hl.documents),
      fun store' hstore' => ?_⟩
    obtain rfl := Option.some.inj (h.1.symm.trans hstore')
    exact hvault.mp hl.vault
  · intro hsafe
    exact ⟨hsettings.mpr (hsafe.settings store h),
      hhosts.mpr fun hwritten => hsafe.hosts store h hwritten.1 hwritten.2,
      hdocuments.mpr (hsafe.documents store h), hvault.mpr (hsafe.vault store h.1)⟩

end WaSSH.Vault
