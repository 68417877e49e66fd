import WaSSH.Lib.Assoc
import WaSSH.Hosts.Document

/-!
# Secret fields

Which settings of which plugin are credentials, and how they are kept out of the settings files.

* `PluginId`, `parse`: the plugins, and the spellings of their ids a file may hold;
* `secret_fields`, `secret_fields_for`, `legacy_secrets`: their secret fields;
* `names_a_secret`: what counts as one in a plugin that is not known;
* `strip_plugin_secrets`: the settings without them.
-/

namespace WaSSH.Vault

open Hosts (PluginSettings)

/-- The settings of one plugin. -/
abbrev Values := Assoc.Map String Json

/-! ## The plugins -/

/-- The built-in plugins. -/
inductive PluginId
  | ai_agent | sftp | server_monitor | docker_manager | mqtt_analyser | macro_pad
  | connection_logger | scratchpad
  deriving DecidableEq

namespace PluginId

def ALL : List PluginId :=
  [ai_agent, sftp, server_monitor, docker_manager, mqtt_analyser, macro_pad, connection_logger,
    scratchpad]

def as_str : PluginId → String
  | ai_agent => "ai-agent"
  | sftp => "sftp"
  | server_monitor => "server-monitor"
  | docker_manager => "docker-manager"
  | mqtt_analyser => "mqtt-analyser"
  | macro_pad => "macro-pad"
  | connection_logger => "connection-logger"
  | scratchpad => "scratchpad"

def name_key : PluginId → String
  | ai_agent => "aiagent"
  | sftp => "sftp"
  | server_monitor => "servermonitor"
  | docker_manager => "dockermanager"
  | mqtt_analyser => "mqttanalyser"
  | macro_pad => "macropad"
  | connection_logger => "connectionlogger"
  | scratchpad => "scratchpad"

/-- Parse a stored plugin id, in the kebab-case form or the dotted one of older settings. -/
def parse (text : String) : Option PluginId :=
  let normalised := text.toList.map fun c =>
    if c = '_' ∨ c = '.' ∨ c = ' ' then '-' else c.toLower
  let trimmed := (normalised.dropPrefix? "wassh-".toList).getD normalised
  ALL.find? fun id => id.as_str.toList = trimmed ∨ id.name_key.toList = trimmed

theorem mem_all (id : PluginId) : id ∈ ALL := by cases id <;> decide

theorem as_str_injective {a b : PluginId} (h : a.as_str = b.as_str) : a = b := by
  revert h
  cases a <;> cases b <;> decide

theorem parse_as_str (id : PluginId) : parse id.as_str = some id := by cases id <;> decide

end PluginId

/-! ## The fields -/

/-- The secret fields a plugin's schemas declare; `true` marks an app-wide one. The search key both
schemas of the agent declare is app-wide. -/
def secret_fields : PluginId → List (String × Bool)
  | .ai_agent => [("webSearchApiKey", true)]
  | .mqtt_analyser => [("password", false)]
  | _ => []

/-- Whether `key` is a secret field of `id`, and whether it is app-wide. -/
def secret_scope (id : PluginId) (key : String) : Option Bool := Assoc.get (secret_fields id) key

def SECRET_PREFIX : String := "provider."
def PROVIDERS_KEY : String := "providers"
def API_KEYS_KEY : String := "apiKeys"

def provider_secret_field (provider_id : String) : String := SECRET_PREFIX ++ provider_id

/-- A string, where `serde_json` reads one. -/
def read_string (v : Option Json) : Option String := v.bind Json.as_str

/-- Whether `serde_json` reads a `Protocol`; one is the default. -/
def reads_protocol : Option Json → Bool
  | none => true
  | some (.str s) => s = "openai" ∨ s = "anthropic"
  | some (.obj [(s, .null)]) => s = "openai" ∨ s = "anthropic"
  | some _ => false

/-- Whether `serde_json` reads the list of models; none is the default. -/
def reads_models : Option Json → Bool
  | none => true
  | some (.arr items) => items.all fun item => item.as_str.isSome
  | some _ => false

/-- Whether `serde_json` reads the embedding model. -/
def reads_embedding_model : Option Json → Bool
  | none | some .null | some (.str _) => true
  | some _ => false

/-- The id of the `ProviderConfig` that `serde_json` reads from an object, or from its fields in
order. -/
def provider_id : Json → Option String
  | .obj fields => do
    let id ← read_string (Assoc.get fields "id")
    let _ ← read_string (Assoc.get fields "name")
    let _ ← read_string (Assoc.get fields "baseUrl")
    guard (reads_protocol (Assoc.get fields "protocol") ∧ reads_models (Assoc.get fields "models") ∧
      reads_embedding_model (Assoc.get fields "embeddingModel"))
    return id
  | .arr fields => do
    let id ← read_string fields[0]?
    let _ ← read_string fields[1]?
    let _ ← read_string fields[3]?
    guard (reads_protocol fields[2]? ∧ reads_models fields[4]? ∧
      reads_embedding_model fields[5]? ∧ fields.length ≤ 6)
    return id
  | _ => none

/-- Ids of the providers the app-wide settings list: none where one of them cannot be read. -/
def provider_ids (values : Values) : List String :=
  match Assoc.get values PROVIDERS_KEY with
  | some (.arr items) => (items.mapM provider_id).getD []
  | _ => []

/-- Every secret field `id` has for the given values: its schema's fields and the ones it names at
runtime. -/
def secret_fields_for (id : PluginId) (values : Option Values) : List (String × Bool) :=
  match id, values with
  | .ai_agent, some values =>
    secret_fields id ++ (provider_ids values).map fun provider =>
      (provider_secret_field provider, true)
  | _, _ => secret_fields id

/-- Whether `field` is a secret `id` names at runtime rather than in its schema. -/
def is_runtime_secret (id : PluginId) (field : String) : Bool :=
  id = .ai_agent ∧ SECRET_PREFIX.toList.isPrefixOf field.toList

/-- The field is sealed for the application and not for a host. -/
def app_wide (id : PluginId) (field : String) : Bool :=
  secret_scope id field = some true ∨ is_runtime_secret id field

/-- The non-empty strings, as `value.as_str().filter(|text| !text.is_empty())`. -/
def secret_text (v : Json) : Option String := v.as_str.filter fun text => text ≠ ""

/-- Credentials an earlier build kept in plain text under a key outside the schema, as the field of
the vault and the text. -/
def legacy_secrets (id : PluginId) (values : Values) : List (String × String) :=
  match id, Assoc.get values API_KEYS_KEY with
  | .ai_agent, some (.obj keys) =>
    keys.filterMap fun (provider, key) =>
      (secret_text key).map fun text => (provider_secret_field provider, text)
  | _, _ => []

/-- What `take_legacy_secrets` leaves of `values`. -/
def without_legacy (id : PluginId) (values : Values) : Values :=
  if id = .ai_agent then Assoc.remove values API_KEYS_KEY else values

/-- A field of a plugin that is not known is taken for a credential when its name says so. -/
def names_a_secret (key : String) : Bool :=
  let lower := key.toList.map Char.toLower
  ["password", "passphrase", "apikey", "token", "secret"].any fun suffix =>
    suffix.toList.isSuffixOf lower

/-! ## Stripping -/

/-- The pass of `strip_plugin_secrets` over the settings of one plugin. -/
def strip_values (plugin : String) (values : Values) : Values :=
  match PluginId.parse plugin with
  | some id =>
    without_legacy id
      ((secret_fields_for id (some values)).foldl (fun values field => Assoc.remove values field.1)
        values)
  | none => values.filter fun (key, _) => ¬ names_a_secret key

/-- Drop plain-text copies of the secret fields, and the plugins nothing is left of. -/
def strip_plugin_secrets (settings : PluginSettings) : PluginSettings :=
  (settings.map fun (plugin, values) => (plugin, strip_values plugin values)).filter
    fun (_, values) => ¬ values.isEmpty

end WaSSH.Vault
