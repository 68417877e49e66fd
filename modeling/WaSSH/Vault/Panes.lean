import WaSSH.Lib.Run
import WaSSH.Vault.Store

/-!
# The secrets of panes

A pane saves a secret in a scope of the vault that depends on the field and on the host of its tab;
a pane that is opened is given what the vault holds for the same field, from a scope that is worked
out again.

* `plugin_secret_scope`, `plugin_secrets_for`: the two sides of the source;
* `Owner`: what a secret belongs to; `Saves`: the vault, with what was last saved for each owner;
* `get_plugin_secrets_for`: what a pane is given of a field;
* `returned_step_iff`: one save;
* **`returned_iff`**: every pane is given what was last saved for its host, its tab or the
  application, exactly when no tab without a host saves a secret of a host.
-/

namespace WaSSH.Vault

open Assoc StepRun
open Hosts (PluginSettings)

/-! ## The two sides -/

/-- Scope of the vault a save goes to. -/
def plugin_secret_scope (id : PluginId) (field : String) (host_id : Option String) : String :=
  match app_wide id field, host_id with
  | true, _ | false, none => APP_SCOPE
  | false, some host_id => host_id

/-- Scope of the vault a field is read from, if it is read at all. -/
def read_scope (app_wide : Bool) (host_id : Option String) : Option String :=
  if app_wide then some APP_SCOPE else host_id

/-- Decrypted plugin secrets for one host, per plugin id and field key. -/
def plugin_secrets_for (secrets : Option SecretsStore) (settings : PluginSettings)
    (host_id : Option String) : Map String (Map String String) :=
  match secrets with
  | none => []
  | some store =>
    PluginId.ALL.foldl (fun out id =>
      (secret_fields_for id (get settings id.as_str)).foldl (fun out (key, app_wide) =>
        ((read_scope app_wide host_id).bind fun scope =>
          store.plugin_secret scope id.as_str key).elim out (insert₂ out id.as_str key)) out) []

/-! ## The fields -/

/-- A field is one of the schema's, or a provider's key. -/
theorem mem_secret_fields_for {id : PluginId} {values : Option Values} {field : String × Bool}
    (h : field ∈ secret_fields_for id values) :
    field ∈ secret_fields id ∨ id = .ai_agent ∧ ∃ provider,
      field = (provider_secret_field provider, true) := by
  unfold secret_fields_for at h
  split at h
  · rcases List.mem_append.mp h with h | h
    · exact .inl h
    · obtain ⟨provider, -, rfl⟩ := List.mem_map.mp h
      exact .inr ⟨rfl, provider, rfl⟩
  · exact .inl h

theorem mem_secret_fields {id : PluginId} {field : String × Bool} (h : field ∈ secret_fields id) :
    id = .ai_agent ∧ field = ("webSearchApiKey", true) ∨
      id = .mqtt_analyser ∧ field = ("password", false) := by
  cases id with
  | ai_agent => exact .inl ⟨rfl, List.mem_singleton.mp h⟩
  | mqtt_analyser => exact .inr ⟨rfl, List.mem_singleton.mp h⟩
  | _ => exact absurd h List.not_mem_nil

theorem is_runtime_secret_provider (provider : String) :
    is_runtime_secret .ai_agent (provider_secret_field provider) := by
  simp [is_runtime_secret, provider_secret_field, String.toList_append]

/-- Reading and saving agree on which fields are app-wide. -/
theorem app_wide_of_mem {id : PluginId} {values : Option Values} {field : String × Bool}
    (h : field ∈ secret_fields_for id values) : field.2 = app_wide id field.1 := by
  rcases mem_secret_fields_for h with h | ⟨rfl, provider, rfl⟩
  · rcases mem_secret_fields h with ⟨rfl, rfl⟩ | ⟨rfl, rfl⟩ <;> decide
  · have hruntime := is_runtime_secret_provider provider
    unfold app_wide
    rw [hruntime]
    simp

theorem secret_scope_of_mem {id : PluginId} {values : Option Values} {field : String × Bool}
    (h : field ∈ secret_fields_for id values) (hhost : field.2 = false) :
    secret_scope id field.1 = some false := by
  rcases mem_secret_fields_for h with h | ⟨rfl, provider, rfl⟩
  · rcases mem_secret_fields h with ⟨rfl, rfl⟩ | ⟨rfl, rfl⟩
    · exact nomatch hhost
    · decide
  · exact nomatch hhost

theorem mem_of_secret_scope {id : PluginId} {field : String} {values : Option Values}
    (h : secret_scope id field = some false) : (field, false) ∈ secret_fields_for id values := by
  have hmem := mem_of_get h
  unfold secret_fields_for
  split
  · exact List.mem_append_left _ hmem
  · exact hmem

/-! ## What a pane is given -/

/-- What a pane is given of a field: nothing where the field is none of the plugin's, and else what
the vault holds in the scope it is read from. -/
theorem get_plugin_secrets_for {store : SecretsStore} {settings : PluginSettings}
    {host_id : Option String} {id : PluginId} {field : String × Bool}
    (h : field ∈ secret_fields_for id (get settings id.as_str)) :
    get₂ (plugin_secrets_for (some store) settings host_id) id.as_str field.1 =
      (read_scope (app_wide id field.1) host_id).bind fun scope =>
        store.plugin_secret scope id.as_str field.1 := by
  let value (x : PluginId × String × Bool) : Option String :=
    (read_scope x.2.2 host_id).bind fun scope => store.plugin_secret scope x.1.as_str x.2.1
  let items : List (PluginId × String × Bool) :=
    PluginId.ALL.flatMap fun id =>
      (secret_fields_for id (get settings id.as_str)).map fun f => (id, f)
  have hfold : plugin_secrets_for (some store) settings host_id =
      items.foldl (fun out x => (value x).elim out (insert₂ out x.1.as_str x.2.1)) [] := by
    rw [List.foldl_flatMap]
    simp only [List.foldl_map]
    rfl
  have hitems (x : PluginId × String × Bool) :
      x ∈ items ↔ x.2 ∈ secret_fields_for x.1 (get settings x.1.as_str) := by
    rw [List.mem_flatMap]
    constructor
    · rintro ⟨id, -, hx⟩
      obtain ⟨f, hf, rfl⟩ := List.mem_map.mp hx
      exact hf
    · exact fun hx => ⟨x.1, PluginId.mem_all x.1, List.mem_map.mpr ⟨x.2, hx, rfl⟩⟩
  have hagree : ∀ x ∈ items, (x.1.as_str, x.2.1) = (id.as_str, field.1) →
      value x = (read_scope (app_wide id field.1) host_id).bind fun scope =>
        store.plugin_secret scope id.as_str field.1 := by
    rintro ⟨id', key, wide⟩ hx hname
    obtain ⟨hid, rfl⟩ := Prod.mk.inj hname
    obtain rfl := PluginId.as_str_injective hid
    have hwide : wide = app_wide id' field.1 := app_wide_of_mem ((hitems _).mp hx)
    exact hwide ▸ rfl
  rw [hfold, get₂_foldl hagree, if_pos (List.mem_map.mpr ⟨(id, field), (hitems _).mpr h, rfl⟩)]
  exact Option.or_none

/-! ## Saves -/

/-- A pane: the tab it is open in, and the saved host of that tab, if it has one. -/
structure Pane where
  session : String
  host_id : Option String

/-- What a secret belongs to. -/
inductive Owner
  | application
  | host (id : String)
  | tab (session : String)
  deriving DecidableEq

/-- A secret of a pane belongs to the application where the field is app-wide, and else to the host,
or to a tab that has none. -/
def owner (id : PluginId) (field : String) (p : Pane) : Owner :=
  if app_wide id field then .application
  else p.host_id.elim (.tab p.session) .host

/-- Scope of the vault that is read for an owner. -/
def slot : Owner → Option String
  | .application => some APP_SCOPE
  | .host id => some id
  | .tab _ => none

/-- One secret a pane saves, or clears, and what the write of it meets. -/
structure Save where
  pane : Pane
  id : PluginId
  field : String
  value : Option String
  call : Call

/-- The vault, and the value last saved for each owner. -/
structure Saves where
  secrets : Option SecretsStore
  saved : Owner → PluginId → String → Option String

namespace Saves

/-- At the start, what the vault holds counts as saved for its owners. -/
def start (secrets : Option SecretsStore) : Saves where
  secrets
  saved o id field := do
    let store ← secrets
    let scope ← slot o
    store.plugin_secret scope id.as_str field

/-- One secret write of `persist_plugin_data`. A value that cannot be sealed is not saved. -/
def step (s : Saves) (w : Save) : Saves :=
  match s.secrets with
  | none => s
  | some store =>
    let scope := plugin_secret_scope w.id w.field w.pane.host_id
    { secrets := some (store.set_plugin_secret w.call scope w.id.as_str w.field w.value).1
      saved := fun o id field =>
        if store.takes w.call w.value ∧ o = owner w.id w.field w.pane ∧ id = w.id ∧ field = w.field
        then w.value.filter fun value => value ≠ ""
        else s.saved o id field }

/-- Whatever the settings say, every pane is given what was last saved for the owner of each of its
secret fields, and so nothing of another host's. -/
def Returned (s : Saves) : Prop :=
  ∀ (settings : PluginSettings) (p : Pane) (id : PluginId) (field : String × Bool),
    field ∈ secret_fields_for id (get settings id.as_str) →
      get₂ (plugin_secrets_for s.secrets settings p.host_id) id.as_str field.1 =
        s.saved (owner id field.1 p) id field.1

/-- No tab without a host saves a secret of a host; clearing one is harmless where the application
holds none under its name. -/
def Ok (s : Saves) (w : Save) : Prop :=
  secret_scope w.id w.field = some false → w.pane.host_id = none →
    ∀ store, s.secrets = some store → store.takes w.call w.value →
      w.value.filter (fun value => value ≠ "") = none ∧
        store.plugin_secret APP_SCOPE w.id.as_str w.field = none

variable {s : Saves} {w : Save} {store : SecretsStore}

/-! ## Owners and scopes -/

theorem read_scope_eq (id : PluginId) (field : String) (p : Pane) :
    read_scope (app_wide id field) p.host_id = slot (owner id field p) := by
  unfold read_scope owner
  cases app_wide id field
  · rcases p.host_id with _ | h <;> rfl
  · rfl

theorem plugin_secret_scope_eq (id : PluginId) (field : String) (p : Pane) :
    plugin_secret_scope id field p.host_id = (slot (owner id field p)).getD APP_SCOPE := by
  unfold plugin_secret_scope owner
  cases app_wide id field
  · rcases p.host_id with _ | h <;> rfl
  · rfl

/-- Owners of one field that share a scope are the same. -/
theorem owner_eq_of_slot {id : PluginId} {field : String} {p q : Pane} {scope : String}
    (hp : slot (owner id field p) = some scope) (hq : slot (owner id field q) = some scope) :
    owner id field p = owner id field q := by
  revert hp hq
  unfold owner
  cases app_wide id field
  · rcases p.host_id with _ | h
    · exact nofun
    · rcases q.host_id with _ | h'
      · exact fun _ => nofun
      · intro (hp : some h = some scope) (hq : some h' = some scope)
        obtain rfl : h = h' := Option.some.inj (hp.trans hq.symm)
        rfl
  · exact fun _ _ => rfl

theorem slot_owner_eq_none_iff {id : PluginId} {field : String} {p : Pane} :
    slot (owner id field p) = none ↔ app_wide id field = false ∧ p.host_id = none := by
  unfold owner
  cases app_wide id field
  · rcases p.host_id with _ | h <;> simp [slot]
  · simp [slot]

theorem app_wide_of_secret_scope {id : PluginId} {field : String}
    (h : secret_scope id field = some false) : app_wide id field = false := by
  have hmem : (field, false) ∈ secret_fields_for id none := mem_of_secret_scope h
  exact (app_wide_of_mem hmem).symm

/-! ## One save -/

theorem returned_iff_of_some (h : s.secrets = some store) :
    s.Returned ↔ ∀ (values : Option Values) (p : Pane) (id : PluginId) (field : String × Bool),
      field ∈ secret_fields_for id values →
        ((slot (owner id field.1 p)).bind fun scope =>
          store.plugin_secret scope id.as_str field.1) =
        s.saved (owner id field.1 p) id field.1 := by
  constructor
  · intro hs values p id field hf
    let settings : PluginSettings := values.elim [] fun values => [(id.as_str, values)]
    have hsettings : get settings id.as_str = values := by
      rcases values with _ | values
      · rfl
      · exact (get_cons _).trans (if_pos rfl)
    have hgiven := hs settings p id field (hsettings ▸ hf)
    rwa [h, get_plugin_secrets_for (hsettings ▸ hf), read_scope_eq] at hgiven
  · intro hs settings p id field hf
    rw [h, get_plugin_secrets_for hf, read_scope_eq]
    exact hs _ p id field hf

/-- A save that is not taken changes nothing. -/
theorem step_of_not_takes (h : s.secrets = some store) (ht : ¬ store.takes w.call w.value) :
    s.step w = s := by
  obtain ⟨e, he⟩ := SecretsStore.set_plugin_secret_of_not_takes ht
    (plugin_secret_scope w.id w.field w.pane.host_id) w.id.as_str w.field
  have hsaved : (fun o id field =>
      if store.takes w.call w.value ∧ o = owner w.id w.field w.pane ∧ id = w.id ∧ field = w.field
      then w.value.filter fun value => value ≠ ""
      else s.saved o id field) = s.saved := by
    funext o id field
    exact if_neg fun h => ht h.1
  unfold step
  rw [h]
  simp only [he, hsaved]
  rw [← h]

/-- A vault that holds what it did, but for the slot a save writes. -/
def Written (w : Save) (store store' : SecretsStore) : Prop :=
  ∀ scope (id : PluginId) field, store'.plugin_secret scope id.as_str field =
    if scope = plugin_secret_scope w.id w.field w.pane.host_id ∧ id = w.id ∧ field = w.field
    then w.value.filter fun value => value ≠ ""
    else store.plugin_secret scope id.as_str field

theorem secrets_step (h : s.secrets = some store) (ht : store.takes w.call w.value) :
    ∃ store', (s.step w).secrets = some store' ∧ Written w store store' := by
  unfold step
  rw [h]
  refine ⟨_, rfl, fun scope id field => ?_⟩
  rw [SecretsStore.plugin_secret_set_plugin_secret ht]
  refine if_congr (and_congr_right fun _ => and_congr_left fun _ => ?_) rfl rfl
  exact ⟨PluginId.as_str_injective, congrArg PluginId.as_str⟩

theorem saved_step (h : s.secrets = some store) (ht : store.takes w.call w.value) (o : Owner)
    (id : PluginId) (field : String) :
    (s.step w).saved o id field =
      if o = owner w.id w.field w.pane ∧ id = w.id ∧ field = w.field
      then w.value.filter fun value => value ≠ ""
      else s.saved o id field := by
  unfold step
  rw [h]
  exact if_congr (and_iff_right ht) rfl rfl

/-- The slots of other keys and of other scopes hold what they held. -/
theorem Written.bind_slot {store' : SecretsStore} (hw : Written w store store') {o : Owner}
    {id : PluginId} {field : String}
    (hne : id = w.id → field = w.field →
      slot o ≠ some (plugin_secret_scope w.id w.field w.pane.host_id)) :
    ((slot o).bind fun scope => store'.plugin_secret scope id.as_str field) =
      (slot o).bind fun scope => store.plugin_secret scope id.as_str field := by
  refine Option.bind_congr fun scope hscope => ?_
  rw [hw, if_neg]
  rintro ⟨rfl, hid, hfield⟩
  exact hne hid hfield hscope

/-- A save after which every pane is given what was last saved is none of a host's secret from a tab
without a host. -/
theorem ok_of_returned_step (hs : s.Returned) (hsec : s.secrets = some store)
    (ht : store.takes w.call w.value) (h : (s.step w).Returned) : Ok s w := by
  obtain ⟨store', hsec', hwritten⟩ := secrets_step hsec ht
  have hsaved := saved_step hsec ht
  rw [returned_iff_of_some hsec] at hs
  rw [returned_iff_of_some hsec'] at h
  intro hscope hhost store₁ hstore₁ _
  obtain rfl := Option.some.inj (hsec.symm.trans hstore₁)
  have hmem : (w.field, false) ∈ secret_fields_for w.id none := mem_of_secret_scope hscope
  have hwide := app_wide_of_secret_scope hscope
  have htab : owner w.id w.field w.pane = .tab w.pane.session := by
    unfold owner
    rw [hwide, hhost]
    rfl
  have hhost_app : owner w.id w.field ⟨w.pane.session, some APP_SCOPE⟩ = .host APP_SCOPE := by
    unfold owner
    rw [hwide]
    rfl
  have hwrite : plugin_secret_scope w.id w.field w.pane.host_id = APP_SCOPE := by
    rw [plugin_secret_scope_eq, htab]
    rfl
  -- the tab itself is given nothing, and a host named as the scope of the application is given
  -- what it saved
  have hempty : w.value.filter (fun value => value ≠ "") = none := by
    have hself := h none w.pane w.id _ hmem
    rw [hsaved, if_pos ⟨rfl, rfl, rfl⟩, htab] at hself
    exact hself.symm
  have hafter : store'.plugin_secret APP_SCOPE w.id.as_str w.field =
      s.saved (.host APP_SCOPE) w.id w.field := by
    have hgiven := h none ⟨w.pane.session, some APP_SCOPE⟩ w.id _ hmem
    rw [hhost_app, hsaved, htab, if_neg fun h => nomatch h.1] at hgiven
    exact hgiven
  have hbefore : store.plugin_secret APP_SCOPE w.id.as_str w.field =
      s.saved (.host APP_SCOPE) w.id w.field := by
    have hgiven := hs none ⟨w.pane.session, some APP_SCOPE⟩ w.id _ hmem
    rw [hhost_app] at hgiven
    exact hgiven
  refine ⟨hempty, ?_⟩
  rw [hbefore, ← hafter, hwritten, if_pos ⟨hwrite.symm, rfl, rfl⟩, hempty]

/-- What the owner of the save is given after it. -/
theorem Written.bind_slot_owner {store' : SecretsStore} (hw : Written w store store')
    (hempty : slot (owner w.id w.field w.pane) = none →
      w.value.filter (fun value => value ≠ "") = none) :
    ((slot (owner w.id w.field w.pane)).bind fun scope =>
      store'.plugin_secret scope w.id.as_str w.field) = w.value.filter fun value => value ≠ "" := by
  have hscope := plugin_secret_scope_eq w.id w.field w.pane
  rcases hslot : slot (owner w.id w.field w.pane) with _ | scope
  · exact (hempty hslot).symm
  · rw [hslot] at hscope
    exact (hw scope w.id w.field).trans (if_pos ⟨hscope.symm, rfl, rfl⟩)

theorem returned_step_of_ok (hs : s.Returned) (hsec : s.secrets = some store)
    (ht : store.takes w.call w.value) (hok : Ok s w) : (s.step w).Returned := by
  obtain ⟨store', hsec', hwritten⟩ := secrets_step hsec ht
  rw [returned_iff_of_some hsec] at hs
  rw [returned_iff_of_some hsec']
  intro values p id ⟨field, wide⟩ hf
  have hp := hs values p id _ hf
  dsimp only at hp ⊢
  rw [saved_step hsec ht]
  by_cases hkey : id = w.id ∧ field = w.field
  swap
  · rw [if_neg fun h => hkey h.2, ← hp]
    exact hwritten.bind_slot fun hid hfield => absurd ⟨hid, hfield⟩ hkey
  obtain ⟨rfl, rfl⟩ := hkey
  -- what a tab without a host may save: nothing, and nothing is held where it goes
  have hclears (hnone : slot (owner w.id w.field w.pane) = none) :
      w.value.filter (fun value => value ≠ "") = none ∧
        store.plugin_secret APP_SCOPE w.id.as_str w.field = none := by
    obtain ⟨hwide, hhost⟩ := slot_owner_eq_none_iff.mp hnone
    exact hok (secret_scope_of_mem hf ((app_wide_of_mem hf).trans hwide)) hhost store hsec ht
  by_cases ho : owner w.id w.field p = owner w.id w.field w.pane
  · rw [if_pos ⟨ho, rfl, rfl⟩, ho]
    exact hwritten.bind_slot_owner fun hnone => (hclears hnone).1
  rw [if_neg fun h => ho h.1, ← hp]
  have hscope := plugin_secret_scope_eq w.id w.field w.pane
  rcases hslot : slot (owner w.id w.field w.pane) with _ | scope
  · rw [hslot] at hscope
    by_cases happ : slot (owner w.id w.field p) = some APP_SCOPE
    · obtain ⟨hempty, hnothing⟩ := hclears hslot
      rw [happ, Option.bind_some, Option.bind_some, hwritten, if_pos ⟨hscope.symm, rfl, rfl⟩,
        hempty, hnothing]
    · exact hwritten.bind_slot fun _ _ => hscope ▸ happ
  · rw [hslot] at hscope
    refine hwritten.bind_slot fun _ _ h => ho ?_
    exact owner_eq_of_slot (h.trans (congrArg some hscope)) hslot

/-- **One save** keeps what panes are given in line with what was saved exactly when it is not a
host's secret from a tab without a host. -/
theorem returned_step_iff (hs : s.Returned) : (s.step w).Returned ↔ Ok s w := by
  rcases hsec : s.secrets with _ | store
  · have hstep : s.step w = s := by
      unfold step
      rw [hsec]
    rw [hstep]
    exact iff_of_true hs fun _ _ store hstore => nomatch hsec.symm.trans hstore
  by_cases ht : store.takes w.call w.value
  · exact ⟨ok_of_returned_step hs hsec ht, returned_step_of_ok hs hsec ht⟩
  · rw [step_of_not_takes hsec ht]
    refine iff_of_true hs fun _ _ store' hstore' ht' => absurd ht' ?_
    obtain rfl := Option.some.inj (hsec.symm.trans hstore')
    exact ht

theorem returned_start (secrets : Option SecretsStore) : (start secrets).Returned := by
  rcases secrets with _ | store
  · exact fun _ _ _ _ _ => rfl
  · exact (returned_iff_of_some rfl).mpr fun _ _ _ _ _ => rfl

end Saves

/-! ## Every sequence of saves -/

open Saves in
/-- **The secrets of panes**: whatever is saved, every pane is given what was last saved for its
host, its tab or the application, exactly when no tab without a host saves a secret of a host. -/
theorem returned_iff (secrets : Option SecretsStore) (saves : List Save) :
    (∀ s, Reached Saves.step (Saves.start secrets) saves s → s.Returned) ↔
      Guarded Saves.step Ok (Saves.start secrets) saves :=
  forall_reached_iff_guarded (fun _ _ hs => returned_step_iff hs) saves _ (returned_start secrets)

/-- The broker password a tab without a host saves is given to no pane of that tab, but to those of
a host whose id is the name of the application's scope. -/
theorem tab_password_lost :
    let save : Save :=
      ⟨⟨"tab-1", none⟩, .mqtt_analyser, "password", some "pw", ⟨some zero_nonce, true⟩⟩
    let start := Saves.start (some ⟨plain_cipher, []⟩)
    let s := run Saves.step start [save]
    s.saved (.tab "tab-1") .mqtt_analyser "password" = some "pw" ∧
    get₂ (plugin_secrets_for s.secrets [] none) "mqtt-analyser" "password" = none ∧
    get₂ (plugin_secrets_for s.secrets [] (some "app")) "mqtt-analyser" "password" = some "pw" ∧
    ¬ ∀ s, Reached Saves.step start [save] s → s.Returned := by
  refine ⟨by decide, by decide, by decide, fun h => ?_⟩
  have hgiven := h _ ⟨_, List.prefix_rfl, rfl⟩ [] ⟨"tab-1", none⟩ .mqtt_analyser ("password", false)
    (by decide)
  revert hgiven
  decide

end WaSSH.Vault
