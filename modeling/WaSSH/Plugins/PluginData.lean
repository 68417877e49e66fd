import WaSSH.Lib.Assoc

/-!
# The data of a pane

A pane reads one flat map: what its own file holds, and over it the values the settings dialogs own.
Only the former is written back.

* `Schema`, `apply_to`: the fields the dialogs own, and the values they put over a file;
* `PluginData`: what a pane reads, what it last wrote, and what the dialogs supplied;
* `load`, `take_changes`, `adopt`: its operations;
* `get_load`, `get_payload`: the pane's own keys are those of the file.
-/

namespace WaSSH.Plugins

open Assoc

variable {V : Type} [DecidableEq V]

/-! ## The dialogs -/

/-- One field of a plugin's settings, out of its groups. -/
structure Field (V : Type) where
  key : String
  default_value : V
  secret : Bool := false

/-- What a plugin contributes to the settings dialogs. -/
structure Schema (V : Type) where
  /-- The app-wide fields, in Options. -/
  app : List (Field V)
  /-- The fields of a host, in Host settings. -/
  host : List (Field V)
  /-- App-wide keys the plugin edits with its own widget instead of a field. -/
  list_owned_app_keys : List String

/-- The keys of the dialogs. -/
def Schema.keys (schema : Schema V) : List String :=
  (schema.app ++ schema.host).map Field.key ++ schema.list_owned_app_keys

/-- `target.insert(key, value)` for a configured value. -/
def overlay (configured : Option (Map String V)) (target : Map String V) (key : String) :
    Map String V :=
  match configured.bind fun values => get values key with
  | some value => insert target key value
  | none => target

/-- Schema defaults fill the keys the pane has not written; a value configured in Options or Host
settings always wins. -/
def apply_to (schema : Schema V) (app_values host_values : Option (Map String V))
    (target : Map String V) : Map String V :=
  -- A secret field is stored in the credential vault, never in plugin data.
  let app_fields := schema.app.filter fun field => ¬ field.secret
  let host_fields := schema.host.filter fun field => ¬ field.secret
  let target := (app_fields ++ host_fields).foldl (fun target field =>
    if (get target field.key).isSome then target
    else insert target field.key field.default_value) target
  let target := app_fields.foldl (fun target field => overlay app_values target field.key) target
  let target := host_fields.foldl (fun target field => overlay host_values target field.key) target
  schema.list_owned_app_keys.foldl (overlay app_values) target

/-! ## The pane -/

/-- A pane's stored data, and which of it is not the pane's own. -/
structure PluginData (V : Type) where
  /-- What the pane reads and writes. -/
  values : Map String V := []
  /-- `values` as last written, so an unchanged pane writes nothing. -/
  written : Map String V := []
  /-- The values the dialogs supplied rather than the file. -/
  from_dialogs : Map String V := []
  /-- Whether the file has been read yet. -/
  loaded : Bool := false

namespace PluginData

/-- Merge a stored file and the dialog values into what the pane will read. -/
def load (schema : Schema V) (app_values host_values : Option (Map String V))
    (stored : Map String V) : PluginData V :=
  let merged := apply_to schema app_values host_values stored
  { values := merged
    written := merged
    from_dialogs := merged.filter fun (key, _) => get stored key ≠ get merged key
    loaded := true }

/-- The pane changed something since its data was last written. -/
def dirty (d : PluginData V) : Bool := d.loaded ∧ ¬ same d.values d.written

/-- `values` without what the dialogs supplied. -/
def payload (d : PluginData V) : Map String V :=
  d.from_dialogs.foldl (fun payload (key, value) =>
    if get payload key = some value then remove payload key else payload) d.values

/-- The payload to write, when the pane changed something; what it changed counts as written. -/
def take_changes (d : PluginData V) : Option (Map String V) × PluginData V :=
  if d.dirty then (some d.payload, { d with written := d.values }) else (none, d)

/-- Take a value the dialogs just supplied, without letting it reach the file. -/
def adopt (d : PluginData V) (key : String) (value : V) : PluginData V :=
  { d with
    values := insert d.values key value
    written := insert d.written key value
    from_dialogs := insert d.from_dialogs key value }

end PluginData

/-! ## The pane's own keys -/

omit [DecidableEq V] in
theorem get_overlay {configured : Option (Map String V)} {target : Map String V} {key k : String}
    (h : key ≠ k) : get (overlay configured target key) k = get target k := by
  unfold overlay
  split
  · rw [get_insert, if_neg (Ne.symm h)]
  · rfl

omit [DecidableEq V] in
/-- The dialogs change only their own keys. -/
theorem get_apply_to {schema : Schema V} {k : String} (hk : k ∉ schema.keys)
    (app_values host_values : Option (Map String V)) (target : Map String V) :
    get (apply_to schema app_values host_values target) k = get target k := by
  have hfields {fields : List (Field V)} (h : ∀ field ∈ fields, field ∈ schema.app ++ schema.host) :
      k ∉ (fields.filter fun field => ¬ field.secret).map Field.key := fun hmem => by
    obtain ⟨field, hfield, heq⟩ := List.mem_map.mp hmem
    exact hk <| List.mem_append_left _ <|
      heq ▸ List.mem_map_of_mem (h field (List.mem_filter.mp hfield).1)
  have happ := hfields fun field h => List.mem_append_left schema.host h
  have hhost := hfields fun field h => List.mem_append_right schema.app h
  have hlist : k ∉ schema.list_owned_app_keys.map id := by
    rw [List.map_id]
    exact fun h => hk (List.mem_append_right _ h)
  have hboth : k ∉ ((schema.app.filter fun field => ¬ field.secret) ++
      schema.host.filter fun field => ¬ field.secret).map Field.key := by
    rw [List.map_append, List.mem_append]
    exact fun h => h.elim happ hhost
  refine (get_foldl_of_ne (fun m key _ h => get_overlay h) hlist _).trans ?_
  refine (get_foldl_of_ne (fun m field _ h => get_overlay h) hhost _).trans ?_
  refine (get_foldl_of_ne (fun m field _ h => get_overlay h) happ _).trans ?_
  refine get_foldl_of_ne (fun m field _ h => ?_) hboth target
  split
  · rfl
  · rw [get_insert, if_neg (Ne.symm h)]

namespace PluginData

/-- The dialogs supply only their own keys. -/
def Supplied (schema : Schema V) (d : PluginData V) : Prop :=
  ∀ k, k ∉ schema.keys → k ∉ d.from_dialogs.map Prod.fst

section Own

variable {schema : Schema V} {k : String}

theorem supplied_load (app_values host_values : Option (Map String V)) (stored : Map String V) :
    (load schema app_values host_values stored).Supplied schema := by
  intro k hk hmem
  obtain ⟨⟨key, value⟩, he, rfl⟩ := List.mem_map.mp hmem
  have hne := (List.mem_filter.mp he).2
  simp only [decide_eq_true_eq] at hne
  exact hne (get_apply_to hk app_values host_values stored).symm

variable (hk : k ∉ schema.keys)

include hk

theorem get_load (app_values host_values : Option (Map String V)) (stored : Map String V) :
    get (load schema app_values host_values stored).values k = get stored k :=
  get_apply_to hk app_values host_values stored

/-- **The payload** has the pane's own keys as the pane has them. -/
theorem get_payload {d : PluginData V} (hd : d.Supplied schema) :
    get d.payload k = get d.values k := by
  refine get_foldl_of_ne (fun m e _ h => ?_) (hd k hk) d.values
  dsimp only
  split
  · rw [get_remove, if_neg (Ne.symm h)]
  · rfl

end Own

end PluginData

end WaSSH.Plugins
