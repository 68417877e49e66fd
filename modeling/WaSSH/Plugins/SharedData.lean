import Mathlib.Logic.Function.Basic
import WaSSH.Lib.Run
import WaSSH.Plugins.PluginData

/-!
# Tabs that share a plugin document

The tabs of one host file a plugin's data under the same scope. Each reads the document once and
writes all of its own copy.

* `Tabs`: the document, the panes, and the value last given to each key;
* `Step`, `step`: one pane loads, edits, saves or drops its copy;
* `Kept`: with nothing left to save, the document has the last edits;
* `Ok`: a pane saves a copy that is up to date;
* **`saves_keep_edits`**: in a run of such steps no edit is lost, and the first save that is not one
  loses an edit.
-/

namespace WaSSH.Plugins

open Assoc StepRun

variable {ι V : Type} [DecidableEq ι] [DecidableEq V]

/-! ## The tabs -/

/-- The panes of one plugin in the tabs of one host. -/
structure Tabs (ι V : Type) where
  /-- The stored document. -/
  file : Map String V
  panes : ι → PluginData V
  /-- What the last edit of each key made of it, in any tab. -/
  last : String → Option V

/-- What a pane does. -/
inductive Step (ι V : Type)
  /-- The first draw reads the document; one that cannot be read counts as empty. -/
  | load (i : ι) (readable : Bool) (app_values host_values : Option (Map String V))
  /-- The pane sets a key, or removes it. -/
  | edit (i : ι) (key : String) (value : Option V)
  | adopt (i : ι) (key : String) (value : V)
  /-- What changed is written; `written` is whether the write succeeds. -/
  | save (i : ι) (written : Bool)
  /-- The next draw reads the document again. -/
  | reload (i : ι)

/-- The values after an edit of one key. -/
def put (values : Map String V) (key : String) : Option V → Map String V
  | some value => insert values key value
  | none => remove values key

omit [DecidableEq V] in
theorem get_put (values : Map String V) (key k : String) (value : Option V) :
    get (put values key value) k = if k = key then value else get values k := by
  cases value with
  | some value => exact get_insert
  | none => exact get_remove

namespace Tabs

/-- Before any pane is drawn. -/
def start (file : Map String V) : Tabs ι V := { file, panes := fun _ => {}, last := get file }

variable (schema : Schema V) (s : Tabs ι V)

def set (i : ι) (d : PluginData V) : Tabs ι V := { s with panes := Function.update s.panes i d }

/-- One step of one pane. -/
def step : Step ι V → Tabs ι V
  | .load i readable app_values host_values =>
    if (s.panes i).loaded then s
    else
      s.set i (.load schema app_values host_values (if readable then s.file else []))
  | .edit i key value =>
    if (s.panes i).loaded then
      let d := { s.panes i with values := put (s.panes i).values key value }
      { s.set i d with last := Function.update s.last key value }
    else s
  | .adopt i key value => s.set i ((s.panes i).adopt key value)
  | .save i written =>
    match (s.panes i).take_changes with
    | (some payload, d) => { s.set i d with file := if written then payload else s.file }
    | (none, d) => s.set i d
  | .reload i => s.set i { s.panes i with loaded := false }

end Tabs

/-! ## What a save should keep -/

/-- The pane has changed the key since its data was last read or written. -/
def PluginData.Unsaved (d : PluginData V) (k : String) : Prop :=
  d.loaded ∧ get d.values k ≠ get d.written k

instance (d : PluginData V) (k : String) : Decidable (d.Unsaved k) :=
  inferInstanceAs (Decidable (_ ∧ _))

/-- Once no pane has anything left to save, the document holds the last edit of every key of the
panes. -/
def Kept (schema : Schema V) (s : Tabs ι V) : Prop :=
  (∀ i, ¬ (s.panes i).dirty) → ∀ k, k ∉ schema.keys → get s.file k = s.last k

/-- An edit of a key nobody else has an unsaved change of; a save of a copy that is up to date, and
one that fails only where there was nothing to write. -/
def Ok (schema : Schema V) (s : Tabs ι V) : Step ι V → Prop
  | .load _ _ _ _ => True
  | .edit i key value => (s.panes i).loaded → key ∉ schema.keys →
    (∀ j, j ≠ i → ¬ (s.panes j).Unsaved key) ∧
      (value = get (s.panes i).written key → get s.file key = value)
  | .adopt _ key _ => key ∈ schema.keys
  | .save i true => (s.panes i).dirty → ∀ k, k ∉ schema.keys →
    ¬ (s.panes i).Unsaved k → get s.file k = get (s.panes i).values k
  | .save i false | .reload i => ∀ k, k ∉ schema.keys →
    (s.panes i).Unsaved k → get s.file k = get (s.panes i).values k

/-- A key of the panes holds its last edit, or a pane still has that to save. -/
structure Pending (schema : Schema V) (s : Tabs ι V) : Prop where
  held : ∀ k, k ∉ schema.keys → get s.file k = s.last k ∨ ∃ i, (s.panes i).Unsaved k
  newest : ∀ i k, k ∉ schema.keys → (s.panes i).Unsaved k → get (s.panes i).values k = s.last k
  supplied : ∀ i, (s.panes i).Supplied schema

section Pane

variable {d : PluginData V} {k : String}

theorem PluginData.dirty_of_unsaved (h : d.Unsaved k) : d.dirty := by
  simp only [PluginData.dirty, decide_eq_true_eq]
  exact ⟨h.1, fun hsame => h.2 (same_iff.mp hsame k)⟩

theorem PluginData.take_changes_of_dirty (h : d.dirty) :
    d.take_changes = (some d.payload, { d with written := d.values }) := if_pos h

theorem PluginData.take_changes_of_clean (h : ¬ d.dirty) : d.take_changes = (none, d) := if_neg h

end Pane

namespace Tabs

omit [DecidableEq V]

variable {s : Tabs ι V} {i j : ι} {d : PluginData V}

@[simp] theorem panes_set_self : (s.set i d).panes i = d := Function.update_self ..

theorem panes_set_of_ne (h : j ≠ i) : (s.set i d).panes j = s.panes j := Function.update_of_ne h ..

@[simp] theorem file_set : (s.set i d).file = s.file := rfl

@[simp] theorem last_set : (s.set i d).last = s.last := rfl

end Tabs

/-! ## One step -/

namespace Pending

variable {schema : Schema V} {s : Tabs ι V} (hs : Pending schema s) {i : ι} {d : PluginData V}

include hs

omit [DecidableEq ι] in
/-- With nothing left to save, every key holds its last edit. -/
theorem kept : Kept schema s := by
  intro hclean k hk
  rcases hs.held k hk with h | ⟨i, hi⟩
  · exact h
  · exact absurd (PluginData.dirty_of_unsaved hi) (hclean i)

omit [DecidableEq V] [DecidableEq ι] in
theorem held_or (i : ι) {k : String} (hk : k ∉ schema.keys) :
    get s.file k = s.last k ∨ (s.panes i).Unsaved k ∨ ∃ j, j ≠ i ∧ (s.panes j).Unsaved k := by
  refine (hs.held k hk).imp_right fun ⟨j, hj⟩ => ?_
  by_cases hji : j = i
  · exact .inl (hji ▸ hj)
  · exact .inr ⟨j, hji, hj⟩

omit [DecidableEq V] in
/-- What a change of one pane's copy, of the document and of the last edits has to keep. -/
theorem replace {file : Map String V} {last : String → Option V} (hsupplied : d.Supplied schema)
    (hheld : ∀ k, k ∉ schema.keys →
      get file k = last k ∨ d.Unsaved k ∨ ∃ j, j ≠ i ∧ (s.panes j).Unsaved k)
    (hnewest : ∀ k, k ∉ schema.keys → d.Unsaved k → get d.values k = last k)
    (hothers : ∀ j, j ≠ i → ∀ k, k ∉ schema.keys → (s.panes j).Unsaved k → s.last k = last k) :
    Pending schema { file, panes := (s.set i d).panes, last } where
  held := fun k hk => (hheld k hk).imp_right fun h => by
    rcases h with h | ⟨j, hji, hj⟩
    · exact ⟨i, by rwa [Tabs.panes_set_self]⟩
    · exact ⟨j, by rwa [Tabs.panes_set_of_ne hji]⟩
  newest := fun j k hk hj => by
    by_cases hji : j = i
    · subst hji
      rw [Tabs.panes_set_self] at hj ⊢
      exact hnewest k hk hj
    · rw [Tabs.panes_set_of_ne hji] at hj ⊢
      exact (hs.newest j k hk hj).trans (hothers j hji k hk hj)
  supplied := fun j => by
    by_cases hji : j = i
    · subst hji
      rwa [Tabs.panes_set_self]
    · rw [Tabs.panes_set_of_ne hji]
      exact hs.supplied j

omit [DecidableEq V] in
/-- A pane whose copy changes in nothing that is its own. -/
theorem set_same (hsupplied : d.Supplied schema)
    (hunsaved : ∀ k, k ∉ schema.keys → (d.Unsaved k ↔ (s.panes i).Unsaved k))
    (hvalues : ∀ k, k ∉ schema.keys → d.Unsaved k → get d.values k = get (s.panes i).values k) :
    Pending schema (s.set i d) := by
  refine hs.replace hsupplied (fun k hk => ?_) (fun k hk h => ?_) fun _ _ _ _ _ => rfl
  · rw [hunsaved k hk]
    exact hs.held_or i hk
  · rw [hvalues k hk h]
    exact hs.newest i k hk ((hunsaved k hk).mp h)

omit [DecidableEq V] in
/-- A pane that has nothing left to save, where the document holds what it had. -/
theorem set_saved {file : Map String V} (hsupplied : d.Supplied schema)
    (hsaved : ∀ k, k ∉ schema.keys → ¬ d.Unsaved k)
    (hheld : ∀ k, k ∉ schema.keys → (s.panes i).Unsaved k → get file k = get (s.panes i).values k)
    (hfile : ∀ k, k ∉ schema.keys → ¬ (s.panes i).Unsaved k → get file k = get s.file k) :
    Pending schema { s.set i d with file } := by
  refine hs.replace hsupplied (fun k hk => ?_) (fun k hk h => absurd h (hsaved k hk))
    fun _ _ _ _ _ => rfl
  by_cases hi : (s.panes i).Unsaved k
  · exact .inl ((hheld k hk hi).trans (hs.newest i k hk hi))
  · rcases hs.held_or i hk with h | h | h
    · exact .inl ((hfile k hk hi).trans h)
    · exact absurd h hi
    · exact .inr (.inr h)

theorem load (i : ι) (readable : Bool) (app_values host_values : Option (Map String V)) :
    Pending schema (s.step schema (.load i readable app_values host_values)) := by
  rw [Tabs.step]
  split
  · exact hs
  · next hloaded =>
    have hsaved (k : String) : ¬ (PluginData.load schema app_values host_values
        (if readable then s.file else [])).Unsaved k := fun h => h.2 rfl
    refine hs.set_same (PluginData.supplied_load _ _ _) (fun k _ => ?_) fun k _ h => ?_
    · exact iff_of_false (hsaved k) fun h => hloaded h.1
    · exact absurd h (hsaved k)

omit [DecidableEq V] in
theorem adopt (i : ι) {key : String} (hkey : key ∈ schema.keys) (value : V) :
    Pending schema (s.set i ((s.panes i).adopt key value)) := by
  have hne {k : String} (hk : k ∉ schema.keys) : ¬ k = key := fun h => hk (h ▸ hkey)
  refine hs.set_same (fun k hk hmem => ?_) (fun k hk => ?_) fun k hk _ => ?_
  · obtain ⟨e, he, rfl⟩ := List.mem_map.mp hmem
    rcases List.mem_append.mp he with he | he
    · exact hs.supplied i _ hk (List.mem_map_of_mem (List.mem_filter.mp he).1)
    · rw [List.mem_singleton.mp he] at hk
      exact hk hkey
  · simp only [PluginData.Unsaved, PluginData.adopt, get_insert, if_neg (hne hk)]
  · simp only [PluginData.adopt, get_insert, if_neg (hne hk)]

theorem edit (i : ι) (key : String) (value : Option V) (hok : Ok schema s (.edit i key value)) :
    Pending schema (s.step schema (.edit i key value)) := by
  simp only [Tabs.step]
  split
  · next hloaded =>
    have hother {k : String} (hk : k ≠ key) : get (put (s.panes i).values key value) k =
        get (s.panes i).values k := by rw [get_put, if_neg hk]
    have hself : get (put (s.panes i).values key value) key = value := by rw [get_put, if_pos rfl]
    refine hs.replace (hs.supplied i) (fun k hk => ?_) (fun k hk hi => ?_) fun j hji k hk hj => ?_
    all_goals by_cases hkey : k = key
    · subst hkey
      rw [Function.update_self]
      -- An edit back to what was written leaves nothing to save.
      by_cases hvalue : value = get (s.panes i).written k
      · exact .inl ((hok hloaded hk).2 hvalue)
      · exact .inr (.inl ⟨hloaded, by rwa [hself]⟩)
    · rw [Function.update_of_ne hkey]
      refine (hs.held_or i hk).imp_right (Or.imp_left fun hi => ⟨hi.1, ?_⟩)
      rw [hother hkey]
      exact hi.2
    · subst hkey
      rw [Function.update_self, hself]
    · rw [Function.update_of_ne hkey, hother hkey]
      exact hs.newest i k hk ⟨hi.1, by rw [← hother hkey]; exact hi.2⟩
    · subst hkey
      exact absurd hj ((hok hloaded hk).1 j hji)
    · rw [Function.update_of_ne hkey]
  · exact hs

theorem save (i : ι) (written : Bool) (hok : Ok schema s (.save i written)) :
    Pending schema (s.step schema (.save i written)) := by
  have hclean (k : String) :
      ¬ ({ s.panes i with written := (s.panes i).values } : PluginData V).Unsaved k :=
    fun h => h.2 rfl
  rw [Tabs.step]
  by_cases hdirty : (s.panes i).dirty
  · rw [PluginData.take_changes_of_dirty hdirty]
    have hpayload (k : String) (hk : k ∉ schema.keys) := PluginData.get_payload hk (hs.supplied i)
    cases written with
    | true =>
      refine hs.set_saved (hs.supplied i) (fun k _ => hclean k) (fun k hk _ => hpayload k hk)
        fun k hk hi => (hpayload k hk).trans (hok hdirty k hk hi).symm
    | false =>
      exact hs.set_saved (hs.supplied i) (fun k _ => hclean k) hok fun _ _ _ => rfl
  · rw [PluginData.take_changes_of_clean hdirty]
    exact hs.set_same (hs.supplied i) (fun _ _ => Iff.rfl) fun _ _ _ => rfl

theorem reload (i : ι) (hok : Ok schema s (.reload i)) :
    Pending schema (s.step schema (.reload i)) :=
  hs.set_saved (hs.supplied i) (fun _ _ h => nomatch h.1) hok fun _ _ _ => rfl

theorem step (a : Step ι V) (hok : Ok schema s a) : Pending schema (s.step schema a) := by
  cases a with
  | load i readable app_values host_values => exact hs.load i readable app_values host_values
  | edit i key value => exact hs.edit i key value hok
  | adopt i key value => exact hs.adopt i hok value
  | save i written => exact hs.save i written hok
  | reload i => exact hs.reload i hok

/-- A save of a copy that is not up to date, or one that fails, loses an edit when nothing else is
left to save. -/
theorem not_kept {written : Bool} (hothers : ∀ j, j ≠ i → ¬ (s.panes j).dirty)
    (hbad : ¬ Ok schema s (.save i written)) : ¬ Kept schema (s.step schema (.save i written)) := by
  intro hkept
  have hdirty : (s.panes i).dirty := by
    by_contra hclean
    refine hbad ?_
    cases written with
    | true => exact fun h => absurd h hclean
    | false => exact fun k _ hi => absurd (PluginData.dirty_of_unsaved hi) hclean
  have hstep : s.step schema (.save i written) =
      { s.set i { s.panes i with written := (s.panes i).values } with
        file := if written then (s.panes i).payload else s.file } := by
    rw [Tabs.step, PluginData.take_changes_of_dirty hdirty]
  rw [hstep] at hkept
  have hheld := hkept fun j => by
    show ¬ ((s.set i _).panes j).dirty
    by_cases hji : j = i
    · subst hji
      rw [Tabs.panes_set_self]
      simp [PluginData.dirty, same_iff]
    · rw [Tabs.panes_set_of_ne hji]
      exact hothers j hji
  refine hbad ?_
  cases written with
  | true =>
    intro _ k hk hi
    have hfile : get s.file k = s.last k := by
      rcases hs.held k hk with hlast | ⟨j, hj⟩
      · exact hlast
      by_cases hji : j = i
      · exact absurd (hji ▸ hj) hi
      · exact absurd (PluginData.dirty_of_unsaved hj) (hothers j hji)
    rw [hfile, ← PluginData.get_payload hk (hs.supplied i)]
    exact (hheld k hk).symm
  | false =>
    intro k hk hi
    rw [hs.newest i k hk hi]
    exact hheld k hk

end Pending

/-! ## Every run -/

omit [DecidableEq ι] [DecidableEq V] in
theorem pending_start (schema : Schema V) (file : Map String V) :
    Pending schema (Tabs.start file : Tabs ι V) :=
  ⟨fun _ _ => .inl rfl, fun _ _ _ h => (nomatch h.1), fun _ _ _ h => nomatch h⟩

/-- **Tabs that share a document** lose no edit in a run in which every save is of a copy that is up
to date and succeeds; after such a run, with nothing left to save in the other tabs, a save that is
not one loses an edit. -/
theorem saves_keep_edits (schema : Schema V) (file : Map String V) (steps : List (Step ι V))
    (hok : Guarded (Tabs.step schema) (Ok schema) (Tabs.start file) steps) :
    (∀ t, Reached (Tabs.step schema) (Tabs.start file) steps t → Kept schema t) ∧
      ∀ i written, let t := run (Tabs.step schema) (Tabs.start file) steps
        (∀ j, j ≠ i → ¬ (t.panes j).dirty) → ¬ Ok schema t (.save i written) →
          ¬ Kept schema (t.step schema (.save i written)) := by
  have hstep (s : Tabs ι V) (a : Step ι V) (hs : Pending schema s) (ha : Ok schema s a) :
      Pending schema (s.step schema a) := hs.step a ha
  have hstart : Pending schema (Tabs.start file : Tabs ι V) := pending_start schema file
  refine ⟨fun t ht => (reached_inv hstep hstart hok ht).kept, ?_⟩
  intro i written t hothers hbad
  exact (run_inv hstep steps _ hstart hok).not_kept hothers hbad

/-- One tab that reads, changes a key and saves it. -/
theorem saves_keep_edits_alone :
    Kept ⟨[], [], []⟩ (run (Tabs.step ⟨[], [], []⟩) (Tabs.start [] : Tabs Bool ℕ)
      [.load false true none none, .edit false "a" (some 1), .save false true]) := by
  refine (saves_keep_edits ⟨[], [], []⟩ [] [.load false true none none,
    .edit false "a" (some 1), .save false true] ⟨trivial, fun _ _ => ⟨fun j hj h => ?_, nofun⟩,
    fun _ k _ hk => ?_, trivial⟩).1 _ ⟨_, List.prefix_rfl, rfl⟩
  · cases j
    · exact hj rfl
    · exact absurd h (by decide)
  · by_cases ha : k = "a"
    · subst ha
      exact absurd (by decide) hk
    · show none = get (insert [] "a" 1) k
      rw [get_insert, if_neg ha, get_nil]

/-- The second of two tabs that read the document writes its own copy over the edit of the first;
and an edit whose write fails is not saved again. -/
theorem edits_lost :
    let both : Tabs Bool ℕ := run (Tabs.step ⟨[], [], []⟩) (Tabs.start [])
      [.load false true none none, .load true true none none, .edit false "a" (some 1),
        .save false true, .edit true "b" (some 2), .save true true]
    let failed : Tabs Bool ℕ := run (Tabs.step ⟨[], [], []⟩) (Tabs.start [])
      [.load false true none none, .edit false "a" (some 1), .save false false]
    both.last "a" = some 1 ∧ get both.file "a" = none ∧
    failed.last "a" = some 1 ∧ get failed.file "a" = none ∧
    ¬ Kept ⟨[], [], []⟩ both ∧ ¬ Kept ⟨[], [], []⟩ failed := by
  refine ⟨by decide, by decide, by decide, by decide, fun h => ?_, fun h => ?_⟩
  all_goals
    have hkept := h (fun i => by cases i <;> decide) "a" (by decide)
    revert hkept
    decide

end WaSSH.Plugins
