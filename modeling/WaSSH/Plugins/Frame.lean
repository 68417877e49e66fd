import WaSSH.Lib.Run
import WaSSH.Plugins.SharedData

/-!
# What a save leaves alone

A pane writes one document whichever of its keys it changed.

* `Filed`, `PaneStep`: a pane and its document, from one load to the next;
* `get_payload_eq`: the payload, key by key;
* `Traced`: where the values of a pane come from, kept by every step (`Traced.step`);
* **`take_changes_frame`**: a key the pane did not change is written as it is stored, unless a
  dialog lends the pane its value.
-/

namespace WaSSH.Plugins

open Assoc StepRun

variable {V : Type} [DecidableEq V]

/-! ## A pane and its document -/

/-- A pane, and its document as it was last read or handed over to be written. -/
structure Filed (V : Type) where
  stored : Map String V := []
  pane : PluginData V := {}

/-- What happens to a pane. -/
inductive PaneStep (V : Type)
  /-- The next draw reads the document, unless the pane holds one. -/
  | load (stored : Map String V) (app_values host_values : Option (Map String V))
  /-- The pane sets a key, or removes it. -/
  | edit (key : String) (value : Option V)
  | adopt (key : String) (value : V)
  | take_changes
  /-- A dialog was saved. -/
  | reload

/-- One step. -/
def Filed.step (schema : Schema V) (s : Filed V) : PaneStep V → Filed V
  | .load stored app_values host_values =>
    if s.pane.loaded then s else ⟨stored, .load schema app_values host_values stored⟩
  | .edit key value => { s with pane := { s.pane with values := put s.pane.values key value } }
  | .adopt key value => { s with pane := s.pane.adopt key value }
  | .take_changes =>
    match s.pane.take_changes with
    | (some payload, pane) => ⟨payload, pane⟩
    | (none, pane) => { s with pane }
  | .reload => { s with pane := { s.pane with loaded := false } }

/-! ## The payload -/

/-- The value the pane has for a key is one that a dialog supplied. -/
def PluginData.lent (d : PluginData V) (k : String) : Bool :=
  d.from_dialogs.any fun e => e.1 = k ∧ get d.values k = some e.2

theorem PluginData.lent_iff {d : PluginData V} {k : String} :
    d.lent k ↔ ∃ v, get d.values k = some v ∧ (k, v) ∈ d.from_dialogs := by
  rw [lent, List.any_eq_true]
  constructor
  · rintro ⟨⟨key, v⟩, he, h⟩
    obtain ⟨rfl, hv⟩ := of_decide_eq_true h
    exact ⟨v, hv, he⟩
  · rintro ⟨v, hv, he⟩
    exact ⟨(k, v), he, decide_eq_true ⟨rfl, hv⟩⟩

/-- Taking out what the dialogs supplied, for one key and the value it has. -/
theorem get_strip (from_dialogs : Map String V) {values : Map String V} {k : String} {x : Option V}
    (h : get values k = x) :
    get (from_dialogs.foldl (fun payload (key, value) =>
      if get payload key = some value then remove payload key else payload) values) k =
      if from_dialogs.any fun e => e.1 = k ∧ x = some e.2 then none else x := by
  induction from_dialogs generalizing values x with
  | nil => exact h
  | cons e from_dialogs ih =>
    obtain ⟨key, value⟩ := e
    rw [List.foldl_cons, List.any_cons]
    dsimp only
    by_cases hk : key = k
    · subst hk
      by_cases hv : x = some value
      · have hnone : get (remove values key) key = none := by rw [get_remove, if_pos rfl]
        rw [if_pos (h.trans hv), ih hnone, ite_self, if_pos (by simp [hv])]
      · rw [if_neg (h ▸ hv), ih h, decide_eq_false fun hboth => hv hboth.2, Bool.false_or]
    · have hget :
          get (if get values key = some value then remove values key else values) k = x := by
        split_ifs
        · rw [get_remove, if_neg (Ne.symm hk), h]
        · exact h
      rw [ih hget, decide_eq_false fun hboth => hk hboth.1, Bool.false_or]

/-- **The payload** has the values of the pane, those the dialogs lend apart. -/
theorem PluginData.get_payload_eq (d : PluginData V) (k : String) :
    get d.payload k = if d.lent k then none else get d.values k :=
  get_strip d.from_dialogs rfl

/-! ## The stored keys -/

omit [DecidableEq V] in
theorem isSome_get_insert {m : Map String V} {k key : String} {value : V}
    (h : (get m k).isSome) : (get (insert m key value) k).isSome := by
  rw [get_insert]
  split_ifs
  · rfl
  · exact h

omit [DecidableEq V] in
/-- A loop that takes no key away. -/
theorem isSome_get_foldl {α : Type} {f : Map String V → α → Map String V} {k : String}
    (hf : ∀ m x, (get m k).isSome → (get (f m x) k).isSome) (xs : List α) {m : Map String V}
    (h : (get m k).isSome) : (get (xs.foldl f m) k).isSome := by
  induction xs generalizing m with
  | nil => exact h
  | cons x xs ih => exact ih (hf m x h)

omit [DecidableEq V] in
/-- The dialogs take no key away. -/
theorem isSome_get_apply_to {schema : Schema V} {app_values host_values : Option (Map String V)}
    {target : Map String V} {k : String} (h : (get target k).isSome) :
    (get (apply_to schema app_values host_values target) k).isSome := by
  have hoverlay {configured : Option (Map String V)} {m : Map String V} {key : String}
      (hm : (get m k).isSome) : (get (overlay configured m key) k).isSome := by
    unfold overlay
    split
    · exact isSome_get_insert hm
    · exact hm
  unfold apply_to
  refine isSome_get_foldl (fun m key hm => hoverlay hm) _ ?_
  refine isSome_get_foldl (fun m field hm => hoverlay hm) _ ?_
  refine isSome_get_foldl (fun m field hm => hoverlay hm) _ ?_
  refine isSome_get_foldl (fun m field hm => ?_) _ h
  split
  · exact hm
  · exact isSome_get_insert hm

/-! ## Where the values come from -/

/-- What a pane last read or wrote is in its document, or on loan from a dialog. -/
structure Traced (s : Filed V) : Prop where
  own : s.pane.loaded → ∀ k v, get s.pane.written k = some v → (k, v) ∉ s.pane.from_dialogs →
    get s.stored k = some v
  shown : s.pane.loaded → ∀ k, (get s.stored k).isSome → (get s.pane.written k).isSome

namespace Traced

variable {schema : Schema V} {s : Filed V}

theorem load (app_values host_values : Option (Map String V)) (stored : Map String V) :
    Traced ⟨stored, .load schema app_values host_values stored⟩ := by
  refine ⟨fun _ k v hv hown => ?_, fun _ k h => isSome_get_apply_to h⟩
  by_contra hne
  refine hown (List.mem_filter.mpr ⟨mem_of_get hv, decide_eq_true ?_⟩)
  show get stored k ≠ get (apply_to schema app_values host_values stored) k
  intro heq
  exact hne (heq.trans hv)

omit [DecidableEq V] in
theorem adopt (h : Traced s) (key : String) (value : V) :
    Traced { s with pane := s.pane.adopt key value } := by
  have hget (k : String) : get (insert s.pane.written key value) k =
      if k = key then some value else get s.pane.written k := get_insert
  constructor
  · intro hl k v hv hown
    replace hv : get (insert s.pane.written key value) k = some v := hv
    replace hown : (k, v) ∉ insert s.pane.from_dialogs key value := hown
    rw [hget] at hv
    rw [Assoc.insert, List.mem_append, not_or, List.mem_singleton] at hown
    by_cases hk : k = key
    · rw [if_pos hk, Option.some_inj] at hv
      exact absurd (by rw [hk, hv]) hown.2
    · rw [if_neg hk] at hv
      refine h.own hl k v hv fun hmem => hown.1 ?_
      exact List.mem_filter.mpr ⟨hmem, decide_eq_true hk⟩
  · intro hl k hk
    exact isSome_get_insert (h.shown hl k hk)

theorem take_changes (h : Traced s) : Traced (s.step schema .take_changes) := by
  by_cases hd : s.pane.dirty
  · have hstep : s.step schema .take_changes =
        ⟨s.pane.payload, { s.pane with written := s.pane.values }⟩ := by
      rw [Filed.step, PluginData.take_changes_of_dirty hd]
    rw [hstep]
    refine ⟨fun _ k v hv hown => ?_, fun _ k hk => ?_⟩
    · replace hv : get s.pane.values k = some v := hv
      show get s.pane.payload k = some v
      rw [PluginData.get_payload_eq, if_neg, hv]
      intro hlent
      obtain ⟨w, hw, hmem⟩ := PluginData.lent_iff.mp hlent
      rw [hv, Option.some_inj] at hw
      exact hown (hw ▸ hmem)
    · replace hk : (get s.pane.payload k).isSome := hk
      show (get s.pane.values k).isSome
      rw [PluginData.get_payload_eq] at hk
      split_ifs at hk
      · exact absurd hk Bool.false_ne_true
      · exact hk
  · have hstep : s.step schema .take_changes = s := by
      rw [Filed.step, PluginData.take_changes_of_clean hd]
    rwa [hstep]

/-- **Every step** keeps it. -/
theorem step (h : Traced s) (a : PaneStep V) : Traced (s.step schema a) := by
  cases a with
  | load stored app_values host_values =>
    rw [Filed.step]
    split_ifs
    · exact h
    · exact load app_values host_values stored
  | edit key value => exact ⟨h.own, h.shown⟩
  | adopt key value => exact h.adopt key value
  | take_changes => exact h.take_changes
  | reload => exact ⟨nofun, nofun⟩

theorem run (schema : Schema V) (steps : List (PaneStep V)) :
    Traced (run (Filed.step schema) {} steps) := by
  have hall : Guarded (Filed.step schema) (fun _ _ => True) {} steps :=
    guarded_of_forall fun _ _ => trivial
  exact run_inv (fun _ a h _ => h.step a) steps _ ⟨nofun, nofun⟩ hall

/-- What the payload makes of a key the pane did not change. -/
theorem get_payload (h : Traced s) (hl : s.pane.loaded) {k : String}
    (hk : get s.pane.values k = get s.pane.written k) :
    get s.pane.payload k = if s.pane.lent k then none else get s.stored k := by
  rw [PluginData.get_payload_eq]
  split_ifs with hlent
  · rfl
  · cases hv : get s.pane.values k with
    | some v =>
      refine (h.own hl k v (hk.symm.trans hv) fun hmem => hlent ?_).symm
      exact PluginData.lent_iff.mpr ⟨v, hv, hmem⟩
    | none =>
      rw [hv] at hk
      cases hs : get s.stored k with
      | some v =>
        have := h.shown hl k (by rw [hs]; rfl)
        rw [← hk] at this
        exact absurd this Bool.false_ne_true
      | none => rfl

end Traced

/-! ## Saving -/

/-- **A save leaves the unchanged keys alone**: after any loads, edits, refreshed settings and
saves, what a save writes for a key the pane did not change is what is stored for it, and nothing
where a dialog lends the pane its value. -/
theorem take_changes_frame (schema : Schema V) (steps : List (PaneStep V)) {payload : Map String V}
    {d : PluginData V}
    (h : (run (Filed.step schema) {} steps).pane.take_changes = (some payload, d)) :
    let s := run (Filed.step schema) {} steps
    ∀ k, get s.pane.values k = get s.pane.written k →
      get payload k = if s.pane.lent k then none else get s.stored k := by
  intro s k hk
  have hd : s.pane.dirty := by
    by_contra hd
    have := PluginData.take_changes_of_clean hd
    rw [h] at this
    exact absurd (congrArg Prod.fst this) (by simp)
  have hpayload : payload = s.pane.payload := by
    have := PluginData.take_changes_of_dirty hd
    rw [h] at this
    exact Option.some_inj.mp (congrArg Prod.fst this)
  rw [hpayload]
  refine (Traced.run schema steps).get_payload ?_ hk
  exact (of_decide_eq_true hd).1

/-- Two stored keys, one of them changed. -/
theorem take_changes_frame_two :
    get (insert (insert [] "b" 2) "a" 3) "b" = if
      (run (Filed.step ⟨[], [], []⟩) {}
        [.load [("a", 1), ("b", 2)] none none, .edit "a" (some 3)]).pane.lent "b" then none
    else get (run (Filed.step ⟨[], [], []⟩) {}
      [.load [("a", 1), ("b", 2)] none none, .edit "a" (some 3)]).stored "b" :=
  take_changes_frame ⟨[], [], []⟩ [.load [("a", 1), ("b", 2)] none none, .edit "a" (some 3)] rfl
    "b" rfl

/-- **A stored value under one of a dialog** is not in what the next save writes. -/
theorem lent_value_dropped :
    ¬ ∀ (schema : Schema ℕ) (steps : List (PaneStep ℕ)) (payload : Map String ℕ)
      (d : PluginData ℕ),
      let s := run (Filed.step schema) {} steps
      s.pane.take_changes = (some payload, d) →
        ∀ k v, get s.stored k = some v → get s.pane.values k = get s.pane.written k →
          get payload k = some v := by
  intro h
  have hkept := h ⟨[⟨"b", 0, false⟩], [], []⟩
    [.load [("a", 1), ("b", 2)] (some [("b", 5)]) none, .edit "a" (some 3)] _ _ rfl "b" 2
    (by decide) (by decide)
  exact absurd hkept (by decide)

end WaSSH.Plugins
