import Mathlib
import WaSSH.Hosts.Connection
import WaSSH.Layout.Dock
import WaSSH.Lib.OrderList
import WaSSH.Store.Cycles
import WaSSH.Tabs.Bar

/-!
# Open tabs

What `tabs.json` holds, and how it is repaired when it is loaded.

* `TabSnapshot`, `normalized`, `normalize_tabs`: a tab, and the repair of a list of them;
* `kept`, `chosen`, `light`: the tabs that stay, which of them is the active one, and a list with
  only that one active;
* `normalize_tabs_eq`: the repair in these terms;
* `Settled`, **`normalize_tabs_eq_self_iff`**: the lists that the repair leaves as they are;
* `map_bar_normalize_tabs`: what the tab strip restores;
* `normalize_tabs_settles`: a repaired list stays as it is, also in its file.
-/

namespace WaSSH.Core.Tabs

open Hosts Layout

/-! ## The repair -/

/-- One open tab as persisted between runs. -/
structure TabSnapshot where
  id : List Char := []
  connection : ConnectionParams := {}
  /-- Saved host this tab was opened from. -/
  host_id : Option String := none
  active : Bool := false
  active_plugin_ids : List String := []
  /-- Dock layout for this tab, absent when no plugin pane was open. -/
  plugin_layout : Option TabPluginLayout := none

/-- `sort` and `dedup`. -/
def sort_dedup (ids : List String) : List String :=
  (ids.mergeSort fun a b => decide (a ≤ b)).destutter (· ≠ ·)

def TabSnapshot.normalized (tab : TabSnapshot) : TabSnapshot :=
  { tab with
    active_plugin_ids := sort_dedup tab.active_plugin_ids
    connection := tab.connection.normalized }

/-- One round of the loop that leaves one active tab, and `found_active` after it. -/
def leave_one (found_active : Bool) (tab : TabSnapshot) : TabSnapshot × Bool :=
  if tab.active then
    if found_active then ({ tab with active := false }, found_active) else (tab, true)
  else (tab, found_active)

def one_active (found_active : Bool) : List TabSnapshot → List TabSnapshot × Bool
  | [] => ([], found_active)
  | tab :: tabs =>
    let round := leave_one found_active tab
    let rest := one_active round.2 tabs
    (round.1 :: rest.1, rest.2)

/-- `first_mut` is made active. -/
def activate_first : List TabSnapshot → List TabSnapshot
  | [] => []
  | first :: rest => { first with active := true } :: rest

/-- Drop duplicate ids and guarantee exactly one active tab when any exist. -/
def normalize_tabs (tabs : List TabSnapshot) : List TabSnapshot :=
  let tabs := OrderList.retain_first (·.id) (·.id ≠ []) [] tabs
  let tabs := tabs.map TabSnapshot.normalized
  let (tabs, found_active) := one_active false tabs
  if !found_active then activate_first tabs else tabs

/-! ## One active tab -/

/-- The tabs that stay: the first one of each id that is not blank. -/
def kept (tabs : List TabSnapshot) : List TabSnapshot :=
  OrderList.firsts (·.id) (·.id ≠ []) tabs

/-- The place of the first active tab; the first place where there is none. -/
def chosen (tabs : List TabSnapshot) : ℕ := (tabs.findIdx? (·.active)).getD 0

/-- Only the tab at place `k` is active. -/
def light (k : ℕ) (tabs : List TabSnapshot) : List TabSnapshot :=
  tabs.mapIdx fun i tab => { tab with active := decide (i = k) }

def dark (tab : TabSnapshot) : TabSnapshot := { tab with active := false }

theorem dark_of_not_active {tab : TabSnapshot} (h : tab.active = false) : dark tab = tab := by
  obtain ⟨id, connection, host_id, active, ids, layout⟩ := tab
  obtain rfl : active = false := h
  rfl

theorem map_dark {tabs : List TabSnapshot} (h : ∀ tab ∈ tabs, tab.active = false) :
    tabs.map dark = tabs :=
  (List.map_congr_left fun tab htab => dark_of_not_active (h tab htab)).trans (List.map_id tabs)

@[simp] theorem light_nil (k : ℕ) : light k [] = [] := rfl

@[simp] theorem light_zero (tab : TabSnapshot) (tabs : List TabSnapshot) :
    light 0 (tab :: tabs) = { tab with active := true } :: tabs.map dark := by
  rw [light, List.mapIdx_cons]
  refine congrArg (_ :: ·) (List.ext_getElem (by simp) fun i hi hi' => ?_)
  rw [List.getElem_mapIdx, List.getElem_map]
  rfl

@[simp] theorem light_succ (k : ℕ) (tab : TabSnapshot) (tabs : List TabSnapshot) :
    light (k + 1) (tab :: tabs) = dark tab :: light k tabs := by
  rw [light, List.mapIdx_cons, light]
  refine congrArg₂ (· :: ·) rfl (congrArg (List.mapIdx · tabs) ?_)
  funext i other
  rw [decide_eq_decide.mpr (Nat.succ_inj (a := i) (b := k))]

@[simp] theorem length_light (k : ℕ) (tabs : List TabSnapshot) :
    (light k tabs).length = tabs.length := List.length_mapIdx

theorem chosen_cons (tab : TabSnapshot) (tabs : List TabSnapshot) :
    chosen (tab :: tabs) =
      if tab.active ∨ ∀ other ∈ tabs, other.active = false then 0 else chosen tabs + 1 := by
  rw [chosen, List.findIdx?_cons]
  cases hactive : tab.active with
  | true => simp
  | false =>
    cases hrest : tabs.findIdx? (·.active) with
    | none => simpa [hrest] using List.findIdx?_eq_none_iff.mp hrest
    | some k =>
      have hsome : ¬ ∀ other ∈ tabs, other.active = false := by
        rw [← List.findIdx?_eq_none_iff, hrest]
        exact Option.some_ne_none k
      simp [hsome, chosen, hrest]

theorem one_active_true (tabs : List TabSnapshot) :
    one_active true tabs = (tabs.map dark, true) := by
  induction tabs with
  | nil => rfl
  | cons tab tabs ih =>
    have hround : leave_one true tab = (dark tab, true) := by
      unfold leave_one
      cases h : tab.active with
      | true => rfl
      | false => rw [dark_of_not_active h]; rfl
    simp only [one_active, hround, ih, List.map_cons]

/-- The loop, where a tab is active. -/
theorem one_active_of_exists {tabs : List TabSnapshot} (h : ∃ tab ∈ tabs, tab.active) :
    one_active false tabs = (light (chosen tabs) tabs, true) := by
  induction tabs with
  | nil => simp at h
  | cons tab tabs ih =>
    rw [chosen_cons, one_active]
    cases hactive : tab.active with
    | true =>
      have hround : leave_one false tab = ({ tab with active := true }, true) := by
        rw [leave_one, if_pos hactive, if_neg Bool.false_ne_true, ← hactive]
      simp [hround, one_active_true]
    | false =>
      have hround : leave_one false tab = (dark tab, false) := by
        rw [leave_one, if_neg (by simp [hactive]), dark_of_not_active hactive]
      have hrest : ∃ other ∈ tabs, other.active := by simpa [hactive] using h
      have hsome : ¬ ∀ other ∈ tabs, other.active = false := by simpa using hrest
      simp [hround, ih hrest, hsome]

/-- The loop, where none is. -/
theorem one_active_of_forall {tabs : List TabSnapshot} (h : ∀ tab ∈ tabs, tab.active = false) :
    one_active false tabs = (tabs, false) := by
  induction tabs with
  | nil => rfl
  | cons tab tabs ih =>
    obtain ⟨hactive, hrest⟩ := List.forall_mem_cons.mp h
    have hround : leave_one false tab = (tab, false) := by
      rw [leave_one, if_neg (by simp [hactive])]
    simp only [one_active, hround, ih hrest]

theorem activate_first_of_forall {tabs : List TabSnapshot}
    (h : ∀ tab ∈ tabs, tab.active = false) : activate_first tabs = light (chosen tabs) tabs := by
  cases tabs with
  | nil => rfl
  | cons tab tabs =>
    obtain ⟨hactive, hrest⟩ := List.forall_mem_cons.mp h
    rw [chosen_cons, if_pos (.inr hrest), light_zero, map_dark hrest, activate_first]

/-- The loop and what follows it. -/
theorem activate_eq_light (tabs : List TabSnapshot) :
    (if !(one_active false tabs).2 then activate_first (one_active false tabs).1
      else (one_active false tabs).1) = light (chosen tabs) tabs := by
  by_cases h : ∃ tab ∈ tabs, tab.active
  · rw [one_active_of_exists h]
    rfl
  · have hnone : ∀ tab ∈ tabs, tab.active = false := by simpa using h
    rw [one_active_of_forall hnone]
    exact activate_first_of_forall hnone

theorem chosen_map_normalized (tabs : List TabSnapshot) :
    chosen (tabs.map TabSnapshot.normalized) = chosen tabs := by
  rw [chosen, List.findIdx?_map]
  rfl

/-- **The repair**: the tabs that stay, normalised, and the chosen one is the active one. -/
theorem normalize_tabs_eq (tabs : List TabSnapshot) :
    normalize_tabs tabs =
      light (chosen (kept tabs)) ((kept tabs).map TabSnapshot.normalized) := by
  rw [← chosen_map_normalized, kept, ← OrderList.retain_first_eq_firsts]
  exact activate_eq_light _

theorem countP_light {k : ℕ} {tabs : List TabSnapshot} (h : k < tabs.length) :
    (light k tabs).countP (·.active) = 1 := by
  induction tabs generalizing k with
  | nil => cases h
  | cons tab tabs ih =>
    cases k with
    | zero =>
      have hrest : (tabs.map dark).countP (·.active) = 0 := by simp [dark]
      rw [light_zero, List.countP_cons_of_pos rfl, hrest]
    | succ k =>
      rw [light_succ, List.countP_cons_of_neg (by simp [dark])]
      exact ih (Nat.lt_of_succ_lt_succ h)

theorem chosen_lt {tabs : List TabSnapshot} (h : tabs ≠ []) : chosen tabs < tabs.length := by
  have hpos := List.length_pos_iff.mpr h
  unfold chosen
  cases hfind : tabs.findIdx? (·.active) with
  | none => exact hpos
  | some k => exact (List.findIdx?_eq_some_iff_findIdx_eq.mp hfind).1

theorem light_chosen {tabs : List TabSnapshot} (h : tabs.countP (·.active) = 1) :
    light (chosen tabs) tabs = tabs := by
  induction tabs with
  | nil => rfl
  | cons tab tabs ih =>
    rw [chosen_cons]
    cases hactive : tab.active with
    | true =>
      rw [List.countP_cons_of_pos hactive, Nat.succ_inj, List.countP_eq_zero] at h
      have hrest : ∀ other ∈ tabs, other.active = false := by simpa using h
      rw [if_pos (.inl rfl), light_zero, map_dark hrest, ← hactive]
    | false =>
      rw [List.countP_cons_of_neg (by simp [hactive])] at h
      have hsome : ¬ ∀ other ∈ tabs, other.active = false := by
        have hpos : 0 < tabs.countP (·.active) := by omega
        simpa using List.countP_pos_iff.mp hpos
      rw [if_neg (by simpa using hsome), light_succ, ih h, dark_of_not_active hactive]

/-! ## Repairing twice -/

theorem sort_dedup_sort_dedup (ids : List String) :
    sort_dedup (sort_dedup ids) = sort_dedup ids := by
  have hsorted : (sort_dedup ids).Pairwise fun a b => decide (a ≤ b) = true := by
    refine List.Pairwise.sublist (List.destutter_sublist _ _)
      (List.pairwise_mergeSort (fun a b c hab hbc => ?_) (fun a b => ?_) ids)
    · rw [decide_eq_true_eq] at hab hbc ⊢
      exact hab.trans hbc
    · rw [Bool.or_eq_true, decide_eq_true_eq, decide_eq_true_eq]
      exact le_total a b
  have hsame : (sort_dedup ids).mergeSort (fun a b => decide (a ≤ b)) = sort_dedup ids :=
    List.mergeSort_of_pairwise hsorted
  rw [sort_dedup, hsame, sort_dedup, List.destutter_idem]

theorem TabSnapshot.normalized_normalized (tab : TabSnapshot) :
    tab.normalized.normalized = tab.normalized := by
  simp only [normalized, sort_dedup_sort_dedup, ConnectionParams.normalized_normalized]

theorem TabSnapshot.normalized_active (tab : TabSnapshot) (active : Bool) :
    { tab with active }.normalized = { tab.normalized with active } := rfl

/-- Tabs with names of their own, normalised, and one of them active. -/
structure Settled (tabs : List TabSnapshot) : Prop where
  named : ∀ tab ∈ tabs, tab.id ≠ []
  distinct : (tabs.map (·.id)).Nodup
  normal : ∀ tab ∈ tabs, tab.normalized = tab
  one_active : tabs ≠ [] → tabs.countP (·.active) = 1

theorem map_id_normalize_tabs (tabs : List TabSnapshot) :
    (normalize_tabs tabs).map (·.id) = (kept tabs).map (·.id) := by
  rw [normalize_tabs_eq, light]
  refine List.ext_getElem (by simp) fun i hi hi' => ?_
  simp only [List.getElem_map, List.getElem_mapIdx]
  rfl

theorem mem_ids_kept {tabs : List TabSnapshot} {id : List Char} :
    id ∈ (kept tabs).map (·.id) ↔ id ≠ [] ∧ id ∈ tabs.map (·.id) := by
  rw [kept, ← OrderList.retain_first_eq_firsts, OrderList.mem_keys_retain_first]
  constructor
  · rintro ⟨-, tab, htab, hnamed, rfl⟩
    exact ⟨by simpa using hnamed, List.mem_map_of_mem htab⟩
  · rintro ⟨hnamed, hid⟩
    obtain ⟨tab, htab, rfl⟩ := List.mem_map.mp hid
    exact ⟨List.not_mem_nil, tab, htab, by simpa using hnamed, rfl⟩

theorem settled_normalize_tabs (tabs : List TabSnapshot) : Settled (normalize_tabs tabs) where
  named tab htab := by
    have hid := List.mem_map_of_mem (f := (·.id)) htab
    rw [map_id_normalize_tabs, mem_ids_kept] at hid
    exact hid.1
  distinct := by
    rw [map_id_normalize_tabs, kept, ← OrderList.retain_first_eq_firsts]
    exact OrderList.nodup_keys_retain_first
  normal tab htab := by
    rw [normalize_tabs_eq, light, List.mem_mapIdx] at htab
    obtain ⟨i, hi, rfl⟩ := htab
    rw [List.getElem_map, TabSnapshot.normalized_active, TabSnapshot.normalized_normalized]
  one_active hne := by
    rw [normalize_tabs_eq] at hne ⊢
    refine countP_light ?_
    have hkept : kept tabs ≠ [] := fun hnil => hne (by simp [hnil])
    simpa using chosen_lt hkept

/-- **Fixed points**: the repair leaves a list as it is exactly if it is settled. -/
theorem normalize_tabs_eq_self_iff {tabs : List TabSnapshot} :
    normalize_tabs tabs = tabs ↔ Settled tabs := by
  refine ⟨fun h => h ▸ settled_normalize_tabs tabs, fun h => ?_⟩
  have hkept : kept tabs = tabs := by
    rw [kept, ← OrderList.retain_first_eq_firsts]
    exact OrderList.retain_first_eq_self (by simpa using h.named) h.distinct (by simp)
  have hnormal : tabs.map TabSnapshot.normalized = tabs :=
    (List.map_congr_left h.normal).trans (List.map_id tabs)
  rw [normalize_tabs_eq, hkept, hnormal]
  by_cases hne : tabs = []
  · rw [hne, light_nil]
  · exact light_chosen (h.one_active hne)

theorem normalize_tabs_normalize_tabs (tabs : List TabSnapshot) :
    normalize_tabs (normalize_tabs tabs) = normalize_tabs tabs :=
  normalize_tabs_eq_self_iff.mpr (settled_normalize_tabs tabs)

/-! ## The tab strip's view -/

/-- What the tab strip restores of a tab. -/
def bar (tab : TabSnapshot) : WaSSH.Tabs.TabSnapshot := ⟨tab.id, tab.active⟩

theorem map_bar_one_active (found_active : Bool) (tabs : List TabSnapshot) :
    (one_active found_active tabs).1.map bar =
        WaSSH.Tabs.one_active found_active (tabs.map bar) ∧
      (one_active found_active tabs).2 = (found_active || tabs.any (·.active)) := by
  induction tabs generalizing found_active with
  | nil => simp [one_active, WaSSH.Tabs.one_active]
  | cons tab tabs ih =>
    obtain ⟨hlist, hfound⟩ := ih (leave_one found_active tab).2
    have hround : bar (leave_one found_active tab).1 =
          { bar tab with active := tab.active && !found_active } ∧
        (leave_one found_active tab).2 = (found_active || tab.active) := by
      unfold leave_one
      cases hactive : tab.active <;> cases found_active <;> simp [bar, hactive]
    constructor
    · rw [one_active, List.map_cons, hlist, hround.1, hround.2]
      rfl
    · rw [one_active, hfound, hround.2, List.any_cons, Bool.or_assoc]

theorem any_one_active (found_active : Bool) (tabs : List WaSSH.Tabs.TabSnapshot) :
    (WaSSH.Tabs.one_active found_active tabs).any (·.active) =
      (!found_active && tabs.any (·.active)) := by
  induction tabs generalizing found_active with
  | nil => simp [WaSSH.Tabs.one_active]
  | cons tab tabs ih =>
    rw [WaSSH.Tabs.one_active, List.any_cons, List.any_cons, ih]
    cases tab.active <;> cases found_active <;> rfl

/-- **The tabs the shell restores** are the repaired ones. -/
theorem map_bar_normalize_tabs (tabs : List TabSnapshot) :
    (normalize_tabs tabs).map bar = WaSSH.Tabs.normalize_tabs (tabs.map bar) := by
  obtain ⟨normal, hnormal⟩ : ∃ normal, normal =
      (OrderList.retain_first TabSnapshot.id (·.id ≠ []) [] tabs).map TabSnapshot.normalized :=
    ⟨_, rfl⟩
  have hfirst :
      OrderList.retain_first WaSSH.Tabs.TabSnapshot.id (·.id ≠ []) [] (tabs.map bar) =
        normal.map bar := by
    rw [OrderList.retain_first_map, hnormal, List.map_map]
    rfl
  rw [normalize_tabs, WaSSH.Tabs.normalize_tabs, hfirst, ← hnormal]
  clear hnormal hfirst tabs
  obtain ⟨hlist, hfound⟩ := map_bar_one_active false normal
  have hany : (normal.map bar).any (·.active) = normal.any (·.active) := List.any_map
  dsimp only
  rw [any_one_active, hany, ← hlist, hfound, Bool.not_false, Bool.true_and, Bool.false_or]
  cases normal.any (·.active) with
  | true => rfl
  | false =>
    cases (one_active false normal).1 <;> rfl

/-! ## In the file -/

/-- `tabs.json` in the data directory `dir`. -/
def tabs_document (serde : Store.Serde (List TabSnapshot)) (os : Store.TargetOs) (pid : ℕ)
    (dir : Store.Path) : Store.DocumentFile (List TabSnapshot) where
  serde := serde
  os := os
  pid := pid
  path := dir ++ [Store.Kind.tabs.file_name]
  default := []
  normalize := normalize_tabs

/-- **A repaired list** holds the first tab of each id that is not blank, in order, and the first of
them that was active is the active one, or the first; it is not changed by a second repair, nor by
loading and saving it again. -/
theorem normalize_tabs_settles (tabs : List TabSnapshot) :
    normalize_tabs tabs =
        light (chosen (kept tabs)) ((kept tabs).map TabSnapshot.normalized) ∧
      Settled (normalize_tabs tabs) ∧
      normalize_tabs (normalize_tabs tabs) = normalize_tabs tabs ∧
      ∀ serde os pid dir fs value fs', (tabs_document serde os pid dir).Cycle fs value fs' →
        serde.ReadsBack value → (tabs_document serde os pid dir).Steady fs' value := by
  refine ⟨normalize_tabs_eq tabs, settled_normalize_tabs tabs, normalize_tabs_normalize_tabs tabs,
    ?_⟩
  intro serde os pid dir fs value fs' hcycle hread
  exact hcycle.steady normalize_tabs_normalize_tabs hread

/-- A file with one tab that has no id, and the one that is written in its place. -/
def blank_tabs : Store.Serde (List TabSnapshot) where
  to_vec_pretty tabs := if tabs.isEmpty then some "[]".toUTF8.toList else none
  from_slice bytes :=
    if bytes = "[]\n".toUTF8.toList then some []
    else if bytes = "[\x7b\x7d]".toUTF8.toList then some [{}]
    else none

theorem normalize_tabs_settles_doubled :
    let a : TabSnapshot := { id := "a".toList }
    let tabs := [a, { a with active := true }, {}]
    let document := tabs_document blank_tabs .unix 7 ["/", "data"]
    normalize_tabs tabs = [{ a.normalized with active := true }] ∧
      normalize_tabs (normalize_tabs tabs) = normalize_tabs tabs ∧
      ∃ fs fs', fs document.path = some "[\x7b\x7d]".toUTF8.toList ∧ document.Cycle fs [] fs' ∧
        document.Steady fs' [] := by
  intro a tabs document
  obtain ⟨heq, -, hidem, hsteady⟩ := normalize_tabs_settles tabs
  let fs : FileMap.Fs Store.Path := fun q =>
    if q = document.path then some "[\x7b\x7d]".toUTF8.toList else none
  let write : Store.Write := ⟨⟨true, true, none, true, true, true, true, true⟩, 0⟩
  let saved := (document.load true fs).1.save blank_tabs .unix 7 write (document.load true fs).2
  have hok : saved.1 = .ok () := by decide +kernel
  have hvalue : (document.load true fs).1.value.isEmpty := by decide +kernel
  have hcycle : document.Cycle fs [] saved.2.2 :=
    ⟨true, write, saved.2.1, List.isEmpty_iff.mp hvalue, Prod.ext hok rfl⟩
  refine ⟨heq, hidem, fs, saved.2.2, if_pos rfl, hcycle, hsteady _ _ _ _ _ _ _ hcycle ?_⟩
  intro json hjson
  obtain rfl : "[]".toUTF8.toList = json := Option.some.inj hjson
  have hbytes : "[]".toUTF8.toList ++ [10] = "[]\n".toUTF8.toList := by decide +kernel
  rw [hbytes]
  exact if_pos rfl

end WaSSH.Core.Tabs
