import Mathlib.Algebra.Order.BigOperators.Group.List
import Mathlib.Algebra.Order.Group.Nat
import WaSSH.Layout.Panes

/-!
# Opening and moving panes

* `move_to_overlay`, `open_plugin`: the source;
* `Move`, `apply`: what is done to the layout of a tab, closing included;
* `nodup_apply`: no plugin comes to be in a layout twice;
* `Keeps`, `Room`: what opening and moving have to do, and the layouts in which they do it;
* **`move_keeps_iff`**: these are the layouts, among those that a tab can have.
-/

namespace WaSSH.Layout

open StepRun

/-- Where a plugin view sits relative to the terminal. -/
inductive DockPlacement
  | split_left | split_right | split_top | split_bottom
  | overlay
  deriving DecidableEq

/-- Move `plugin_id` into the floating overlay. -/
def TabPluginLayout.move_to_overlay (l : TabPluginLayout) (plugin_id : String) : TabPluginLayout :=
  { l.remove_plugin plugin_id with overlay := some (.leaf plugin_id) }

/-- A tab: the plugins that were created for it, and where their panes are. -/
structure Session where
  panes : List String
  layout : TabPluginLayout

/-- Ensure a plugin instance exists for `id`. -/
def Session.ensure_pane (s : Session) (id : String) : Session :=
  if id ∈ s.panes then s else { s with panes := s.panes ++ [id] }

/-- Show `id` in this tab, docking it where its manifest asks. -/
def Session.open_plugin (s : Session) (id : String) (placement : DockPlacement) : Session :=
  let s := s.ensure_pane id
  match placement with
  | .split_left => { s with layout := s.layout.dock_on_edge id .left none }
  | .split_right => { s with layout := s.layout.dock_on_edge id .right none }
  | .split_top => { s with layout := s.layout.dock_on_edge id .top none }
  | .split_bottom => { s with layout := s.layout.dock_on_edge id .bottom none }
  | .overlay => { s with layout := s.layout.move_to_overlay id }

/-! ## Runs -/

/-- What is done to a tab. -/
inductive Move
  | open_plugin (id : String) (placement : DockPlacement)
  | dock_on_edge (plugin_id : String) (edge : DockEdge) (zone : Option LeafZone)
  | split_leaf (target : String) (zone : LeafZone) (plugin_id : String)
  | move_to_overlay (plugin_id : String)
  | set_split_ratio (edge : DockEdge) (path : List ℕ) (ratio : Float32)
  | close_plugin (plugin_id : String)

def apply (s : Session) : Move → Session
  | .open_plugin id placement => s.open_plugin id placement
  | .dock_on_edge plugin_id edge zone =>
    { s with layout := s.layout.dock_on_edge plugin_id edge zone }
  | .split_leaf target zone plugin_id =>
    { s with layout := s.layout.split_leaf target zone plugin_id }
  | .move_to_overlay plugin_id => { s with layout := s.layout.move_to_overlay plugin_id }
  | .set_split_ratio edge path ratio =>
    { s with layout := s.layout.set_split_ratio edge path ratio }
  | .close_plugin plugin_id => { s with layout := s.layout.remove_plugin plugin_id }

/-- A tab without panes. -/
def Session.new : Session := ⟨[], TabPluginLayout.empty⟩

/-- The plugin that a move is about, if it opens or moves one. -/
def Move.subject : Move → Option String
  | .open_plugin plugin_id _ | .dock_on_edge plugin_id _ _ | .split_leaf _ _ plugin_id
  | .move_to_overlay plugin_id => some plugin_id
  | .set_split_ratio _ _ _ | .close_plugin _ => none

/-- Every pane that was there is there, and the one that was opened or moved is there once. -/
def Keeps (s : Session) (move : Move) : Prop :=
  ∀ plugin_id ∈ move.subject,
    (∀ other ∈ s.layout.plugin_ids, other ∈ (apply s move).layout.plugin_ids) ∧
      (apply s move).layout.plugin_ids.count plugin_id = 1

/-- The overlay has no other pane where one is moved to it, and the pane that is split is there. -/
def Room (s : Session) : Move → Prop
  | .open_plugin id .overlay | .move_to_overlay id =>
    ∀ other ∈ s.layout.panes .overlay, other = id
  | .split_leaf target _ _ => target ∈ s.layout.plugin_ids
  | _ => True

/-! ## The overlay -/

section Overlay

variable {l : TabPluginLayout} {plugin_id : String}

theorem panes_move_to_overlay (l : TabPluginLayout) (plugin_id : String) (place : Place) :
    (l.move_to_overlay plugin_id).panes place =
      if place = .overlay then [plugin_id] else (l.panes place).filter (· ≠ plugin_id) := by
  cases place with
  | overlay => rfl
  | docked edge =>
    rw [if_neg nofun, ← l.panes_remove_plugin]
    cases edge <;> rfl

theorem mem_move_to_overlay {other : String} :
    other ∈ (l.move_to_overlay plugin_id).plugin_ids ↔
      other = plugin_id ∨ other ≠ plugin_id ∧ ∃ edge, other ∈ l.panes (.docked edge) := by
  rw [TabPluginLayout.mem_plugin_ids]
  constructor
  · rintro ⟨place, hplace⟩
    rw [panes_move_to_overlay] at hplace
    split_ifs at hplace with hoverlay
    · exact .inl (List.mem_singleton.mp hplace)
    · obtain ⟨hmem, hne⟩ := List.mem_filter.mp hplace
      cases place with
      | overlay => exact absurd rfl hoverlay
      | docked edge => exact .inr ⟨of_decide_eq_true hne, edge, hmem⟩
  · rintro (rfl | ⟨hne, edge, hmem⟩)
    · refine ⟨.overlay, ?_⟩
      rw [panes_move_to_overlay, if_pos rfl]
      exact List.mem_singleton_self _
    · refine ⟨.docked edge, ?_⟩
      rw [panes_move_to_overlay, if_neg nofun]
      exact List.mem_filter.mpr ⟨hmem, decide_eq_true hne⟩

theorem count_move_to_overlay (l : TabPluginLayout) (plugin_id : String) :
    (l.move_to_overlay plugin_id).plugin_ids.count plugin_id = 1 := by
  have hone (place : Place) : ((l.move_to_overlay plugin_id).panes place).count plugin_id =
      if place = .overlay then 1 else 0 := by
    rw [panes_move_to_overlay]
    split
    · exact List.count_singleton_self
    · exact count_filter_self _ _
  rw [TabPluginLayout.count_plugin_ids, List.map_congr_left fun place _ => hone place]
  rfl

theorem nodup_move_to_overlay (hnodup : l.plugin_ids.Nodup) (plugin_id : String) :
    (l.move_to_overlay plugin_id).plugin_ids.Nodup := by
  refine List.nodup_iff_count_le_one.mpr fun other => ?_
  by_cases hne : other = plugin_id
  · rw [hne, count_move_to_overlay]
  · refine le_trans ?_ (List.nodup_iff_count_le_one.mp hnodup other)
    rw [TabPluginLayout.count_plugin_ids, TabPluginLayout.count_plugin_ids]
    refine List.sum_le_sum fun place _ => ?_
    rw [panes_move_to_overlay]
    split
    · rw [List.count_singleton, if_neg]
      · exact Nat.zero_le _
      · simpa using Ne.symm hne
    · exact (List.filter_sublist).count_le other

/-- A pane that floats is not docked. -/
theorem not_docked (hnodup : l.plugin_ids.Nodup) {other : String} (h : other ∈ l.panes .overlay)
    (edge : DockEdge) : other ∉ l.panes (.docked edge) := by
  intro hdocked
  have hcount := List.nodup_iff_count_le_one.mp hnodup other
  rw [TabPluginLayout.count_plugin_ids] at hcount
  have hfloat := List.count_pos_iff.mpr h
  have hdock := List.count_pos_iff.mpr hdocked
  cases edge <;> simp [places, DockEdge.ALL] at hcount <;> omega

/-- **Moving to the overlay** closes what is there. -/
theorem overlay_keeps_iff (hnodup : l.plugin_ids.Nodup) :
    ((∀ other ∈ l.plugin_ids, other ∈ (l.move_to_overlay plugin_id).plugin_ids) ∧
        (l.move_to_overlay plugin_id).plugin_ids.count plugin_id = 1) ↔
      ∀ other ∈ l.panes .overlay, other = plugin_id := by
  constructor
  · rintro ⟨hall, -⟩ other hother
    rcases mem_move_to_overlay.mp (hall other (l.mem_plugin_ids.mpr ⟨_, hother⟩)) with
      heq | ⟨-, edge, hedge⟩
    · exact heq
    · exact absurd hedge (not_docked hnodup hother edge)
  · intro h
    refine ⟨fun other hother => ?_, count_move_to_overlay l plugin_id⟩
    refine mem_move_to_overlay.mpr (or_iff_not_imp_left.mpr fun hne => ⟨hne, ?_⟩)
    obtain ⟨place, hplace⟩ := l.mem_plugin_ids.mp hother
    cases place with
    | overlay => exact absurd (h other hplace) hne
    | docked edge => exact ⟨edge, hplace⟩

end Overlay

/-! ## Every move -/

section Moves

variable {l : TabPluginLayout}

/-- A target that is not there: the pane is taken out and not put back. -/
theorem split_leaf_of_not_mem {target : String} (h : target ∉ l.plugin_ids) (zone : LeafZone)
    {plugin_id : String} (hne : target ≠ plugin_id) :
    l.split_leaf target zone plugin_id = l.remove_plugin plugin_id := by
  have hshows (place : Place) :
      TabPluginLayout.shows target ((l.remove_plugin plugin_id).node place) ≠ true := by
    rw [ne_eq, TabPluginLayout.shows_iff]
    intro hmem
    change target ∈ (l.remove_plugin plugin_id).panes place at hmem
    rw [l.panes_remove_plugin] at hmem
    exact h (l.mem_plugin_ids.mpr ⟨place, (List.mem_filter.mp hmem).1⟩)
  have hfind : (DockEdge.ALL.find? fun edge =>
      TabPluginLayout.shows target ((l.remove_plugin plugin_id).dock edge)) = none :=
    List.find?_eq_none.mpr fun edge _ => hshows (.docked edge)
  unfold TabPluginLayout.split_leaf
  rw [if_neg hne]
  dsimp only
  rw [hfind]
  exact if_neg (hshows .overlay)

theorem count_remove_plugin (l : TabPluginLayout) (plugin_id : String) :
    (l.remove_plugin plugin_id).plugin_ids.count plugin_id = 0 := by
  rw [TabPluginLayout.count_plugin_ids, List.map_congr_left fun place _ => by
    rw [l.panes_remove_plugin, count_filter_self]]
  rfl

theorem nodup_split_leaf (hnodup : l.plugin_ids.Nodup) (target : String) (zone : LeafZone)
    (plugin_id : String) : (l.split_leaf target zone plugin_id).plugin_ids.Nodup := by
  by_cases hne : target = plugin_id
  · unfold TabPluginLayout.split_leaf
    rwa [if_pos hne]
  · by_cases hmem : target ∈ l.plugin_ids
    · exact (arranges_split_leaf hnodup zone hmem hne).1
    · rw [split_leaf_of_not_mem hmem zone hne]
      exact (arranges_remove_plugin hnodup plugin_id).1

/-- **Splitting** loses the pane exactly when the target is not there. -/
theorem split_keeps_iff (hnodup : l.plugin_ids.Nodup) (target : String) (zone : LeafZone)
    (plugin_id : String) :
    ((∀ other ∈ l.plugin_ids, other ∈ (l.split_leaf target zone plugin_id).plugin_ids) ∧
        (l.split_leaf target zone plugin_id).plugin_ids.count plugin_id = 1) ↔
      target ∈ l.plugin_ids := by
  by_cases hne : target = plugin_id
  · subst hne
    unfold TabPluginLayout.split_leaf
    rw [if_pos rfl]
    refine ⟨fun h => ?_, fun h => ⟨fun _ hother => hother, ?_⟩⟩
    · exact List.count_pos_iff.mp (by rw [h.2]; exact Nat.one_pos)
    · exact List.count_eq_one_of_mem hnodup h
  · by_cases hmem : target ∈ l.plugin_ids
    · obtain ⟨hdistinct, hall, -⟩ := arranges_split_leaf hnodup zone hmem hne
      refine iff_of_true ⟨fun other hother => (hall other).mpr (.inl hother), ?_⟩ hmem
      exact List.count_eq_one_of_mem hdistinct ((hall plugin_id).mpr (.inr rfl))
    · refine iff_of_false (fun h => ?_) hmem
      rw [split_leaf_of_not_mem hmem zone hne, count_remove_plugin] at h
      exact absurd h.2 Nat.zero_ne_one

/-- **Docking** keeps every pane. -/
theorem dock_keeps (hnodup : l.plugin_ids.Nodup) (plugin_id : String) (edge : DockEdge)
    (zone : Option LeafZone) :
    (∀ other ∈ l.plugin_ids, other ∈ (l.dock_on_edge plugin_id edge zone).plugin_ids) ∧
      (l.dock_on_edge plugin_id edge zone).plugin_ids.count plugin_id = 1 := by
  obtain ⟨hdistinct, hall, -⟩ := arranges_dock_on_edge hnodup plugin_id edge zone
  refine ⟨fun other hother => (hall other).mpr (.inl hother), ?_⟩
  exact List.count_eq_one_of_mem hdistinct ((hall plugin_id).mpr (.inr rfl))

theorem layout_ensure_pane (s : Session) (id : String) : (s.ensure_pane id).layout = s.layout := by
  unfold Session.ensure_pane
  split <;> rfl

/-- **Step lemma**: no plugin comes to be in the layout twice. -/
theorem nodup_apply {s : Session} (hnodup : s.layout.plugin_ids.Nodup) (move : Move) :
    (apply s move).layout.plugin_ids.Nodup := by
  have hdock (plugin_id : String) (edge : DockEdge) (zone : Option LeafZone) :=
    (arranges_dock_on_edge hnodup plugin_id edge zone).1
  cases move with
  | open_plugin id placement =>
    unfold apply Session.open_plugin
    dsimp only
    cases placement <;> dsimp only <;> rw [layout_ensure_pane]
    · exact hdock id .left none
    · exact hdock id .right none
    · exact hdock id .top none
    · exact hdock id .bottom none
    · exact nodup_move_to_overlay hnodup id
  | dock_on_edge plugin_id edge zone => exact hdock plugin_id edge zone
  | split_leaf target zone plugin_id => exact nodup_split_leaf hnodup target zone plugin_id
  | move_to_overlay plugin_id => exact nodup_move_to_overlay hnodup plugin_id
  | set_split_ratio edge path ratio =>
    exact (arranges_step hnodup (.set_split_ratio edge path ratio) trivial).1
  | close_plugin plugin_id => exact (arranges_remove_plugin hnodup plugin_id).1

theorem nodup_run (moves : List Move) : (run apply .new moves).layout.plugin_ids.Nodup := by
  have hall : Guarded apply (fun _ _ => True) Session.new moves :=
    guarded_of_forall fun _ _ => trivial
  exact run_inv (I := fun s => s.layout.plugin_ids.Nodup) (fun _ move hs _ => nodup_apply hs move)
    moves Session.new List.nodup_nil hall

theorem keeps_iff_room {s : Session} (hnodup : s.layout.plugin_ids.Nodup) (move : Move) :
    Keeps s move ↔ Room s move := by
  have hone {plugin_id : String} {p : String → Prop} :
      (∀ id ∈ some plugin_id, p id) ↔ p plugin_id := by
    simp
  cases move with
  | open_plugin id placement =>
    refine hone.trans ?_
    unfold apply Session.open_plugin Room
    dsimp only
    cases placement <;> dsimp only <;> rw [layout_ensure_pane]
    · exact iff_true_intro (dock_keeps hnodup id .left none)
    · exact iff_true_intro (dock_keeps hnodup id .right none)
    · exact iff_true_intro (dock_keeps hnodup id .top none)
    · exact iff_true_intro (dock_keeps hnodup id .bottom none)
    · exact overlay_keeps_iff hnodup
  | dock_on_edge plugin_id edge zone =>
    exact hone.trans (iff_true_intro (dock_keeps hnodup plugin_id edge zone))
  | split_leaf target zone plugin_id =>
    exact hone.trans (split_keeps_iff hnodup target zone plugin_id)
  | move_to_overlay plugin_id => exact hone.trans (overlay_keeps_iff hnodup)
  | set_split_ratio edge path ratio => exact iff_of_true nofun trivial
  | close_plugin plugin_id => exact iff_of_true nofun trivial

/-- **Opening and moving** closes no pane, and shows the one it is about once, exactly in the layouts
of a tab that have room for it. -/
theorem move_keeps_iff (moves : List Move) (move : Move) :
    Keeps (run apply .new moves) move ↔ Room (run apply .new moves) move :=
  keeps_iff_room (nodup_run moves) move

end Moves

/-- A second plugin that asks for the overlay closes the first. -/
theorem overlay_closed :
    ¬ ∀ (moves : List Move) (move : Move), Keeps (run apply .new moves) move := by
  intro h
  obtain ⟨hall, -⟩ := h [.open_plugin "sftp" .overlay] (.open_plugin "scratchpad" .overlay)
    "scratchpad" rfl
  have hgone : "sftp" ∉ (apply (run apply .new [.open_plugin "sftp" .overlay])
      (.open_plugin "scratchpad" .overlay)).layout.plugin_ids := by
    decide +kernel
  exact hgone (hall "sftp" (by decide +kernel))

end WaSSH.Layout
