import Mathlib.Data.List.Count
import Mathlib.Data.List.Nodup
import WaSSH.Lib.Run
import WaSSH.Layout.Dock

/-!
# The panes of a tab

A layout seen as the panes in each place, from left to right: the four edges and the overlay.

* `Place`, `panes`: the places and what is in them;
* `panes_remove_plugin`, `panes_dock_on_edge`, `panes_split_leaf`, `panes_set_split_ratio`: the
  operations on that view;
* `SameBut`, `Inserted`: everything but one pane is where it was;
* **`layout_keeps_panes`**: no operation of a run loses, repeats or moves another pane.
-/

namespace WaSSH.Layout

open StepRun
open scoped List

/-- Where panes are. -/
inductive Place
  | docked (edge : DockEdge)
  | overlay
  deriving DecidableEq

/-- The places in render order. -/
def places : List Place := DockEdge.ALL.map .docked ++ [.overlay]

theorem count_places (place : Place) : places.count place = 1 := by
  cases place with
  | docked edge => cases edge <;> rfl
  | overlay => rfl

namespace TabPluginLayout

variable (l : TabPluginLayout)

def node : Place → Option LayoutNode
  | .docked edge => l.dock edge
  | .overlay => l.overlay

/-- The panes in a place, from left to right. -/
def panes (place : Place) : List String := LayoutNode.panes (l.node place)

theorem plugin_ids_eq : l.plugin_ids = places.flatMap l.panes := by
  rw [places, List.flatMap_append, List.flatMap_map, List.flatMap_singleton]
  rfl

theorem mem_plugin_ids {plugin_id : String} :
    plugin_id ∈ l.plugin_ids ↔ ∃ place, plugin_id ∈ l.panes place := by
  rw [plugin_ids_eq, List.mem_flatMap]
  refine exists_congr fun place => and_iff_right ?_
  rw [← List.count_pos_iff, count_places]
  exact Nat.one_pos

theorem count_plugin_ids (plugin_id : String) :
    l.plugin_ids.count plugin_id = (places.map fun place => (l.panes place).count plugin_id).sum := by
  rw [plugin_ids_eq, List.count_flatMap]
  rfl

/-! ## The operations on the panes -/

theorem node_set_dock (new : Option LayoutNode) (edge : DockEdge) (place : Place) :
    (l.set_dock new edge).node place = if place = .docked edge then new else l.node place := by
  cases place with
  | docked other => cases edge <;> cases other <;> rfl
  | overlay => cases edge <;> rfl

theorem node_set_size (px : Float32) (edge : DockEdge) (place : Place) :
    (l.set_size px edge).node place = l.node place := by
  cases place with
  | docked other => cases edge <;> cases other <;> rfl
  | overlay => cases edge <;> rfl

theorem node_remove_plugin (plugin_id : String) (place : Place) :
    (l.remove_plugin plugin_id).node place =
      (l.node place).bind (LayoutNode.remove plugin_id) := by
  cases place with
  | docked edge => cases edge <;> rfl
  | overlay => rfl

theorem panes_remove_plugin (plugin_id : String) (place : Place) :
    (l.remove_plugin plugin_id).panes place = (l.panes place).filter (· ≠ plugin_id) := by
  rw [panes, node_remove_plugin, panes]
  cases l.node place with
  | none => rfl
  | some node => exact LayoutNode.plugin_ids_remove plugin_id node

theorem panes_dock_on_edge (plugin_id : String) (edge : DockEdge) (zone : Option LeafZone)
    (place : Place) :
    (l.dock_on_edge plugin_id edge zone).panes place =
      if place = .docked edge then
        LayoutNode.beside (zone.getD edge.outer_zone) ((l.panes place).filter (· ≠ plugin_id))
          [plugin_id]
      else (l.panes place).filter (· ≠ plugin_id) := by
  have hnode : (l.dock_on_edge plugin_id edge zone).node place =
      if place = .docked edge then
        some (((l.remove_plugin plugin_id).node (.docked edge)).elim (.leaf plugin_id)
          fun existing => existing.wrap (.leaf plugin_id) (zone.getD edge.outer_zone))
      else (l.remove_plugin plugin_id).node place := by
    have hdock : (l.remove_plugin plugin_id).node (.docked edge) =
        (l.remove_plugin plugin_id).dock edge := rfl
    rw [hdock]
    unfold dock_on_edge
    dsimp only
    split
    · rw [node_set_size, node_set_dock]
      cases (l.remove_plugin plugin_id).dock edge <;> rfl
    · rw [node_set_dock]
      cases (l.remove_plugin plugin_id).dock edge <;> rfl
  rw [← panes_remove_plugin, panes, hnode, panes]
  split
  next heq =>
    subst heq
    cases (l.remove_plugin plugin_id).node (.docked edge) with
    | none => cases zone.getD edge.outer_zone <;> rfl
    | some existing => exact LayoutNode.plugin_ids_wrap _ _ _
  · rfl

theorem shows_iff {target : String} {node : Option LayoutNode} :
    shows target node = true ↔ target ∈ LayoutNode.panes node := by
  cases node with
  | none => exact iff_of_false Bool.false_ne_true List.not_mem_nil
  | some node => simp [shows, LayoutNode.panes]

/-- The place that `split_leaf` changes: one that shows the target. -/
theorem node_split_leaf {target : String} (zone : LeafZone) {plugin_id : String}
    (hne : target ≠ plugin_id) (hmem : target ∈ l.plugin_ids) :
    ∃ found, target ∈ (l.panes found).filter (· ≠ plugin_id) ∧
      ∀ place, (l.split_leaf target zone plugin_id).node place =
        if place = found then
          ((l.remove_plugin plugin_id).node place).map (LayoutNode.map_leaf target fun _ =>
            .wrap (.leaf target) (.leaf plugin_id) zone)
        else (l.remove_plugin plugin_id).node place := by
  unfold split_leaf
  rw [if_neg hne]
  dsimp only
  split
  next edge hfind =>
    refine ⟨.docked edge, ?_, fun place => ?_⟩
    · have hshows : shows target ((l.remove_plugin plugin_id).dock edge) = true := by
        simpa using List.find?_some hfind
      rw [← panes_remove_plugin]
      exact shows_iff.mp hshows
    · rw [node_set_dock]
      split
      next heq => rw [heq]; rfl
      · rfl
  next hnone =>
    -- on no edge, so it floats
    have hfloats : target ∈ (l.remove_plugin plugin_id).panes .overlay := by
      obtain ⟨place, hplace⟩ := l.mem_plugin_ids.mp hmem
      have hstill : target ∈ (l.remove_plugin plugin_id).panes place := by
        rw [panes_remove_plugin]
        exact List.mem_filter.mpr ⟨hplace, decide_eq_true hne⟩
      cases place with
      | overlay => exact hstill
      | docked edge =>
        have hall : edge ∈ DockEdge.ALL := by cases edge <;> decide
        exact absurd (shows_iff.mpr hstill) (List.find?_eq_none.mp hnone edge hall)
    refine ⟨.overlay, ?_, fun place => ?_⟩
    · rwa [← panes_remove_plugin]
    · have hshows : shows target (l.remove_plugin plugin_id).overlay = true :=
        shows_iff.mpr hfloats
      rw [if_pos hshows]
      cases place with
      | docked edge => cases edge <;> rfl
      | overlay => rfl

theorem panes_set_split_ratio (edge : DockEdge) (path : List ℕ) (ratio : Float32) (place : Place) :
    (l.set_split_ratio edge path ratio).panes place = l.panes place := by
  rw [panes, set_split_ratio, node_set_dock, panes]
  split
  next heq =>
    subst heq
    show LayoutNode.panes ((l.dock edge).map _) = LayoutNode.panes (l.dock edge)
    cases l.dock edge with
    | none => rfl
    | some node => exact LayoutNode.plugin_ids_set_ratio ratio path node
  · rfl

theorem nodup_panes (hnodup : l.plugin_ids.Nodup) (place : Place) : (l.panes place).Nodup := by
  rw [plugin_ids_eq, List.nodup_flatMap] at hnodup
  refine hnodup.1 place (List.count_pos_iff.mp ?_)
  rw [count_places]
  exact Nat.one_pos

theorem not_mem_of_split {xs before after : List String} {target : String} (hnodup : xs.Nodup)
    (h : xs = before ++ target :: after) : target ∉ before ∧ target ∉ after := by
  rw [h] at hnodup
  obtain ⟨-, hnodup, hne⟩ := List.nodup_append.mp hnodup
  exact ⟨fun hmem => hne target hmem target List.mem_cons_self rfl, (List.nodup_cons.mp hnodup).1⟩

theorem flatMap_leaf {xs : List String} {target : String} {mapper : String → List String}
    (h : target ∉ xs) : (xs.flatMap fun id => if id = target then mapper id else [id]) = xs := by
  induction xs with
  | nil => rfl
  | cons id xs ih =>
    rw [List.mem_cons, not_or] at h
    rw [List.flatMap_cons, if_neg (Ne.symm h.1), ih h.2]
    rfl

/-- The target's pane is split in two, and the rest is in its place. -/
theorem panes_split_leaf {target : String} (zone : LeafZone) {plugin_id : String}
    (hne : target ≠ plugin_id) (hmem : target ∈ l.plugin_ids) (hnodup : l.plugin_ids.Nodup) :
    ∃ found before after node,
      (l.panes found).filter (· ≠ plugin_id) = before ++ target :: after ∧
      (l.split_leaf target zone plugin_id).node found = some node ∧
      .wrap (.leaf target) (.leaf plugin_id) zone ∈ node.subtrees ∧
      ∀ place, (l.split_leaf target zone plugin_id).panes place =
        if place = found then before ++ LayoutNode.beside zone [target] [plugin_id] ++ after
        else (l.panes place).filter (· ≠ plugin_id) := by
  obtain ⟨found, hfound, hnode⟩ := l.node_split_leaf zone hne hmem
  obtain ⟨before, after, hsplit⟩ := List.append_of_mem hfound
  obtain ⟨hbefore, hafter⟩ := not_mem_of_split ((l.nodup_panes hnodup found).filter _) hsplit
  have hpanes := l.panes_remove_plugin plugin_id found
  cases hold : (l.remove_plugin plugin_id).node found with
  | none =>
    rw [panes, hold] at hpanes
    rw [← hpanes] at hfound
    cases hfound
  | some node =>
    rw [panes, hold] at hpanes
    replace hpanes : node.plugin_ids = (l.panes found).filter (· ≠ plugin_id) := hpanes
    have hsome : (l.split_leaf target zone plugin_id).node found =
        some (node.map_leaf target fun _ => .wrap (.leaf target) (.leaf plugin_id) zone) := by
      rw [hnode found, if_pos rfl, hold]
      rfl
    refine ⟨found, before, after, _, hsplit, hsome, ?_, fun place => ?_⟩
    · exact LayoutNode.mem_subtrees_map_leaf (fun _ => .wrap (.leaf target) (.leaf plugin_id) zone)
        (hpanes ▸ hfound)
    · rw [panes, hnode place]
      split
      next heq =>
        subst heq
        rw [hold]
        show (node.map_leaf target _).plugin_ids = _
        rw [LayoutNode.plugin_ids_map_leaf, hpanes, hsplit, List.flatMap_append, List.flatMap_cons,
          flatMap_leaf hbefore, flatMap_leaf hafter, if_pos rfl, LayoutNode.plugin_ids_wrap,
          List.append_assoc]
        rfl
      · exact l.panes_remove_plugin plugin_id place

end TabPluginLayout

/-! ## Everything else stays -/

/-- Every pane but that of `plugin_id` is in its place, in its order. -/
def SameBut (plugin_id : String) (l l' : TabPluginLayout) : Prop :=
  ∀ place, (l'.panes place).filter (· ≠ plugin_id) = (l.panes place).filter (· ≠ plugin_id)

variable {l l' : TabPluginLayout} {plugin_id : String}

theorem SameBut.count_eq (h : SameBut plugin_id l l') {other : String} (hne : other ≠ plugin_id)
    (place : Place) : (l'.panes place).count other = (l.panes place).count other := by
  have hcount (xs : List String) : (xs.filter (· ≠ plugin_id)).count other = xs.count other :=
    List.count_filter (decide_eq_true hne)
  rw [← hcount, h place, hcount]

theorem SameBut.mem_iff (h : SameBut plugin_id l l') {other : String} (hne : other ≠ plugin_id) :
    other ∈ l'.plugin_ids ↔ other ∈ l.plugin_ids := by
  rw [l'.mem_plugin_ids, l.mem_plugin_ids]
  refine exists_congr fun place => ?_
  rw [← List.count_pos_iff, h.count_eq hne, List.count_pos_iff]

/-- One pane more, and everything else as it was. -/
theorem SameBut.inserted (h : SameBut plugin_id l l') (hnodup : l.plugin_ids.Nodup) (found : Place)
    (hone : ∀ place, (l'.panes place).count plugin_id = if place = found then 1 else 0) :
    l'.plugin_ids.Nodup ∧
      ∀ other, other ∈ l'.plugin_ids ↔ other ∈ l.plugin_ids ∨ other = plugin_id := by
  have hcount : l'.plugin_ids.count plugin_id = 1 := by
    rw [l'.count_plugin_ids, List.map_congr_left fun place _ => hone place]
    cases found with
    | docked edge => cases edge <;> rfl
    | overlay => rfl
  constructor
  · refine List.nodup_iff_count_le_one.mpr fun other => ?_
    by_cases hne : other = plugin_id
    · rw [hne, hcount]
    · rw [l'.count_plugin_ids, List.map_congr_left fun place _ => h.count_eq hne place,
        ← l.count_plugin_ids]
      exact List.nodup_iff_count_le_one.mp hnodup other
  · intro other
    by_cases hne : other = plugin_id
    · subst hne
      exact iff_of_true (List.count_pos_iff.mp (by rw [hcount]; exact Nat.one_pos)) (.inr rfl)
    · rw [h.mem_iff hne, or_iff_left hne]

/-! ## Runs -/

/-- An operation of the dock. -/
inductive Op
  | remove_plugin (plugin_id : String)
  | dock_on_edge (plugin_id : String) (edge : DockEdge) (zone : Option LeafZone)
  | split_leaf (target : String) (zone : LeafZone) (plugin_id : String)
  | set_split_ratio (edge : DockEdge) (path : List ℕ) (ratio : Float32)

def step (l : TabPluginLayout) : Op → TabPluginLayout
  | .remove_plugin plugin_id => l.remove_plugin plugin_id
  | .dock_on_edge plugin_id edge zone => l.dock_on_edge plugin_id edge zone
  | .split_leaf target zone plugin_id => l.split_leaf target zone plugin_id
  | .set_split_ratio edge path ratio => l.set_split_ratio edge path ratio

/-- A pane is split beside one that is there. -/
def Splits (l : TabPluginLayout) : Op → Prop
  | .split_leaf target _ plugin_id => target ∈ l.plugin_ids ∧ target ≠ plugin_id
  | _ => True

instance (l : TabPluginLayout) (op : Op) : Decidable (Splits l op) := by
  cases op <;> unfold Splits <;> infer_instance

/-- What an operation does to the panes. -/
def Arranges (l : TabPluginLayout) (op : Op) : Prop :=
  (step l op).plugin_ids.Nodup ∧
    match op with
    | .remove_plugin plugin_id =>
      (∀ other, other ∈ (step l op).plugin_ids ↔ other ∈ l.plugin_ids ∧ other ≠ plugin_id) ∧
        SameBut plugin_id l (step l op)
    | .dock_on_edge plugin_id _ _ =>
      (∀ other, other ∈ (step l op).plugin_ids ↔ other ∈ l.plugin_ids ∨ other = plugin_id) ∧
        SameBut plugin_id l (step l op)
    | .split_leaf target zone plugin_id =>
      (∀ other, other ∈ (step l op).plugin_ids ↔ other ∈ l.plugin_ids ∨ other = plugin_id) ∧
        SameBut plugin_id l (step l op) ∧
        ∃ place before after node,
          (step l op).panes place =
            before ++ LayoutNode.beside zone [target] [plugin_id] ++ after ∧
          (step l op).node place = some node ∧
          .wrap (.leaf target) (.leaf plugin_id) zone ∈ node.subtrees
    | .set_split_ratio _ _ _ => ∀ place, (step l op).panes place = l.panes place

theorem arranges_remove_plugin (hnodup : l.plugin_ids.Nodup) (plugin_id : String) :
    Arranges l (.remove_plugin plugin_id) := by
  have hall : (l.remove_plugin plugin_id).plugin_ids = l.plugin_ids.filter (· ≠ plugin_id) := by
    rw [TabPluginLayout.plugin_ids_eq, l.plugin_ids_eq, List.filter_flatMap]
    exact List.flatMap_congr fun place _ => l.panes_remove_plugin plugin_id place
  refine ⟨?_, fun other => ?_, fun place => ?_⟩
  · show (l.remove_plugin plugin_id).plugin_ids.Nodup
    rw [hall]
    exact hnodup.filter _
  · show other ∈ (l.remove_plugin plugin_id).plugin_ids ↔ _
    rw [hall, List.mem_filter, decide_eq_true_iff]
  · show ((l.remove_plugin plugin_id).panes place).filter (· ≠ plugin_id) = _
    rw [l.panes_remove_plugin, List.filter_filter]
    simp only [Bool.and_self]

theorem count_filter_self (xs : List String) (plugin_id : String) :
    (xs.filter (· ≠ plugin_id)).count plugin_id = 0 := by
  rw [List.count_eq_zero, List.mem_filter]
  simp

theorem filter_ne_filter (xs : List String) (plugin_id : String) :
    (xs.filter (· ≠ plugin_id)).filter (· ≠ plugin_id) = xs.filter (· ≠ plugin_id) := by
  rw [List.filter_filter]
  simp only [Bool.and_self]

theorem filter_beside (zone : LeafZone) (existing : List String) (plugin_id : String) :
    (LayoutNode.beside zone existing [plugin_id]).filter (· ≠ plugin_id) =
      existing.filter (· ≠ plugin_id) := by
  cases zone <;> simp [LayoutNode.beside]

theorem perm_beside (zone : LeafZone) (existing : List String) (plugin_id : String) :
    LayoutNode.beside zone existing [plugin_id] ~ plugin_id :: existing := by
  cases zone with
  | left => exact .refl _
  | top => exact .refl _
  | right => exact List.perm_append_singleton plugin_id existing
  | bottom => exact List.perm_append_singleton plugin_id existing

theorem arranges_dock_on_edge (hnodup : l.plugin_ids.Nodup) (plugin_id : String) (edge : DockEdge)
    (zone : Option LeafZone) : Arranges l (.dock_on_edge plugin_id edge zone) := by
  have hpanes := l.panes_dock_on_edge plugin_id edge zone
  have hsame : SameBut plugin_id l (l.dock_on_edge plugin_id edge zone) := by
    intro place
    rw [hpanes]
    split
    · rw [filter_beside, filter_ne_filter]
    · exact filter_ne_filter _ _
  obtain ⟨hdistinct, hmem⟩ := hsame.inserted hnodup (.docked edge) fun place => by
    rw [hpanes]
    split
    · rw [(perm_beside _ _ _).count_eq, List.count_cons_self, count_filter_self]
    · exact count_filter_self _ _
  exact ⟨hdistinct, hmem, hsame⟩

theorem arranges_split_leaf (hnodup : l.plugin_ids.Nodup) {target : String} (zone : LeafZone)
    (hmem : target ∈ l.plugin_ids) (hne : target ≠ plugin_id) :
    Arranges l (.split_leaf target zone plugin_id) := by
  obtain ⟨found, before, after, node, hsplit, hnode, hsubtree, hpanes⟩ :=
    l.panes_split_leaf zone hne hmem hnodup
  -- the new pane aside, the split place reads as before
  have hrest : before ++ target :: after =
      (before ++ target :: after).filter (· ≠ plugin_id) := by
    rw [← hsplit, filter_ne_filter]
  have hbeside : before ++ LayoutNode.beside zone [target] [plugin_id] ++ after ~
      plugin_id :: (before ++ target :: after) := by
    rw [List.append_assoc]
    exact (((perm_beside zone [target] plugin_id).append_right after).append_left before).trans
      List.perm_middle
  have hsame : SameBut plugin_id l (l.split_leaf target zone plugin_id) := by
    intro place
    rw [hpanes]
    split
    next heq =>
      subst heq
      rw [hsplit, hrest, List.filter_append, List.filter_append, filter_beside, ← List.filter_append,
        ← List.filter_append, List.append_assoc]
      rfl
    · exact filter_ne_filter _ _
  obtain ⟨hdistinct, hall⟩ := hsame.inserted hnodup found fun place => by
    rw [hpanes]
    split
    · rw [hbeside.count_eq, List.count_cons_self, ← hsplit, count_filter_self]
    · exact count_filter_self _ _
  refine ⟨hdistinct, hall, hsame, found, before, after, node, ?_, hnode, hsubtree⟩
  exact (hpanes found).trans (if_pos rfl)

/-- **Step lemma**: an operation on a layout without repeats. -/
theorem arranges_step (hnodup : l.plugin_ids.Nodup) (op : Op) (hsplits : Splits l op) :
    Arranges l op := by
  cases op with
  | remove_plugin plugin_id => exact arranges_remove_plugin hnodup plugin_id
  | dock_on_edge plugin_id edge zone => exact arranges_dock_on_edge hnodup plugin_id edge zone
  | split_leaf target zone plugin_id => exact arranges_split_leaf hnodup zone hsplits.1 hsplits.2
  | set_split_ratio edge path ratio =>
    have hpanes := l.panes_set_split_ratio edge path ratio
    refine ⟨?_, hpanes⟩
    show (l.set_split_ratio edge path ratio).plugin_ids.Nodup
    rw [TabPluginLayout.plugin_ids_eq, List.flatMap_congr fun place _ => hpanes place,
      ← l.plugin_ids_eq]
    exact hnodup

/-- **Panes are kept**: in every run from a layout in which no plugin occurs twice, each operation
adds or removes the one pane it is about and leaves the others where they are. -/
theorem layout_keeps_panes (l : TabPluginLayout) (hnodup : l.plugin_ids.Nodup) (ops : List Op)
    (hsplits : Guarded step Splits l ops) : Guarded step Arranges l ops :=
  guarded_of_inv (fun _ op hnodup hsplits => (arranges_step hnodup op hsplits).1)
    (fun _ op hnodup hsplits => arranges_step hnodup op hsplits) ops l hnodup hsplits

/-- A pane out of the overlay beside another, a move between edges, and a split of a target whose
sibling is moved. -/
theorem layout_keeps_panes_move :
    Guarded step Arranges
      { TabPluginLayout.empty with
        left := some (.split .row 0.5 (.leaf "a") (.leaf "b")), overlay := some (.leaf "c") }
      [.split_leaf "a" .bottom "c", .split_leaf "a" .left "b", .dock_on_edge "a" .right none,
        .set_split_ratio .left [0] 0.25, .remove_plugin "b"] :=
  layout_keeps_panes _ (by decide) _ (by decide)

end WaSSH.Layout
