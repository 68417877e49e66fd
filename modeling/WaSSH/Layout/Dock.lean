import Mathlib.Tactic
import Mathlib.Data.List.Basic

/-!
# The docks of a tab

A tab has a tree of plugin panes on each of its four edges and one that floats over it.

* `LayoutNode`, `remove`, `wrap`, `map_leaf`, `set_ratio`: a tree, and what is done to it;
* `TabPluginLayout`, `remove_plugin`, `dock_on_edge`, `split_leaf`, `set_split_ratio`: the layout
  of a tab;
* `plugin_ids_remove`, `plugin_ids_wrap`, `plugin_ids_map_leaf`, `plugin_ids_set_ratio`: what each
  does to the panes from left to right.
-/

namespace WaSSH.Layout

def DOCK_DEFAULT_WIDTH_PX : Float32 := 300.0
def DOCK_DEFAULT_HEIGHT_PX : Float32 := 160.0
/-- A dock may not shrink below this while the terminal still has room. -/
def MIN_DOCK_SIZE_PX : Float32 := 200.0
/-- Splitter thickness. -/
def SPLITTER_SIZE_PX : Float32 := 4.0
/-- Growing a dock when a second plugin is inserted beside it. -/
def DOCK_GROW_STEP_PX : Float32 := 160.0

/-- `f32::clamp`. -/
def clamp (x lower upper : Float32) : Float32 :=
  if x < lower then lower else if upper < x then upper else x

/-- `f32::max`, which passes over what is not a number. -/
def f32_max (x y : Float32) : Float32 :=
  if x.isNaN then y else if y.isNaN then x else if x < y then y else x

/-- Clamp a split ratio so both panes keep `min_px`. -/
def clamp_split_ratio (ratio total min_px : Float32) : Float32 :=
  if !ratio.isFinite then 0.5
  else
    let min_ratio := if 2.0 * min_px + SPLITTER_SIZE_PX < total then min_px / total else 0.01
    let max_ratio := if 2.0 * min_px + SPLITTER_SIZE_PX < total then 1.0 - min_ratio else 0.99
    clamp ratio min_ratio max_ratio

/-- How a split arranges its two children. -/
inductive SplitDirection
  | row | column
  deriving DecidableEq

/-- The four docked edges a plugin pane can live on. -/
inductive DockEdge
  | left | right | top | bottom
  deriving DecidableEq

/-- Which half of an existing leaf a new pane is dropped onto. -/
inductive LeafZone
  | left | right | top | bottom
  deriving DecidableEq

/-- Every edge, in the order the renderer visits them. -/
def DockEdge.ALL : List DockEdge := [.left, .right, .top, .bottom]

/-- Zone that inserts on the far outer side of the dock. -/
def DockEdge.outer_zone : DockEdge → LeafZone
  | .left => .left
  | .right => .right
  | .top => .top
  | .bottom => .bottom

def LeafZone.direction : LeafZone → SplitDirection
  | .left | .right => .row
  | .top | .bottom => .column

/-! ## Trees -/

/-- One node of a dock's layout tree. -/
inductive LayoutNode
  | leaf (plugin_id : String)
  | split (direction : SplitDirection) (ratio : Float32) (a b : LayoutNode)

namespace LayoutNode

/-- Plugin ids in this subtree, left to right. -/
def plugin_ids : LayoutNode → List String
  | leaf plugin_id => [plugin_id]
  | split _ _ a b => a.plugin_ids ++ b.plugin_ids

/-- Remove `plugin_id`, collapsing splits that lose a side. -/
def remove (plugin_id : String) : LayoutNode → Option LayoutNode
  | leaf id => if id ≠ plugin_id then some (leaf id) else none
  | split direction ratio a b =>
    match a.remove plugin_id, b.remove plugin_id with
    | none, none => none
    | none, some only => some only
    | some only, none => some only
    | some a, some b => some (split direction ratio a b)

/-- Wrap `existing` in a split that puts `incoming` on the given side. -/
def wrap (existing incoming : LayoutNode) (zone : LeafZone) : LayoutNode :=
  match zone with
  | .left | .top => split zone.direction 0.5 incoming existing
  | .right | .bottom => split zone.direction 0.5 existing incoming

/-- Replace the leaf for `target` with `mapper`'s result. -/
def map_leaf (target : String) (mapper : String → LayoutNode) : LayoutNode → LayoutNode
  | leaf plugin_id => if plugin_id = target then mapper plugin_id else leaf plugin_id
  | split direction ratio a b =>
    split direction ratio (a.map_leaf target mapper) (b.map_leaf target mapper)

/-- Set the ratio of the split at `path` (`0` = first child). -/
def set_ratio (ratio : Float32) : List ℕ → LayoutNode → LayoutNode
  | _, leaf plugin_id => leaf plugin_id
  | [], split direction _ a b =>
    split direction (clamp_split_ratio ratio 0.0 MIN_DOCK_SIZE_PX) a b
  | 0 :: rest, split direction current a b => split direction current (a.set_ratio ratio rest) b
  | _ :: rest, split direction current a b => split direction current a (b.set_ratio ratio rest)

/-- The subtrees, the tree itself included. -/
def subtrees : LayoutNode → List LayoutNode
  | leaf plugin_id => [leaf plugin_id]
  | split direction ratio a b => split direction ratio a b :: (a.subtrees ++ b.subtrees)

end LayoutNode

/-! ## Layouts -/

/-- Per-tab dock layout: one tree per edge plus the dock sizes. -/
structure TabPluginLayout where
  left : Option LayoutNode
  right : Option LayoutNode
  top : Option LayoutNode
  bottom : Option LayoutNode
  overlay : Option LayoutNode
  left_width_px : Float32
  right_width_px : Float32
  top_height_px : Float32
  bottom_height_px : Float32

namespace TabPluginLayout

/-- No docks open. -/
def empty : TabPluginLayout where
  left := none
  right := none
  top := none
  bottom := none
  overlay := none
  left_width_px := DOCK_DEFAULT_WIDTH_PX
  right_width_px := DOCK_DEFAULT_WIDTH_PX
  top_height_px := DOCK_DEFAULT_HEIGHT_PX
  bottom_height_px := DOCK_DEFAULT_HEIGHT_PX

variable (l : TabPluginLayout)

/-- The tree docked on `edge`. -/
def dock : DockEdge → Option LayoutNode
  | .left => l.left
  | .right => l.right
  | .top => l.top
  | .bottom => l.bottom

/-- `*dock_mut(edge) = node`. -/
def set_dock (node : Option LayoutNode) : DockEdge → TabPluginLayout
  | .left => { l with left := node }
  | .right => { l with right := node }
  | .top => { l with top := node }
  | .bottom => { l with bottom := node }

/-- Configured size of a dock along its axis. -/
def size : DockEdge → Float32
  | .left => l.left_width_px
  | .right => l.right_width_px
  | .top => l.top_height_px
  | .bottom => l.bottom_height_px

/-- Update a dock's size. -/
def set_size (px : Float32) : DockEdge → TabPluginLayout
  | .left => { l with left_width_px := f32_max px 0.0 }
  | .right => { l with right_width_px := f32_max px 0.0 }
  | .top => { l with top_height_px := f32_max px 0.0 }
  | .bottom => { l with bottom_height_px := f32_max px 0.0 }

/-- Every plugin id in the tab, in render order. -/
def plugin_ids : List String :=
  DockEdge.ALL.flatMap (fun edge => (l.dock edge).elim [] LayoutNode.plugin_ids) ++
    l.overlay.elim [] LayoutNode.plugin_ids

/-- Remove `plugin_id` from every edge. -/
def remove_plugin (plugin_id : String) : TabPluginLayout :=
  let l := DockEdge.ALL.foldl
    (fun l edge => l.set_dock ((l.dock edge).bind (LayoutNode.remove plugin_id)) edge) l
  { l with overlay := l.overlay.bind (LayoutNode.remove plugin_id) }

/-- Dock `plugin_id` on `edge`. -/
def dock_on_edge (plugin_id : String) (edge : DockEdge) (zone : Option LeafZone) :
    TabPluginLayout :=
  let l := l.remove_plugin plugin_id
  let had_content := (l.dock edge).isSome
  let zone := zone.getD edge.outer_zone
  let incoming := LayoutNode.leaf plugin_id
  let l := l.set_dock (some (match l.dock edge with
    | none => incoming
    | some existing => LayoutNode.wrap existing incoming zone)) edge
  if had_content then l.set_size (l.size edge + DOCK_GROW_STEP_PX) edge else l

/-- Whether the tree has a pane of `target`. -/
def shows (target : String) (node : Option LayoutNode) : Bool :=
  node.any fun node => node.plugin_ids.any (· = target)

/-- Split the pane showing `target` and put `plugin_id` on `zone`. -/
def split_leaf (target : String) (zone : LeafZone) (plugin_id : String) : TabPluginLayout :=
  if target = plugin_id then l
  else
    let l := l.remove_plugin plugin_id
    let split := LayoutNode.map_leaf target fun _ =>
      LayoutNode.wrap (.leaf target) (.leaf plugin_id) zone
    match DockEdge.ALL.find? fun edge => shows target (l.dock edge) with
    | some edge => l.set_dock ((l.dock edge).map split) edge
    | none => if shows target l.overlay then { l with overlay := l.overlay.map split } else l

/-- Adjust the split ratio at `path` inside `edge`'s tree. -/
def set_split_ratio (edge : DockEdge) (path : List ℕ) (ratio : Float32) : TabPluginLayout :=
  l.set_dock ((l.dock edge).map (LayoutNode.set_ratio ratio path)) edge

end TabPluginLayout

/-! ## Panes from left to right -/

namespace LayoutNode

/-- The panes of a tree, if there is one. -/
def panes (node : Option LayoutNode) : List String := node.elim [] plugin_ids

theorem plugin_ids_remove (plugin_id : String) (node : LayoutNode) :
    panes (node.remove plugin_id) = node.plugin_ids.filter (· ≠ plugin_id) := by
  induction node with
  | leaf id =>
    rw [remove]
    split
    next h => simp [panes, plugin_ids, h]
    next h => simp [panes, plugin_ids, not_not.mp h]
  | split direction ratio a b iha ihb =>
    rw [plugin_ids, List.filter_append, ← iha, ← ihb, remove]
    cases a.remove plugin_id with
    | none => cases b.remove plugin_id <;> rfl
    | some a =>
      cases b.remove plugin_id with
      | none => exact (List.append_nil _).symm
      | some b => rfl

/-- The panes of a pane and a new one beside it. -/
def beside (zone : LeafZone) (existing incoming : List String) : List String :=
  match zone with
  | .left | .top => incoming ++ existing
  | .right | .bottom => existing ++ incoming

theorem plugin_ids_wrap (existing incoming : LayoutNode) (zone : LeafZone) :
    (wrap existing incoming zone).plugin_ids =
      beside zone existing.plugin_ids incoming.plugin_ids := by
  cases zone <;> rfl

theorem plugin_ids_map_leaf (target : String) (mapper : String → LayoutNode) (node : LayoutNode) :
    (node.map_leaf target mapper).plugin_ids =
      node.plugin_ids.flatMap fun id => if id = target then (mapper id).plugin_ids else [id] := by
  induction node with
  | leaf id =>
    rw [map_leaf, plugin_ids, List.flatMap_singleton]
    split <;> rfl
  | split direction ratio a b iha ihb =>
    rw [map_leaf, plugin_ids, plugin_ids, List.flatMap_append, iha, ihb]

theorem plugin_ids_set_ratio (ratio : Float32) (path : List ℕ) (node : LayoutNode) :
    (node.set_ratio ratio path).plugin_ids = node.plugin_ids := by
  induction node generalizing path with
  | leaf id => cases path <;> rfl
  | split direction current a b iha ihb =>
    match path with
    | [] => rfl
    | 0 :: rest => exact congrArg (· ++ b.plugin_ids) (iha rest)
    | (n + 1) :: rest => exact congrArg (a.plugin_ids ++ ·) (ihb rest)

/-- The pane of `target` is where the mapper's result is afterwards. -/
theorem mem_subtrees_map_leaf {target : String} (mapper : String → LayoutNode) {node : LayoutNode}
    (h : target ∈ node.plugin_ids) : mapper target ∈ (node.map_leaf target mapper).subtrees := by
  have hself (node : LayoutNode) : node ∈ node.subtrees := by
    cases node <;> exact List.mem_cons_self
  induction node with
  | leaf id =>
    obtain rfl : target = id := List.mem_singleton.mp h
    rw [map_leaf, if_pos rfl]
    exact hself _
  | split direction ratio a b iha ihb =>
    refine List.mem_cons_of_mem _ (List.mem_append.mpr ?_)
    exact (List.mem_append.mp h).imp iha ihb

end LayoutNode

end WaSSH.Layout
