import WaSSH.Lib.OrderList
import WaSSH.Lib.Text

/-!
# The tabs of the window

The shell holds its sessions in the order of the tabs, and the place of the active one.

* `Shell`, `push_session`, `close`, `cycle_tab`, `restore_tabs`: the sessions and what is done to
  them;
* `tab_bar`, `apply_action`: a drag of the tab strip and what it asks for;
* `Op`, `step`: one thing that happens; `Watched`: the shell, and the session a drag began on.
-/

namespace WaSSH.Tabs

/-! ## The shell -/

/-- One terminal tab. -/
structure SessionEntry where
  id : List Char
  deriving DecidableEq

/-- A tab as `tabs.json` holds it. -/
structure TabSnapshot where
  id : List Char
  active : Bool
  deriving DecidableEq

/-- A tab being dragged, by the place it had when the drag began. -/
structure DragState where
  «from» : ℕ
  active : Bool
  deriving DecidableEq

structure Shell where
  sessions : List SessionEntry
  active : Option ℕ
  next_id : ℕ
  drag : Option DragState
  deriving DecidableEq

/-- An action of the tab strip. -/
inductive TabAction
  | select (id : List Char)
  | close (id : List Char)
  | reorder («from» «to» : ℕ)

/-- `format!("tab-{}", n)`. -/
def tab_id (n : ℕ) : List Char := "tab-".toList ++ Nat.toDigits 10 n

/-- The number of a tab's id, of 64 bits. -/
def tab_number (id : List Char) : Option ℕ :=
  (Text.strip_prefix "tab-".toList id).bind Text.parse_usize

/-- The place a tab gets that is dropped in front of tab `slot`: its own place closes up. -/
def landing («from» slot : ℕ) : ℕ := if «from» < slot then slot - 1 else slot

/-- A window without tabs. -/
def Shell.new : Shell := { sessions := [], active := none, next_id := 1, drag := none }

namespace Shell

variable (s : Shell)

/-- `active()`: the session the keyboard goes to. -/
def focused : Option SessionEntry := s.active.bind (s.sessions[·]?)

def position (id : List Char) : Option ℕ := s.sessions.findIdx? (·.id = id)

/-- The id of the next tab, and a counter of 64 bits. -/
def next_session_id : Shell × List Char :=
  ({ s with next_id := (s.next_id + 1) % 2 ^ 64 }, tab_id s.next_id)

def push_session (entry : SessionEntry) : Shell :=
  { s with sessions := s.sessions ++ [entry], active := some s.sessions.length }

/-- `open`, of a session that can be opened. -/
def «open» : Shell :=
  let (s, id) := s.next_session_id
  s.push_session ⟨id⟩

def close (index : ℕ) : Shell :=
  if index ≥ s.sessions.length then s
  else
    let sessions := s.sessions.eraseIdx index
    { s with
      sessions := sessions
      active := if sessions = [] then none
        else s.active.map fun active => min active (sessions.length - 1) }

def cycle_tab (forward : Bool) : Shell :=
  if s.sessions.length < 2 then s
  else
    let current := s.active.getD 0
    let count := s.sessions.length
    { s with active := some (if forward then (current + 1) % count
        else (current + count - 1) % count) }

/-- The places of the sessions whose shell has exited, in one frame. -/
def exited (from_shell : ℕ → Bool) : List ℕ :=
  (List.range s.sessions.length).filter from_shell

/-- The end of `pump`: the exited sessions are closed from the last to the first. -/
def pump (from_shell : ℕ → Bool) : Shell := (s.exited from_shell).reverse.foldl close s

end Shell

/-! ### Tabs of the last run -/

/-- Only the first of the active tabs stays active. -/
def one_active (found_active : Bool) : List TabSnapshot → List TabSnapshot
  | [] => []
  | tab :: tabs =>
    { tab with active := tab.active && !found_active } ::
      one_active (found_active || tab.active) tabs

def normalize_tabs (tabs : List TabSnapshot) : List TabSnapshot :=
  let tabs := one_active false (OrderList.retain_first (·.id) (·.id ≠ []) [] tabs)
  if tabs.any (·.active) then tabs
  else
    match tabs with
    | [] => []
    | first :: rest => { first with active := true } :: rest

namespace Shell

variable (s : Shell)

/-- Keep generated ids clear of the ones coming back from disk. -/
def keep_clear (id : List Char) : Shell :=
  match tab_number id with
  | some number => { s with next_id := max s.next_id ((number + 1) % 2 ^ 64) }
  | none => s

def restore_session (tab : TabSnapshot) : Shell := (s.keep_clear tab.id).push_session ⟨tab.id⟩

/-- `restore_tabs`, of what `tabs.json` holds. -/
def restore_tabs (tabs : List TabSnapshot) : Shell :=
  if s.sessions ≠ [] then s
  else
    let tabs := normalize_tabs tabs
    let active_id := (tabs.find? (·.active)).map (·.id)
    let s := tabs.foldl restore_session s
    match active_id.bind s.position with
    | some index => { s with active := some index }
    | none => s

/-! ### The tab strip -/

/-- `drop_index`, where `passed i` says whether the pointer is right of the middle of tab `i`. -/
def drop_index (passed : ℕ → Bool) : ℕ := (List.range s.sessions.length).countP passed

/-- What the tab strip asks for when the pointer is released. -/
def tab_bar (passed : ℕ → Bool) : Shell × List TabAction :=
  match s.drag with
  | none => (s, [])
  | some drag =>
    let «to» := landing drag.«from» (s.drop_index passed)
    ({ s with drag := none },
      if drag.active ∧ «to» ≠ drag.«from» then [.reorder drag.«from» «to»] else [])

/-- What the shell does about an action. -/
def apply_action : TabAction → Shell
  | .select id => { s with active := s.position id }
  | .close id =>
    match s.position id with
    | some index => s.close index
    | none => s
  | .reorder «from» «to» =>
    if «to» ≤ s.sessions.length then
      match s.sessions[«from»]? with
      | some session =>
        let rest := s.sessions.eraseIdx «from»
        let s := { s with sessions := rest.insertIdx (min «to» rest.length) session }
        { s with active := s.position session.id }
      | none => s
    else s

end Shell

/-! ## Operations -/

/-- One thing that happens. The tabs that can be clicked are those that are drawn. -/
inductive Op
  /-- A new tab, from a menu, a key, the strip or a host. -/
  | «open»
  | restore (tabs : List TabSnapshot)
  /-- A click on a tab, and on its cross. -/
  | select (index : ℕ)
  | close (index : ℕ)
  /-- `Command::CloseTab`. -/
  | close_active
  /-- `Command::CloseTab` from the menu of a tab, which may be gone by then. -/
  | menu_close (id : List Char)
  | exit (from_shell : ℕ → Bool)
  | cycle (forward : Bool)
  | drag_start (index : ℕ)
  | drag_move
  | release (passed : ℕ → Bool)

namespace Shell

variable (s : Shell)

/-- The action of a click on a tab. -/
def click (action : List Char → TabAction) (index : ℕ) : Shell :=
  match s.sessions[index]? with
  | some session => s.apply_action (action session.id)
  | none => s

def step : Op → Shell
  | .open => s.open
  | .restore tabs => s.restore_tabs tabs
  | .select index => s.click .select index
  | .close index => s.click .close index
  | .close_active =>
    match s.active with
    | some index => s.close index
    | none => s
  | .menu_close id =>
    match s.position id with
    | some index => { s with active := some index }.close index
    | none => s
  | .exit from_shell => s.pump from_shell
  | .cycle forward => s.cycle_tab forward
  | .drag_start index =>
    if index < s.sessions.length then { s with drag := some ⟨index, false⟩ } else s
  | .drag_move => { s with drag := s.drag.map fun drag => { drag with active := true } }
  | .release passed =>
    if s.sessions = [] then s
    else
      let (s, actions) := s.tab_bar passed
      actions.foldl apply_action s

end Shell

/-- The shell, and the session the drag began on. -/
structure Watched where
  shell : Shell
  dragged : Option SessionEntry

def Watched.new : Watched := ⟨.new, none⟩

def Watched.step (w : Watched) (op : Op) : Watched where
  shell := w.shell.step op
  dragged := match op with
    | .drag_start index => if index < w.shell.sessions.length then w.shell.sessions[index]?
      else w.dragged
    | _ => w.dragged

end WaSSH.Tabs
