import WaSSH.Vault.Fields
import WaSSH.Hosts.Document

/-!
# Host management

The shell keeps the hosts document the sidebar shows beside the one the configuration holds and
writes; every operation on hosts and groups changes both.

* `Shell`: the two documents, the file, the id counter and the host dialog;
* `save_host`, `duplicate_host`, `delete_host`, `move_host`, `new_group`, …: the operations;
* `Op`, `step`: one operation, with whether its write succeeded.
-/

namespace WaSSH.Hosts

open HostsDocument

/-- The number of ids from which one is free among `ids`, starting at `n`. -/
def next_free (name : ℕ → String) (ids : List String) : ℕ → ℕ → ℕ
  | 0, n => n
  | fuel + 1, n => if name n ∈ ids then next_free name ids fuel (n + 1) else n

def host_name (n : ℕ) : String := "host-" ++ toString n

def group_name (n : ℕ) : String := "group-" ++ toString n

/-- The host dialog. -/
structure Draft where
  host : HostProfile
  /-- It was opened for a host that does not exist yet. -/
  is_new : Bool

/-- The host the dialog's footer saves. -/
def Draft.saved (draft : Draft) : HostProfile :=
  { draft.host with connection := draft.host.connection.normalized }

/-- The part of the shell that manages hosts. -/
structure Shell where
  /-- The document the sidebar shows. -/
  hosts : HostsDocument
  /-- The document `config.hosts` holds. -/
  config : HostsDocument
  /-- The contents of `hosts.json`. -/
  disk : HostsDocument
  next_id : ℕ
  dialog : Option Draft

/-- `GROUP_COLOR_PRESETS[4]`. -/
def NEW_GROUP_COLOR : ℕ := 0x3d8bfd

namespace HostsDocument

variable (d : HostsDocument)

/-- The copy, placed right after its original. -/
def insert_after (id : String) (copy : HostProfile) : HostsDocument :=
  { d with
    hosts :=
      match d.hosts.findIdx? fun host => host.id = id with
      | some index => d.hosts.insertIdx (index + 1) copy
      | none => d.hosts ++ [copy]
    ungrouped_host_ids :=
      if copy.group_id.isNone then
        let after := ((d.ungrouped_host_ids.findIdx? (· = id)).map (· + 1)).getD
          d.ungrouped_host_ids.length
        d.ungrouped_host_ids.insertIdx after copy.id
      else d.ungrouped_host_ids }

/-- Change the first group of this id. -/
def group_mut (id : String) (change : HostGroup → HostGroup) : HostsDocument :=
  { d with
    groups := d.groups.modify (d.groups.findIdx fun group => group.id = id) change }

/-- The host put into `group`, or at `index` outside any. -/
def moved (host_id : String) (group : Option String) (index : ℕ) : HostsDocument :=
  let order := d.ungrouped_host_ids.filter (· ≠ host_id)
  { d with
    hosts := d.hosts.modify (d.hosts.findIdx fun host => host.id = host_id)
      fun host => { host with group_id := group }
    ungrouped_host_ids :=
      if group.isNone then order.insertIdx (min index order.length) host_id else order }

/-- The document without the group, its hosts in none. -/
def without_group (id : String) : HostsDocument :=
  { d with
    groups := d.groups.filter fun group => group.id ≠ id
    hosts := d.hosts.map fun host =>
      if host.group_id = some id then { host with group_id := none } else host }

end HostsDocument

namespace Shell

/-- What the shell is after a start with this file: the tabs it restores keep their numbers. -/
def start (disk : HostsDocument) (tabs : List ℕ) : Shell :=
  { hosts := disk.normalized
    config := disk.normalized
    disk
    next_id := tabs.foldl (fun next_id number => max next_id (number + 1)) 1
    dialog := none }

/-- A plugin password belongs in the vault, never in `hosts.json`. -/
def without_secrets (host : HostProfile) : HostProfile :=
  { host with plugin_settings := Vault.strip_plugin_secrets host.plugin_settings }

@[simp] theorem without_secrets_id (host : HostProfile) : (without_secrets host).id = host.id := rfl

variable (s : Shell)

/-- `config.hosts.set`: the value is replaced even where it cannot be written. -/
def set (value : HostsDocument) (written : Bool) : Shell :=
  { s with config := value, disk := if written then value else s.disk }

def save_host (host : HostProfile) (written : Bool) : Shell :=
  let host := without_secrets host
  let s := { s with hosts := (s.hosts.upsert host).normalized }
  s.set (s.config.upsert host).normalized written

def delete_host (id : String) (written : Bool) : Shell :=
  match s.hosts.remove id with
  | none => s
  | some hosts =>
    let s := { s with hosts }
    s.set ((s.config.remove id).getD s.config).normalized written

/-- The document the sidebar shows, written as it is. -/
def persist_hosts (written : Bool) : Shell := s.set s.hosts written

/-- The number of `next_host_id`. -/
def free_host_number : ℕ :=
  next_free host_name s.hosts.host_ids (s.hosts.host_ids.length + 1) s.next_id

/-- The copy of a host: the same settings under a new id and name. -/
def copy_of (original : HostProfile) : HostProfile :=
  { original with
    id := host_name s.free_host_number
    name := original.display_name ++ " (copy)" }

def duplicate_host (id : String) (written : Bool) : Shell :=
  match s.hosts.host id with
  | none => s
  | some original =>
    let copy := s.copy_of original
    let s := { s with
      hosts := (s.hosts.insert_after id copy).normalized
      next_id := s.free_host_number + 1 }
    s.save_host copy written

/-- Open the dialog on a draft whose id is the counter's; the counter is not advanced. -/
def open_new (draft : HostProfile) : Shell :=
  { s with
    dialog := some
      { host := { draft with
          id := host_name s.next_id
          connection := draft.connection.normalized }
        is_new := true } }

/-- The group `new_group` makes. -/
def next_group : HostGroup :=
  { id := group_name s.next_id, name := "New group", color := some NEW_GROUP_COLOR }

def new_group (written : Bool) : Shell :=
  let s := { s with
    next_id := s.next_id + 1
    hosts := { s.hosts with groups := s.hosts.groups ++ [s.next_group] } }
  s.persist_hosts written

/-- Save the dialog's draft, and close it. -/
def save_draft (written : Bool) : Shell :=
  match s.dialog with
  | none => s
  | some draft =>
    { s.save_host draft.saved written with dialog := none }

end Shell

/-- One operation; `written` is whether the file could be written. -/
inductive Op
  | new_host
  | save_as_host (title : String) (connection : ConnectionParams)
  | edit_host (id : String)
  /-- The user changes the draft; its id is not a field of the dialog. -/
  | change_draft (host : HostProfile)
  | save_draft (written : Bool)
  | delete_draft (written : Bool)
  | close_dialogs
  | duplicate_host (id : String) (written : Bool)
  | delete_host (id : String) (written : Bool)
  | move_host (host_id : String) (group : Option String) (index : ℕ) (written : Bool)
  | new_group (written : Bool)
  | toggle_group (id : String) (written : Bool)
  | rename_group (id name : String) (written : Bool)
  | save_group (id name : String) (color : Option ℕ) (written : Bool)
  | delete_group (id : String) (written : Bool)
  /-- A tab takes its number from the same counter. -/
  | open_tab
  /-- The process ends and starts again, with the numbers of the tabs it restores. -/
  | restart (tabs : List ℕ)

namespace Shell

/-- What an operation does to the shell. -/
def step (s : Shell) : Op → Shell
  | .new_host => s.open_new {}
  | .save_as_host title connection => s.open_new { name := title, connection }
  | .edit_host id =>
    match s.hosts.host id with
    | none => s
    | some host => { s with dialog := some { host, is_new := false } }
  | .change_draft host =>
    { s with dialog := s.dialog.map fun draft =>
        { draft with host := { host with id := draft.host.id } } }
  | .save_draft written => s.save_draft written
  | .delete_draft written =>
    match s.dialog with
    | none => s
    | some draft => { s.delete_host draft.host.id written with dialog := none }
  | .close_dialogs => { s with dialog := none }
  | .duplicate_host id written => s.duplicate_host id written
  | .delete_host id written => s.delete_host id written
  | .move_host host_id group index written =>
    { s with hosts := (s.hosts.moved host_id group index).normalized }.persist_hosts written
  | .new_group written => s.new_group written
  | .toggle_group id written =>
    { s with hosts := s.hosts.group_mut id fun group =>
        { group with collapsed := !group.collapsed } }.persist_hosts written
  | .rename_group id name written =>
    { s with hosts := s.hosts.group_mut id fun group => { group with name } }.persist_hosts written
  | .save_group id name color written =>
    { s with hosts := (s.hosts.group_mut id fun group =>
        { group with name, color }).normalized }.persist_hosts written
  | .delete_group id written =>
    { s with hosts := (s.hosts.without_group id).normalized }.persist_hosts written
  | .open_tab => { s with next_id := s.next_id + 1 }
  | .restart tabs => start s.disk tabs

end Shell

end WaSSH.Hosts
