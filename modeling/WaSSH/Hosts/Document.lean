import WaSSH.Lib.Json
import WaSSH.Lib.OrderList
import WaSSH.Lib.Text
import WaSSH.Hosts.Connection

/-!
# The hosts document

Saved hosts, the groups they stand in and the order of those outside any group.

* `HostProfile`, `HostGroup`, `HostsDocument`: the document;
* `normalized`: duplicates and dangling references removed;
* `host`, `ungrouped`, `upsert`, `remove`: the operations on it.
-/

namespace WaSSH.Hosts

open OrderList

def LOCAL_HOST_ID : String := "local"
def LOCAL_HOST_NAME : String := "Local terminal"

/-- Settings per plugin id. -/
abbrev PluginSettings := List (String × List (String × Json))

/-- A sidebar group. -/
structure HostGroup where
  id : String
  name : String
  color : Option ℕ := none
  collapsed : Bool := false
  deriving DecidableEq

/-- A saved host profile. -/
structure HostProfile where
  id : String := ""
  name : String := ""
  tags : List String := []
  group_id : Option String := none
  connection : ConnectionParams := {}
  plugin_settings : PluginSettings := []

namespace HostProfile

/-- The built-in host local terminal tabs belong to. -/
def «local» : HostProfile :=
  { id := LOCAL_HOST_ID, name := LOCAL_HOST_NAME, connection := { kind := .local } }

def is_local (h : HostProfile) : Bool := h.id = LOCAL_HOST_ID

/-- Name shown in the sidebar; falls back to the endpoint when unnamed. -/
def display_name (h : HostProfile) : String :=
  if Text.trim h.name.toList ≠ [] then h.name
  else if h.connection.kind = .local then LOCAL_HOST_NAME
  else h.connection.host

/-- The pass of `HostsDocument::normalized` over one host. -/
def normalized (known_group_ids : List String) (h : HostProfile) : HostProfile :=
  let h :=
    if h.is_local then { h with connection.kind := .local, group_id := none } else h
  { h with
    group_id := h.group_id.filter (· ∈ known_group_ids)
    connection := h.connection.normalized
    tags := h.tags.filter fun tag => Text.trim tag.toList ≠ []
    plugin_settings := h.plugin_settings.filter fun (_, values) => ¬ values.isEmpty }

end HostProfile

/-- The whole `hosts.json` document. -/
structure HostsDocument where
  groups : List HostGroup := []
  /-- Ids of hosts shown outside any group, in sidebar order. -/
  ungrouped_host_ids : List String := []
  ungrouped_collapsed : Bool := false
  hosts : List HostProfile := []

namespace HostsDocument

variable (d : HostsDocument)

def host_ids : List String := d.hosts.map HostProfile.id

def group_ids : List String := d.groups.map HostGroup.id

/-- The ids of the hosts outside any group, in document order. -/
def ungrouped_ids (hosts : List HostProfile) : List String :=
  (hosts.filter fun host => host.group_id.isNone).map HostProfile.id

/-- The hosts `normalized` keeps: the first of each id, and the local terminal. -/
def kept_hosts : List HostProfile :=
  let hosts := retain_first HostProfile.id (fun host => host.id ≠ "") [] d.hosts
  if hosts.any HostProfile.is_local then hosts else .local :: hosts

def kept_groups : List HostGroup :=
  retain_first HostGroup.id (fun group => group.id ≠ "") [] d.groups

/-- The order list of `hosts` that `normalized` makes of `order`. -/
def normalized_order (hosts : List HostProfile) (order : List String) : List String :=
  let order := order.filter (· ∈ hosts.map HostProfile.id)
  let order := order.destutter (· ≠ ·)
  -- Ungrouped hosts missing from the order list are appended in document order.
  let order := push_missing order (ungrouped_ids hosts)
  -- A grouped host must not also appear in the ungrouped order list.
  let grouped := (hosts.filter fun host => host.group_id.isSome).map HostProfile.id
  let order := order.filter (· ∉ grouped)
  -- The local terminal is pinned first so it never moves or gets lost in a group.
  LOCAL_HOST_ID :: order.filter (· ≠ LOCAL_HOST_ID)

/-- Remove duplicates and dangling references, then normalise every connection. -/
def normalized : HostsDocument :=
  let groups := d.kept_groups
  let hosts := d.kept_hosts.map (HostProfile.normalized (groups.map HostGroup.id))
  { d with
    groups
    hosts
    ungrouped_host_ids := normalized_order hosts d.ungrouped_host_ids }

def host (id : String) : Option HostProfile := d.hosts.find? fun host => host.id = id

/-- Hosts shown in the ungrouped section, honouring the saved order. -/
def ungrouped : List HostProfile := d.ungrouped_host_ids.filterMap d.host

/-- Add or replace a host and keep the ungrouped order consistent. -/
def upsert (host : HostProfile) : HostsDocument :=
  let hosts :=
    if host.id ∈ d.host_ids then
      d.hosts.set (d.hosts.findIdx fun existing => existing.id = host.id) host
    else d.hosts ++ [host]
  let ungrouped := ungrouped_ids hosts
  { d with
    hosts
    ungrouped_host_ids := push_missing (d.ungrouped_host_ids.filter (· ∈ ungrouped)) ungrouped }

/-- A host without the jump host `id`. -/
def without_jump (id : String) (host : HostProfile) : HostProfile :=
  if host.connection.jump_host_id = some id then { host with connection.jump_host_id := none }
  else host

/-- Remove a host, its organisation entries and any jump-host references to it; nothing where there
is no such host, and for the local terminal. -/
def remove (id : String) : Option HostsDocument :=
  if id = LOCAL_HOST_ID ∨ id ∉ d.host_ids then none
  else
    some { d with
      hosts := (d.hosts.eraseIdx (d.hosts.findIdx fun host => host.id = id)).map (without_jump id)
      ungrouped_host_ids := d.ungrouped_host_ids.filter (· ≠ id) }

end HostsDocument

end WaSSH.Hosts
