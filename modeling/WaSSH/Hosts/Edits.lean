import WaSSH.Hosts.Normalized
import WaSSH.Hosts.Shell

/-!
# What the operations do to a document

* `Settled`: a document whose hosts and groups normalising leaves alone;
* `settled_normalized`: what normalising leaves is settled;
* `hosts_save_host_new`, **`hosts_duplicate_host`**: where a new host ends up, the others as they
  were;
* `Settled.group_mut`, `Settled.push_group`, `Settled.remove`: the operations that do not normalise.
-/

namespace WaSSH.Hosts

open OrderList HostsDocument
open scoped List

/-- A document that normalising leaves alone, its order list apart. -/
structure Settled (d : HostsDocument) : Prop extends Distinct d where
  hosts_normalized : ∀ h ∈ d.hosts, h.normalized d.group_ids = h

/-! ## Normalising -/

theorem settled_normalized (d : HostsDocument) : Settled d.normalized where
  toDistinct := distinct_normalized d
  hosts_normalized := fun h hmem => by
    obtain ⟨a, -, rfl⟩ := (mem_hosts_normalized d).mp hmem
    exact a.normalized_normalized _

namespace Settled

variable {d : HostsDocument} (hd : Settled d)

include hd

theorem map_normalized : d.hosts.map (HostProfile.normalized d.group_ids) = d.hosts :=
  (List.map_congr_left hd.hosts_normalized).trans (List.map_id _)

theorem normalized_hosts : d.normalized.hosts = d.hosts := by
  rw [hd.toDistinct.normalized_hosts, hd.map_normalized]

end Settled

/-! ## Adding a host -/

/-- The host as `save_host` stores it. -/
def stored (group_ids : List String) (host : HostProfile) : HostProfile :=
  (Shell.without_secrets host).normalized group_ids

@[simp] theorem stored_id (group_ids : List String) (host : HostProfile) :
    (stored group_ids host).id = host.id := by
  simp [stored]

section Upsert

variable {d : HostsDocument} (hd : Distinct d) {host : HostProfile}

theorem upsert_hosts_of_not_mem (h : host.id ∉ d.host_ids) :
    (d.upsert host).hosts = d.hosts ++ [host] := by
  simp only [upsert, if_neg h]

include hd

theorem upsert_hosts_of_mem (h : host.id ∈ d.host_ids) :
    (d.upsert host).hosts = d.hosts.map fun a => if a.id = host.id then host else a := by
  simp only [upsert, if_pos h]
  exact set_findIdx hd.host_ids_nodup host.id host

theorem host_ids_upsert :
    (d.upsert host).host_ids =
      if host.id ∈ d.host_ids then d.host_ids else d.host_ids ++ [host.id] := by
  rw [host_ids]
  split
  · next h =>
    rw [upsert_hosts_of_mem hd h, List.map_map]
    refine List.map_congr_left fun a _ => ?_
    rw [Function.comp_apply]
    split
    · next ha => exact ha.symm
    · rfl
  · next h => rw [upsert_hosts_of_not_mem h, List.map_append]; rfl

theorem distinct_upsert (hne : host.id ≠ "") : Distinct (d.upsert host) := by
  have hids : (d.upsert host).host_ids = _ := host_ids_upsert hd
  split at hids
  · exact { hd with
      host_ids_nodup := hids ▸ hd.host_ids_nodup
      host_ids_ne := hids ▸ hd.host_ids_ne
      local_mem := hids ▸ hd.local_mem }
  · next h =>
    exact { hd with
      host_ids_nodup := by
        rw [hids, List.nodup_append]
        refine ⟨hd.host_ids_nodup, List.nodup_singleton _, fun a ha b hb hab => h ?_⟩
        exact List.mem_singleton.mp hb ▸ hab ▸ ha
      host_ids_ne := by
        rw [hids, List.mem_append, List.mem_singleton]
        exact fun hmem => hmem.elim hd.host_ids_ne fun heq => hne heq.symm
      local_mem := hids ▸ List.mem_append_left _ hd.local_mem }

end Upsert

section SaveHost

variable {s : Shell} (hs : Settled s.hosts) {host : HostProfile} (written : Bool)

/-- A host the document does not have yet is added at its end. -/
theorem upsert_new {d : HostsDocument} (hd : Settled d) (hnew : host.id ∉ d.host_ids)
    (hne : host.id ≠ "") :
    (d.upsert host).normalized.hosts = d.hosts ++ [host.normalized d.group_ids] := by
  rw [(distinct_upsert hd.toDistinct hne).normalized_hosts, upsert_hosts_of_not_mem hnew,
    List.map_append]
  exact congrArg (· ++ _) hd.map_normalized

/-- A host of the document is replaced where it stands. -/
theorem upsert_replaces {d : HostsDocument} (hd : Settled d) (hmem : host.id ∈ d.host_ids)
    (hne : host.id ≠ "") :
    (d.upsert host).normalized.hosts =
      d.hosts.map fun a => if a.id = host.id then host.normalized d.group_ids else a := by
  rw [(distinct_upsert hd.toDistinct hne).normalized_hosts, upsert_hosts_of_mem hd.toDistinct hmem,
    List.map_map]
  refine List.map_congr_left fun a ha => ?_
  rw [Function.comp_apply]
  split
  · rfl
  · exact hd.hosts_normalized a ha

theorem groups_upsert {d : HostsDocument} (hd : Distinct d) (hne : host.id ≠ "") :
    (d.upsert host).normalized.groups = d.groups :=
  (distinct_upsert hd hne).normalized_groups

include hs

/-- **A saved host** the document does not have yet is added at its end. -/
theorem hosts_save_host_new (hnew : host.id ∉ s.hosts.host_ids) (hne : host.id ≠ "") :
    (s.save_host host written).hosts.hosts = s.hosts.hosts ++ [stored s.hosts.group_ids host] :=
  upsert_new hs hnew hne

theorem groups_save_host (hne : host.id ≠ "") :
    (s.save_host host written).hosts.groups = s.hosts.groups :=
  groups_upsert hs.toDistinct hne

end SaveHost

/-! ## Copying a host -/

section Copy

variable {d : HostsDocument} (hd : Settled d) {pre post : List HostProfile}
  {original : HostProfile} (hsplit : d.hosts = pre ++ original :: post) (copy : HostProfile)
  (hfresh : copy.id ∉ d.host_ids) (hne : copy.id ≠ "")

include hd hsplit

theorem not_mem_before : original.id ∉ pre.map HostProfile.id := by
  have hnodup := hd.host_ids_nodup
  rw [host_ids, hsplit, List.map_append, List.nodup_append] at hnodup
  exact fun hpre => hnodup.2.2 _ hpre original.id (by simp) rfl

theorem hosts_insert_after :
    (d.insert_after original.id copy).hosts = pre ++ original :: copy :: post := by
  simp only [insert_after, hsplit, findIdx?_split (not_mem_before hd hsplit), insertIdx_split]

include hfresh hne

theorem distinct_insert_after : Distinct (d.insert_after original.id copy) := by
  have hperm : (d.insert_after original.id copy).host_ids ~ copy.id :: d.host_ids := by
    rw [host_ids, host_ids, hosts_insert_after hd hsplit, hsplit]
    exact (perm_insert_after copy).map HostProfile.id
  exact { hd with
    host_ids_nodup := hperm.nodup_iff.mpr (List.nodup_cons.mpr ⟨hfresh, hd.host_ids_nodup⟩)
    host_ids_ne := fun h => (List.mem_cons.mp (hperm.mem_iff.mp h)).elim
      (fun heq => hne heq.symm) hd.host_ids_ne
    local_mem := hperm.mem_iff.mpr (List.mem_cons_of_mem _ hd.local_mem) }

/-- **Around a copy** normalising leaves the other hosts where they are. -/
theorem normalized_insert_after :
    (d.insert_after original.id copy).normalized.hosts =
      pre ++ original :: copy.normalized d.group_ids :: post := by
  have hkeep (l : List HostProfile) (hl : ∀ h ∈ l, h ∈ d.hosts) :
      l.map (HostProfile.normalized d.group_ids) = l :=
    (List.map_congr_left fun h hmem => hd.hosts_normalized h (hl h hmem)).trans (List.map_id l)
  have hgroups : (d.insert_after original.id copy).group_ids = d.group_ids := rfl
  rw [(distinct_insert_after hd hsplit copy hfresh hne).normalized_hosts, hgroups,
    hosts_insert_after hd hsplit, List.map_append, List.map_cons, List.map_cons,
    hkeep pre (by simp +contextual [hsplit]), hkeep post (by simp +contextual [hsplit]),
    hd.hosts_normalized original (by simp [hsplit])]

end Copy

section Duplicate

variable {s : Shell} (hs : Settled s.hosts) {pre post : List HostProfile} {original : HostProfile}
  (hsplit : s.hosts.hosts = pre ++ original :: post)
  (hfresh : host_name s.free_host_number ∉ s.hosts.host_ids) (written : Bool)

theorem host_name_ne (n : ℕ) : host_name n ≠ "" := by
  intro h
  have := congrArg String.length h
  simp [host_name] at this

include hs hsplit

theorem host_of_split : s.hosts.host original.id = some original :=
  (find?_key_eq_some_iff hs.host_ids_nodup).mpr ⟨by simp [hsplit], rfl⟩

include hfresh

/-- **A copy** is stored right after its original. -/
theorem hosts_duplicate_host :
    (s.duplicate_host original.id written).hosts.hosts =
      pre ++ original :: stored s.hosts.group_ids (s.copy_of original) :: post := by
  have hne := host_name_ne s.free_host_number
  have hinsert := normalized_insert_after hs hsplit (s.copy_of original) hfresh hne
  have hdistinct := distinct_insert_after hs hsplit (s.copy_of original) hfresh hne
  have hgroups : (s.hosts.insert_after original.id (s.copy_of original)).normalized.group_ids =
      s.hosts.group_ids := congrArg (List.map HostGroup.id) hdistinct.normalized_groups
  have hids : (s.hosts.insert_after original.id (s.copy_of original)).normalized.host_ids =
      (pre.map HostProfile.id ++ original.id :: host_name s.free_host_number ::
        post.map HostProfile.id) := by
    rw [host_ids, hinsert]
    simp [Shell.copy_of]
  -- The copy is stored in place of the one inserted, and no other host has its id.
  have hother (h : HostProfile) (hmem : h ∈ s.hosts.hosts) :
      (if h.id = host_name s.free_host_number then
        stored s.hosts.group_ids (s.copy_of original) else h) = h :=
    if_neg fun heq => hfresh (by rw [← heq]; exact List.mem_map_of_mem hmem)
  have hkeep (l : List HostProfile) (hl : ∀ h ∈ l, h ∈ s.hosts.hosts) :
      l.map (fun h => if h.id = host_name s.free_host_number then
        stored s.hosts.group_ids (s.copy_of original) else h) = l :=
    (List.map_congr_left fun h hmem => hother h (hl h hmem)).trans (List.map_id l)
  rw [Shell.duplicate_host, host_of_split hs hsplit]
  simp only [Shell.save_host, Shell.set]
  rw [upsert_replaces (settled_normalized _) (by rw [hids]; simp [Shell.copy_of]) hne, hinsert,
    hgroups, List.map_append, List.map_cons, List.map_cons]
  show pre.map (fun h => if h.id = host_name s.free_host_number then
      stored s.hosts.group_ids (s.copy_of original) else h) ++ _ = _
  rw [hkeep pre (by simp +contextual [hsplit])]
  refine congrArg (pre ++ ·) (congrArg₂ List.cons (hother original (by simp [hsplit])) ?_)
  refine congrArg₂ List.cons (if_pos (HostProfile.normalized_id _ _)) ?_
  exact hkeep post (by simp +contextual [hsplit])

theorem groups_duplicate_host :
    (s.duplicate_host original.id written).hosts.groups = s.hosts.groups := by
  have hne := host_name_ne s.free_host_number
  have hdistinct := distinct_insert_after hs hsplit (s.copy_of original) hfresh hne
  rw [Shell.duplicate_host, host_of_split hs hsplit]
  exact (groups_save_host (settled_normalized _) written hne).trans hdistinct.normalized_groups

end Duplicate

/-! ## The operations that do not normalise -/

theorem ConnectionParams.normalized_without_jump (c : ConnectionParams) :
    { c with jump_host_id := none }.normalized = { c.normalized with jump_host_id := none } := by
  obtain ⟨kind, host, port, username, auth, key, jump, tunnels, x11, remote, serial, reconnect,
    style⟩ := c
  by_cases hport : port = 0 <;> cases kind <;>
    simp [ConnectionParams.normalized, ConnectionParams.for_kind, hport]

theorem HostProfile.normalized_without_jump {groups : List String} {h : HostProfile}
    (hnormal : h.normalized groups = h) (id : String) :
    (without_jump id h).normalized groups = without_jump id h := by
  unfold without_jump
  split
  · obtain ⟨hlocal, hgroup, hconnection, htags, hplugins⟩ := normalized_eq_self_iff.mp hnormal
    refine normalized_eq_self_iff.mpr ⟨hlocal, hgroup, ?_, htags, hplugins⟩
    rw [ConnectionParams.normalized_without_jump, hconnection]
  · exact hnormal

theorem HostProfile.normalized_mono {groups groups' : List String} {h : HostProfile}
    (hnormal : h.normalized groups = h) (hsub : ∀ g ∈ groups, g ∈ groups') :
    h.normalized groups' = h := by
  obtain ⟨hlocal, hgroup, hrest⟩ := normalized_eq_self_iff.mp hnormal
  exact normalized_eq_self_iff.mpr ⟨hlocal, fun g hg => hsub g (hgroup g hg), hrest⟩

@[simp] theorem without_jump_id (id : String) (h : HostProfile) :
    (without_jump id h).id = h.id := by
  unfold without_jump
  split <;> rfl

@[simp] theorem without_jump_group_id (id : String) (h : HostProfile) :
    (without_jump id h).group_id = h.group_id := by
  unfold without_jump
  split <;> rfl

@[simp] theorem without_jump_kind (id : String) (h : HostProfile) :
    (without_jump id h).connection.kind = h.connection.kind := by
  unfold without_jump
  split <;> rfl

theorem group_ids_group_mut {d : HostsDocument} (hd : Distinct d) {change : HostGroup → HostGroup}
    (hchange : ∀ g, (change g).id = g.id) (id : String) :
    (d.group_mut id change).group_ids = d.group_ids := by
  rw [group_ids, HostsDocument.group_mut, modify_findIdx hd.group_ids_nodup, List.map_map]
  refine List.map_congr_left fun g _ => ?_
  rw [Function.comp_apply]
  split
  · exact hchange g
  · rfl

namespace Settled

variable {d : HostsDocument} (hd : Settled d)

include hd

/-- A group changed in its name, colour or state. -/
theorem group_mut {change : HostGroup → HostGroup} (hchange : ∀ g, (change g).id = g.id)
    (id : String) : Settled (d.group_mut id change) := by
  have hids := group_ids_group_mut hd.toDistinct hchange id
  exact {
    host_ids_nodup := hd.host_ids_nodup
    host_ids_ne := hd.host_ids_ne
    local_mem := hd.local_mem
    group_ids_nodup := hids ▸ hd.group_ids_nodup
    group_ids_ne := hids ▸ hd.group_ids_ne
    hosts_normalized := fun h hmem => hids ▸ hd.hosts_normalized h hmem }

/-- A group with an id of its own. -/
theorem push_group {group : HostGroup} (hnew : group.id ∉ d.group_ids) (hne : group.id ≠ "") :
    Settled { d with groups := d.groups ++ [group] } := by
  have hids : ({ d with groups := d.groups ++ [group] } : HostsDocument).group_ids =
      d.group_ids ++ [group.id] := List.map_append
  exact {
    host_ids_nodup := hd.host_ids_nodup
    host_ids_ne := hd.host_ids_ne
    local_mem := hd.local_mem
    group_ids_nodup := by
      rw [hids, List.nodup_append]
      refine ⟨hd.group_ids_nodup, List.nodup_singleton _, fun a ha b hb hab => hnew ?_⟩
      exact List.mem_singleton.mp hb ▸ hab ▸ ha
    group_ids_ne := by
      rw [hids, List.mem_append, List.mem_singleton]
      exact fun hmem => hmem.elim hd.group_ids_ne fun heq => hne heq.symm
    hosts_normalized := fun h hmem => by
      rw [hids]
      exact HostProfile.normalized_mono (hd.hosts_normalized h hmem) fun g =>
        List.mem_append_left _ }

/-- What is left when a host is taken out. -/
theorem remove_eq {id : String} {d' : HostsDocument} (h : d.remove id = some d') :
    d' = { d with
      hosts := (d.hosts.filter fun host => host.id ≠ id).map (without_jump id)
      ungrouped_host_ids := d.ungrouped_host_ids.filter (· ≠ id) } := by
  unfold HostsDocument.remove at h
  split at h
  · cases h
  · rw [eraseIdx_findIdx hd.host_ids_nodup] at h
    exact (Option.some.inj h).symm

/-- A host taken out. -/
theorem remove {id : String} {d' : HostsDocument} (h : d.remove id = some d') : Settled d' := by
  have hlocal : id ≠ LOCAL_HOST_ID := fun hid => by
    simp [HostsDocument.remove, hid] at h
  obtain rfl := hd.remove_eq h
  have hids : ((d.hosts.filter fun host => host.id ≠ id).map (without_jump id)).map
      HostProfile.id = d.host_ids.filter (· ≠ id) := by
    rw [List.map_map, host_ids, List.filter_map]
    simp [Function.comp_def]
  exact {
    host_ids_nodup := by
      rw [host_ids, hids]
      exact hd.host_ids_nodup.filter _
    host_ids_ne := by
      rw [host_ids, hids]
      exact fun hmem => hd.host_ids_ne (List.mem_filter.mp hmem).1
    local_mem := by
      rw [host_ids, hids]
      exact List.mem_filter.mpr ⟨hd.local_mem, by simpa using Ne.symm hlocal⟩
    group_ids_nodup := hd.group_ids_nodup
    group_ids_ne := hd.group_ids_ne
    hosts_normalized := fun h hmem => by
      obtain ⟨a, ha, rfl⟩ := List.mem_map.mp hmem
      exact HostProfile.normalized_without_jump
        (hd.hosts_normalized a (List.mem_filter.mp ha).1) id }

end Settled

end WaSSH.Hosts
