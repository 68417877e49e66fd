import WaSSH.Hosts.Edits
import WaSSH.Lib.Run

/-!
# Jump hosts over the changes of a document

* `Change`, `apply`: what `Config` makes of a document: opening one, saving and deleting a host;
* `Linked`: every jump host is another host of the document;
* `linked_normalized_iff`, `linked_save_host_iff`, `linked_delete_host`: one change;
* **`linked_iff`**: the runs in which no host is left with a jump host that is none.
-/

namespace WaSSH.Hosts

open OrderList HostsDocument StepRun

/-- A change of the document in the configuration. -/
inductive Change
  | opened (disk : HostsDocument)
  | save_host (host : HostProfile)
  | delete_host (id : String)

/-- The document after a change. -/
def apply (d : HostsDocument) : Change → HostsDocument
  | .opened disk => disk.normalized
  | .save_host host => (d.upsert host).normalized
  | .delete_host id => ((d.remove id).getD d).normalized

/-- Every jump host is another host of the document. -/
def Linked (d : HostsDocument) : Prop :=
  ∀ h ∈ d.hosts, ∀ j, h.connection.jump_host_id = some j → j ∈ d.host_ids ∧ j ≠ h.id

/-- The jump host normalising leaves: only an SSH connection has one. -/
def HostProfile.jump (h : HostProfile) : Option String :=
  if h.id ≠ LOCAL_HOST_ID ∧ h.connection.kind = .ssh then h.connection.jump_host_id else none

/-- The first host of each id has a jump host that normalising will find. -/
def Resolves (d : HostsDocument) : Prop :=
  ∀ h, h.id ≠ "" → d.host h.id = some h → ∀ j, h.jump = some j → Known d j ∧ j ≠ h.id

/-- When a change leaves no jump host behind that is none. -/
def Links (d : HostsDocument) : Change → Prop
  | .opened disk => Resolves disk
  | .save_host host => host.id ≠ "" → ∀ j, host.jump = some j → j ∈ d.host_ids ∧ j ≠ host.id
  | .delete_host _ => True

/-! ## Normalising -/

theorem ConnectionParams.normalized_jump (c : ConnectionParams) :
    c.normalized.jump_host_id = if c.kind = .ssh then c.jump_host_id else none := by
  obtain ⟨kind, host, port, username, auth, key, jump, tunnels, x11, remote, serial, reconnect,
    style⟩ := c
  by_cases hport : port = 0 <;> cases kind <;>
    simp [ConnectionParams.normalized, ConnectionParams.for_kind, hport]

theorem HostProfile.normalized_jump (groups : List String) (h : HostProfile) :
    (h.normalized groups).connection.jump_host_id = h.jump := by
  unfold HostProfile.normalized HostProfile.jump
  by_cases hlocal : h.id = LOCAL_HOST_ID
  · have his : h.is_local = true := decide_eq_true hlocal
    rw [if_pos his, ConnectionParams.normalized_jump, if_neg (by simp), if_neg (by simp [hlocal])]
  · have his : ¬ h.is_local = true := by simpa [HostProfile.is_local] using hlocal
    rw [if_neg his, ConnectionParams.normalized_jump]
    simp only [ne_eq, hlocal, not_false_eq_true, true_and]

/-- A host that normalising leaves alone. -/
theorem HostProfile.jump_of_normalized {groups : List String} {h : HostProfile}
    (hnormal : h.normalized groups = h) : h.jump = h.connection.jump_host_id := by
  rw [← h.normalized_jump groups, hnormal]

/-- **Opening a document**. -/
theorem linked_normalized_iff (d : HostsDocument) : Linked d.normalized ↔ Resolves d := by
  constructor
  · intro h a hne hfirst j hj
    have hid : a.id ≠ LOCAL_HOST_ID := by
      intro hlocal
      rw [HostProfile.jump, if_neg (by simp [hlocal])] at hj
      cases hj
    have hkept := ((mem_kept_hosts_iff d hid).mpr ⟨hne, hfirst⟩).1
    have hlinked := h _ ((mem_hosts_normalized d).mpr ⟨a, hkept, rfl⟩) j
      (by rw [HostProfile.normalized_jump, hj])
    rwa [mem_host_ids_normalized, HostProfile.normalized_id] at hlinked
  · intro h b hb j hj
    obtain ⟨a, ha, rfl⟩ := (mem_hosts_normalized d).mp hb
    rw [HostProfile.normalized_jump] at hj
    have hid : a.id ≠ LOCAL_HOST_ID := by
      intro hlocal
      rw [HostProfile.jump, if_neg (by simp [hlocal])] at hj
      cases hj
    obtain ⟨hne, hfirst⟩ := (mem_kept_hosts_iff d hid).mp ⟨ha, rfl⟩
    rw [mem_host_ids_normalized, HostProfile.normalized_id]
    exact h a hne hfirst j hj

/-! ## Saving and deleting -/

section Settled

variable {d : HostsDocument} (hd : Settled d)

include hd

theorem mem_hosts_upsert {host h : HostProfile} :
    h ∈ (d.upsert host).hosts ↔ h = host ∨ h ∈ d.hosts ∧ h.id ≠ host.id := by
  by_cases hmem : host.id ∈ d.host_ids
  · rw [upsert_hosts_of_mem hd.toDistinct hmem, List.mem_map]
    constructor
    · rintro ⟨a, ha, heq⟩
      split at heq
      · exact .inl heq.symm
      · next hne => exact .inr (heq ▸ ⟨ha, hne⟩)
    · rintro (rfl | ⟨hh, hne⟩)
      · obtain ⟨a, ha, hid⟩ := List.mem_map.mp hmem
        exact ⟨a, ha, if_pos hid⟩
      · exact ⟨h, hh, if_neg hne⟩
  · rw [upsert_hosts_of_not_mem hmem, List.mem_append, List.mem_singleton, or_comm]
    refine or_congr_right (iff_self_and.mpr fun hh hid => hmem ?_)
    exact hid ▸ List.mem_map_of_mem hh

theorem mem_host_ids_upsert {host : HostProfile} {j : String} :
    j ∈ (d.upsert host).host_ids ↔ j ∈ d.host_ids ∨ j = host.id := by
  rw [host_ids_upsert hd.toDistinct]
  split
  · next hmem => exact ⟨.inl, fun h => h.elim id fun heq => heq ▸ hmem⟩
  · rw [List.mem_append, List.mem_singleton]

theorem jump_linked (hlinked : Linked d) {h : HostProfile} (hmem : h ∈ d.hosts) {j : String}
    (hj : h.jump = some j) : j ∈ d.host_ids ∧ j ≠ h.id := by
  rw [HostProfile.jump_of_normalized (hd.hosts_normalized h hmem)] at hj
  exact hlinked h hmem j hj

/-- **Saving a host**. -/
theorem linked_save_host_iff (hlinked : Linked d) (host : HostProfile) :
    Linked (apply d (.save_host host)) ↔ Links d (.save_host host) := by
  change Linked (d.upsert host).normalized ↔ _
  rw [linked_normalized_iff]
  constructor
  · intro h hne j hj
    have hfirst : (d.upsert host).host host.id = some host :=
      (find?_key_eq_some_iff (distinct_upsert hd.toDistinct hne).host_ids_nodup).mpr
        ⟨(mem_hosts_upsert hd).mpr (.inl rfl), rfl⟩
    obtain ⟨hknown, hself⟩ := h host hne hfirst j hj
    refine ⟨?_, hself⟩
    rcases hknown with rfl | ⟨-, hmem⟩
    · exact hd.local_mem
    · exact ((mem_host_ids_upsert hd).mp hmem).resolve_right hself
  · intro h a hne hfirst j hj
    have hids : j ∈ d.host_ids ∧ j ≠ a.id := by
      rcases (mem_hosts_upsert hd).mp (List.mem_of_find?_eq_some hfirst) with rfl | ⟨hmem, -⟩
      · exact h hne j hj
      · exact jump_linked hd hlinked hmem hj
    refine ⟨.inr ⟨?_, (mem_host_ids_upsert hd).mpr (.inl hids.1)⟩, hids.2⟩
    rintro rfl
    exact hd.host_ids_ne hids.1

theorem linked_normalized (hlinked : Linked d) : Linked d.normalized := by
  rw [linked_normalized_iff]
  intro h hne hfirst j hj
  obtain ⟨hmem, hself⟩ := jump_linked hd hlinked (List.mem_of_find?_eq_some hfirst) hj
  refine ⟨.inr ⟨?_, hmem⟩, hself⟩
  rintro rfl
  exact hd.host_ids_ne hmem

/-- Removing a host clears what refers to it. -/
theorem linked_remove (hlinked : Linked d) {id : String} {d' : HostsDocument}
    (h : d.remove id = some d') : Linked d' := by
  obtain rfl := hd.remove_eq h
  intro b hb j hj
  obtain ⟨a, ha, rfl⟩ := List.mem_map.mp hb
  obtain ⟨hmem, hid⟩ := List.mem_filter.mp ha
  have hjump : a.connection.jump_host_id = some j ∧ j ≠ id := by
    unfold without_jump at hj
    split at hj
    · cases hj
    · next hne =>
      refine ⟨hj, ?_⟩
      rintro rfl
      exact hne hj
  obtain ⟨hknown, hself⟩ := hlinked a hmem j hjump.1
  rw [without_jump_id]
  refine ⟨?_, hself⟩
  obtain ⟨other, hother, rfl⟩ := List.mem_map.mp hknown
  refine List.mem_map.mpr ⟨without_jump id other, List.mem_map_of_mem ?_, without_jump_id id other⟩
  exact List.mem_filter.mpr ⟨hother, by simpa using hjump.2⟩

/-- **Deleting a host**. -/
theorem linked_delete_host (hlinked : Linked d) (id : String) :
    Linked (apply d (.delete_host id)) := by
  change Linked ((d.remove id).getD d).normalized
  cases hremove : d.remove id with
  | none => exact linked_normalized hd hlinked
  | some d' => exact linked_normalized (hd.remove hremove) (linked_remove hd hlinked hremove)

/-- **Step lemma**: which changes keep every jump host. -/
theorem linked_apply_iff (hlinked : Linked d) (change : Change) :
    Linked (apply d change) ↔ Links d change := by
  cases change with
  | opened disk => exact linked_normalized_iff disk
  | save_host host => exact linked_save_host_iff hd hlinked host
  | delete_host id => exact iff_of_true (linked_delete_host hd hlinked id) trivial

end Settled

theorem settled_apply (d : HostsDocument) (change : Change) : Settled (apply d change) := by
  cases change with
  | opened disk => exact settled_normalized disk
  | save_host host => exact settled_normalized _
  | delete_host id => exact settled_normalized _

/-! ## Every run -/

/-- **Jump hosts**: every jump host is another host of the document in every state of a run exactly
when that is so of the hosts in every document that is opened, and when every SSH host that is saved
refers to another host the document has. -/
theorem linked_iff (disk : HostsDocument) (changes : List Change) :
    (∀ t, Reached apply disk.normalized changes t → Linked t) ↔
      Resolves disk ∧ Guarded apply Links disk.normalized changes := by
  have hrun (hstart : Resolves disk) : (∀ t, Reached apply disk.normalized changes t → Linked t) ↔
      Guarded apply Links disk.normalized changes := by
    refine forall_reached_iff_of_inv (I := fun d => Settled d ∧ Linked d) (fun d hd => hd.2)
      (fun d change hd hok => ⟨settled_apply d change, ?_⟩) (fun d change hd h => ?_) changes _
      ⟨settled_normalized disk, (linked_normalized_iff disk).mpr hstart⟩
    · exact (linked_apply_iff hd.1 hd.2 change).mpr hok
    · exact (linked_apply_iff hd.1 hd.2 change).mp h
  constructor
  · intro h
    have hstart : Resolves disk :=
      (linked_normalized_iff disk).mp (h _ ⟨[], List.nil_prefix, rfl⟩)
    exact ⟨hstart, (hrun hstart).mp h⟩
  · rintro ⟨hstart, hguarded⟩
    exact (hrun hstart).mpr hguarded

/-- A host saved with a jump host that was deleted while it was edited. -/
theorem jump_to_deleted_host :
    ¬ ∀ (disk : HostsDocument) (changes : List Change) (t : HostsDocument),
      Reached apply disk.normalized changes t → Linked t := by
  intro h
  have hlinked := h {} [.save_host { id := "b", connection := { host := "b" } },
    .delete_host "b", .save_host { id := "a", connection := { host := "a", jump_host_id := "b" } }]
    _ ⟨_, List.prefix_rfl, rfl⟩
  have hmem := hlinked
    { id := "a", connection := { host := "a", port := 22, jump_host_id := "b" } } ?_ "b" rfl
  · exact absurd hmem.1 (by decide)
  · refine List.mem_of_getElem? (i := 1) ?_
    rfl

end WaSSH.Hosts
