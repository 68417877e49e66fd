import WaSSH.Lib.Run
import WaSSH.Hosts.Edits

/-!
# New hosts and groups

A new host or group is given a number of the shell's counter, which starts at one with every
process and is not compared with the document.

* `AddsHost`, `AddsGroup`: what creating one should do;
* `Created`: every operation that creates one does so;
* `Free`: the number it takes is not in use;
* **`creates_fresh`**: in every run of free numbers every creation is one, and the first number in
  use is the end of that.
-/

namespace WaSSH.Hosts

open HostsDocument OrderList StepRun
open scoped List

/-! ## Free numbers -/

section NextFree

variable {name : ℕ → String} {ids : List String}

theorem le_next_free (fuel n : ℕ) : n ≤ next_free name ids fuel n := by
  induction fuel generalizing n with
  | zero => exact le_refl n
  | succ fuel ih =>
    rw [next_free]
    split
    · exact (Nat.le_succ n).trans (ih (n + 1))
    · exact le_refl n

theorem next_free_of_not_mem (fuel : ℕ) {n : ℕ} (h : name n ∉ ids) :
    next_free name ids fuel n = n := by
  cases fuel with
  | zero => rfl
  | succ fuel => rw [next_free, if_neg h]

/-- The loop ends at a free number, or has seen every number to be in use. -/
theorem next_free_or (fuel n : ℕ) :
    name (next_free name ids fuel n) ∉ ids ∨ ∀ i < fuel, name (n + i) ∈ ids := by
  induction fuel generalizing n with
  | zero => exact .inr fun i hi => absurd hi (Nat.not_lt_zero i)
  | succ fuel ih =>
    rw [next_free]
    split
    · next hmem =>
      refine (ih (n + 1)).imp_right fun hall i hi => ?_
      cases i with
      | zero => exact hmem
      | succ i =>
        have := hall i (Nat.lt_of_succ_lt_succ hi)
        rwa [Nat.add_assoc, Nat.add_comm 1 i] at this
    · next hmem => exact .inl hmem

/-- Among more numbers than there are ids one is free. -/
theorem next_free_not_mem (hname : Function.Injective name) (n : ℕ) :
    name (next_free name ids (ids.length + 1) n) ∉ ids := by
  refine (next_free_or (ids.length + 1) n).elim id fun hall => ?_
  have hnodup : ((List.range (ids.length + 1)).map fun i => name (n + i)).Nodup :=
    List.nodup_range.map fun i j h => Nat.add_left_cancel (hname h)
  have hsub : (List.range (ids.length + 1)).map (fun i => name (n + i)) ⊆ ids := by
    intro x hx
    obtain ⟨i, hi, rfl⟩ := List.mem_map.mp hx
    exact hall i (List.mem_range.mp hi)
  have hlength := (hnodup.subperm hsub).length_le
  rw [List.length_map, List.length_range] at hlength
  omega

end NextFree

theorem host_name_injective : Function.Injective host_name := fun m n h => by
  have hlist := congrArg String.toList h
  simp only [host_name, String.toList_append] at hlist
  have hnumber := congrArg (fun ds => Nat.ofDigitChars 10 ds 0) (List.append_cancel_left hlist)
  simpa [Nat.toString_eq_ofList_toDigits] using hnumber

theorem free_host_not_mem (s : Shell) : host_name s.free_host_number ∉ s.hosts.host_ids :=
  next_free_not_mem host_name_injective s.next_id

/-! ## Creating a host or a group -/

/-- One host more, of an id of its own; the others and the groups as they were. -/
def AddsHost (d d' : HostsDocument) (id : String) : Prop :=
  id ∉ d.host_ids ∧ (∃ h : HostProfile, h.id = id ∧ d'.hosts ~ h :: d.hosts) ∧
    d'.groups = d.groups

/-- One group more, of an id of its own; the others and the hosts as they were. -/
def AddsGroup (d d' : HostsDocument) (id : String) : Prop :=
  id ∉ d.group_ids ∧ (∃ g : HostGroup, g.id = id ∧ d'.groups ~ g :: d.groups) ∧
    d'.hosts ~ d.hosts

/-- The id is not that of an open draft of a new host. -/
def NotDrafted (s : Shell) (id : String) : Prop :=
  ∀ draft, s.dialog = some draft → draft.is_new → draft.host.id ≠ id

/-- What an operation that creates a host or a group does, to the document of the sidebar and to
the one that is saved. -/
def Created (s : Shell) (op : Op) : Prop :=
  let t := s.step op
  match op with
  | .save_draft _ => ∀ draft, s.dialog = some draft → draft.is_new →
    AddsHost s.hosts t.hosts draft.host.id ∧ AddsHost s.config t.config draft.host.id
  | .duplicate_host id _ => id ∈ s.hosts.host_ids →
    NotDrafted s (host_name s.free_host_number) ∧
      AddsHost s.hosts t.hosts (host_name s.free_host_number) ∧
      AddsHost s.config t.config (host_name s.free_host_number)
  | .new_group _ =>
    AddsGroup s.hosts t.hosts (group_name s.next_id) ∧
      AddsGroup s.config t.config (group_name s.next_id)
  | _ => True

/-- The number an operation hands out is not in use. -/
def Free (s : Shell) : Op → Prop
  | .new_host | .save_as_host _ _ => host_name s.next_id ∉ s.hosts.host_ids
  | .duplicate_host id _ => id ∈ s.hosts.host_ids → NotDrafted s (host_name s.next_id)
  | .new_group _ => group_name s.next_id ∉ s.hosts.group_ids
  | _ => True

/-! ## The two documents -/

/-- The document of the sidebar and the saved one: the same hosts and groups. -/
structure Twin (d c : HostsDocument) : Prop where
  settled : Settled d
  config_settled : Settled c
  hosts : c.hosts ~ d.hosts
  groups : c.groups = d.groups

namespace Twin

variable {d c d' c' : HostsDocument}

theorem refl (h : Settled d) : Twin d d := ⟨h, h, .refl _, rfl⟩

section Same

variable (h : Twin d c)

include h

theorem host_ids : c.host_ids ~ d.host_ids := h.hosts.map _

theorem group_ids : c.group_ids = d.group_ids := congrArg (List.map HostGroup.id) h.groups

/-- What a new host does to the one document it does to the other. -/
theorem addsHost (h' : Twin d' c') {id : String} (hadds : AddsHost d d' id) : AddsHost c c' id := by
  obtain ⟨hnew, ⟨host, hid, hperm⟩, hgroups⟩ := hadds
  refine ⟨fun hmem => hnew (h.host_ids.mem_iff.mp hmem), ⟨host, hid, ?_⟩, ?_⟩
  · exact h'.hosts.trans (hperm.trans (h.hosts.symm.cons host))
  · rw [h'.groups, hgroups, h.groups]

theorem upsert {host : HostProfile} (hne : host.id ≠ "") :
    Twin (d.upsert host).normalized (c.upsert host).normalized where
  settled := settled_normalized _
  config_settled := settled_normalized _
  hosts := by
    by_cases hmem : host.id ∈ d.host_ids
    · rw [upsert_replaces h.settled hmem hne,
        upsert_replaces h.config_settled (h.host_ids.mem_iff.mpr hmem) hne, h.group_ids]
      exact h.hosts.map _
    · rw [upsert_new h.settled hmem hne,
        upsert_new h.config_settled (mt h.host_ids.mem_iff.mp hmem) hne, h.group_ids]
      exact h.hosts.append_right _
  groups := by
    rw [groups_upsert h.settled.toDistinct hne, groups_upsert h.config_settled.toDistinct hne,
      h.groups]

theorem remove {id : String} (hd : d.remove id = some d') :
    ∃ c', c.remove id = some c' ∧ Twin d' c'.normalized := by
  have hsome : ¬ (id = LOCAL_HOST_ID ∨ id ∉ d.host_ids) := fun hnone => by
    rw [HostsDocument.remove, if_pos hnone] at hd
    cases hd
  obtain ⟨c', hc⟩ : ∃ c', c.remove id = some c' := by
    rw [HostsDocument.remove, if_neg]
    · exact ⟨_, rfl⟩
    · exact fun hnone => hsome (hnone.imp_right (mt h.host_ids.mem_iff.mpr))
  have hsettled := h.config_settled.remove hc
  refine ⟨c', hc, h.settled.remove hd, settled_normalized _, ?_, ?_⟩
  · rw [hsettled.normalized_hosts, h.settled.remove_eq hd, h.config_settled.remove_eq hc]
    exact (h.hosts.filter _).map _
  · rw [hsettled.toDistinct.normalized_groups, h.settled.remove_eq hd,
      h.config_settled.remove_eq hc]
    exact h.groups

end Same

end Twin

/-! ## One operation -/

theorem group_name_ne (n : ℕ) : group_name n ≠ "" := by
  intro h
  have := congrArg String.length h
  simp [group_name] at this

theorem host_eq_none {d : HostsDocument} {id : String} (h : id ∉ d.host_ids) :
    d.host id = none := by
  rw [host, List.find?_eq_none]
  intro host hmem
  simpa using fun heq : host.id = id => h (heq ▸ List.mem_map_of_mem hmem)

theorem host_ids_moved {d : HostsDocument} (hd : Distinct d) (host_id : String)
    (group : Option String) (index : ℕ) : (d.moved host_id group index).host_ids = d.host_ids := by
  rw [host_ids, moved, modify_findIdx hd.host_ids_nodup, List.map_map]
  refine List.map_congr_left fun h _ => ?_
  rw [Function.comp_apply]
  split <;> rfl

theorem host_ids_without_group (d : HostsDocument) (id : String) :
    (d.without_group id).host_ids = d.host_ids := by
  rw [host_ids, without_group, List.map_map]
  refine List.map_congr_left fun h _ => ?_
  rw [Function.comp_apply]
  split <;> rfl

theorem duplicate_host_frame (s : Shell) (id : String) (written : Bool) :
    (s.duplicate_host id written).dialog = s.dialog ∧
      s.next_id ≤ (s.duplicate_host id written).next_id := by
  rw [Shell.duplicate_host]
  split
  · exact ⟨rfl, le_refl _⟩
  · exact ⟨rfl, (le_next_free _ _).trans (Nat.le_succ _)⟩

/-- The document of the sidebar and the saved one agree on hosts and groups, and the id of an open
draft of a new host is one the counter has given and the document does not have. -/
structure Inv (s : Shell) : Prop where
  twin : Twin s.hosts s.config
  named : ∀ draft, s.dialog = some draft → draft.host.id ≠ ""
  draft : ∀ draft, s.dialog = some draft → draft.is_new →
    draft.host.id ∉ s.hosts.host_ids ∧ ∃ n ≤ s.next_id, draft.host.id = host_name n

namespace Inv

variable {s : Shell} (hs : Inv s)

/-- Closing the dialog. -/
theorem of_closed {t : Shell} (htwin : Twin t.hosts t.config) (hdialog : t.dialog = none) :
    Inv t := by
  have hnone (draft : Draft) : t.dialog ≠ some draft := fun h => nomatch hdialog ▸ h
  exact ⟨htwin, fun draft h => absurd h (hnone draft), fun draft h => absurd h (hnone draft)⟩

/-- After a start. -/
theorem start (disk : HostsDocument) (tabs : List ℕ) : Inv (Shell.start disk tabs) :=
  of_closed (.refl (settled_normalized disk)) rfl

include hs

/-- A step that gives the document no host it did not have. -/
theorem of_subset {t : Shell} (htwin : Twin t.hosts t.config) (hdialog : t.dialog = s.dialog)
    (hnext : s.next_id ≤ t.next_id) (hsub : ∀ id ∈ t.hosts.host_ids, id ∈ s.hosts.host_ids) :
    Inv t :=
  ⟨htwin, fun draft hdraft => hs.named draft (hdialog ▸ hdraft), fun draft hdraft hnew =>
    have ⟨hfree, n, hn, hid⟩ := hs.draft draft (hdialog ▸ hdraft) hnew
    ⟨fun hmem => hfree (hsub _ hmem), n, hn.trans hnext, hid⟩⟩

/-- The sidebar's document, changed and written as it is. -/
theorem persist {d : HostsDocument} (hd : Settled d)
    (hsub : ∀ id ∈ d.host_ids, id ∈ s.hosts.host_ids) (written : Bool) :
    Inv ({ s with hosts := d }.persist_hosts written) :=
  hs.of_subset (.refl hd) rfl (le_refl _) hsub

/-- The same, where the document is normalised before. -/
theorem persist_normalized {d : HostsDocument} (hids : d.host_ids = s.hosts.host_ids)
    (written : Bool) : Inv ({ s with hosts := d.normalized }.persist_hosts written) :=
  hs.persist (settled_normalized d) (fun id hmem => by
    rcases (mem_host_ids_normalized d).mp hmem with rfl | ⟨-, hmem⟩
    · exact hs.twin.settled.local_mem
    · exact hids ▸ hmem) written

theorem open_new (draft : HostProfile) (hfree : host_name s.next_id ∉ s.hosts.host_ids) :
    Inv (s.open_new draft) :=
  ⟨hs.twin, fun _ h => Option.some.inj h ▸ host_name_ne s.next_id,
    fun _ h _ => Option.some.inj h ▸ ⟨hfree, s.next_id, le_refl _, rfl⟩⟩

theorem delete_host (id : String) (written : Bool) : Inv (s.delete_host id written) := by
  rw [Shell.delete_host]
  cases hremove : s.hosts.remove id with
  | none => exact hs
  | some hosts =>
    obtain ⟨config, hconfig, htwin⟩ := hs.twin.remove hremove
    refine hs.of_subset ?_ rfl (le_refl _) ?_
    · simpa only [Shell.set, hconfig, Option.getD_some] using htwin
    · intro other hmem
      obtain ⟨h, hh, rfl⟩ := List.mem_map.mp hmem
      change h ∈ hosts.hosts at hh
      rw [hs.twin.settled.remove_eq hremove] at hh
      obtain ⟨a, ha, rfl⟩ := List.mem_map.mp hh
      rw [without_jump_id]
      exact List.mem_map_of_mem (List.mem_filter.mp ha).1

theorem duplicate_host {id : String} (hmem : id ∈ s.hosts.host_ids) (written : Bool) :
    AddsHost s.hosts (s.duplicate_host id written).hosts (host_name s.free_host_number) ∧
      Twin (s.duplicate_host id written).hosts (s.duplicate_host id written).config := by
  have hsettled := hs.twin.settled
  obtain ⟨pre, original, post, hsplit, rfl, -⟩ := exists_split_key hsettled.host_ids_nodup id hmem
  have hfresh := free_host_not_mem s
  have hne := host_name_ne s.free_host_number
  have hhosts := hosts_duplicate_host hsettled hsplit hfresh written
  have hgroups := groups_duplicate_host hsettled hsplit hfresh written
  have hperm : (s.duplicate_host original.id written).hosts.hosts ~
      stored s.hosts.group_ids (s.copy_of original) :: s.hosts.hosts := by
    rw [hhosts, hsplit]
    exact perm_insert_after _
  refine ⟨⟨hfresh, ⟨_, stored_id _ _, hperm⟩, hgroups⟩, ?_⟩
  have hconfig : (s.duplicate_host original.id written).config =
      (s.config.upsert (Shell.without_secrets (s.copy_of original))).normalized := by
    rw [Shell.duplicate_host, host_of_split hsettled hsplit]
    rfl
  rw [hconfig]
  refine ⟨?_, settled_normalized _, ?_, ?_⟩
  · rw [Shell.duplicate_host, host_of_split hsettled hsplit]
    exact settled_normalized _
  · rw [upsert_new hs.twin.config_settled (mt hs.twin.host_ids.mem_iff.mp hfresh) hne]
    refine List.Perm.trans ?_ hperm.symm
    refine (List.perm_append_singleton _ _).trans ?_
    rw [hs.twin.group_ids]
    exact hs.twin.hosts.cons _
  · rw [groups_upsert hs.twin.config_settled.toDistinct hne, hgroups, hs.twin.groups]

/-- A copy takes no number of an open draft. -/
theorem notDrafted {id : String} {written : Bool} (hmem : id ∈ s.hosts.host_ids)
    (hfree : Free s (.duplicate_host id written)) :
    NotDrafted s (host_name s.free_host_number) := by
  intro draft hdraft hnew heq
  obtain ⟨-, n, hn, hname⟩ := hs.draft draft hdraft hnew
  have hnumber : n = s.free_host_number := host_name_injective (hname.symm.trans heq)
  have hle : s.next_id ≤ s.free_host_number := le_next_free _ _
  exact hfree hmem draft hdraft hnew (by rw [hname]; congr 1; omega)

/-- An operation on a free number keeps the invariant. -/
theorem step (op : Op) (hfree : Free s op) : Inv (s.step op) := by
  have hsettled := hs.twin.settled
  cases op with
  | new_host => exact hs.open_new _ hfree
  | save_as_host title connection => exact hs.open_new _ hfree
  | edit_host id =>
    rw [Shell.step]
    split
    · exact hs
    · next host hhost =>
      refine ⟨hs.twin, fun draft h hid => ?_, fun draft h hnew => ?_⟩
      · cases Option.some.inj h
        have hmem := List.mem_of_find?_eq_some hhost
        exact hsettled.host_ids_ne (hid ▸ List.mem_map_of_mem hmem)
      · cases Option.some.inj h
        cases hnew
  | change_draft host =>
    refine ⟨hs.twin, fun draft h => ?_, fun draft h hnew => ?_⟩
    all_goals obtain ⟨before, hbefore, rfl⟩ := Option.map_eq_some_iff.mp h
    · exact hs.named before hbefore
    · exact hs.draft before hbefore hnew
  | save_draft written =>
    rw [Shell.step, Shell.save_draft]
    split
    · exact hs
    · next draft hdraft => exact of_closed (hs.twin.upsert (hs.named draft hdraft)) rfl
  | delete_draft written =>
    rw [Shell.step]
    split
    · exact hs
    · next draft hdraft => exact of_closed (hs.delete_host draft.host.id written).twin rfl
  | close_dialogs => exact of_closed hs.twin rfl
  | duplicate_host id written =>
    by_cases hmem : id ∈ s.hosts.host_ids
    · obtain ⟨⟨_, ⟨host, hid, hperm⟩, _⟩, htwin⟩ := hs.duplicate_host hmem written
      obtain ⟨hdialog, hnext⟩ := duplicate_host_frame s id written
      have hids : (s.duplicate_host id written).hosts.host_ids ~
          host_name s.free_host_number :: s.hosts.host_ids := hid ▸ hperm.map HostProfile.id
      refine ⟨htwin, fun draft h => hs.named draft (hdialog ▸ h), fun draft h hnew => ?_⟩
      obtain ⟨hfresh, n, hn, hname⟩ := hs.draft draft (hdialog ▸ h) hnew
      refine ⟨fun hin => ?_, n, hn.trans hnext, hname⟩
      rcases List.mem_cons.mp (hids.mem_iff.mp hin) with heq | hin
      · exact hs.notDrafted hmem hfree draft (hdialog ▸ h) hnew heq
      · exact hfresh hin
    · rw [Shell.step, Shell.duplicate_host, host_eq_none hmem]
      exact hs
  | delete_host id written => exact hs.delete_host id written
  | move_host host_id group index written =>
    refine hs.persist_normalized ?_ written
    exact host_ids_moved hsettled.toDistinct host_id group index
  | new_group written =>
    exact ⟨.refl (hsettled.push_group hfree (group_name_ne s.next_id)), hs.named,
      fun draft h hnew =>
        have ⟨hfresh, n, hn, hid⟩ := hs.draft draft h hnew
        ⟨hfresh, n, hn.trans (Nat.le_succ _), hid⟩⟩
  | toggle_group id written =>
    refine hs.persist (hsettled.group_mut ?_ id) (fun _ h => h) written
    exact fun _ => rfl
  | rename_group id name written =>
    refine hs.persist (hsettled.group_mut ?_ id) (fun _ h => h) written
    exact fun _ => rfl
  | save_group id name color written =>
    refine hs.persist_normalized ?_ written
    rfl
  | delete_group id written =>
    refine hs.persist_normalized ?_ written
    exact host_ids_without_group s.hosts id
  | open_tab => exact hs.of_subset hs.twin rfl (Nat.le_succ _) fun _ h => h
  | restart tabs => exact start s.disk tabs

end Inv

/-! ## Every run -/

/-- What an operation creates, it creates on a free number. -/
theorem Inv.created {s : Shell} (hs : Inv s) (op : Op) (hfree : Free s op) : Created s op := by
  have hstep := hs.step op hfree
  cases op with
  | save_draft written =>
    intro draft hdraft hnew
    have hfresh : draft.saved.id ∉ s.hosts.host_ids := (hs.draft draft hdraft hnew).1
    have hne : draft.saved.id ≠ "" := hs.named draft hdraft
    have hadds : AddsHost s.hosts (s.step (.save_draft written)).hosts draft.host.id := by
      have hhosts := hosts_save_host_new hs.twin.settled written hfresh hne
      rw [Shell.step, Shell.save_draft, hdraft]
      refine ⟨hfresh, ⟨_, stored_id s.hosts.group_ids draft.saved, ?_⟩,
        groups_save_host hs.twin.settled written hne⟩
      exact (List.Perm.of_eq hhosts).trans (List.perm_append_singleton _ _)
    exact ⟨hadds, hs.twin.addsHost hstep.twin hadds⟩
  | duplicate_host id written =>
    intro hmem
    obtain ⟨hadds, htwin⟩ := hs.duplicate_host hmem written
    exact ⟨hs.notDrafted hmem hfree, hadds, hs.twin.addsHost htwin hadds⟩
  | new_group written =>
    have hperm : s.hosts.groups ++ [s.next_group] ~ s.next_group :: s.hosts.groups :=
      List.perm_append_singleton _ _
    refine ⟨⟨hfree, ⟨s.next_group, rfl, hperm⟩, .refl _⟩, ?_, ⟨s.next_group, rfl, ?_⟩,
      hs.twin.hosts.symm⟩
    · exact hs.twin.group_ids ▸ hfree
    · rw [hs.twin.groups]
      exact hperm
  | _ => trivial

/-- A number in use is taken for a new host or group all the same, if not at once then when the
draft is saved. -/
theorem Inv.not_created {s : Shell} (hs : Inv s) {op : Op} (hused : ¬ Free s op) (written : Bool) :
    ¬ Guarded Shell.step Created s [op, .save_draft written] := by
  rintro ⟨hop, hsave, -⟩
  cases op with
  | new_host => exact hused (hsave _ rfl rfl).1.1
  | save_as_host title connection => exact hused (hsave _ rfl rfl).1.1
  | duplicate_host id w =>
    obtain ⟨hmem, hdrafted⟩ := Classical.not_imp.mp hused
    refine hdrafted fun draft hdraft hnew heq => ?_
    have hfree := (hs.draft draft hdraft hnew).1
    have hnumber : s.free_host_number = s.next_id := next_free_of_not_mem _ (heq ▸ hfree)
    exact (hop hmem).1 draft hdraft hnew (by rw [hnumber, heq])
  | new_group w => exact hused hop.1.1
  | _ => exact hused trivial

/-- **New hosts and groups**: in every run in which the numbers handed out are not in use, every
operation that creates a host or a group adds just that one; the first number in use that is handed
out ends this, as soon as the draft is saved. -/
theorem creates_fresh (disk : HostsDocument) (tabs : List ℕ) (ops : List Op)
    (hfree : Guarded Shell.step Free (Shell.start disk tabs) ops) :
    Guarded Shell.step Created (Shell.start disk tabs) ops ∧
      ∀ op written, ¬ Free (run Shell.step (Shell.start disk tabs) ops) op →
        ¬ Guarded Shell.step Created (Shell.start disk tabs)
          (ops ++ [op, .save_draft written]) := by
  have hstep (s : Shell) (op : Op) (hs : Inv s) (hok : Free s op) : Inv (s.step op) :=
    hs.step op hok
  refine ⟨guarded_of_inv hstep (fun s op hs hok => hs.created op hok) ops _ (.start disk tabs)
    hfree, fun op written hused h => ?_⟩
  have hs := run_inv hstep ops _ (.start disk tabs) hfree
  exact hs.not_created hused written ((guarded_append _ _ _ _ _).mp h).2

/-- A host, a group and a copy of the host, in a run that takes no number twice. -/
theorem creates_fresh_run :
    Guarded Shell.step Created (Shell.start {} [])
      [.new_host, .save_draft true, .new_group true, .duplicate_host "host-1" true] := by
  refine (creates_fresh {} [] [.new_host, .save_draft true, .new_group true,
    .duplicate_host "host-1" true] ⟨?_, trivial, ?_, fun _ _ h => ?_, trivial⟩).1
  · show host_name 1 ∉ (Shell.start {} []).hosts.host_ids
    decide
  · show group_name 1 ∉
      (((Shell.start {} []).step .new_host).step (.save_draft true)).hosts.group_ids
    decide
  · cases h

/-- Two new hosts, saved one after the other, have one id: the second replaces the first. -/
theorem second_replaces_first :
    let ops : List Op :=
      [.new_host, .change_draft { name := "A" }, .save_draft true,
        .new_host, .change_draft { name := "B" }, .save_draft true]
    ((run Shell.step (Shell.start {} []) (ops.take 3)).hosts.hosts.map HostProfile.name =
      ["Local terminal", "A"]) ∧
    ((run Shell.step (Shell.start {} []) ops).hosts.hosts.map HostProfile.name =
      ["Local terminal", "B"]) ∧
    ¬ Guarded Shell.step Created (Shell.start {} []) ops := by
  refine ⟨by decide, by decide, fun h => ?_⟩
  obtain ⟨-, -, -, -, -, hsave, -⟩ := h
  exact (hsave _ rfl rfl).1.1 (by decide)

end WaSSH.Hosts
