import WaSSH.Hosts.Fresh

/-!
# The two hosts documents

Every operation changes the document of the sidebar and the one the configuration holds, and not
always in the same way.

* `InStep`: the two are the same, and so is what a start reads back;
* `Normal`: a document normalising leaves alone;
* `Normal.duplicate_iff`: where a copy ends up in the two;
* **`in_step_iff`**: the two are the same in all of a run exactly when only a host that is last is
  duplicated and no group takes the id of another.
-/

namespace WaSSH.Hosts

open HostsDocument OrderList StepRun
open scoped List

/-! ## Documents normalising leaves alone -/

/-- A document in order whose hosts are normalised. -/
structure Normal (d : HostsDocument) : Prop extends Organised d where
  hosts_normalized : ∀ h ∈ d.hosts, h.normalized d.group_ids = h

/-- Repeats that stand side by side are the only ones, where there are none. -/
theorem adjacent_of_nodup {d : HostsDocument} (h : d.ungrouped_host_ids.Nodup) : Adjacent d := by
  intro x y _ _ hsub
  have hcount := hsub.count_le x
  rw [List.count_cons_self] at hcount
  have hone := List.nodup_iff_count_le_one.mp h x
  have hrest : 1 ≤ [y, x].count x := List.one_le_count_iff.mpr (by simp)
  omega

theorem normal_normalized {d : HostsDocument} (h : Adjacent d) : Normal d.normalized where
  toOrganised := (organised_normalized_iff d).mpr h
  hosts_normalized := (settled_normalized d).hosts_normalized

/-- A change of the hosts that leaves ids and groups alone. -/
theorem ungrouped_ids_map {f : HostProfile → HostProfile} {hosts : List HostProfile}
    (hf : ∀ h ∈ hosts, (f h).id = h.id ∧ (f h).group_id = h.group_id) :
    ungrouped_ids (hosts.map f) = ungrouped_ids hosts := by
  rw [ungrouped_ids, List.filter_map, List.map_map, ungrouped_ids]
  have hfilter : hosts.filter ((fun h => h.group_id.isNone) ∘ f) =
      hosts.filter fun h => h.group_id.isNone :=
    List.filter_congr fun h hmem => by rw [Function.comp_apply, (hf h hmem).2]
  rw [hfilter]
  exact List.map_congr_left fun h hmem => (hf h (List.mem_filter.mp hmem).1).1

theorem ungrouped_ids_filter (hosts : List HostProfile) (id : String) :
    ungrouped_ids (hosts.filter fun host => host.id ≠ id) =
      (ungrouped_ids hosts).filter (· ≠ id) := by
  rw [ungrouped_ids, ungrouped_ids, List.filter_map, List.filter_filter, List.filter_filter]
  congr 2
  funext h
  exact Bool.and_comm _ _

namespace Normal

variable {d : HostsDocument} (hd : Normal d)

include hd

theorem settled : Settled d := ⟨hd.toOrganised.distinct, hd.hosts_normalized⟩

theorem normalized_self : d.normalized = d := by
  rw [hd.toOrganised.normalized_eq, hd.settled.map_normalized]

theorem group_mut {change : HostGroup → HostGroup} (hchange : ∀ g, (change g).id = g.id)
    (id : String) : Normal (d.group_mut id change) := by
  have hids := group_ids_group_mut hd.settled.toDistinct hchange id
  exact { hd with
    group_ids_nodup := hids ▸ hd.group_ids_nodup
    group_ids_ne := hids ▸ hd.group_ids_ne
    group_known := hids ▸ hd.group_known
    hosts_normalized := (hd.settled.group_mut hchange id).hosts_normalized }

theorem push_group {group : HostGroup} (hnew : group.id ∉ d.group_ids) (hne : group.id ≠ "") :
    Normal { d with groups := d.groups ++ [group] } := by
  have hsettled := hd.settled.push_group hnew hne
  have hids : ({ d with groups := d.groups ++ [group] } : HostsDocument).group_ids =
      d.group_ids ++ [group.id] := List.map_append
  exact { hd with
    group_ids_nodup := hsettled.group_ids_nodup
    group_ids_ne := hsettled.group_ids_ne
    group_known := fun h hmem g hg => hids ▸ List.mem_append_left _ (hd.group_known h hmem g hg)
    hosts_normalized := hsettled.hosts_normalized }

theorem remove {id : String} {d' : HostsDocument} (h : d.remove id = some d') : Normal d' := by
  have hsettled := hd.settled.remove h
  have hlocal : id ≠ LOCAL_HOST_ID := fun hid => by
    simp [HostsDocument.remove, hid] at h
  obtain rfl := hd.settled.remove_eq h
  have hungrouped : ungrouped_ids ((d.hosts.filter fun host => host.id ≠ id).map
      (without_jump id)) = (ungrouped_ids d.hosts).filter (· ≠ id) := by
    rw [ungrouped_ids_map (fun h _ => ⟨without_jump_id id h, without_jump_group_id id h⟩),
      ungrouped_ids_filter]
  exact {
    host_ids_nodup := hsettled.host_ids_nodup
    host_ids_ne := hsettled.host_ids_ne
    group_ids_nodup := hd.group_ids_nodup
    group_ids_ne := hd.group_ids_ne
    has_local := by
      obtain ⟨a, ha, haid, hkind, hgroup⟩ := hd.has_local
      have hkeep : a ∈ d.hosts.filter fun host => host.id ≠ id :=
        List.mem_filter.mpr ⟨ha, by simpa [haid] using Ne.symm hlocal⟩
      exact ⟨_, List.mem_map_of_mem hkeep, by simpa using haid, by simpa using hkind,
        by simpa using hgroup⟩
    group_known := fun h hmem g hg => by
      obtain ⟨a, ha, rfl⟩ := List.mem_map.mp hmem
      exact hd.group_known a (List.mem_filter.mp ha).1 g (by simpa using hg)
    local_first := by
      obtain ⟨rest, hrest⟩ := List.head?_eq_some_iff.mp hd.local_first
      simp only [hrest]
      rw [List.filter_cons_of_pos (by simpa using Ne.symm hlocal), List.head?_cons]
    order_nodup := hd.order_nodup.filter _
    mem_order := fun other => by
      rw [hungrouped, List.mem_filter, List.mem_filter, hd.mem_order]
    hosts_normalized := hsettled.hosts_normalized }

/-! ### A host more, or changed -/

/-- One host more, wherever it stands, in order. -/
theorem adjoin {copy : HostProfile} {hosts : List HostProfile} {order : List String}
    (hhosts : hosts ~ copy :: d.hosts) (hfresh : copy.id ∉ d.host_ids) (hne : copy.id ≠ "")
    (hgroup : ∀ g, copy.group_id = some g → g ∈ d.group_ids)
    (horder : order ~ if copy.group_id.isNone then copy.id :: d.ungrouped_host_ids
      else d.ungrouped_host_ids)
    (hfirst : order.head? = some LOCAL_HOST_ID) :
    Organised { d with hosts, ungrouped_host_ids := order } := by
  have hids : hosts.map HostProfile.id ~ copy.id :: d.host_ids := hhosts.map HostProfile.id
  have hungrouped : ungrouped_ids hosts ~ if copy.group_id.isNone then
      copy.id :: ungrouped_ids d.hosts else ungrouped_ids d.hosts := by
    refine ((hhosts.filter _).map _).trans (List.Perm.of_eq ?_)
    rw [List.filter_cons]
    split <;> rfl
  exact {
    host_ids_nodup := hids.nodup_iff.mpr (List.nodup_cons.mpr ⟨hfresh, hd.host_ids_nodup⟩)
    host_ids_ne := fun h => (List.mem_cons.mp (hids.mem_iff.mp h)).elim
      (fun heq => hne heq.symm) hd.host_ids_ne
    group_ids_nodup := hd.group_ids_nodup
    group_ids_ne := hd.group_ids_ne
    has_local := by
      obtain ⟨a, ha, hrest⟩ := hd.has_local
      exact ⟨a, hhosts.mem_iff.mpr (List.mem_cons_of_mem _ ha), hrest⟩
    group_known := fun h hmem g hg => by
      rcases List.mem_cons.mp (hhosts.mem_iff.mp hmem) with rfl | hmem
      · exact hgroup g hg
      · exact hd.group_known h hmem g hg
    local_first := hfirst
    order_nodup := by
      rw [horder.nodup_iff]
      split
      · refine List.nodup_cons.mpr ⟨fun h => hfresh ?_, hd.order_nodup⟩
        exact mem_ids_of_ungrouped ((hd.mem_order _).mp h)
      · exact hd.order_nodup
    mem_order := fun id => by
      rw [horder.mem_iff, hungrouped.mem_iff]
      split
      · rw [List.mem_cons, List.mem_cons, hd.mem_order]
      · exact hd.mem_order id }

/-- The document with a new host at its end. -/
theorem upsert_of_not_mem {host : HostProfile} (hfresh : host.id ∉ d.host_ids) :
    d.upsert host = { d with
      hosts := d.hosts ++ [host]
      ungrouped_host_ids := if host.group_id.isNone then d.ungrouped_host_ids ++ [host.id]
        else d.ungrouped_host_ids } := by
  have hungrouped : ungrouped_ids (d.hosts ++ [host]) =
      ungrouped_ids d.hosts ++ if host.group_id.isNone then [host.id] else [] := by
    rw [ungrouped_ids, List.filter_append, List.map_append, List.filter_singleton]
    cases host.group_id <;> rfl
  have hkeep : d.ungrouped_host_ids.filter (· ∈ ungrouped_ids (d.hosts ++ [host])) =
      d.ungrouped_host_ids :=
    List.filter_eq_self.mpr fun id h => by
      simpa [hungrouped] using Or.inl ((hd.mem_order id).mp h)
  have horder : push_missing d.ungrouped_host_ids (ungrouped_ids (d.hosts ++ [host])) =
      if host.group_id.isNone then d.ungrouped_host_ids ++ [host.id] else d.ungrouped_host_ids := by
    have hpush := push_missing_of_subset fun x hx => (hd.mem_order x).mpr hx
    have hnot : host.id ∉ d.ungrouped_host_ids := fun h =>
      hfresh (mem_ids_of_ungrouped ((hd.mem_order _).mp h))
    rw [hungrouped]
    split
    · rw [push_missing_concat, hpush, push_missing_cons, if_neg hnot, push_missing_nil]
    · rw [List.append_nil, hpush]
  simp only [upsert, if_neg hfresh, hkeep, horder]

/-- A new host comes at the end, and normalising leaves the others as they were. -/
theorem upsert_new {host : HostProfile} (hfresh : host.id ∉ d.host_ids) (hne : host.id ≠ "")
    (hgroup : ∀ g, host.group_id = some g → g ∈ d.group_ids) :
    (d.upsert host).normalized =
      { d with
        hosts := d.hosts ++ [host.normalized d.group_ids]
        ungrouped_host_ids :=
          if host.group_id.isNone then d.ungrouped_host_ids ++ [host.id]
          else d.ungrouped_host_ids } := by
  have horganised : Organised { d with
      hosts := d.hosts ++ [host]
      ungrouped_host_ids := if host.group_id.isNone then d.ungrouped_host_ids ++ [host.id]
        else d.ungrouped_host_ids } := by
    refine hd.adjoin (List.perm_append_singleton host d.hosts) hfresh hne hgroup ?_ ?_
    · split
      · exact List.perm_append_singleton _ _
      · exact .refl _
    · obtain ⟨rest, hrest⟩ := List.head?_eq_some_iff.mp hd.local_first
      rw [hrest]
      split <;> rfl
  have hmap : (d.hosts ++ [host]).map (HostProfile.normalized d.group_ids) =
      d.hosts ++ [host.normalized d.group_ids] := by
    rw [List.map_append, hd.settled.map_normalized, List.map_singleton]
  rw [hd.upsert_of_not_mem hfresh, horganised.normalized_eq]
  exact congrArg (fun hosts => HostsDocument.mk d.groups _ d.ungrouped_collapsed hosts) hmap

/-- A host of the document, changed in what is not its id or group. -/
theorem upsert_same {existing host : HostProfile} (hmem : existing ∈ d.hosts)
    (hid : existing.id = host.id) (hgroup : host.group_id = existing.group_id)
    (hlocal : host.id ≠ LOCAL_HOST_ID) :
    (d.upsert host).normalized =
      { d with hosts :=
          d.hosts.map fun a => if a.id = host.id then host.normalized d.group_ids else a } := by
  have hin : host.id ∈ d.host_ids := hid ▸ List.mem_map_of_mem hmem
  have hne : host.id ≠ "" := fun h => hd.host_ids_ne (h ▸ hin)
  have hone (a : HostProfile) (ha : a ∈ d.hosts) (haid : a.id = host.id) : a = existing :=
    List.inj_on_of_nodup_map hd.host_ids_nodup ha hmem (haid.trans hid.symm)
  have hsame (a : HostProfile) (ha : a ∈ d.hosts) :
      (if a.id = host.id then host else a).id = a.id ∧
        (if a.id = host.id then host else a).group_id = a.group_id := by
    split
    · next haid => exact ⟨haid.symm, hone a ha haid ▸ hgroup⟩
    · exact ⟨rfl, rfl⟩
  have hungrouped : ungrouped_ids (d.upsert host).hosts = ungrouped_ids d.hosts := by
    rw [upsert_hosts_of_mem hd.settled.toDistinct hin]
    exact ungrouped_ids_map hsame
  have horder : (d.upsert host).ungrouped_host_ids = d.ungrouped_host_ids := by
    show push_missing (d.ungrouped_host_ids.filter (· ∈ ungrouped_ids (d.upsert host).hosts))
      (ungrouped_ids (d.upsert host).hosts) = _
    rw [hungrouped, List.filter_eq_self.mpr fun id h => by simpa using (hd.mem_order id).mp h]
    exact push_missing_of_subset fun x hx => (hd.mem_order x).mpr hx
  have hdistinct := distinct_upsert hd.settled.toDistinct hne
  have horganised : Organised (d.upsert host) := {
    hdistinct with
    has_local := by
      obtain ⟨a, ha, haid, hrest⟩ := hd.has_local
      refine ⟨a, ?_, haid, hrest⟩
      rw [upsert_hosts_of_mem hd.settled.toDistinct hin, List.mem_map]
      exact ⟨a, ha, if_neg (haid ▸ Ne.symm hlocal)⟩
    group_known := fun h hh g hg => by
      rw [upsert_hosts_of_mem hd.settled.toDistinct hin, List.mem_map] at hh
      obtain ⟨a, ha, rfl⟩ := hh
      rw [(hsame a ha).2] at hg
      exact hd.group_known a ha g hg
    local_first := horder ▸ hd.local_first
    order_nodup := horder ▸ hd.order_nodup
    mem_order := fun id => by rw [horder, hungrouped, hd.mem_order] }
  rw [horganised.normalized_eq]
  have hmap : (d.upsert host).hosts.map (HostProfile.normalized d.group_ids) =
      d.hosts.map fun a => if a.id = host.id then host.normalized d.group_ids else a := by
    rw [← upsert_replaces hd.settled hin hne, hdistinct.normalized_hosts]
    rfl
  show HostsDocument.mk d.groups (d.upsert host).ungrouped_host_ids d.ungrouped_collapsed
    ((d.upsert host).hosts.map (HostProfile.normalized d.group_ids)) = _
  rw [horder, hmap]

end Normal

/-! ## A copy in the two documents -/

theorem concat_eq_cons_iff {α : Type*} {l : List α} {a : α} (h : a ∉ l) :
    l ++ [a] = a :: l ↔ l = [] := by
  cases l with
  | nil => simp
  | cons b l =>
    simp only [List.cons_append, List.cons.injEq, reduceCtorEq, iff_false]
    rintro ⟨rfl, -⟩
    exact h List.mem_cons_self

section Duplicate

variable {s : Shell} (hd : Normal s.hosts) {pre post : List HostProfile} {original : HostProfile}
  (hsplit : s.hosts.hosts = pre ++ original :: post)
  (hfresh : host_name s.free_host_number ∉ s.hosts.host_ids) (written : Bool)

include hd hsplit

/-- Where the id of a copy goes in the order list. -/
theorem order_insert_after (copy : HostProfile) (hgroup : copy.group_id = original.group_id) :
    (original.group_id ≠ none ∧
      (s.hosts.insert_after original.id copy).ungrouped_host_ids = s.hosts.ungrouped_host_ids) ∨
    (original.group_id = none ∧ ∃ before after,
      s.hosts.ungrouped_host_ids = before ++ original.id :: after ∧
      (s.hosts.insert_after original.id copy).ungrouped_host_ids =
        before ++ original.id :: copy.id :: after) := by
  cases hg : original.group_id with
  | some g => exact .inl ⟨nofun, by simp [insert_after, hgroup, hg]⟩
  | none =>
    have hmem : original.id ∈ s.hosts.ungrouped_host_ids :=
      (hd.mem_order _).mpr (mem_ungrouped_ids.mpr ⟨original, by simp [hsplit], rfl, hg⟩)
    have hnodup : (s.hosts.ungrouped_host_ids.map id).Nodup := by simpa using hd.order_nodup
    obtain ⟨before, a, after, hsplit', ha, hbefore, -⟩ :=
      exists_split_key hnodup original.id (by simpa using hmem)
    obtain rfl : a = original.id := ha
    have hfind : (before ++ original.id :: after).findIdx? (· = original.id) =
        some before.length := findIdx?_split hbefore
    refine .inr ⟨rfl, before, after, hsplit', ?_⟩
    simp only [insert_after, hgroup, hg, Option.isNone_none, if_true, hsplit', hfind,
      Option.map_some, Option.getD_some, insertIdx_split]

include hfresh

theorem organised_insert_after :
    Organised (s.hosts.insert_after original.id (s.copy_of original)) := by
  have hhosts := hosts_insert_after hd.settled hsplit (s.copy_of original)
  have hperm : (s.hosts.insert_after original.id (s.copy_of original)).hosts ~
      s.copy_of original :: s.hosts.hosts := by
    rw [hhosts, hsplit]
    exact perm_insert_after _
  have horder := order_insert_after hd hsplit (s.copy_of original) rfl
  have hids : (s.hosts.insert_after original.id (s.copy_of original)).ungrouped_host_ids ~
      if (s.copy_of original).group_id.isNone then
        (s.copy_of original).id :: s.hosts.ungrouped_host_ids
      else s.hosts.ungrouped_host_ids := by
    rcases horder with ⟨hg, horder⟩ | ⟨hg, before, after, hbefore, horder⟩
    · rw [horder, if_neg (by simpa [Shell.copy_of] using hg)]
    · rw [horder, if_pos (by simp [Shell.copy_of, hg]), hbefore]
      exact perm_insert_after _
  have hfirst : (s.hosts.insert_after original.id (s.copy_of original)).ungrouped_host_ids.head? =
      some LOCAL_HOST_ID := by
    rcases horder with ⟨-, horder⟩ | ⟨-, before, after, hbefore, horder⟩
    · rw [horder, hd.local_first]
    · have hlocal := hd.local_first
      rw [hbefore] at hlocal
      rw [horder]
      cases before <;> exact hlocal
  exact hd.adjoin hperm hfresh (host_name_ne _)
    (fun g hg => hd.group_known original (by simp [hsplit]) g hg) hids hfirst

theorem order_duplicate_host :
    (s.duplicate_host original.id written).hosts.ungrouped_host_ids =
      (s.hosts.insert_after original.id (s.copy_of original)).ungrouped_host_ids := by
  have horganised := organised_insert_after hd hsplit hfresh
  have hnormal := normal_normalized (adjacent_of_nodup horganised.order_nodup)
  have hinsert := normalized_insert_after hd.settled hsplit (s.copy_of original) hfresh
    (host_name_ne _)
  have hmem : (s.copy_of original).normalized s.hosts.group_ids ∈
      (s.hosts.insert_after original.id (s.copy_of original)).normalized.hosts := by
    rw [hinsert]
    simp
  have hlocal : host_name s.free_host_number ≠ LOCAL_HOST_ID := fun h =>
    hfresh (h ▸ hd.settled.local_mem)
  have hgroup : ((s.copy_of original).normalized s.hosts.group_ids).group_id =
      (s.copy_of original).group_id :=
    horganised.normalized_group_id (h := s.copy_of original) (by
      rw [hosts_insert_after hd.settled hsplit]
      simp)
  have hupsert : ((s.hosts.insert_after original.id (s.copy_of original)).normalized.upsert
      (Shell.without_secrets (s.copy_of original))).normalized = _ :=
    hnormal.upsert_same hmem (HostProfile.normalized_id _ _) hgroup.symm hlocal
  have horder := congrArg HostsDocument.ungrouped_host_ids horganised.normalized_eq
  rw [Shell.duplicate_host, host_of_split hd.settled hsplit]
  exact (congrArg HostsDocument.ungrouped_host_ids hupsert).trans horder

/-- The saved document after a copy of the same document: the copy is at the end. -/
theorem config_duplicate_host (hsame : s.config = s.hosts) :
    (s.duplicate_host original.id written).config =
      { s.hosts with
        hosts := s.hosts.hosts ++ [stored s.hosts.group_ids (s.copy_of original)]
        ungrouped_host_ids :=
          if original.group_id.isNone then
            s.hosts.ungrouped_host_ids ++ [host_name s.free_host_number]
          else s.hosts.ungrouped_host_ids } := by
  rw [Shell.duplicate_host, host_of_split hd.settled hsplit]
  show (s.config.upsert (Shell.without_secrets (s.copy_of original))).normalized = _
  rw [hsame]
  exact hd.upsert_new hfresh (host_name_ne _) fun g hg =>
    hd.group_known original (by simp [hsplit]) g hg

theorem hosts_duplicate_host_iff :
    s.hosts.hosts ++ [stored s.hosts.group_ids (s.copy_of original)] =
      (s.duplicate_host original.id written).hosts.hosts ↔ post = [] := by
  have hnew : stored s.hosts.group_ids (s.copy_of original) ∉ post := fun h => hfresh <| by
    have hmem : stored s.hosts.group_ids (s.copy_of original) ∈ s.hosts.hosts := by
      simp [hsplit, h]
    have hid := List.mem_map_of_mem (f := HostProfile.id) hmem
    rwa [stored_id] at hid
  rw [hosts_duplicate_host hd.settled hsplit hfresh written, hsplit, List.append_assoc,
    List.append_cancel_left_eq, List.cons_append, List.cons_inj_right, concat_eq_cons_iff hnew]

theorem order_duplicate_host_iff :
    (if original.group_id.isNone then
        s.hosts.ungrouped_host_ids ++ [host_name s.free_host_number]
      else s.hosts.ungrouped_host_ids) =
        (s.duplicate_host original.id written).hosts.ungrouped_host_ids ↔
      (original.group_id = none → s.hosts.ungrouped_host_ids.getLast? = some original.id) := by
  rw [order_duplicate_host hd hsplit hfresh written]
  rcases order_insert_after hd hsplit (s.copy_of original) rfl with
    ⟨hg, horder⟩ | ⟨hg, before, after, hbefore, horder⟩
  · rw [horder, if_neg (by simpa using hg)]
    simp [hg]
  · have hnot : host_name s.free_host_number ∉ after := fun h => hfresh <|
      mem_ids_of_ungrouped ((hd.mem_order _).mp (by simp [hbefore, h]))
    have hid : original.id ∉ after := fun h => by
      have hnodup := hd.order_nodup
      rw [hbefore] at hnodup
      exact (List.nodup_cons.mp (List.nodup_append.mp hnodup).2.1).1 h
    rw [horder, if_pos (by simp [hg]), hbefore, List.append_assoc, List.append_cancel_left_eq,
      List.cons_append, List.cons_inj_right, getLast?_split_iff hid]
    exact (concat_eq_cons_iff hnot).trans (by simp [hg])

/-- **A copy** is at the same place in both documents exactly when its original is last. -/
theorem duplicate_host_iff (hsame : s.config = s.hosts) :
    (s.duplicate_host original.id written).config = (s.duplicate_host original.id written).hosts ↔
      post = [] ∧ (original.group_id = none →
        s.hosts.ungrouped_host_ids.getLast? = some original.id) := by
  have hgroups := groups_duplicate_host hd.settled hsplit hfresh written
  have hcollapsed : (s.duplicate_host original.id written).hosts.ungrouped_collapsed =
      s.hosts.ungrouped_collapsed := by
    rw [Shell.duplicate_host, host_of_split hd.settled hsplit]
    rfl
  rw [config_duplicate_host hd hsplit hfresh written hsame,
    ← hosts_duplicate_host_iff hd hsplit hfresh written,
    ← order_duplicate_host_iff hd hsplit hfresh written, and_comm]
  generalize (s.duplicate_host original.id written).hosts = t at hgroups hcollapsed
  obtain ⟨groups, order, collapsed, hosts⟩ := t
  simp only at hgroups hcollapsed
  subst hgroups hcollapsed
  simp only [HostsDocument.mk.injEq, true_and]

end Duplicate

/-! ## One operation -/

/-- The two documents are the same, and what a start makes of a file that holds them. -/
def InStep (s : Shell) : Prop := s.config = s.hosts ∧ s.hosts.normalized = s.hosts

/-- The operation does the same to both documents. -/
def Keeps (s : Shell) : Op → Prop
  | .duplicate_host id _ => id ∈ s.hosts.host_ids →
    s.hosts.host_ids.getLast? = some id ∧
      (id ∈ s.hosts.ungrouped_host_ids → s.hosts.ungrouped_host_ids.getLast? = some id)
  | .new_group _ => group_name s.next_id ∉ s.hosts.group_ids
  | _ => True

instance (s : Shell) (op : Op) : Decidable (Keeps s op) := by
  unfold Keeps
  split <;> infer_instance

/-- The operation writes `hosts.json`, and the write succeeds. -/
def Writes (s : Shell) : Op → Prop
  | .save_draft written => written ∧ s.dialog.isSome
  | .delete_draft written =>
    written ∧ ∃ draft, s.dialog = some draft ∧ (s.hosts.remove draft.host.id).isSome
  | .duplicate_host id written => written ∧ (s.hosts.host id).isSome
  | .delete_host id written => written ∧ (s.hosts.remove id).isSome
  | .move_host _ _ _ written | .new_group written | .toggle_group _ written
  | .rename_group _ _ written | .save_group _ _ _ written | .delete_group _ written => written
  | _ => False

theorem disk_eq_config {s : Shell} {op : Op} (h : Writes s op) :
    (s.step op).disk = (s.step op).config := by
  cases op with
  | save_draft written =>
    obtain ⟨hwritten, hdraft⟩ := h
    obtain ⟨draft, hdraft⟩ := Option.isSome_iff_exists.mp hdraft
    rw [Shell.step, Shell.save_draft, hdraft]
    exact if_pos hwritten
  | delete_draft written =>
    obtain ⟨hwritten, draft, hdraft, hremove⟩ := h
    obtain ⟨hosts, hremove⟩ := Option.isSome_iff_exists.mp hremove
    rw [Shell.step, hdraft]
    simp only [Shell.delete_host, hremove]
    exact if_pos hwritten
  | duplicate_host id written =>
    obtain ⟨hwritten, hhost⟩ := h
    obtain ⟨original, hhost⟩ := Option.isSome_iff_exists.mp hhost
    rw [Shell.step, Shell.duplicate_host, hhost]
    exact if_pos hwritten
  | delete_host id written =>
    obtain ⟨hwritten, hremove⟩ := h
    obtain ⟨hosts, hremove⟩ := Option.isSome_iff_exists.mp hremove
    rw [Shell.step, Shell.delete_host, hremove]
    exact if_pos hwritten
  | move_host _ _ _ _ | new_group _ | toggle_group _ _ | rename_group _ _ _ | save_group _ _ _ _
  | delete_group _ _ => exact if_pos h
  | _ => exact h.elim

theorem nodup_upsert {d : HostsDocument} (hd : d.ungrouped_host_ids.Nodup) (host : HostProfile) :
    (d.upsert host).ungrouped_host_ids.Nodup := nodup_push_missing (hd.filter _)

theorem nodup_moved {d : HostsDocument} (hd : d.ungrouped_host_ids.Nodup) (host_id : String)
    (group : Option String) (index : ℕ) :
    (d.moved host_id group index).ungrouped_host_ids.Nodup := by
  simp only [moved]
  split
  · rw [(List.perm_insertIdx _ _ (Nat.min_le_right _ _)).nodup_iff, List.nodup_cons]
    exact ⟨by simp, hd.filter _⟩
  · exact hd.filter _

theorem disk_duplicate_host (s : Shell) (id : String) (written : Bool) :
    (s.duplicate_host id written).disk = (s.duplicate_host id written).config ∨
      (s.duplicate_host id written).disk = s.disk := by
  rw [Shell.duplicate_host]
  split
  · exact .inr rfl
  · cases written
    · exact .inr rfl
    · exact .inl rfl

/-- The two documents are the same and in order, and so is what is on disk. -/
structure Agreed (s : Shell) : Prop where
  same : s.config = s.hosts
  normal : Normal s.hosts
  disk : Adjacent s.disk

namespace Agreed

/-- After a start. -/
theorem start {disk : HostsDocument} (h : Adjacent disk) (tabs : List ℕ) :
    Agreed (Shell.start disk tabs) := ⟨rfl, normal_normalized h, h⟩

variable {s : Shell} (hs : Agreed s)

include hs

theorem inStep : InStep s := ⟨hs.same, hs.normal.normalized_self⟩

theorem disk_set {value : HostsDocument} (h : Normal value) (written : Bool) :
    Adjacent (s.set value written).disk := by
  show Adjacent (if written then value else s.disk)
  split
  · exact adjacent_of_nodup h.order_nodup
  · exact hs.disk

theorem persist {d : HostsDocument} (hd : Normal d) (written : Bool) :
    Agreed ({ s with hosts := d }.persist_hosts written) := ⟨rfl, hd, hs.disk_set hd written⟩

theorem persist_normalized {d : HostsDocument} (hd : d.ungrouped_host_ids.Nodup) (written : Bool) :
    Agreed ({ s with hosts := d.normalized }.persist_hosts written) :=
  hs.persist (normal_normalized (adjacent_of_nodup hd)) written

theorem save_host (host : HostProfile) (written : Bool) : Agreed (s.save_host host written) := by
  have hnormal : Normal (s.hosts.upsert (Shell.without_secrets host)).normalized :=
    normal_normalized (adjacent_of_nodup (nodup_upsert hs.normal.order_nodup _))
  have hsame : (s.config.upsert (Shell.without_secrets host)).normalized =
      (s.hosts.upsert (Shell.without_secrets host)).normalized := by rw [hs.same]
  exact ⟨hsame, hnormal, hs.disk_set (hsame ▸ hnormal) written⟩

theorem delete_host (id : String) (written : Bool) : Agreed (s.delete_host id written) := by
  rw [Shell.delete_host]
  cases hremove : s.hosts.remove id with
  | none => exact hs
  | some hosts =>
    have hnormal := hs.normal.remove hremove
    have hconfig : ((s.config.remove id).getD s.config).normalized = hosts := by
      rw [hs.same, hremove]
      exact hnormal.normalized_self
    exact ⟨hconfig, hnormal, hs.disk_set (hconfig ▸ hnormal) written⟩

theorem keeps_duplicate_iff {id : String} (hmem : id ∈ s.hosts.host_ids) (written : Bool) :
    (s.duplicate_host id written).config = (s.duplicate_host id written).hosts ↔
      Keeps s (.duplicate_host id written) := by
  obtain ⟨pre, original, post, hsplit, rfl, -, hpost⟩ :=
    exists_split_key hs.normal.host_ids_nodup id hmem
  rw [duplicate_host_iff hs.normal hsplit (free_host_not_mem s) written hs.same]
  have hids : s.hosts.host_ids =
      pre.map HostProfile.id ++ original.id :: post.map HostProfile.id := by
    rw [host_ids, hsplit, List.map_append, List.map_cons]
  have hgroup : original.group_id = none ↔ original.id ∈ s.hosts.ungrouped_host_ids := by
    rw [hs.normal.mem_order, mem_ungrouped_ids]
    refine ⟨fun h => ⟨original, by simp [hsplit], rfl, h⟩, ?_⟩
    rintro ⟨h, hh, hid, hnone⟩
    have hsame : h = original :=
      List.inj_on_of_nodup_map hs.normal.host_ids_nodup hh (by simp [hsplit]) hid
    exact hsame ▸ hnone
  rw [Keeps, forall_prop_of_true hmem, hids, getLast?_split_iff hpost, List.map_eq_nil_iff, hgroup]

theorem duplicate_host {id : String} {written : Bool}
    (hkeeps : Keeps s (.duplicate_host id written)) : Agreed (s.duplicate_host id written) := by
  by_cases hmem : id ∈ s.hosts.host_ids
  · have hsame := (hs.keeps_duplicate_iff hmem written).mpr hkeeps
    have hnormal : Normal (s.duplicate_host id written).hosts := by
      obtain ⟨pre, original, post, hsplit, rfl, -⟩ :=
        exists_split_key hs.normal.host_ids_nodup id hmem
      have horganised := organised_insert_after hs.normal hsplit (free_host_not_mem s)
      have hinsert := normal_normalized (adjacent_of_nodup horganised.order_nodup)
      rw [Shell.duplicate_host, host_of_split hs.normal.settled hsplit]
      exact normal_normalized (adjacent_of_nodup (nodup_upsert hinsert.order_nodup _))
    refine ⟨hsame, hnormal, ?_⟩
    rcases disk_duplicate_host s id written with hdisk | hdisk
    · rw [hdisk, hsame]
      exact adjacent_of_nodup hnormal.order_nodup
    · rw [hdisk]
      exact hs.disk
  · rw [Shell.duplicate_host, host_eq_none hmem]
    exact hs

/-- An operation that does the same to both documents keeps them the same. -/
theorem step (op : Op) (hkeeps : Keeps s op) : Agreed (s.step op) := by
  have hnormal := hs.normal
  cases op with
  | new_host | save_as_host _ _ | change_draft _ | close_dialogs | open_tab =>
    exact ⟨hs.same, hs.normal, hs.disk⟩
  | edit_host id =>
    rw [Shell.step]
    split
    · exact hs
    · exact ⟨hs.same, hs.normal, hs.disk⟩
  | save_draft written =>
    rw [Shell.step, Shell.save_draft]
    split
    · exact hs
    · next draft _ =>
      obtain ⟨hsame, hnormal, hdisk⟩ := hs.save_host draft.saved written
      exact ⟨hsame, hnormal, hdisk⟩
  | delete_draft written =>
    rw [Shell.step]
    split
    · exact hs
    · next draft _ =>
      obtain ⟨hsame, hnormal, hdisk⟩ := hs.delete_host draft.host.id written
      exact ⟨hsame, hnormal, hdisk⟩
  | duplicate_host id written => exact hs.duplicate_host hkeeps
  | delete_host id written => exact hs.delete_host id written
  | move_host host_id group index written =>
    exact hs.persist_normalized (nodup_moved hnormal.order_nodup host_id group index) written
  | new_group written =>
    have hgroup : Normal { s.hosts with groups := s.hosts.groups ++ [s.next_group] } :=
      hnormal.push_group hkeeps (group_name_ne s.next_id)
    exact ⟨rfl, hgroup, hs.disk_set hgroup written⟩
  | toggle_group id written =>
    refine hs.persist (hnormal.group_mut ?_ id) written
    exact fun _ => rfl
  | rename_group id name written =>
    refine hs.persist (hnormal.group_mut ?_ id) written
    exact fun _ => rfl
  | save_group id name color written =>
    refine hs.persist_normalized ?_ written
    exact hnormal.order_nodup
  | delete_group id written =>
    refine hs.persist_normalized ?_ written
    exact hnormal.order_nodup
  | restart tabs => exact start hs.disk tabs

/-- The others do not. -/
theorem keeps_of_inStep {op : Op} (h : InStep (s.step op)) : Keeps s op := by
  cases op with
  | duplicate_host id written =>
    intro hmem
    exact (hs.keeps_duplicate_iff hmem written).mp h.1 hmem
  | new_group written =>
    intro hmem
    have hnodup : (s.hosts.group_ids ++ [group_name s.next_id]).Nodup := by
      have hdistinct := (distinct_normalized (s.step (.new_group written)).hosts).group_ids_nodup
      rw [h.2] at hdistinct
      change ((s.hosts.groups ++ [s.next_group]).map HostGroup.id).Nodup at hdistinct
      rwa [List.map_append] at hdistinct
    exact (List.nodup_append.mp hnodup).2.2 _ hmem _ (List.mem_singleton_self _) rfl
  | _ => trivial

end Agreed

/-! ## Every run -/

/-- **The two documents**: from a file whose order list has no repeats but adjacent ones, the
document of the sidebar is the one the configuration holds in every state of a run exactly when only
a host that is last is duplicated and no new group takes the id of another; and then every
successful write leaves a file that a start reads back as that document. -/
theorem in_step_iff {disk : HostsDocument} (hdisk : Adjacent disk) (tabs : List ℕ)
    (ops : List Op) :
    ((∀ t, Reached Shell.step (Shell.start disk tabs) ops t → InStep t) ↔
      Guarded Shell.step Keeps (Shell.start disk tabs) ops) ∧
    (Guarded Shell.step Keeps (Shell.start disk tabs) ops →
      Guarded Shell.step (fun s op => Writes s op →
        (s.step op).disk.normalized = (s.step op).hosts) (Shell.start disk tabs) ops) := by
  have hstart := Agreed.start hdisk tabs
  have hstep (s : Shell) (op : Op) (hs : Agreed s) (hok : Keeps s op) : Agreed (s.step op) :=
    hs.step op hok
  refine ⟨forall_reached_iff_of_inv (fun s hs => hs.inStep) hstep
    (fun s op hs h => hs.keeps_of_inStep h) ops _ hstart, fun hkeeps => ?_⟩
  refine guarded_of_inv hstep (fun s op hs hok hwrites => ?_) ops _ hstart hkeeps
  have hnext := hs.step op hok
  rw [disk_eq_config hwrites, hnext.same, hnext.normal.normalized_self]

/-- A host, a copy of it and its removal. -/
theorem in_step_iff_last :
    InStep (run Shell.step (Shell.start {} []) [.new_host, .save_draft true,
      .duplicate_host "host-1" true, .delete_host "host-1" true]) :=
  (in_step_iff (adjacent_of_nodup (by decide)) [] [.new_host, .save_draft true,
    .duplicate_host "host-1" true, .delete_host "host-1" true]).1.mpr (by decide) _
    ⟨_, List.prefix_rfl, rfl⟩

/-- The copy of the first of two hosts stands after its original in the sidebar, and at the end of
the saved document, where a start finds it. -/
theorem copy_moves :
    let ops : List Op :=
      [.new_host, .save_draft true, .open_tab, .new_host, .save_draft true,
        .duplicate_host "host-1" true]
    let t := run Shell.step (Shell.start {} []) ops
    t.hosts.ungrouped_host_ids = ["local", "host-1", "host-3", "host-2"] ∧
    t.config.ungrouped_host_ids = ["local", "host-1", "host-2", "host-3"] ∧
    (t.step (.restart [])).hosts.host_ids = ["local", "host-1", "host-2", "host-3"] ∧
    t.hosts.host_ids = ["local", "host-1", "host-3", "host-2"] ∧
    ¬ ∀ t, Reached Shell.step (Shell.start {} []) ops t → InStep t := by
  refine ⟨by decide, by decide, by decide, by decide, fun h => ?_⟩
  have hsame := congrArg HostsDocument.ungrouped_host_ids (h _ ⟨_, List.prefix_rfl, rfl⟩).1
  revert hsame
  decide

end WaSSH.Hosts
