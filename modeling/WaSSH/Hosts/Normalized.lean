import WaSSH.Hosts.Document

/-!
# Documents in order

`HostsDocument.normalized` is meant to leave every host and group once, and every ungrouped host
once in the order list.

* `Distinct`, `Organised`: a document without repeats, and one in order;
* **`Organised.normalized_eq`**: there `normalized` only goes over the hosts one by one;
* `Shown`, `Known`, `Adjacent`: the order lists whose repeats stand side by side;
* **`organised_normalized_iff`**: `normalized` puts a document in order, and is then idempotent,
  exactly when they do.
-/

namespace WaSSH.Hosts

open OrderList HostsDocument
open scoped List

/-! ## One host -/

namespace HostProfile

@[simp] theorem normalized_id (groups : List String) (h : HostProfile) :
    (h.normalized groups).id = h.id := by
  simp only [normalized]
  split <;> rfl

theorem normalized_group_id (groups : List String) (h : HostProfile) :
    (h.normalized groups).group_id =
      if h.is_local then none else h.group_id.filter (· ∈ groups) := by
  simp only [normalized]
  split <;> rfl

theorem normalized_normalized (groups : List String) (h : HostProfile) :
    (h.normalized groups).normalized groups = h.normalized groups := by
  obtain ⟨id, name, tags, group_id, connection, plugin_settings⟩ := h
  by_cases hl : id = LOCAL_HOST_ID
  · have hkind : ({ ({ connection with kind := .local } : ConnectionParams).normalized with
        kind := .local } : ConnectionParams) =
        ({ connection with kind := .local } : ConnectionParams).normalized := by
      have h := ConnectionParams.normalized_kind { connection with kind := .local }
      generalize ({ connection with kind := .local } : ConnectionParams).normalized = c at h ⊢
      cases c
      cases h
      rfl
    simp [normalized, is_local, hl, hkind, ConnectionParams.normalized_normalized]
  · have hgroup : (group_id.filter (· ∈ groups)).filter (· ∈ groups) =
        group_id.filter (· ∈ groups) := by
      cases group_id with
      | none => rfl
      | some g => by_cases hg : g ∈ groups <;> simp [Option.filter, hg]
    simp [normalized, is_local, hl, hgroup, ConnectionParams.normalized_normalized]

/-- The hosts normalising leaves alone. -/
theorem normalized_eq_self_iff {groups : List String} {h : HostProfile} :
    h.normalized groups = h ↔
      (h.is_local → h.connection.kind = .local ∧ h.group_id = none) ∧
      (∀ g, h.group_id = some g → g ∈ groups) ∧ h.connection.normalized = h.connection ∧
      (h.tags.filter fun tag => Text.trim tag.toList ≠ []) = h.tags ∧
      (h.plugin_settings.filter fun (_, values) => ¬ values.isEmpty) = h.plugin_settings := by
  constructor
  · intro heq
    have hgroup := normalized_group_id groups h
    have hkind : h.is_local → h.connection.kind = .local := fun hl => by
      rw [← heq]
      simp [normalized, hl]
    rw [heq] at hgroup
    have htags := congrArg HostProfile.tags heq
    have hplugins := congrArg HostProfile.plugin_settings heq
    have hconnection := congrArg HostProfile.connection heq
    refine ⟨fun hl => ⟨hkind hl, by rw [hgroup, if_pos hl]⟩, fun g hg => ?_, ?_, ?_, ?_⟩
    · rw [hgroup] at hg
      split at hg
      · cases hg
      · simpa using (Option.filter_eq_some_iff.mp hg).2
    · by_cases hl : h.is_local
      · have hset : { h.connection with kind := .local } = h.connection := by
          rw [← hkind hl]
        simpa [normalized, hl, hset] using hconnection
      · simpa [normalized, hl] using hconnection
    · by_cases hl : h.is_local <;> simpa [normalized, hl] using htags
    · by_cases hl : h.is_local <;> simpa [normalized, hl] using hplugins
  · rintro ⟨hlocal, hgroup, hconnection, htags, hplugins⟩
    obtain ⟨id, name, tags, group_id, connection, plugin_settings⟩ := h
    have hfilter : group_id.filter (· ∈ groups) = group_id := by
      cases group_id with
      | none => rfl
      | some g => simp [Option.filter, hgroup g rfl]
    simp only at hconnection htags hplugins
    by_cases hl : id = LOCAL_HOST_ID
    · obtain ⟨hkind, hnone⟩ := hlocal (by simp [is_local, hl])
      simp only at hkind hnone
      have hset : { connection with kind := .local } = connection := by
        rw [← hkind]
      simp only [normalized, is_local, hl, decide_true, if_true, hset, hconnection, htags, hplugins,
        hnone, Option.filter_none]
    · simp only [normalized, is_local, hl, decide_false, Bool.false_eq_true, if_false, hconnection,
        htags, hplugins, hfilter]

end HostProfile

/-! ## Documents without repeats -/

/-- Every host and group once, with an id, and the local terminal among the hosts. -/
structure Distinct (d : HostsDocument) : Prop where
  host_ids_nodup : d.host_ids.Nodup
  host_ids_ne : "" ∉ d.host_ids
  local_mem : LOCAL_HOST_ID ∈ d.host_ids
  group_ids_nodup : d.group_ids.Nodup
  group_ids_ne : "" ∉ d.group_ids

namespace Distinct

variable {d : HostsDocument} (hd : Distinct d)

include hd

theorem kept_hosts_eq : d.kept_hosts = d.hosts := by
  have hkeep : ∀ h ∈ d.hosts, decide (h.id ≠ "") = true := fun h hmem => by
    simpa using fun hid : h.id = "" => hd.host_ids_ne (hid ▸ List.mem_map_of_mem hmem)
  have hlocal : d.hosts.any HostProfile.is_local = true := by
    obtain ⟨h, hmem, hid⟩ := List.mem_map.mp hd.local_mem
    exact List.any_eq_true.mpr ⟨h, hmem, by simpa [HostProfile.is_local] using hid⟩
  rw [HostsDocument.kept_hosts, retain_first_eq_self hkeep hd.host_ids_nodup (by simp)]
  simp only [hlocal, if_true]

theorem kept_groups_eq : d.kept_groups = d.groups := by
  refine retain_first_eq_self (fun g hmem => ?_) hd.group_ids_nodup (by simp)
  simpa using fun hid : g.id = "" => hd.group_ids_ne (hid ▸ List.mem_map_of_mem hmem)

theorem normalized_groups : d.normalized.groups = d.groups := hd.kept_groups_eq

theorem normalized_hosts :
    d.normalized.hosts = d.hosts.map (HostProfile.normalized d.group_ids) := by
  rw [HostsDocument.normalized, hd.kept_hosts_eq, hd.kept_groups_eq, HostsDocument.group_ids]

end Distinct

/-! ## Documents in order -/

/-- Every host and group once, the local terminal in place, and an order list of exactly the hosts
outside any group. -/
structure Organised (d : HostsDocument) : Prop where
  host_ids_nodup : d.host_ids.Nodup
  host_ids_ne : "" ∉ d.host_ids
  group_ids_nodup : d.group_ids.Nodup
  group_ids_ne : "" ∉ d.group_ids
  has_local : ∃ h ∈ d.hosts, h.id = LOCAL_HOST_ID ∧ h.connection.kind = .local ∧ h.group_id = none
  group_known : ∀ h ∈ d.hosts, ∀ g, h.group_id = some g → g ∈ d.group_ids
  local_first : d.ungrouped_host_ids.head? = some LOCAL_HOST_ID
  order_nodup : d.ungrouped_host_ids.Nodup
  mem_order : ∀ id, id ∈ d.ungrouped_host_ids ↔ id ∈ ungrouped_ids d.hosts

theorem mem_ungrouped_ids {hosts : List HostProfile} {id : String} :
    id ∈ ungrouped_ids hosts ↔ ∃ h ∈ hosts, h.id = id ∧ h.group_id = none := by
  simp only [ungrouped_ids, List.mem_map, List.mem_filter, Option.isNone_iff_eq_none]
  constructor
  · rintro ⟨h, ⟨hmem, hgroup⟩, rfl⟩
    exact ⟨h, hmem, rfl, hgroup⟩
  · rintro ⟨h, hmem, rfl, hgroup⟩
    exact ⟨h, ⟨hmem, hgroup⟩, rfl⟩

/-! ## The order list -/

section Order

variable {hosts : List HostProfile} (hnodup : (hosts.map HostProfile.id).Nodup)

theorem mem_ids_of_ungrouped {id : String} (h : id ∈ ungrouped_ids hosts) :
    id ∈ hosts.map HostProfile.id := by
  obtain ⟨a, ha, rfl, -⟩ := mem_ungrouped_ids.mp h
  exact List.mem_map_of_mem ha

include hnodup in
/-- The grouped hosts are the others. -/
theorem mem_grouped_iff {id : String} (h : id ∈ hosts.map HostProfile.id) :
    id ∈ (hosts.filter fun host => host.group_id.isSome).map HostProfile.id ↔
      id ∉ ungrouped_ids hosts := by
  obtain ⟨a, ha, rfl⟩ := List.mem_map.mp h
  have hsame (b : HostProfile) (hb : b ∈ hosts) (hid : b.id = a.id) : b = a :=
    List.inj_on_of_nodup_map hnodup hb ha hid
  rw [mem_ungrouped_ids, List.mem_map]
  constructor
  · rintro ⟨b, hb, hid⟩ ⟨c, hc, hcid, hnone⟩
    obtain ⟨hb, hsome⟩ := List.mem_filter.mp hb
    rw [hsame b hb hid] at hsome
    rw [hsame c hc hcid] at hnone
    rw [hnone] at hsome
    cases hsome
  · intro hnot
    refine ⟨a, List.mem_filter.mpr ⟨ha, ?_⟩, rfl⟩
    by_contra hnone
    exact hnot ⟨a, ha, rfl, by simpa using hnone⟩

include hnodup in
theorem mem_normalized_order (hlocal : LOCAL_HOST_ID ∈ ungrouped_ids hosts)
    (order : List String) {id : String} :
    id ∈ normalized_order hosts order ↔ id ∈ ungrouped_ids hosts := by
  simp only [normalized_order, List.mem_cons, List.mem_filter, mem_push_missing, mem_destutter,
    decide_eq_true_eq]
  constructor
  · rintro (rfl | ⟨⟨⟨-, hknown⟩ | hmem, hgroup⟩, -⟩)
    · exact hlocal
    · by_contra hnot
      exact hgroup ((mem_grouped_iff hnodup hknown).mpr hnot)
    · exact hmem
  · intro h
    by_cases hid : id = LOCAL_HOST_ID
    · exact .inl hid
    · refine .inr ⟨⟨.inr h, fun hgroup => ?_⟩, hid⟩
      exact (mem_grouped_iff hnodup (mem_ids_of_ungrouped h)).mp hgroup h

include hnodup in
/-- The entries of an ungrouped host in the order list, the local terminal apart. -/
theorem count_normalized_order (order : List String) {id : String}
    (h : id ∈ ungrouped_ids hosts) (hid : id ≠ LOCAL_HOST_ID) :
    (normalized_order hosts order).count id =
      if id ∈ order then
        ((order.filter (· ∈ hosts.map HostProfile.id)).destutter (· ≠ ·)).count id
      else 1 := by
  have hknown := mem_ids_of_ungrouped h
  have hgroup := fun hgroup => (mem_grouped_iff hnodup hknown).mp hgroup h
  rw [normalized_order, List.count_cons_of_ne (Ne.symm hid), List.count_filter (by simpa using hid),
    List.count_filter (by simpa using hgroup), count_push_missing, if_pos h]
  simp only [mem_destutter, List.mem_filter, hknown, decide_true, and_true]

include hnodup in
/-- **The order list** has no host twice exactly when, of an ungrouped host, no other host stood
between two of its entries. -/
theorem nodup_normalized_order_iff (hlocal : LOCAL_HOST_ID ∈ ungrouped_ids hosts)
    (order : List String) :
    (normalized_order hosts order).Nodup ↔
      ∀ x ∈ ungrouped_ids hosts, x ≠ LOCAL_HOST_ID →
        ∀ y ∈ hosts.map HostProfile.id, [x, y, x] <+ order → y = x := by
  rw [List.nodup_iff_count_le_one]
  have hthree (x : String) (hx : x ∈ ungrouped_ids hosts) :
      (∀ y ∈ hosts.map HostProfile.id, [x, y, x] <+ order → y = x) ↔
        ((order.filter (· ∈ hosts.map HostProfile.id)).destutter (· ≠ ·)).count x ≤ 1 := by
    rw [count_destutter_le_one_iff]
    simp only [sublist_filter_iff_three, decide_eq_true_eq, mem_ids_of_ungrouped hx, true_and]
    exact ⟨fun h y hy => h y hy.2 hy.1, fun h y hy hsub => h y ⟨hsub, hy⟩⟩
  constructor
  · intro h x hx hne
    rw [hthree x hx]
    by_cases hmem : x ∈ order
    · have := h x
      rwa [count_normalized_order hnodup order hx hne, if_pos hmem] at this
    · rw [List.count_eq_zero_of_not_mem]
      · omega
      · rw [mem_destutter, List.mem_filter]
        exact fun h => hmem h.1
  · intro h x
    by_cases hx : x ∈ ungrouped_ids hosts
    · by_cases hne : x = LOCAL_HOST_ID
      · subst hne
        rw [normalized_order, List.count_cons_self, List.count_eq_zero_of_not_mem]
        simp
      · rw [count_normalized_order hnodup order hx hne]
        split
        · exact (hthree x hx).mp (h x hx hne)
        · omega
    · rw [List.count_eq_zero_of_not_mem (mt (mem_normalized_order hnodup hlocal order).mp hx)]
      omega

include hnodup in
/-- An order list of exactly the ungrouped hosts, the local terminal first, is left alone. -/
theorem normalized_order_eq_self {order : List String}
    (hfirst : order.head? = some LOCAL_HOST_ID) (horder : order.Nodup)
    (hmem : ∀ id, id ∈ order ↔ id ∈ ungrouped_ids hosts) :
    normalized_order hosts order = order := by
  have hknown : order.filter (· ∈ hosts.map HostProfile.id) = order :=
    List.filter_eq_self.mpr fun id h => by
      simpa using mem_ids_of_ungrouped ((hmem id).mp h)
  have hpush : push_missing order (ungrouped_ids hosts) = order :=
    push_missing_of_subset fun id h => (hmem id).mpr h
  have hgroup : order.filter (· ∉ (hosts.filter fun host => host.group_id.isSome).map
      HostProfile.id) = order := by
    refine List.filter_eq_self.mpr fun id h => ?_
    have h := (hmem id).mp h
    simpa using fun hg => (mem_grouped_iff hnodup (mem_ids_of_ungrouped h)).mp hg h
  rw [normalized_order]
  simp only [hknown, destutter_of_nodup horder, hpush, hgroup]
  cases order with
  | nil => cases hfirst
  | cons first rest =>
    obtain rfl : first = LOCAL_HOST_ID := by simpa using hfirst
    have hrest := (List.nodup_cons.mp horder).1
    rw [List.filter_cons_of_neg (by simp), List.filter_eq_self.mpr]
    intro id hid
    simpa using fun h : id = LOCAL_HOST_ID => hrest (h ▸ hid)

end Order

/-! ## The whole document -/

namespace Organised

variable {d : HostsDocument} (hd : Organised d)

include hd

theorem distinct : Distinct d where
  host_ids_nodup := hd.host_ids_nodup
  host_ids_ne := hd.host_ids_ne
  local_mem :=
    let ⟨_, hmem, hid, _⟩ := hd.has_local
    hid ▸ List.mem_map_of_mem hmem
  group_ids_nodup := hd.group_ids_nodup
  group_ids_ne := hd.group_ids_ne

/-- The pass over a host of a document in order keeps it where it is. -/
theorem normalized_group_id {h : HostProfile} (hmem : h ∈ d.hosts) :
    (h.normalized d.group_ids).group_id = h.group_id := by
  rw [HostProfile.normalized_group_id]
  split
  · next hl =>
    obtain ⟨a, ha, haid, -, hnone⟩ := hd.has_local
    have hid : h.id = LOCAL_HOST_ID := by simpa [HostProfile.is_local] using hl
    rw [List.inj_on_of_nodup_map hd.host_ids_nodup hmem ha (hid.trans haid.symm), hnone]
  · cases hg : h.group_id with
    | none => rfl
    | some g => simp [Option.filter, hd.group_known h hmem g hg]

/-- **In a document in order**, `normalized` only goes over the hosts one by one. -/
theorem normalized_eq :
    d.normalized = { d with hosts := d.hosts.map (HostProfile.normalized d.group_ids) } := by
  have hids : (d.hosts.map (HostProfile.normalized d.group_ids)).map HostProfile.id =
      d.host_ids := by
    simp [HostsDocument.host_ids, Function.comp_def]
  have hungrouped : ungrouped_ids (d.hosts.map (HostProfile.normalized d.group_ids)) =
      ungrouped_ids d.hosts := by
    rw [ungrouped_ids, List.filter_map, List.map_map]
    have hfilter : d.hosts.filter ((fun h => h.group_id.isNone) ∘
        HostProfile.normalized d.group_ids) = d.hosts.filter fun h => h.group_id.isNone :=
      List.filter_congr fun h hmem => by simp [hd.normalized_group_id hmem]
    rw [hfilter]
    simp [ungrouped_ids, Function.comp_def]
  have horder : normalized_order (d.hosts.map (HostProfile.normalized d.group_ids))
      d.ungrouped_host_ids = d.ungrouped_host_ids :=
    normalized_order_eq_self (by rw [hids]; exact hd.host_ids_nodup) hd.local_first hd.order_nodup
      (by rw [hungrouped]; exact hd.mem_order)
  rw [HostsDocument.normalized, hd.distinct.kept_hosts_eq, hd.distinct.kept_groups_eq]
  exact congrArg (fun order => HostsDocument.mk d.groups order d.ungrouped_collapsed _) horder

/-- The sidebar shows every ungrouped host once. -/
theorem ungrouped_perm : d.ungrouped ~ d.hosts.filter fun h => h.group_id.isNone := by
  have hunique : (ungrouped_ids d.hosts).Nodup :=
    hd.host_ids_nodup.sublist (List.filter_sublist.map _)
  have hperm : d.ungrouped_host_ids ~ ungrouped_ids d.hosts :=
    (List.perm_ext_iff_of_nodup hd.order_nodup hunique).mpr hd.mem_order
  refine (hperm.filterMap d.host).trans (List.Perm.of_eq ?_)
  rw [ungrouped_ids, List.filterMap_map]
  have hfind : ∀ h ∈ d.hosts.filter (fun h => h.group_id.isNone),
      (d.host ∘ HostProfile.id) h = some h := fun h hmem =>
    (find?_key_eq_some_iff hd.host_ids_nodup).mpr ⟨(List.mem_filter.mp hmem).1, rfl⟩
  rw [List.filterMap_congr hfind, List.filterMap_some]

end Organised

/-! ## What `normalized` keeps -/

/-- The ids of the hosts of the normalised document. -/
def Known (d : HostsDocument) (id : String) : Prop :=
  id = LOCAL_HOST_ID ∨ id ≠ "" ∧ id ∈ d.host_ids

/-- The host is shown outside any group: it is in none that exists. -/
def Shown (d : HostsDocument) (id : String) : Prop :=
  id ≠ LOCAL_HOST_ID ∧ id ≠ "" ∧
    ∃ h, d.host id = some h ∧ ∀ g, h.group_id = some g → g = "" ∨ g ∉ d.group_ids

/-- Between two entries of an ungrouped host, the order list names no other host. -/
def Adjacent (d : HostsDocument) : Prop :=
  ∀ x y, Shown d x → Known d y → [x, y, x] <+ d.ungrouped_host_ids → y = x

section Kept

variable (d : HostsDocument)

theorem mem_kept_group_ids {g : String} :
    g ∈ d.kept_groups.map HostGroup.id ↔ g ≠ "" ∧ g ∈ d.group_ids := by
  rw [HostsDocument.kept_groups, mem_keys_retain_first, HostsDocument.group_ids, List.mem_map]
  simp only [List.not_mem_nil, not_false_eq_true, true_and, decide_eq_true_eq]
  constructor
  · rintro ⟨a, ha, hne, rfl⟩
    exact ⟨hne, a, ha, rfl⟩
  · rintro ⟨hne, a, ha, rfl⟩
    exact ⟨a, ha, hne, rfl⟩

/-- The first host of each id, before the local terminal is added. -/
theorem mem_first_host_ids {id : String} :
    id ∈ (retain_first HostProfile.id (fun host => host.id ≠ "") [] d.hosts).map HostProfile.id ↔
      id ≠ "" ∧ id ∈ d.host_ids := by
  rw [mem_keys_retain_first, HostsDocument.host_ids, List.mem_map]
  simp only [List.not_mem_nil, not_false_eq_true, true_and, decide_eq_true_eq]
  constructor
  · rintro ⟨a, ha, hne, rfl⟩
    exact ⟨hne, a, ha, rfl⟩
  · rintro ⟨hne, a, ha, rfl⟩
    exact ⟨a, ha, hne, rfl⟩

theorem kept_hosts_cases :
    (d.kept_hosts = retain_first HostProfile.id (fun host => host.id ≠ "") [] d.hosts ∧
      LOCAL_HOST_ID ∈ d.host_ids) ∨
    (d.kept_hosts =
        .local :: retain_first HostProfile.id (fun host => host.id ≠ "") [] d.hosts ∧
      LOCAL_HOST_ID ∉ d.host_ids) := by
  have hany : (retain_first HostProfile.id (fun host => host.id ≠ "") [] d.hosts).any
      HostProfile.is_local ↔ LOCAL_HOST_ID ∈ d.host_ids := by
    have h : LOCAL_HOST_ID ∈ _ ↔ _ := mem_first_host_ids d
    rw [and_iff_right (by decide), List.mem_map] at h
    rw [← h, List.any_eq_true]
    simp only [HostProfile.is_local, decide_eq_true_eq]
  rw [HostsDocument.kept_hosts]
  by_cases h : LOCAL_HOST_ID ∈ d.host_ids
  · exact .inl ⟨if_pos (hany.mpr h), h⟩
  · exact .inr ⟨if_neg fun hl => h (hany.mp hl), h⟩

theorem mem_kept_host_ids {id : String} : id ∈ d.kept_hosts.map HostProfile.id ↔ Known d id := by
  rcases kept_hosts_cases d with ⟨heq, hlocal⟩ | ⟨heq, -⟩
  · rw [heq, mem_first_host_ids, Known]
    refine ⟨.inr, ?_⟩
    rintro (rfl | h)
    · exact ⟨by decide, hlocal⟩
    · exact h
  · rw [heq, List.map_cons, List.mem_cons, mem_first_host_ids, Known]
    rfl

theorem nodup_kept_host_ids : (d.kept_hosts.map HostProfile.id).Nodup := by
  rcases kept_hosts_cases d with ⟨heq, -⟩ | ⟨heq, hlocal⟩
  · rw [heq]
    exact nodup_keys_retain_first
  · rw [heq, List.map_cons, List.nodup_cons, mem_first_host_ids]
    exact ⟨fun h => hlocal h.2, nodup_keys_retain_first⟩

/-- The host kept of an id is its first one. -/
theorem mem_kept_hosts_iff {id : String} (hid : id ≠ LOCAL_HOST_ID) {h : HostProfile} :
    h ∈ d.kept_hosts ∧ h.id = id ↔ id ≠ "" ∧ d.host id = some h := by
  have hfirst : d.kept_hosts.find? (fun host => host.id = id) =
      d.hosts.find? fun host => host.id ≠ "" ∧ host.id = id := by
    have hkept : (retain_first HostProfile.id (fun host => host.id ≠ "") [] d.hosts).find?
        (fun host => host.id = id) = _ := find?_retain_first (by simp)
    simp only [decide_eq_true_eq] at hkept
    rcases kept_hosts_cases d with ⟨heq, -⟩ | ⟨heq, -⟩
    · rw [heq, hkept]
    · have hlocal : HostProfile.local.id ≠ id := Ne.symm hid
      rw [heq, List.find?_cons_of_neg (by simpa using hlocal), hkept]
  rw [← find?_key_eq_some_iff (nodup_kept_host_ids d), hfirst, HostsDocument.host]
  by_cases hne : id = ""
  · subst hne
    simp only [ne_eq, not_true_eq_false, false_and, iff_false]
    intro h
    have := List.find?_some h
    simp at this
  · rw [and_iff_right hne]
    have hpred : (fun host : HostProfile => decide (host.id ≠ "" ∧ host.id = id)) =
        fun host => decide (host.id = id) := by
      funext host
      by_cases h : host.id = id
      · simp [h, hne]
      · simp [h]
    rw [hpred]

end Kept

/-! ## What `normalized` puts in order -/

section Normalized

variable (d : HostsDocument)

@[simp] theorem group_ids_normalized :
    d.normalized.group_ids = d.kept_groups.map HostGroup.id := rfl

theorem host_ids_normalized : d.normalized.host_ids = d.kept_hosts.map HostProfile.id := by
  simp [HostsDocument.host_ids, HostsDocument.normalized, Function.comp_def]

theorem mem_host_ids_normalized {id : String} : id ∈ d.normalized.host_ids ↔ Known d id := by
  rw [host_ids_normalized, mem_kept_host_ids]

theorem mem_hosts_normalized {h : HostProfile} :
    h ∈ d.normalized.hosts ↔
      ∃ a ∈ d.kept_hosts, a.normalized (d.kept_groups.map HostGroup.id) = h :=
  List.mem_map

theorem exists_local_normalized :
    ∃ h ∈ d.normalized.hosts,
      h.id = LOCAL_HOST_ID ∧ h.connection.kind = .local ∧ h.group_id = none := by
  obtain ⟨a, ha, hid⟩ := List.mem_map.mp ((mem_kept_host_ids d).mpr (.inl rfl))
  have hl : a.is_local = true := by simpa [HostProfile.is_local] using hid
  refine ⟨_, (mem_hosts_normalized d).mpr ⟨a, ha, rfl⟩, ?_, ?_, ?_⟩
  · rw [HostProfile.normalized_id, hid]
  · simp [HostProfile.normalized, hl]
  · rw [HostProfile.normalized_group_id, if_pos hl]

theorem group_known_normalized {h : HostProfile} (hmem : h ∈ d.normalized.hosts) {g : String}
    (hg : h.group_id = some g) : g ∈ d.normalized.group_ids := by
  obtain ⟨a, -, rfl⟩ := (mem_hosts_normalized d).mp hmem
  rw [HostProfile.normalized_group_id] at hg
  split at hg
  · cases hg
  · have := (Option.filter_eq_some_iff.mp hg).2
    simpa using this

/-- The hosts outside any group are the local terminal and those the document shows there. -/
theorem mem_ungrouped_ids_normalized {id : String} :
    id ∈ ungrouped_ids d.normalized.hosts ↔ id = LOCAL_HOST_ID ∨ Shown d id := by
  by_cases hid : id = LOCAL_HOST_ID
  · subst hid
    obtain ⟨h, hmem, hlocal, -, hgroup⟩ := exists_local_normalized d
    exact iff_of_true (mem_ungrouped_ids.mpr ⟨h, hmem, hlocal, hgroup⟩) (.inl rfl)
  · have hgroup (a : HostProfile) (ha : a.id = id) :
        (a.normalized (d.kept_groups.map HostGroup.id)).group_id = none ↔
          ∀ g, a.group_id = some g → g = "" ∨ g ∉ d.group_ids := by
      have hl : a.is_local = false := by simpa [HostProfile.is_local, ha] using hid
      rw [HostProfile.normalized_group_id, hl, if_neg Bool.false_ne_true, Option.filter_eq_none_iff]
      refine forall₂_congr fun g _ => ?_
      rw [decide_eq_true_eq, mem_kept_group_ids, not_and_or, not_not]
    rw [mem_ungrouped_ids, or_iff_right hid, Shown, and_iff_right hid]
    constructor
    · rintro ⟨h, hmem, hhid, hnone⟩
      obtain ⟨a, ha, rfl⟩ := (mem_hosts_normalized d).mp hmem
      rw [HostProfile.normalized_id] at hhid
      obtain ⟨hne, hfind⟩ := (mem_kept_hosts_iff d hid).mp ⟨ha, hhid⟩
      exact ⟨hne, a, hfind, (hgroup a hhid).mp hnone⟩
    · rintro ⟨hne, a, hfind, hnone⟩
      obtain ⟨ha, hhid⟩ := (mem_kept_hosts_iff d hid).mpr ⟨hne, hfind⟩
      exact ⟨_, (mem_hosts_normalized d).mpr ⟨a, ha, rfl⟩, by rw [HostProfile.normalized_id, hhid],
        (hgroup a hhid).mpr hnone⟩

theorem local_mem_ungrouped_ids : LOCAL_HOST_ID ∈ ungrouped_ids d.normalized.hosts :=
  (mem_ungrouped_ids_normalized d).mpr (.inl rfl)

/-- **Every host and group** is there once. -/
theorem distinct_normalized : Distinct d.normalized where
  host_ids_nodup := by
    rw [host_ids_normalized]
    exact nodup_kept_host_ids d
  host_ids_ne := by
    rw [mem_host_ids_normalized]
    rintro (h | h)
    · exact absurd h (by decide)
    · exact h.1 rfl
  local_mem := (mem_host_ids_normalized d).mpr (.inl rfl)
  group_ids_nodup := nodup_keys_retain_first
  group_ids_ne := by
    rw [group_ids_normalized, mem_kept_group_ids]
    exact fun h => h.1 rfl

/-- Everything but the repeats of the order list is put in order. -/
theorem organised_normalized_iff_nodup :
    Organised d.normalized ↔ d.normalized.ungrouped_host_ids.Nodup := by
  refine ⟨Organised.order_nodup, fun horder => ?_⟩
  have hd := distinct_normalized d
  exact {
    host_ids_nodup := hd.host_ids_nodup
    host_ids_ne := hd.host_ids_ne
    group_ids_nodup := hd.group_ids_nodup
    group_ids_ne := hd.group_ids_ne
    has_local := exists_local_normalized d
    group_known := fun h hmem g hg => group_known_normalized d hmem hg
    local_first := rfl
    order_nodup := horder
    mem_order := fun id => mem_normalized_order hd.host_ids_nodup (local_mem_ungrouped_ids d)
      d.ungrouped_host_ids }

/-- **`normalized` puts a document in order** exactly when the repeats in its order list stand side
by side. -/
theorem organised_normalized_iff : Organised d.normalized ↔ Adjacent d := by
  have horder := nodup_normalized_order_iff (distinct_normalized d).host_ids_nodup
    (local_mem_ungrouped_ids d) d.ungrouped_host_ids
  rw [organised_normalized_iff_nodup]
  refine Iff.trans horder ?_
  constructor
  · intro h x y hx hy hsub
    exact h x ((mem_ungrouped_ids_normalized d).mpr (.inr hx)) hx.1 y
      ((mem_host_ids_normalized d).mpr hy) hsub
  · intro h x hx hne y hy hsub
    rcases (mem_ungrouped_ids_normalized d).mp hx with rfl | hshown
    · exact absurd rfl hne
    · exact h x y hshown ((mem_host_ids_normalized d).mp hy) hsub

/-- Normalising a document in order twice is normalising it once. -/
theorem normalized_normalized_of_organised (h : Organised d.normalized) :
    d.normalized.normalized = d.normalized := by
  rw [h.normalized_eq]
  have hhosts : d.normalized.hosts.map (HostProfile.normalized d.normalized.group_ids) =
      d.normalized.hosts := by
    show (d.kept_hosts.map _).map _ = d.kept_hosts.map _
    rw [List.map_map]
    exact List.map_congr_left fun a _ => a.normalized_normalized _
  rw [hhosts]

/-- **Documents in order**: `normalized` leaves every host and group once and every ungrouped host
once in the order list, and is idempotent, exactly when no other host stands between two entries of
an ungrouped host in the order list it is given. -/
theorem normalized_in_order_iff :
    (Organised d.normalized ∧
      (d.normalized.ungrouped ~ d.normalized.hosts.filter fun h => h.group_id.isNone) ∧
      d.normalized.normalized = d.normalized) ↔ Adjacent d := by
  rw [← organised_normalized_iff]
  exact ⟨And.left, fun h => ⟨h, h.ungrouped_perm, normalized_normalized_of_organised d h⟩⟩

/-- A host listed twice around another one is still listed twice, and so shown twice; around a host
that is in a group, it is so until the document is normalised again. -/
theorem normalized_repeats :
    let twice : HostsDocument :=
      { hosts := [{ id := "a" }, { id := "b" }], ungrouped_host_ids := ["a", "b", "a"] }
    let around : HostsDocument :=
      { groups := [{ id := "g", name := "G" }]
        hosts := [{ id := "a" }, { id := "b", group_id := some "g" }]
        ungrouped_host_ids := ["a", "b", "a"] }
    twice.normalized.ungrouped_host_ids = ["local", "a", "b", "a"] ∧
    twice.normalized.ungrouped.map HostProfile.id = ["local", "a", "b", "a"] ∧
    around.normalized.ungrouped_host_ids = ["local", "a", "a"] ∧
    around.normalized.normalized.ungrouped_host_ids = ["local", "a"] ∧
    around.normalized.normalized ≠ around.normalized := by
  refine ⟨by decide, by decide, by decide, by decide, fun h => ?_⟩
  have := congrArg HostsDocument.ungrouped_host_ids h
  revert this
  decide

end Normalized

end WaSSH.Hosts
