import WaSSH.Hosts.Fresh
import WaSSH.Lib.Slots

/-!
# Dragging a host

A host of the sidebar is dragged to a slot between two rows, outside any group or in one.

* `hosts_in_group`, `shown`: the rows of the sidebar's lists;
* `Tidy`: the documents it shows, with `tidy_normalized`;
* `hosts_move`, `order_move`: the hosts and the order list after the drop;
* **`lands_iff`**: the host is where the drop line was exactly when the list counts the same rows
  in front of it as the slot does.
-/

namespace WaSSH.Hosts

open OrderList Slots HostsDocument

/-! ## The rows -/

namespace HostsDocument

/-- Hosts belonging to a group, in document order. -/
def hosts_in_group (d : HostsDocument) (group_id : String) : List HostProfile :=
  d.hosts.filter fun host => host.group_id = some group_id

/-- The rows of a group, or of the list outside any. -/
def shown (d : HostsDocument) : Option String → List String
  | some group => (d.hosts_in_group group).map HostProfile.id
  | none => d.ungrouped.map HostProfile.id

/-- What a drop makes of the document. -/
def move_host (d : HostsDocument) (host_id : String) (group : Option String) (index : ℕ) :
    HostsDocument :=
  (d.moved host_id group index).normalized

end HostsDocument

/-- A drag, with the slot where the drop line is. -/
structure Drag where
  host : String
  group : Option String
  slot : ℕ

/-- A document as it is shown: every host and group once, and an order list of the hosts outside any
group, the local terminal first and only there. -/
structure Tidy (d : HostsDocument) : Prop extends Distinct d where
  has_local : ∀ h ∈ d.hosts, h.is_local → h.group_id = none
  group_known : ∀ h ∈ d.hosts, ∀ g, h.group_id = some g → g ∈ d.group_ids
  local_first : ∃ rest, d.ungrouped_host_ids = LOCAL_HOST_ID :: rest ∧ LOCAL_HOST_ID ∉ rest
  mem_order : ∀ id, id ∈ d.ungrouped_host_ids ↔ id ∈ ungrouped_ids d.hosts

/-- **Every normalised document** is such a one. -/
theorem tidy_normalized (d : HostsDocument) : Tidy d.normalized where
  toDistinct := distinct_normalized d
  has_local := by
    intro h hmem hl
    obtain ⟨a, -, rfl⟩ := (mem_hosts_normalized d).mp hmem
    have ha : a.is_local = true := by
      rwa [HostProfile.is_local, HostProfile.normalized_id] at hl
    rw [HostProfile.normalized_group_id, if_pos ha]
  group_known := fun h hmem g hg => group_known_normalized d hmem hg
  local_first := ⟨_, rfl, not_mem_others LOCAL_HOST_ID _⟩
  mem_order := fun id => mem_normalized_order (distinct_normalized d).host_ids_nodup
    (local_mem_ungrouped_ids d) d.ungrouped_host_ids

/-- A drag that the sidebar can make: of a host that is not the local terminal, to a list it
shows. -/
structure Possible (d : HostsDocument) (x : Drag) : Prop where
  host_mem : x.host ∈ d.host_ids
  not_local : x.host ≠ LOCAL_HOST_ID
  group_mem : ∀ g, x.group = some g → g ∈ d.group_ids

/-- The dragged host lands in its slot; the other rows stay as they are. -/
def Lands (d : HostsDocument) (x : Drag) : Prop :=
  let d' := d.move_host x.host x.group x.slot
  d'.host_ids = d.host_ids ∧ d'.groups = d.groups ∧
    ∀ list, d'.shown list =
      if list = x.group then drop_at x.host x.slot (d.shown list) else others x.host (d.shown list)

/-- How many hosts of a group the document has in front of a host. -/
def before (d : HostsDocument) (host group : String) : ℕ :=
  ((d.hosts.takeWhile fun h => h.id ≠ host).filter fun h => h.group_id = some group).length

/-- In front of the dragged host there are to be as many rows as the slot has above it, the host's
own apart: of the document's in a group, and of the slot's own number outside any, where the first
row is the local terminal's. No two rows of one host are to come together in the list outside. -/
def Fits (d : HostsDocument) (x : Drag) : Prop :=
  match x.group with
  | some group =>
    before d x.host group = above x.host (d.shown (some group)) x.slot ∧
      (others x.host (d.shown none)).IsChain (· ≠ ·)
  | none =>
    0 < x.slot ∧
      min x.slot (others x.host (d.shown none)).length = above x.host (d.shown none) x.slot ∧
      (drop_at x.host x.slot (d.shown none)).IsChain (· ≠ ·)

/-! ## The hosts after the drop -/

/-- The ids of the hosts of a group, or of those outside any. -/
def members (list : Option String) (hosts : List HostProfile) : List String :=
  (hosts.filter fun h => h.group_id = list).map HostProfile.id

theorem ungrouped_ids_eq (hosts : List HostProfile) : ungrouped_ids hosts = members none hosts := by
  unfold ungrouped_ids members
  refine congrArg _ (List.filter_congr fun h _ => ?_)
  cases h.group_id <;> rfl

theorem members_append (list : Option String) (pre post : List HostProfile) (h : HostProfile) :
    members list (pre ++ h :: post) =
      members list pre ++ (if h.group_id = list then [h.id] else []) ++ members list post := by
  unfold members
  rw [List.filter_append, List.map_append, List.filter_cons, List.append_assoc]
  simp only [decide_eq_true_eq]
  split_ifs <;> rfl

theorem members_subset {list : Option String} {hosts : List HostProfile} {id : String}
    (h : id ∈ members list hosts) : id ∈ hosts.map HostProfile.id :=
  (List.filter_sublist.map _).subset h

/-- The pass over hosts whose groups are known keeps their lists. -/
theorem members_normalized {groups : List String} {hosts : List HostProfile}
    (hlocal : ∀ h ∈ hosts, h.is_local → h.group_id = none)
    (hknown : ∀ h ∈ hosts, ∀ g, h.group_id = some g → g ∈ groups) (list : Option String) :
    members list (hosts.map (HostProfile.normalized groups)) = members list hosts := by
  have hgroup (h : HostProfile) (hmem : h ∈ hosts) :
      (h.normalized groups).group_id = h.group_id := by
    rw [HostProfile.normalized_group_id]
    split_ifs with hl
    · exact (hlocal h hmem hl).symm
    · cases hg : h.group_id with
      | none => rfl
      | some g => rw [Option.filter_some, if_pos (decide_eq_true (hknown h hmem g hg))]
  unfold members
  rw [List.filter_map, List.map_map]
  have hfilter : hosts.filter ((fun h => decide (h.group_id = list)) ∘
      HostProfile.normalized groups) = hosts.filter fun h => h.group_id = list :=
    List.filter_congr fun h hmem => by rw [Function.comp_apply, hgroup h hmem]
  rw [hfilter]
  exact List.map_congr_left fun h _ => HostProfile.normalized_id groups h

section Drop

variable {d : HostsDocument} {x : Drag}

/-- Around the dragged host. -/
theorem moved_hosts (hd : Distinct d) {pre post : List HostProfile} {a : HostProfile}
    (hsplit : d.hosts = pre ++ a :: post) (ha : a.id = x.host)
    (hpre : x.host ∉ pre.map HostProfile.id) (hpost : x.host ∉ post.map HostProfile.id) :
    (d.moved x.host x.group x.slot).hosts = pre ++ { a with group_id := x.group } :: post := by
  have hkeep {hosts : List HostProfile} (h : x.host ∉ hosts.map HostProfile.id) :
      hosts.map (fun h => if h.id = x.host then { h with group_id := x.group } else h) = hosts := by
    refine (List.map_congr_left fun b hb => if_neg fun hid => ?_).trans (List.map_id hosts)
    exact h (hid ▸ List.mem_map_of_mem hb)
  rw [moved, modify_findIdx hd.host_ids_nodup, hsplit, List.map_append, List.map_cons, hkeep hpre,
    hkeep hpost, if_pos ha]

/-- The document the drop leaves to be normalised. -/
theorem moved_in_order (hd : Tidy d) (hx : Possible d x) :
    Distinct (d.moved x.host x.group x.slot) ∧
      (∀ h ∈ (d.moved x.host x.group x.slot).hosts, h.is_local → h.group_id = none) ∧
      ∀ h ∈ (d.moved x.host x.group x.slot).hosts, ∀ g, h.group_id = some g → g ∈ d.group_ids := by
  have hids := host_ids_moved hd.toDistinct x.host x.group x.slot
  obtain ⟨pre, a, post, hsplit, ha, hpre, hpost⟩ :=
    exists_split_key hd.host_ids_nodup x.host hx.host_mem
  have hhosts := moved_hosts hd.toDistinct hsplit ha hpre hpost
  have hall {P : HostProfile → Prop} (hold : ∀ h ∈ d.hosts, P h)
      (hnew : P { a with group_id := x.group }) :
      ∀ h ∈ (d.moved x.host x.group x.slot).hosts, P h := by
    rw [hhosts]
    rw [hsplit] at hold
    intro h hmem
    rcases List.mem_append.mp hmem with hmem | hmem
    · exact hold h (List.mem_append_left _ hmem)
    · rcases List.mem_cons.mp hmem with rfl | hmem
      · exact hnew
      · exact hold h (List.mem_append_right _ (List.mem_cons_of_mem a hmem))
  refine ⟨⟨by rw [hids]; exact hd.host_ids_nodup, by rw [hids]; exact hd.host_ids_ne,
    by rw [hids]; exact hd.local_mem, hd.group_ids_nodup, hd.group_ids_ne⟩,
    hall hd.has_local fun hl => ?_, hall hd.group_known fun g hg => hx.group_mem g hg⟩
  exact absurd (ha.symm.trans (of_decide_eq_true hl)) hx.not_local

/-- **The lists of hosts** after the drop. -/
theorem hosts_move (hd : Tidy d) (hx : Possible d x) (list : Option String) :
    members list (d.move_host x.host x.group x.slot).hosts =
      members list (d.moved x.host x.group x.slot).hosts := by
  obtain ⟨hdistinct, hlocal, hknown⟩ := moved_in_order hd hx
  rw [move_host, hdistinct.normalized_hosts]
  exact members_normalized hlocal hknown list

theorem host_ids_move (hd : Tidy d) (hx : Possible d x) :
    (d.move_host x.host x.group x.slot).host_ids = d.host_ids := by
  obtain ⟨hdistinct, -, -⟩ := moved_in_order hd hx
  rw [← host_ids_moved hd.toDistinct x.host x.group x.slot, move_host, host_ids,
    hdistinct.normalized_hosts, List.map_map]
  exact List.map_congr_left fun h _ => HostProfile.normalized_id _ h

/-- The lists before and after the drop, around the dragged host. -/
theorem members_move (hd : Tidy d) (hx : Possible d x) (list : Option String) :
    ∃ front back, others x.host (members list d.hosts) = front ++ back ∧
      front.length = ((d.hosts.takeWhile fun h => h.id ≠ x.host).filter
        fun h => h.group_id = list).length ∧
      members list (d.move_host x.host x.group x.slot).hosts =
        if list = x.group then front ++ x.host :: back else front ++ back := by
  obtain ⟨pre, a, post, hsplit, ha, hpre, hpost⟩ :=
    exists_split_key hd.host_ids_nodup x.host hx.host_mem
  have hfront : x.host ∉ members list pre := fun h => hpre (members_subset h)
  have hback : x.host ∉ members list post := fun h => hpost (members_subset h)
  refine ⟨members list pre, members list post, ?_, ?_, ?_⟩
  · have hmiddle : others x.host (if a.group_id = list then [a.id] else []) = [] := by
      split_ifs
      · exact List.filter_eq_nil_iff.mpr fun b hb => by simpa [ha] using hb
      · rfl
    rw [hsplit, members_append, others_append, others_append, others_of_not_mem hfront,
      others_of_not_mem hback, hmiddle, List.append_nil]
  · have htake : d.hosts.takeWhile (fun h => h.id ≠ x.host) = pre := by
      rw [hsplit, List.takeWhile_append_of_pos, List.takeWhile_cons_of_neg, List.append_nil]
      · simpa using ha
      · exact fun b hb => decide_eq_true fun hid => hpre (hid ▸ List.mem_map_of_mem hb)
    rw [htake, members, List.length_map]
  · rw [hosts_move hd hx, moved_hosts hd.toDistinct hsplit ha hpre hpost, members_append]
    by_cases hlist : list = x.group
    · rw [if_pos hlist.symm, if_pos hlist, ha, List.append_assoc]
      rfl
    · rw [if_neg (Ne.symm hlist), if_neg hlist, List.append_nil]

/-! ## The order list after the drop -/

theorem shown_some (d : HostsDocument) (group : String) :
    d.shown (some group) = members (some group) d.hosts := rfl

theorem shown_none {d : HostsDocument} (h : ∀ id ∈ d.ungrouped_host_ids, id ∈ d.host_ids) :
    d.shown none = d.ungrouped_host_ids := by
  have hfind : ∀ id ∈ d.ungrouped_host_ids, (d.host id).map HostProfile.id = some id := by
    intro id hid
    obtain ⟨host, hmem, rfl⟩ := List.mem_map.mp (h id hid)
    obtain ⟨found, hfound⟩ : ∃ found, d.host host.id = some found :=
      Option.isSome_iff_exists.mp (List.find?_isSome.mpr ⟨host, hmem, decide_eq_true rfl⟩)
    have hsame : found.id = host.id := by simpa using List.find?_some hfound
    rw [hfound, Option.map_some, hsame]
  show (d.ungrouped_host_ids.filterMap d.host).map HostProfile.id = d.ungrouped_host_ids
  rw [List.map_filterMap, List.filterMap_congr hfind, List.filterMap_some]

/-- The order list of a document that has exactly the hosts outside any group in it. -/
theorem normalized_order_eq_pin {hosts : List HostProfile} {order : List String}
    (hnodup : (hosts.map HostProfile.id).Nodup)
    (hmem : ∀ id, id ∈ order ↔ id ∈ ungrouped_ids hosts) :
    normalized_order hosts order = pin LOCAL_HOST_ID order := by
  have hknown : order.filter (· ∈ hosts.map HostProfile.id) = order :=
    List.filter_eq_self.mpr fun id h => by
      simpa using mem_ids_of_ungrouped ((hmem id).mp h)
  have hpush : push_missing (order.destutter (· ≠ ·)) (ungrouped_ids hosts) =
      order.destutter (· ≠ ·) :=
    push_missing_of_subset fun id h => mem_destutter.mpr ((hmem id).mpr h)
  have hgroup : (order.destutter (· ≠ ·)).filter
      (· ∉ (hosts.filter fun host => host.group_id.isSome).map HostProfile.id) =
        order.destutter (· ≠ ·) := by
    refine List.filter_eq_self.mpr fun id h => ?_
    have h := (hmem id).mp (mem_destutter.mp h)
    simpa using fun hg => (mem_grouped_iff hnodup (mem_ids_of_ungrouped h)).mp hg h
  rw [normalized_order]
  simp only [hknown, hpush, hgroup]
  rfl

theorem moved_order (d : HostsDocument) (x : Drag) :
    (d.moved x.host x.group x.slot).ungrouped_host_ids =
      if x.group = none then
        place x.host (min x.slot (others x.host d.ungrouped_host_ids).length)
          (others x.host d.ungrouped_host_ids)
      else others x.host d.ungrouped_host_ids := by
  cases hg : x.group with
  | none => exact insertIdx_eq_place (Nat.min_le_right _ _)
  | some g => rfl

/-- **The order list** after the drop. -/
theorem order_move (hd : Tidy d) (hx : Possible d x) :
    (d.move_host x.host x.group x.slot).ungrouped_host_ids =
      pin LOCAL_HOST_ID (d.moved x.host x.group x.slot).ungrouped_host_ids ∧
    ∀ id, id ∈ (d.moved x.host x.group x.slot).ungrouped_host_ids ↔
      id ∈ members none (d.move_host x.host x.group x.slot).hosts := by
  have hmem (id : String) : id ∈ (d.moved x.host x.group x.slot).ungrouped_host_ids ↔
      id ∈ members none (d.move_host x.host x.group x.slot).hosts := by
    obtain ⟨front, back, hothers, -, hhosts⟩ := members_move hd hx none
    have hrest : id ∈ others x.host d.ungrouped_host_ids ↔ id ∈ front ++ back := by
      rw [← hothers, mem_others, mem_others, hd.mem_order, ungrouped_ids_eq]
    rw [moved_order, hhosts]
    by_cases hg : x.group = none
    · rw [if_pos hg, if_pos hg.symm, mem_place, hrest, List.mem_append, List.mem_append,
        List.mem_cons, or_left_comm]
    · rw [if_neg hg, if_neg (Ne.symm hg), hrest]
  refine ⟨?_, hmem⟩
  obtain ⟨hdistinct, -, -⟩ := moved_in_order hd hx
  have hids : ((d.move_host x.host x.group x.slot).hosts.map HostProfile.id).Nodup := by
    show (d.move_host x.host x.group x.slot).host_ids.Nodup
    rw [host_ids_move hd hx]
    exact hd.host_ids_nodup
  refine normalized_order_eq_pin hids fun id => (hmem id).trans ?_
  rw [ungrouped_ids_eq]
  exact Iff.rfl

end Drop

/-! ## Where the host lands -/

section Lands

variable {d : HostsDocument} {x : Drag}

theorem shown_eq_order (hd : Tidy d) : d.shown none = d.ungrouped_host_ids :=
  shown_none fun id h => mem_ids_of_ungrouped ((hd.mem_order id).mp h)

theorem shown_move_none (hd : Tidy d) (hx : Possible d x) :
    (d.move_host x.host x.group x.slot).shown none =
      pin LOCAL_HOST_ID (if x.group = none then
        place x.host (min x.slot (others x.host (d.shown none)).length)
          (others x.host (d.shown none))
      else others x.host (d.shown none)) := by
  obtain ⟨horder, hmem⟩ := order_move hd hx
  rw [shown_eq_order hd, ← moved_order, ← horder]
  refine shown_none fun id h => ?_
  rw [horder] at h
  rcases List.mem_cons.mp h with rfl | h
  · rw [host_ids_move hd hx]
    exact hd.local_mem
  · exact members_subset ((hmem id).mp (mem_destutter.mp (mem_others.mp h).1))

/-- The list outside any group. -/
theorem lands_none_iff (hd : Tidy d) (hx : Possible d x) :
    (d.move_host x.host x.group x.slot).shown none =
        (if none = x.group then drop_at x.host x.slot (d.shown none)
        else others x.host (d.shown none)) ↔
      if x.group = none then
        0 < x.slot ∧
          min x.slot (others x.host (d.shown none)).length = above x.host (d.shown none) x.slot ∧
          (drop_at x.host x.slot (d.shown none)).IsChain (· ≠ ·)
      else (others x.host (d.shown none)).IsChain (· ≠ ·) := by
  obtain ⟨rest, hrest, hnot⟩ := hd.local_first
  rw [shown_move_none hd hx, shown_eq_order hd, hrest]
  by_cases hg : x.group = none
  · rw [if_pos hg, if_pos hg.symm, if_pos hg]
    exact pin_place_iff hx.not_local hnot x.slot
  · rw [if_neg hg, if_neg (Ne.symm hg), if_neg hg]
    exact pin_others_iff hx.not_local hnot

/-- The list of a group. -/
theorem lands_some_iff (hd : Tidy d) (hx : Possible d x) (group : String) :
    (d.move_host x.host x.group x.slot).shown (some group) =
        (if some group = x.group then drop_at x.host x.slot (d.shown (some group))
        else others x.host (d.shown (some group))) ↔
      (x.group = some group →
        before d x.host group = above x.host (d.shown (some group)) x.slot) := by
  obtain ⟨front, back, hothers, hlength, hhosts⟩ := members_move hd hx (some group)
  have habove := above_le x.host (d.shown (some group)) x.slot
  have hnot := not_mem_others x.host (d.shown (some group))
  rw [shown_some, hhosts, drop_at_eq]
  rw [shown_some] at habove hnot
  rw [shown_some, hothers] at *
  by_cases hg : x.group = some group
  · have hplace : front ++ x.host :: back = place x.host front.length (front ++ back) := by
      rw [place, List.take_left, List.drop_left]
    have hfront : front.length ≤ (front ++ back).length := by
      rw [List.length_append]
      omega
    rw [if_pos hg.symm, if_pos hg.symm, hplace, place_inj hnot hfront habove, hlength, before]
    exact ⟨fun h _ => h, fun h => h hg⟩
  · rw [if_neg (Ne.symm hg), if_neg (Ne.symm hg)]
    exact iff_of_true rfl fun h => absurd h hg

/-- **A dragged host lands in the slot of the drop line**, and nothing else is moved, exactly when
its list has as many rows in front of it as the slot has above it. -/
theorem lands_iff (hd : Tidy d) (hx : Possible d x) : Lands d x ↔ Fits d x := by
  have hgroups : (d.move_host x.host x.group x.slot).groups = d.groups :=
    (moved_in_order hd hx).1.normalized_groups
  have hlists : Lands d x ↔ ∀ list, _ :=
    ⟨fun h => h.2.2, fun h => ⟨host_ids_move hd hx, hgroups, h⟩⟩
  rw [hlists]
  unfold Fits
  constructor
  · intro h
    have hnone := (lands_none_iff hd hx).mp (h none)
    cases hg : x.group with
    | none => rwa [hg, if_pos rfl] at hnone
    | some group =>
      rw [hg, if_neg (Option.some_ne_none group)] at hnone
      exact ⟨(lands_some_iff hd hx group).mp (h (some group)) hg, hnone⟩
  · intro h list
    cases list with
    | none =>
      rw [lands_none_iff hd hx]
      cases hg : x.group with
      | none =>
        rw [hg] at h
        rwa [if_pos rfl]
      | some group =>
        rw [hg] at h
        rw [if_neg (Option.some_ne_none group)]
        exact h.2
    | some group =>
      rw [lands_some_iff hd hx]
      intro hg
      rw [hg] at h
      exact h.1

/-- Three hosts outside any group, below the local terminal. -/
def three : HostsDocument :=
  HostsDocument.normalized { hosts := [{ id := "a" }, { id := "b" }, { id := "c" }] }

theorem lands_iff_up : Lands three ⟨"c", none, 1⟩ ↔ Fits three ⟨"c", none, 1⟩ :=
  lands_iff (tidy_normalized _) ⟨by decide, by decide, nofun⟩

/-- **A host dragged down** lands one row below the drop line: the row it leaves is counted. -/
theorem dragged_down_lands_too_low :
    ¬ ∀ (d : HostsDocument) (x : Drag), Tidy d → Possible d x → Lands d x := by
  intro h
  obtain ⟨-, -, hlists⟩ := h three ⟨"a", none, 3⟩ (tidy_normalized _) ⟨by decide, by decide, nofun⟩
  have hnone := hlists none
  revert hnone
  decide

end Lands

end WaSSH.Hosts
