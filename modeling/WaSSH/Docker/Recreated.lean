import WaSSH.Docker.Create
import WaSSH.Lib.Lines

/-!
# The containers that are recreated as they are

The description of a container is compared with the container its command creates. Every option is
one text, and is read back by where its separators stand; the arguments are not quoted at all.

* `described`, `Document.Kept`: the container of a document, and what can be said of it;
* `values_given`, `has_given`: what the command gives each option;
* `ports_iff`, `read_volume_value_iff`, `env_iff`, `labels_iff`, `restart_iff`, `networks_iff`,
  `entrypoint_iff`: option by option, when it is read as it was meant;
* **`recreated_iff`**: the containers the command recreates as they are.
-/

namespace WaSSH.Docker

/-! ## What is described -/

/-- The ports published by one binding. -/
def PortBinding.published (binding : PortBinding) : List PublishedPort :=
  (binding.entries.getD []).map fun entry => ⟨entry.host_ip, entry.host_port, binding.container⟩

/-- The container of the document. No policy's name is the policy `no`. -/
def described (document : Document) : Created where
  name := Text.trim_start_matches '/' document.name
  restart_policy :=
    if document.restart_policy.name = [] then
      { document.restart_policy with name := no_restart.name }
    else document.restart_policy
  auto_remove := document.auto_remove
  privileged := document.privileged
  user := document.user
  working_dir := document.working_dir
  tty := document.tty
  ports := document.port_bindings.flatMap PortBinding.published
  volumes := document.mounts.map fun mount => ⟨mount.volume, mount.destination, mount.rw⟩
  env := document.env
  labels := document.labels
  networks := document.networks
  entrypoint := document.entrypoint
  image := document.image
  cmd := document.cmd

/-- What the command can say of a container so that docker understands it again. -/
structure Document.Kept (document : Document) : Prop where
  /-- The entrypoint is at most one word: there is one option for it. -/
  entrypoint : ∀ w ws, document.entrypoint = w :: ws → w ≠ [] ∧ ws = []
  /-- The arguments are written without quotes. -/
  cmd : ∀ w ∈ document.cmd, Shell.PlainWord w
  image : is_option document.image = false
  restart_name : document.restart_policy.name ∈ [] :: no_restart.name :: restart_policies
  restart_count : document.restart_policy.maximum_retry_count = 0
  /-- A port is bound by its entries, and there is an entry. -/
  bound : ∀ binding ∈ document.port_bindings, binding.entries ≠ some []
  /-- What is between colons has none. -/
  ports : ∀ binding ∈ document.port_bindings, ∀ entry ∈ binding.entries.getD [],
    entry.host_ip ≠ any_address ∧ ':' ∉ entry.host_port ∧ ':' ∉ binding.container
  volumes : ∀ mount ∈ document.mounts, mount.volume ≠ [] ∧ mount.destination ≠ [] ∧
    ':' ∉ mount.volume ∧ ':' ∉ mount.destination
  /-- A variable has its value with it. -/
  env : ∀ entry ∈ document.env, '=' ∈ entry
  labels : ∀ label ∈ document.labels, '=' ∉ label.1
  /-- There is one network, and it is not one that only docker's own name denotes. -/
  networks : ∃ name, document.networks = [name] ∧ name ≠ "host".toList ∧ name ≠ "none".toList

/-! ## What the options give -/

section Values

variable (option : Valued)

@[simp]
theorem value_of_flag (f : Flag) : (Given.flag f).value_of option = none := rfl

@[simp]
theorem value_of_value (option' : Valued) (v : List Char) :
    (Given.value option' v).value_of option = if option' = option then some v else none := rfl

theorem values_singleton (option' : Valued) (v : List Char) :
    [Given.value option' v].filterMap (Given.value_of option) =
      if option' = option then [v] else [] := by
  rw [List.filterMap_cons, List.filterMap_nil, value_of_value]
  by_cases ho : option' = option
  · rw [if_pos ho, if_pos ho]
  · rw [if_neg ho, if_neg ho]

@[simp]
theorem values_on (f : Flag) (b : Bool) :
    (Given.on f b).filterMap (Given.value_of option) = [] := by
  cases b <;> rfl

@[simp]
theorem values_non_empty (option' : Valued) (v : List Char) :
    (Given.non_empty option' v).filterMap (Given.value_of option) =
      if option' = option ∧ v ≠ [] then [v] else [] := by
  unfold Given.non_empty
  by_cases hv : v = []
  · rw [if_pos hv, if_neg fun h => h.2 hv, List.filterMap_nil]
  · rw [if_neg hv]
    by_cases ho : option' = option
    · simp [ho, hv]
    · simp [ho]

/-- The `-p` values of one binding. -/
def PortBinding.texts (binding : PortBinding) : List (List Char) :=
  match binding.entries with
  | none => []
  | some entries =>
    if entries = [] then [binding.container] else entries.map (mapping binding.container)

@[simp]
theorem values_each {α : Type} (option' : Valued) (f : α → List Char) (xs : List α) :
    (xs.flatMap fun x => [Given.value option' (f x)]).filterMap (Given.value_of option) =
      if option' = option then xs.map f else [] := by
  induction xs with
  | nil => exact (ite_self []).symm
  | cons x xs ih =>
    rw [List.flatMap_cons, List.filterMap_append, ih, values_singleton]
    by_cases ho : option' = option
    · rw [if_pos ho, if_pos ho, if_pos ho]
      rfl
    · rw [if_neg ho, if_neg ho, if_neg ho]
      rfl

@[simp]
theorem values_binding (binding : PortBinding) :
    binding.given.filterMap (Given.value_of option) =
      if Valued.publish = option then binding.texts else [] := by
  unfold PortBinding.given PortBinding.texts
  cases binding.entries with
  | none => exact (ite_self []).symm
  | some entries =>
    dsimp only
    by_cases he : entries = []
    · rw [if_pos he, if_pos he, List.filterMap_cons_none rfl, values_singleton]
    · rw [if_neg he, if_neg he, values_each]

@[simp]
theorem flatMap_none {α β : Type} (xs : List α) : (xs.flatMap fun _ => ([] : List β)) = [] :=
  List.flatMap_eq_nil_iff.mpr fun _ _ => rfl

end Values

section Given

variable (document : Document)

/-- The values the command gives an option. -/
def Document.values (document : Document) : Valued → List (List Char)
  | .name => [Text.trim_start_matches '/' document.name]
  | .restart => (restart_policy_flag document.restart_policy.name).toList
  | .user => if document.user = [] then [] else [document.user]
  | .working_dir => if document.working_dir = [] then [] else [document.working_dir]
  | .publish => document.port_bindings.flatMap PortBinding.texts
  | .volume => document.mounts.map Mount.value
  | .env => document.env
  | .label => document.labels.map fun label => label.1 ++ '=' :: label.2
  | .network => (own_network document.networks).toList
  | .entrypoint =>
    if field document.entrypoint = [] then [] else [field document.entrypoint]

theorem values_given (option : Valued) :
    document.given.filterMap (Given.value_of option) = document.values option := by
  unfold Document.given Document.values
  simp only [List.filterMap_append, List.filterMap_flatMap (l := document.port_bindings),
    values_singleton, values_on, values_non_empty, values_each, values_binding, List.append_nil]
  cases option <;> simp

/-- Only a port binding publishes no other ports. -/
theorem not_mem_binding_given {f : Flag} (hf : f ≠ .publish_all) (binding : PortBinding) :
    Given.flag f ∉ binding.given := by
  unfold PortBinding.given
  cases binding.entries with
  | none => exact List.not_mem_nil
  | some entries =>
    dsimp only
    split_ifs
    · simp [hf]
    · simp

/-- Whether the container is to have it. -/
def Document.flag (document : Document) : Flag → Bool
  | .auto_remove => document.auto_remove
  | .privileged => document.privileged
  | .tty => document.tty
  | .publish_all => false

theorem mem_given_flag {f : Flag} (hf : f ≠ .publish_all) :
    Given.flag f ∈ document.given ↔ document.flag f = true := by
  have hbinding := not_mem_binding_given hf
  have hon (f' : Flag) (b : Bool) : Given.flag f ∈ Given.on f' b ↔ f = f' ∧ b = true := by
    cases b <;> simp [Given.on]
  have hnon (option : Valued) (v : List Char) : Given.flag f ∉ Given.non_empty option v := by
    unfold Given.non_empty
    split_ifs <;> simp
  cases f with
  | publish_all => exact absurd rfl hf
  | auto_remove => simp [Document.given, Document.flag, hbinding, hon, hnon]
  | privileged => simp [Document.given, Document.flag, hbinding, hon, hnon]
  | tty => simp [Document.given, Document.flag, hbinding, hon, hnon]

theorem has_given {f : Flag} (hf : f ≠ .publish_all) (image : List Char)
    (args : List (List Char)) :
    (Invocation.mk document.given image args).has f = document.flag f := by
  unfold Invocation.has
  rw [Bool.eq_iff_iff, decide_eq_true_eq]
  exact mem_given_flag document hf

end Given

/-! ## Ports -/

theorem not_mem_last_part (t : List Char) : ':' ∉ last_part t := by
  intro hmem
  have h : decide (':' ≠ ':') = true :=
    List.mem_rtakeWhile_imp (p := fun c => decide (c ≠ ':')) hmem
  exact of_decide_eq_true h rfl

theorem last_part_append {container : List Char} (h : ':' ∉ container) (t : List Char) :
    last_part (t ++ ':' :: container) = container := by
  have hall : ∀ c ∈ container.reverse, decide (c ≠ ':') = true := fun c hc =>
    decide_eq_true fun heq => h (heq ▸ List.mem_reverse.mp hc)
  unfold last_part List.rtakeWhile
  rw [List.reverse_append, List.reverse_cons, List.append_assoc,
    List.takeWhile_append_of_pos hall, List.singleton_append,
    List.takeWhile_cons_of_neg (by decide), List.append_nil, List.reverse_reverse]

theorem before_last_append {container : List Char} (h : ':' ∉ container) (t : List Char) :
    before_last (t ++ ':' :: container) = t := by
  have hall : ∀ c ∈ container.reverse, decide (c ≠ ':') = true := fun c hc =>
    decide_eq_true fun heq => h (heq ▸ List.mem_reverse.mp hc)
  unfold before_last List.rdropWhile
  rw [List.reverse_append, List.reverse_cons, List.append_assoc,
    List.dropWhile_append_of_pos hall, List.singleton_append,
    List.dropWhile_cons_of_neg (by decide), List.reverse_cons, List.reverse_reverse,
    List.dropLast_concat]

theorem last_part_self {t : List Char} (h : ':' ∉ t) : last_part t = t :=
  List.rtakeWhile_eq_self_iff.mpr fun _ hc => decide_eq_true fun heq => h (heq ▸ hc)

theorem before_last_self {t : List Char} (h : ':' ∉ t) : before_last t = [] := by
  have hdrop : t.rdropWhile (· ≠ ':') = [] :=
    List.rdropWhile_eq_nil_iff.mpr fun _ hc => decide_eq_true fun heq => h (heq ▸ hc)
  unfold before_last
  rw [hdrop]
  rfl

/-- **One entry is read as it is** when its parts can be told apart. -/
theorem read_publish_mapping_iff (container : List Char) (entry : PortEntry) :
    read_publish (mapping container entry) = ⟨entry.host_ip, entry.host_port, container⟩ ↔
      entry.host_ip ≠ any_address ∧ ':' ∉ entry.host_port ∧ ':' ∉ container := by
  obtain ⟨ip, port⟩ := entry
  unfold read_publish mapping
  rw [PublishedPort.mk.injEq]
  dsimp only
  split_ifs with hip
  · constructor
    · rintro ⟨hhost, hport, hcontainer⟩
      have hc : ':' ∉ container := hcontainer ▸ not_mem_last_part _
      rw [before_last_append hc] at hhost hport
      have hp : ':' ∉ port := hport ▸ not_mem_last_part _
      rw [before_last_self hp] at hhost
      refine ⟨fun heq => ?_, hp, hc⟩
      cases hhost.trans heq
    · rintro ⟨hany, hp, hc⟩
      rw [before_last_append hc, before_last_self hp, last_part_self hp]
      exact ⟨(hip.resolve_right hany).symm, rfl, last_part_append hc _⟩
  · rw [not_or] at hip
    have hassoc : ip ++ ':' :: (port ++ ':' :: container) =
        ip ++ ':' :: port ++ ':' :: container := by
      rw [List.append_assoc]
      rfl
    rw [hassoc]
    constructor
    · rintro ⟨_, hport, hcontainer⟩
      have hc : ':' ∉ container := hcontainer ▸ not_mem_last_part _
      rw [before_last_append hc] at hport
      exact ⟨hip.2, hport ▸ not_mem_last_part _, hc⟩
    · rintro ⟨_, hp, hc⟩
      rw [before_last_append hc, before_last_append hp]
      exact ⟨rfl, last_part_append hp _, last_part_append hc _⟩

theorem length_flatMap_le {α β : Type} {f g : α → List β} : ∀ {xs : List α},
    (∀ x ∈ xs, (g x).length ≤ (f x).length) → (xs.flatMap g).length ≤ (xs.flatMap f).length
  | [], _ => le_refl _
  | x :: xs, h => by
    have hx := h x List.mem_cons_self
    have hxs := length_flatMap_le fun y hy => h y (List.mem_cons_of_mem x hy)
    rw [List.flatMap_cons, List.flatMap_cons, List.length_append, List.length_append]
    omega

/-- Where no part is longer, the wholes agree when the parts do. -/
theorem flatMap_eq_flatMap_iff {α β : Type} {f g : α → List β} : ∀ {xs : List α},
    (∀ x ∈ xs, (g x).length ≤ (f x).length) →
      (xs.flatMap f = xs.flatMap g ↔ ∀ x ∈ xs, f x = g x)
  | [], _ => by simp
  | x :: xs, h => by
    have hx := h x List.mem_cons_self
    have hrest := fun y hy => h y (List.mem_cons_of_mem x hy)
    have hxs := length_flatMap_le hrest
    rw [List.flatMap_cons, List.flatMap_cons, List.forall_mem_cons,
      ← flatMap_eq_flatMap_iff hrest]
    refine ⟨fun heq => ?_, fun ⟨heq, heq'⟩ => by rw [heq, heq']⟩
    have hlength := congrArg List.length heq
    rw [List.length_append, List.length_append] at hlength
    exact List.append_inj heq (by omega)

theorem texts_published_iff (binding : PortBinding) :
    binding.texts.map read_publish = binding.published ↔ binding.entries ≠ some [] ∧
      ∀ entry ∈ binding.entries.getD [], entry.host_ip ≠ any_address ∧ ':' ∉ entry.host_port ∧
        ':' ∉ binding.container := by
  unfold PortBinding.texts PortBinding.published
  cases binding.entries with
  | none => simp
  | some entries =>
    dsimp only [Option.getD_some]
    split_ifs with he
    · rw [he]
      simp
    · rw [List.map_map, List.map_inj_left]
      have hne : some entries ≠ some [] := fun heq => he (Option.some_inj.mp heq)
      simp only [Function.comp_apply, read_publish_mapping_iff]
      exact (and_iff_right hne).symm

/-- **The ports that are published.** -/
theorem ports_iff (bindings : List PortBinding) :
    (bindings.flatMap PortBinding.texts).map read_publish =
        bindings.flatMap PortBinding.published ↔
      ∀ binding ∈ bindings, binding.entries ≠ some [] ∧
        ∀ entry ∈ binding.entries.getD [], entry.host_ip ≠ any_address ∧
          ':' ∉ entry.host_port ∧ ':' ∉ binding.container := by
  rw [List.map_flatMap, flatMap_eq_flatMap_iff]
  · exact forall₂_congr fun binding _ => texts_published_iff binding
  · intro binding _
    rw [List.length_map]
    unfold PortBinding.texts PortBinding.published
    cases binding.entries with
    | none => exact le_refl _
    | some entries =>
      dsimp only [Option.getD_some]
      split_ifs with he
      · rw [he]
        exact Nat.zero_le _
      · rw [List.length_map, List.length_map]

/-! ## Volumes -/

theorem mapM_map_eq_some_iff {α β γ : Type} {f : α → β} {g : β → Option γ} {h : α → γ} :
    ∀ xs : List α, (xs.map f).mapM g = some (xs.map h) ↔ ∀ x ∈ xs, g (f x) = some (h x)
  | [] => by simp
  | x :: xs => by
    rw [List.map_cons, List.map_cons, List.mapM_cons, List.forall_mem_cons,
      ← mapM_map_eq_some_iff xs]
    simp only [Option.bind_eq_bind, Option.bind_eq_some_iff, Option.pure_def, Option.some.injEq,
      List.cons.injEq]
    constructor
    · rintro ⟨y, hy, ys, hys, rfl, rfl⟩
      exact ⟨hy, hys⟩
    · rintro ⟨hy, hys⟩
      exact ⟨h x, hy, xs.map h, hys, rfl, rfl⟩

theorem read_volume_parts {t : List Char} {volume : Volume} (h : read_volume t = some volume) :
    (volume.source ≠ [] ∧ ':' ∉ volume.source) ∧
      (volume.destination ≠ [] ∧ ':' ∉ volume.destination) := by
  have hparts : ∀ part ∈ t.splitOn ':', ':' ∉ part := fun _ => Lines.not_mem_of_mem_splitOn
  unfold read_volume at h
  split at h
  · rename_i source destination hsplit
    split_ifs at h with hempty
    cases h
    rw [not_or] at hempty
    rw [hsplit] at hparts
    exact ⟨⟨hempty.1, hparts _ (by simp)⟩, ⟨hempty.2, hparts _ (by simp)⟩⟩
  · rename_i source destination mode hsplit
    split_ifs at h with hempty
    cases h
    rw [not_or, not_or] at hempty
    rw [hsplit] at hparts
    exact ⟨⟨hempty.1, hparts _ (by simp)⟩, ⟨hempty.2.1, hparts _ (by simp)⟩⟩
  · cases h

theorem ro_modes : "ro".toList ∈ "ro".toList.splitOn ',' := by decide +kernel

/-- **One mount is read as it is** when its parts can be told apart. -/
theorem read_volume_value_iff (mount : Mount) :
    read_volume mount.value = some ⟨mount.volume, mount.destination, mount.rw⟩ ↔
      mount.volume ≠ [] ∧ mount.destination ≠ [] ∧ ':' ∉ mount.volume ∧
        ':' ∉ mount.destination := by
  constructor
  · intro h
    obtain ⟨⟨hsource, hsource'⟩, hdestination, hdestination'⟩ := read_volume_parts h
    exact ⟨hsource, hdestination, hsource', hdestination'⟩
  · rintro ⟨hsource, hdestination, hsource', hdestination'⟩
    unfold Mount.value
    cases hrw : mount.rw with
    | true =>
      have hsplit : (mount.volume ++ ':' :: mount.destination).splitOn ':' =
          [mount.volume, mount.destination] := by
        have h : ([':'].intercalate [mount.volume, mount.destination]).splitOn ':' = _ :=
          List.splitOn_intercalate ':' (by simp [hsource', hdestination']) (List.cons_ne_nil _ _)
        simpa using h
      rw [if_pos rfl, List.append_nil]
      unfold read_volume
      rw [hsplit]
      dsimp only
      rw [if_neg (by simp [hsource, hdestination])]
    | false =>
      have hro : ':' ∉ "ro".toList := by decide
      have hsplit : (mount.volume ++ ':' :: (mount.destination ++ ":ro".toList)).splitOn ':' =
          [mount.volume, mount.destination, "ro".toList] := by
        have h : ([':'].intercalate [mount.volume, mount.destination, "ro".toList]).splitOn ':' =
            _ :=
          List.splitOn_intercalate ':' (by simp [hsource', hdestination']) (List.cons_ne_nil _ _)
        simpa using h
      rw [if_neg Bool.false_ne_true]
      unfold read_volume
      rw [hsplit]
      dsimp only
      rw [if_neg (by simp [hsource, hdestination]), decide_eq_false (not_not_intro ro_modes)]

/-! ## The other options -/

theorem env_iff {environ : List Char → Option (List Char)} (env : List (List Char)) :
    env.filterMap (read_env environ) = env ↔ ∀ entry ∈ env, '=' ∈ entry := by
  constructor
  · intro h entry hentry
    rw [← h] at hentry
    obtain ⟨t, _, hread⟩ := List.mem_filterMap.mp hentry
    unfold read_env at hread
    split_ifs at hread with heq
    · cases hread
      exact heq
    · obtain ⟨v, _, rfl⟩ := Option.map_eq_some_iff.mp hread
      exact List.mem_append_right _ List.mem_cons_self
  · intro h
    calc env.filterMap (read_env environ) = env.filterMap some :=
          List.filterMap_congr fun entry hentry => if_pos (h entry hentry)
      _ = env := List.filterMap_some

theorem read_label_iff (label : List Char × List Char) :
    read_label (label.1 ++ '=' :: label.2) = label ↔ '=' ∉ label.1 := by
  constructor
  · intro h hmem
    have hkey : '=' ∉ (read_label (label.1 ++ '=' :: label.2)).1 := by
      unfold read_label Text.split_once
      split
      · rename_i hdrop
        have hall := List.dropWhile_eq_nil_iff.mp hdrop '='
          (List.mem_append_right _ List.mem_cons_self)
        exact absurd rfl (of_decide_eq_true hall)
      · intro hkey
        have htake : decide ('=' ≠ '=') = true :=
          List.mem_takeWhile_imp (p := fun c => decide (c ≠ '=')) hkey
        exact of_decide_eq_true htake rfl
    rw [h] at hkey
    exact hkey hmem
  · intro h
    unfold read_label
    rw [Text.split_once_append h]
    rfl

theorem labels_iff (labels : List (List Char × List Char)) :
    (labels.map fun label => label.1 ++ '=' :: label.2).map read_label = labels ↔
      ∀ label ∈ labels, '=' ∉ label.1 := by
  have hid : labels = labels.map id := (List.map_id labels).symm
  conv_lhs => rhs; rw [hid]
  rw [List.map_map, List.map_inj_left]
  exact forall₂_congr fun label _ => read_label_iff label

theorem read_restart_policy : ∀ policy ∈ restart_policies, read_restart policy = ⟨policy, 0⟩ := by
  decide

theorem restart_iff (policy : RestartPolicy) :
    ((restart_policy_flag policy.name).toList.getLast?.map read_restart).getD no_restart =
        (if policy.name = [] then { policy with name := no_restart.name } else policy) ↔
      policy.name ∈ [] :: no_restart.name :: restart_policies ∧
        policy.maximum_retry_count = 0 := by
  obtain ⟨name, count⟩ := policy
  dsimp only
  constructor
  · intro h
    cases hflag : restart_policy_flag name with
    | none =>
      rw [hflag] at h
      split_ifs at h with hname
      · exact ⟨hname ▸ List.mem_cons_self, (congrArg RestartPolicy.maximum_retry_count h).symm⟩
      · have hname' : no_restart.name = name := congrArg RestartPolicy.name h
        exact ⟨List.mem_cons_of_mem _ (hname' ▸ List.mem_cons_self),
          (congrArg RestartPolicy.maximum_retry_count h).symm⟩
    | some flag =>
      have hmem := restart_policy_flag_mem hflag
      rw [hflag] at h
      replace h : read_restart flag = _ := h
      rw [read_restart_policy flag hmem] at h
      split_ifs at h with hname
      · exact ⟨hname ▸ List.mem_cons_self, (congrArg RestartPolicy.maximum_retry_count h).symm⟩
      · have hname' : flag = name := congrArg RestartPolicy.name h
        exact ⟨List.mem_cons_of_mem _ (List.mem_cons_of_mem _ (hname' ▸ hmem)),
          (congrArg RestartPolicy.maximum_retry_count h).symm⟩
  · have hall : ∀ name ∈ [] :: no_restart.name :: restart_policies,
        ((restart_policy_flag name).toList.getLast?.map read_restart).getD no_restart =
          if name = [] then ⟨no_restart.name, 0⟩ else ⟨name, 0⟩ := by
      decide +kernel
    rintro ⟨hname, hcount⟩
    rw [hall name hname, hcount]

theorem networks_iff (networks : List (List Char)) :
    (if (own_network networks).toList = [] then [bridge] else (own_network networks).toList) =
        networks ↔
      ∃ name, networks = [name] ∧ name ≠ "host".toList ∧ name ≠ "none".toList := by
  constructor
  · intro h
    cases hown : own_network networks with
    | none =>
      rw [hown] at h
      exact ⟨bridge, h.symm, by decide, by decide⟩
    | some name =>
      have hname : name ∉ default_networks :=
        of_decide_eq_true (List.find?_some (p := fun n => decide (n ∉ default_networks)) hown)
      rw [hown] at h
      exact ⟨name, h.symm, fun heq => hname (heq ▸ by decide), fun heq => hname (heq ▸ by decide)⟩
  · rintro ⟨name, rfl, hhost, hnone⟩
    by_cases hbridge : name = bridge
    · rw [hbridge]
      decide
    · have hown : own_network [name] = some name := by
        have hname : name ∉ default_networks := by
          simp only [default_networks, List.mem_cons, List.not_mem_nil, or_false, not_or]
          exact ⟨hbridge, hhost, hnone⟩
        exact List.find?_cons_of_pos (decide_eq_true hname)
      rw [hown]
      rfl

theorem entrypoint_iff (entrypoint : List (List Char)) :
    (if field entrypoint = [] then [] else [field entrypoint]).getLast?.toList = entrypoint ↔
      ∀ w ws, entrypoint = w :: ws → w ≠ [] ∧ ws = [] := by
  rcases entrypoint with _ | ⟨w, _ | ⟨v, ws⟩⟩
  · exact ⟨fun _ => nofun, fun _ => rfl⟩
  · have hfield : field [w] = w := List.intercalate_singleton
    rw [hfield]
    split_ifs with hw
    · exact ⟨nofun, fun h => absurd hw (h w [] rfl).1⟩
    · exact ⟨fun _ w' ws' heq => by cases heq; exact ⟨hw, rfl⟩, fun _ => rfl⟩
  · constructor
    · intro h
      split_ifs at h
      · cases h
      · have hlength := congrArg List.length h
        simp at hlength
    · intro h
      cases (h w (v :: ws) rfl).2

theorem getLast?_non_empty (v : List Char) :
    (if v = [] then [] else [v]).getLast?.getD [] = v := by
  split_ifs with hv
  · exact hv.symm
  · rfl

/-! ## The container that is created -/

section Main

variable {environ : List Char → Option (List Char)} {document : Document}

/-- **What the options and the arguments create.** -/
theorem created_given_iff (args : List (List Char)) :
    (Invocation.mk document.given document.image args).created environ =
        some (described document) ↔
      args = document.cmd ∧
        (∀ w ws, document.entrypoint = w :: ws → w ≠ [] ∧ ws = []) ∧
        (document.restart_policy.name ∈ [] :: no_restart.name :: restart_policies ∧
          document.restart_policy.maximum_retry_count = 0) ∧
        (∀ binding ∈ document.port_bindings, binding.entries ≠ some [] ∧
          ∀ entry ∈ binding.entries.getD [], entry.host_ip ≠ any_address ∧
            ':' ∉ entry.host_port ∧ ':' ∉ binding.container) ∧
        (∀ mount ∈ document.mounts, mount.volume ≠ [] ∧ mount.destination ≠ [] ∧
          ':' ∉ mount.volume ∧ ':' ∉ mount.destination) ∧
        (∀ entry ∈ document.env, '=' ∈ entry) ∧
        (∀ label ∈ document.labels, '=' ∉ label.1) ∧
        ∃ name, document.networks = [name] ∧ name ≠ "host".toList ∧ name ≠ "none".toList := by
  have hvolumes : (document.mounts.map Mount.value).mapM read_volume =
      some (document.mounts.map fun mount => ⟨mount.volume, mount.destination, mount.rw⟩) ↔ _ :=
    mapM_map_eq_some_iff document.mounts
  simp only [read_volume_value_iff] at hvolumes
  unfold Invocation.created
  rw [Option.map_eq_some_iff, has_given document (f := .auto_remove) nofun,
    has_given document (f := .privileged) nofun, has_given document (f := .tty) nofun]
  unfold Invocation.values
  simp only [values_given, Document.values, getLast?_non_empty]
  unfold described
  rw [← entrypoint_iff, ← restart_iff, ← ports_iff, ← hvolumes, ← @env_iff environ,
    ← labels_iff, ← networks_iff]
  constructor
  · rintro ⟨volumes, hread, hcreated⟩
    rw [Created.mk.injEq] at hcreated
    obtain ⟨_, hrestart, _, _, _, _, _, hports, hvolumes', henv, hlabels, hnetworks, hentry, _,
      hargs⟩ := hcreated
    exact ⟨hargs, hentry, hrestart, hports, hvolumes' ▸ hread, henv, hlabels, hnetworks⟩
  · rintro ⟨hargs, hentry, hrestart, hports, hread, henv, hlabels, hnetworks⟩
    refine ⟨_, hread, ?_⟩
    rw [Created.mk.injEq]
    exact ⟨rfl, hrestart, rfl, rfl, rfl, rfl, rfl, hports, rfl, henv, hlabels, hnetworks, hentry,
      rfl, hargs⟩

/-- **The containers the command recreates as they are.** -/
theorem recreated_iff {socket command : List Char}
    (h : recreate_command socket document = some command) :
    creates environ command = some (described document) ↔ document.Kept := by
  rw [creates_recreate h, Option.bind_eq_some_iff]
  constructor
  · rintro ⟨args, hargs, hcreated⟩
    obtain ⟨invocation, hparse, hcreated⟩ := Option.bind_eq_some_iff.mp hcreated
    -- The image that is read is no option, and it is the image of the document.
    have himage : is_option document.image = false := by
      have hread := image_parse_create _ hparse
      rwa [← (created_image hcreated).1] at hread
    have hgiven := parse_create_given himage args document.given
    cases hgiven.symm.trans hparse
    obtain ⟨hcmd, hentry, hrestart, hports, hvolumes, henv, hlabels, hnetworks⟩ :=
      (created_given_iff args).mp hcreated
    rw [hcmd] at hargs
    exact ⟨hentry, (Shell.words_join_iff document.cmd).mp hargs, himage, hrestart.1, hrestart.2,
      fun b hb => (hports b hb).1, fun b hb => (hports b hb).2, hvolumes, henv, hlabels, hnetworks⟩
  · intro hkept
    refine ⟨document.cmd, (Shell.words_join_iff document.cmd).mpr hkept.cmd, ?_⟩
    rw [parse_create_given hkept.image, Option.bind_some]
    exact (created_given_iff document.cmd).mpr ⟨rfl, hkept.entrypoint,
      ⟨hkept.restart_name, hkept.restart_count⟩,
      fun b hb => ⟨hkept.bound b hb, hkept.ports b hb⟩, hkept.volumes, hkept.env, hkept.labels,
      hkept.networks⟩

/-- A container whose program needs no quotes. -/
def web_plain : Document := { web_create with cmd := ["nginx".toList, "-t".toList] }

/-- A container that runs a line of a shell, and nothing else was said when it was created. -/
def web_shell : Document where
  name := "/web".toList
  image := "nginx".toList
  restart_policy := no_restart
  auto_remove := false
  privileged := false
  user := []
  working_dir := []
  tty := false
  port_bindings := []
  mounts := []
  env := []
  labels := []
  networks := [bridge]
  entrypoint := []
  cmd := ["sh".toList, "-c".toList, "exec nginx".toList]

theorem recreated_iff_web_plain :
    creates (fun _ => none) ((recreate_command default_socket web_plain).getD []) =
      some (described web_plain) :=
  (recreated_iff (recreate_command_getD default_socket (by decide))).mpr
    { entrypoint := fun w ws h => by
        cases h
        exact ⟨by decide, rfl⟩
      cmd := by decide
      image := rfl
      restart_name := by decide
      restart_count := rfl
      bound := by decide
      ports := by decide
      volumes := by decide
      env := by decide
      labels := by decide
      networks := ⟨"backend".toList, rfl, by decide, by decide⟩ }

/-- The line of the shell falls apart into its words. -/
theorem shell_line_not_recreated :
    ∃ command created, recreate_command default_socket web_shell = some command ∧
      creates (fun _ => none) command = some created ∧
        created.cmd = ["sh".toList, "-c".toList, "exec".toList, "nginx".toList] ∧
          created ≠ described web_shell := by
  have hwords : (creates (fun _ => none) ((recreate_command default_socket web_shell).getD [])).map
      Created.cmd = some ["sh".toList, "-c".toList, "exec".toList, "nginx".toList] := by
    decide +kernel
  obtain ⟨created, hcreated, hcmd⟩ := Option.map_eq_some_iff.mp hwords
  refine ⟨_, created, recreate_command_getD default_socket (by decide), hcreated, hcmd,
    fun heq => ?_⟩
  rw [heq] at hcmd
  exact absurd hcmd (by decide)

end Main

end WaSSH.Docker
