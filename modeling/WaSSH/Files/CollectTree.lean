import WaSSH.Files.LocalList

/-!
# Collecting a tree

Before a directory of this machine is copied, the walk makes the target directories and lists the
files.

* `Leaf`, `Disk`: a tree of directories, regular files, links and special files;
* `collect_tree`, `download_tree`: the source;
* `Records`, `Collected`: what the walk has to list;
* `Tame`, `Clear`: trees whose names come through, and targets outside the items;
* `run_all_spec`, `collect_spec`: a list of children, and one item, by induction on its depth;
* **`download_tree_collects`**: the walk ends, and lists what it has to;
* **`collect_into_itself`**: a directory that is copied into itself is walked for ever.
-/

namespace WaSSH.Files.CollectTree

open FileTree UnixPath Utf8 LocalList

/-! ## The source -/

/-- What is not a directory: a path does not lead through any of them. -/
inductive Leaf
  | regular (len : ℕ)
  | symlink
  | special (len : ℕ)

abbrev Disk := Tree Bytes Leaf

/-- A file that is to be copied: its path, the target, and its size. -/
abbrev Record := Bytes × Bytes × ℕ

/-- The walk: the disk, what is to be copied, and the directories that were listed. -/
structure Walk where
  disk : Disk
  files : List Record := []
  read : List (Place Bytes) := []

/-- The name under which an item is copied. -/
def item_name (source : Bytes) : List Char :=
  ((file_name source).map from_utf8_lossy).getD "download".toList

/-- `dir.join(&name)`. -/
def target_of (source dir : Bytes) : Bytes := join dir (encode (item_name source))

/-- One after the other, until one fails or does not end. -/
def run_all {α : Type} (step : α → Walk → Option (Except Bytes Walk)) :
    List α → Walk → Option (Except Bytes Walk)
  | [], w => some (.ok w)
  | a :: as, w =>
    match step a w with
    | none => none
    | some (.error target) => some (.error target)
    | some (.ok w) => run_all step as w

/-- Collect every file under `item`, keeping its name under `dir`; directories are created as the
walk goes. It has not ended when the fuel runs out; the error is a target that cannot be created. -/
def collect_tree (v : Vars) (cwd : Place Bytes) :
    ℕ → List Char → Bytes → Walk → Option (Except Bytes Walk)
  | 0, _, _, _ => none
  | fuel + 1, item, dir, w =>
    let source := local_path v item
    let target := target_of source dir
    match resolve w.disk cwd source with
    | none => some (.ok w)
    | some place =>
      match w.disk.kind place with
      | none | some (.leaf .symlink) => some (.ok w)
      | some (.leaf (.regular len)) | some (.leaf (.special len)) =>
        some (.ok { w with files := w.files ++ [(source, target, len)] })
      | some .dir =>
        match create_dirs (fun _ => true) w.disk (start cwd target) (parts target) with
        | (none, _) => some (.error target)
        | (some _, disk) =>
          let children := ((disk.list place).mergeSort fun a b => decide (a ≤ b)).map (join source)
          run_all (fun child => collect_tree v cwd fuel (display child) target) children
            { w with disk := disk, read := w.read ++ [place] }

/-- The walk of `DownloadTree`. -/
def download_tree (v : Vars) (cwd : Place Bytes) (fuel : ℕ) (items : List (List Char)) (dir : Bytes)
    (disk : Disk) : Option (Except Bytes Walk) :=
  run_all (fun item => collect_tree v cwd fuel item dir) items { disk }

/-! ## What has to be listed -/

section Claim

variable (v : Vars) (cwd : Place Bytes) (t : Disk)

/-- A record, as the places that its paths spell. -/
def placed (record : Record) : Place Bytes × Place Bytes × ℕ :=
  (spelled cwd record.1, spelled cwd record.2.1, record.2.2)

/-- The regular files at a place and below it, each once, with its place below the target. -/
def Lists (place target : Place Bytes) (records : List Record) : Prop :=
  (records.map (placed cwd)).Nodup ∧ ∀ x, x ∈ records.map (placed cwd) ↔
    ∃ below len, t.kind (place ++ below) = some (.leaf (.regular len)) ∧
      x = (place ++ below, target ++ below, len)

/-- What is listed for an item. -/
def Records (dir : Bytes) (item : List Char) (records : List Record) : Prop :=
  match resolve t cwd (local_path v item) with
  | none => records = []
  | some place => Lists cwd t place (spelled cwd (target_of (local_path v item) dir)) records

/-- The regular files of every item are listed, and only directories were read that were there. -/
structure Collected (items : List (List Char)) (dir : Bytes) (w : Walk) : Prop where
  files : ∃ records, List.Forall₂ (Records v cwd t dir) items records ∧ w.files = records.flatten
  read : ∀ place ∈ w.read, t.kind place = some .dir

/-- An item whose tree is finite, has regular files and links only, and is shown as it is. -/
structure Tame (item : List Char) : Prop where
  there : resolve t cwd (local_path v item) ≠ none ∨ t.kind (spelled cwd (local_path v item)) = none
  names : ∀ below name, t.kind (spelled cwd (local_path v item) ++ below ++ [name]) ≠ none →
    IsName name ∧ encode (from_utf8_lossy name) = name
  finite : ∃ depth, ∀ below, t.kind (spelled cwd (local_path v item) ++ below) ≠ none →
    below.length ≤ depth
  plain : ∀ below len, t.kind (spelled cwd (local_path v item) ++ below) ≠
    some (.leaf (.special len))
  shown : ∀ below, below ≠ [] → t.kind (spelled cwd (local_path v item) ++ below) ≠ none →
    local_path v (display (below.foldl join (local_path v item))) =
      below.foldl join (local_path v item)

/-- The target directories lie outside the items: nothing that is made on the way to `dir` is in an
item, and no item is at or below the target of an item. -/
structure Clear (items : List (List Char)) (dir : Bytes) : Prop where
  way : ∀ item ∈ items, ∀ q ∈ passed (start cwd dir) (parts dir),
    ¬ spelled cwd (local_path v item) <+: q
  targets : ∀ item ∈ items, ∀ other ∈ items,
    ¬ spelled cwd (target_of (local_path v item) dir) <+: spelled cwd (local_path v other)

end Claim

/-! ## Names of targets -/

theorem isName_lossy {name : Bytes} (h : IsName name) : IsName (encode (from_utf8_lossy name)) := by
  have hstays : ¬ Stays (encode (from_utf8_lossy name)) := fun hstays =>
    not_stays h ((stays_lossy name).mp hstays)
  refine ⟨fun h => hstays (.inl h), fun hslash => ?_, fun h => hstays (.inr h), fun hup => ?_⟩
  · exact h.2.1 (mem_of_mem_from_utf8_lossy (c := '/') (by decide)
      (mem_of_mem_encode (b := SLASH) (by decide) hslash))
  · have hdots : from_utf8_lossy name = ['.', '.'] := encode_injective hup
    have hmem : UInt8.ofNat 0x2e ∈ name := by
      refine mem_of_mem_from_utf8_lossy (c := '.') (by decide) ?_
      rw [hdots]
      exact List.mem_cons_self
    obtain ⟨p, q, rfl⟩ := List.append_of_mem hmem
    rw [from_utf8_lossy_append_ascii p (n := 0x2e) (by decide) q] at hdots
    have hdot {part : Bytes} (hpart : from_utf8_lossy part = ['.']) : part = DOT := by
      rcases (stays_lossy part).mp (.inr (by rw [hpart]; decide)) with rfl | h
      · cases hpart
      · exact h
    apply h.2.2.2
    cases hp : from_utf8_lossy p with
    | nil =>
      rw [hp] at hdots
      rw [(from_utf8_lossy_eq_nil_iff p).mp hp, hdot (List.cons_injective hdots)]
      rfl
    | cons c rest =>
      rw [hp, List.cons_append, List.cons_eq_cons] at hdots
      obtain ⟨rfl, hrest⟩ := hdots
      cases rest with
      | nil =>
        rw [hdot hp, (from_utf8_lossy_eq_nil_iff q).mp (List.cons_injective hrest)]
        rfl
      | cons c' rest =>
        rw [List.cons_append, List.cons_eq_cons] at hrest
        exact absurd hrest.2 (List.append_ne_nil_of_right_ne_nil _ (List.cons_ne_nil _ _))

theorem isName_item_name (source : Bytes) : IsName (encode (item_name source)) := by
  unfold item_name
  cases hname : file_name source with
  | none => exact ⟨by decide, by decide, by decide, by decide⟩
  | some name => exact isName_lossy (isName_of_file_name hname)

theorem spelled_target (cwd : Place Bytes) (source dir : Bytes) :
    spelled cwd (target_of source dir) = spelled cwd dir ++ [encode (item_name source)] :=
  spelled_join (isName_item_name source) cwd dir

/-- The last name of a path is the one that was joined. -/
theorem item_name_join {name : Bytes} (hname : IsName name) (dir : Bytes) :
    item_name (join dir name) = from_utf8_lossy name := by
  obtain ⟨l, hjoin, -⟩ := parts_join hname dir
  have hbody : body (join dir name) = l.filter (fun part => ¬ Stays part) ++ [name] := by
    unfold body
    rw [hjoin, List.filter_append, List.filter_singleton]
    simp [not_stays hname]
  unfold item_name file_name
  rw [hbody, List.getLast?_concat, Option.filter_some, if_pos (decide_eq_true hname.2.2.2)]
  rfl

/-! ## Lists of children -/

/-- **A list of steps**, each of which ends and adds the records it has to. -/
theorem run_all_spec {α : Type} {step : α → Walk → Option (Except Bytes Walk)} {Inv : Walk → Prop}
    {Good : α → List Record → Prop} {as : List α}
    (hstep : ∀ a ∈ as, ∀ w, Inv w → ∃ result, step a w = some result ∧
      ∀ w', result = .ok w' → Inv w' ∧ ∃ records, w'.files = w.files ++ records ∧ Good a records)
    {w : Walk} (hw : Inv w) :
    ∃ result, run_all step as w = some result ∧ ∀ w', result = .ok w' → Inv w' ∧
      ∃ records, w'.files = w.files ++ records.flatten ∧ List.Forall₂ Good as records := by
  induction as generalizing w with
  | nil =>
    refine ⟨.ok w, rfl, fun w' hw' => ?_⟩
    obtain rfl := Except.ok.inj hw'
    exact ⟨hw, [], (List.append_nil _).symm, .nil⟩
  | cons a as ih =>
    obtain ⟨result, hresult, hgood⟩ := hstep a List.mem_cons_self w hw
    cases result with
    | error target =>
      refine ⟨.error target, ?_, fun w' hw' => by cases hw'⟩
      unfold run_all
      rw [hresult]
    | ok next =>
      obtain ⟨hnext, records, hfiles, hrecords⟩ := hgood next rfl
      obtain ⟨result, hrest, hall⟩ := ih (fun a ha => hstep a (List.mem_cons_of_mem _ ha)) hnext
      refine ⟨result, ?_, fun w' hw' => ?_⟩
      · unfold run_all
        rw [hresult]
        exact hrest
      · obtain ⟨hinv, rest, hrest, hgoods⟩ := hall w' hw'
        refine ⟨hinv, records :: rest, ?_, .cons hrecords hgoods⟩
        rw [hrest, hfiles, List.append_assoc]
        rfl

section Children

variable {cwd place target : Place Bytes} {t : Disk}

/-- What is listed for the children is what has to be listed for their directory. -/
theorem lists_children {names : List Bytes} (hnodup : names.Nodup) {records : List (List Record)}
    (h : List.Forall₂ (fun name => Lists cwd t (place ++ [name]) (target ++ [name])) names records) :
    (records.flatten.map (placed cwd)).Nodup ∧ ∀ x, x ∈ records.flatten.map (placed cwd) ↔
      ∃ name ∈ names, ∃ below len, t.kind (place ++ name :: below) = some (.leaf (.regular len)) ∧
        x = (place ++ name :: below, target ++ name :: below, len) := by
  induction h with
  | nil =>
    refine ⟨List.nodup_nil, fun x => iff_of_false List.not_mem_nil ?_⟩
    rintro ⟨name, hname, -⟩
    cases hname
  | @cons name found names records hfound _ ih =>
    obtain ⟨hnew, hnodup⟩ := List.nodup_cons.mp hnodup
    obtain ⟨hrest, hmem⟩ := ih hnodup
    have hfirst (x : Place Bytes × Place Bytes × ℕ) : x ∈ found.map (placed cwd) ↔
        ∃ below len, t.kind (place ++ name :: below) = some (.leaf (.regular len)) ∧
          x = (place ++ name :: below, target ++ name :: below, len) := by
      rw [hfound.2]
      simp only [List.append_assoc, List.singleton_append]
    rw [List.flatten_cons, List.map_append]
    constructor
    · refine List.nodup_append.mpr ⟨hfound.1, hrest, ?_⟩
      rintro x hx y hy rfl
      obtain ⟨below, len, -, rfl⟩ := (hfirst x).mp hx
      obtain ⟨name', hname', below', len', -, heq⟩ := (hmem _).mp hy
      have hplace := List.append_cancel_left (Prod.mk.inj heq).1
      rw [(List.cons_eq_cons.mp hplace).1] at hnew
      exact hnew hname'
    · intro x
      rw [List.mem_append, hfirst, hmem]
      constructor
      · rintro (h | ⟨name', hname', h⟩)
        · exact ⟨name, List.mem_cons_self, h⟩
        · exact ⟨name', List.mem_cons_of_mem _ hname', h⟩
      · rintro ⟨name', hname', h⟩
        rcases List.mem_cons.mp hname' with rfl | hname'
        · exact .inl h
        · exact .inr ⟨name', hname', h⟩

/-- A directory is listed by its children. -/
theorem lists_of_children (hdir : t.kind place = some .dir) {names : List Bytes}
    (hnodup : names.Nodup) (hnames : ∀ name, name ∈ names ↔ t.kind (place ++ [name]) ≠ none)
    {records : List (List Record)}
    (h : List.Forall₂ (fun name => Lists cwd t (place ++ [name]) (target ++ [name])) names records) :
    Lists cwd t place target records.flatten := by
  obtain ⟨hdistinct, hmem⟩ := lists_children hnodup h
  refine ⟨hdistinct, fun x => (hmem x).trans ⟨?_, ?_⟩⟩
  · rintro ⟨name, -, below, len, hkind, rfl⟩
    exact ⟨name :: below, len, hkind, rfl⟩
  · rintro ⟨below, len, hkind, rfl⟩
    cases below with
    | nil =>
      rw [List.append_nil, hdir] at hkind
      cases hkind
    | cons name below =>
      refine ⟨name, (hnames name).mpr ?_, below, len, hkind, rfl⟩
      refine Tree.ne_none_of_prefix (by rw [hkind]; exact Option.some_ne_none _) ⟨below, ?_⟩
      rw [List.append_assoc]
      rfl

/-- Something that is not a directory is listed by itself, or not at all. -/
theorem lists_leaf {leaf : Leaf} (hleaf : t.kind place = some (.leaf leaf)) {records : List Record}
    (h : records.map (placed cwd) = match leaf with
      | .regular len => [(place, target, len)]
      | _ => []) : Lists cwd t place target records := by
  have hbelow {below : Place Bytes} {leaf' : Leaf}
      (h : t.kind (place ++ below) = some (.leaf leaf')) : below = [] ∧ leaf' = leaf := by
    by_cases hne : below = []
    · subst hne
      rw [List.append_nil, hleaf] at h
      exact ⟨rfl, (Kind.leaf.inj (Option.some.inj h)).symm⟩
    · have hdir := Tree.kind_of_below (by rw [h]; exact Option.some_ne_none _) hne
      rw [hleaf] at hdir
      cases hdir
  unfold Lists
  rw [h]
  cases leaf with
  | regular len =>
    refine ⟨List.nodup_singleton _, fun x => List.mem_singleton.trans ⟨?_, ?_⟩⟩
    · rintro rfl
      exact ⟨[], len, by rw [List.append_nil, hleaf], by simp⟩
    · rintro ⟨below, len', hkind, rfl⟩
      obtain ⟨rfl, hlen⟩ := hbelow hkind
      rw [List.append_nil, List.append_nil, Leaf.regular.inj hlen]
  | symlink | special len =>
    refine ⟨List.nodup_nil, fun x => iff_of_false List.not_mem_nil ?_⟩
    rintro ⟨below, len', hkind, -⟩
    cases (hbelow hkind).2

end Children

theorem run_all_map {α β : Type} (f : α → β) (step : β → Walk → Option (Except Bytes Walk))
    (as : List α) (w : Walk) : run_all step (as.map f) w = run_all (fun a => step (f a)) as w := by
  induction as generalizing w with
  | nil => rfl
  | cons a as ih =>
    rw [List.map_cons, run_all, run_all]
    split
    · rfl
    · rfl
    · exact ih _

/-! ## One item -/

section Item

variable {v : Vars} {cwd : Place Bytes} {t : Disk} {items : List (List Char)} {dir : Bytes}

/-- What holds during the walk: the items are as they were. -/
structure Inv (v : Vars) (cwd : Place Bytes) (t : Disk) (items : List (List Char)) (w : Walk) :
    Prop where
  grows : t.Grows w.disk
  same : ∀ item ∈ items, ∀ below, w.disk.kind (spelled cwd (local_path v item) ++ below) =
    t.kind (spelled cwd (local_path v item) ++ below)
  read : ∀ place ∈ w.read, t.kind place = some .dir

/-- Nothing that is made on the way to a target is in an item. -/
def Outside (v : Vars) (cwd : Place Bytes) (items : List (List Char)) (target : Bytes) : Prop :=
  ∀ q ∈ passed (start cwd target) (parts target), ∀ item ∈ items,
    ¬ spelled cwd (local_path v item) <+: q

/-- A target directory is made, and the items are as they were. -/
theorem Inv.create {w : Walk} (h : Inv v cwd t items w) {target : Bytes}
    (hout : Outside v cwd items target) {place : Place Bytes} (hplace : t.kind place = some .dir) :
    Inv v cwd t items { w with
      disk := (create_dirs (fun _ => true) w.disk (start cwd target) (parts target)).2
      read := w.read ++ [place] } := by
  refine ⟨h.grows.trans (create_dirs_grows _ _ _ _), fun item hitem below => ?_, fun q hq => ?_⟩
  · rw [← h.same item hitem below]
    exact create_dirs_passed _ _ _ _ fun hq => hout _ hq item hitem (List.prefix_append _ _)
  · rcases List.mem_append.mp hq with hq | hq
    · exact h.read q hq
    · rwa [List.mem_singleton.mp hq]

/-- **One item**, if its children end and are listed. -/
theorem collect_step {item0 : List Char} (htame : Tame v cwd t item0) (hitem0 : item0 ∈ items)
    {place target0 : Place Bytes} {source dir' : Bytes} {item : List Char} {fuel : ℕ}
    (hbelow : ∃ below, place = spelled cwd (local_path v item0) ++ below)
    (hsource : local_path v item = source) (hplace : resolve t cwd source = some place)
    (htarget : spelled cwd (target_of source dir') = target0)
    (hout : Outside v cwd items (target_of source dir'))
    (hchild : ∀ name, t.kind (place ++ [name]) ≠ none → ∀ w, Inv v cwd t items w →
      ∃ result, collect_tree v cwd fuel (display (join source name)) (target_of source dir') w =
          some result ∧
        ∀ w', result = .ok w' → Inv v cwd t items w' ∧ ∃ records, w'.files = w.files ++ records ∧
          Lists cwd t (place ++ [name]) (target0 ++ [name]) records)
    {w : Walk} (hw : Inv v cwd t items w) :
    ∃ result, collect_tree v cwd (fuel + 1) item dir' w = some result ∧
      ∀ w', result = .ok w' → Inv v cwd t items w' ∧ ∃ records, w'.files = w.files ++ records ∧
        Lists cwd t place target0 records := by
  obtain ⟨below, hbelow⟩ := hbelow
  have hkind : w.disk.kind place = t.kind place := by
    rw [hbelow]
    exact hw.same item0 hitem0 below
  have hspelled : spelled cwd source = place := (resolve_spelled hplace).symm
  unfold collect_tree
  dsimp only
  rw [hsource, resolve_grows hw.grows hplace]
  dsimp only
  cases hthere : t.kind place with
  | none => exact absurd hthere (resolve_isSome hplace)
  | some kind =>
    rw [hthere] at hkind
    rw [hkind]
    cases kind with
    | leaf leaf =>
      cases leaf with
      | symlink =>
        refine ⟨_, rfl, fun w' hw' => ?_⟩
        obtain rfl := Except.ok.inj hw'
        exact ⟨hw, [], (List.append_nil _).symm, lists_leaf hthere rfl⟩
      | special len =>
        rw [hbelow] at hthere
        exact absurd hthere (htame.plain below len)
      | regular len =>
        refine ⟨_, rfl, fun w' hw' => ?_⟩
        obtain rfl := Except.ok.inj hw'
        refine ⟨⟨hw.grows, hw.same, hw.read⟩, _, rfl, lists_leaf hthere ?_⟩
        rw [List.map_singleton, placed, hspelled, htarget]
    | dir =>
      dsimp only
      cases hmade : create_dirs (fun _ => true) w.disk (start cwd (target_of source dir'))
          (parts (target_of source dir')) with
      | mk made disk =>
        cases made with
        | none => exact ⟨_, rfl, fun w' hw' => by cases hw'⟩
        | some made =>
          dsimp only
          have hinv : Inv v cwd t items { w with disk := disk, read := w.read ++ [place] } := by
            have hcreate := hw.create hout hthere
            rwa [hmade] at hcreate
          have hnames (name : Bytes) :
              name ∈ (disk.list place).mergeSort (fun a b => decide (a ≤ b)) ↔
                t.kind (place ++ [name]) ≠ none := by
            rw [List.mem_mergeSort, Tree.mem_list]
            have hsame := hinv.same item0 hitem0 (below ++ [name])
            rw [← List.append_assoc, ← hbelow] at hsame
            exact (congrArg (· ≠ none) hsame).to_iff
          rw [run_all_map]
          obtain ⟨result, hresult, hall⟩ := run_all_spec
            (fun name hname w hw => hchild name ((hnames name).mp hname) w hw) hinv
          refine ⟨result, hresult, fun w' hw' => ?_⟩
          obtain ⟨hinv', records, hfiles, hrecords⟩ := hall w' hw'
          refine ⟨hinv', _, hfiles, lists_of_children hthere ?_ hnames hrecords⟩
          exact (List.mergeSort_perm _ _).nodup_iff.mpr (disk.nodup_list place)

/-- Below the target of an item there is no item. -/
theorem Clear.below (h : Clear v cwd items dir) {item other : List Char} (hitem : item ∈ items)
    (hother : other ∈ items) (below : Place Bytes) :
    ¬ spelled cwd (local_path v other) <+:
      spelled cwd (target_of (local_path v item) dir) ++ below := by
  intro hle
  have hnot := h.targets item hitem other hother
  rcases List.prefix_or_prefix_of_prefix hle (List.prefix_append _ below) with hle | hle
  · rw [spelled_target] at hle hnot
    rcases List.prefix_concat_iff.mp hle with heq | hle
    · exact hnot (heq ▸ List.prefix_rfl)
    · exact h.way other hother _ (follow_mem_passed _ _) hle
  · exact hnot hle

/-- **An item**, by induction on how deep its tree goes. -/
theorem collect_spec (hclear : Clear v cwd items dir) {item0 : List Char}
    (htame : Tame v cwd t item0) (hitem0 : item0 ∈ items) (depth : ℕ) :
    ∀ (below : Place Bytes) (item : List Char) (dir' : Bytes),
      (∀ rest, t.kind (spelled cwd (local_path v item0) ++ below ++ rest) ≠ none →
        rest.length ≤ depth) →
      local_path v item = below.foldl join (local_path v item0) →
      resolve t cwd (local_path v item) = some (spelled cwd (local_path v item0) ++ below) →
      spelled cwd (target_of (local_path v item) dir') =
        spelled cwd (target_of (local_path v item0) dir) ++ below →
      Outside v cwd items (target_of (local_path v item) dir') →
      ∀ w, Inv v cwd t items w →
        ∃ result, collect_tree v cwd (depth + 1) item dir' w = some result ∧
          ∀ w', result = .ok w' → Inv v cwd t items w' ∧ ∃ records, w'.files = w.files ++ records ∧
            Lists cwd t (spelled cwd (local_path v item0) ++ below)
              (spelled cwd (target_of (local_path v item0) dir) ++ below) records := by
  induction depth with
  | zero =>
    intro below item dir' hbound hsource hplace htarget hout w hw
    refine collect_step htame hitem0 ⟨below, rfl⟩ rfl hplace htarget hout ?_ hw
    intro name hname
    exact absurd (hbound [name] hname) (Nat.not_succ_le_zero 0)
  | succ depth ih =>
    intro below item dir' hbound hsource hplace htarget hout w hw
    refine collect_step htame hitem0 ⟨below, rfl⟩ rfl hplace htarget hout ?_ hw
    intro name hname w hw
    obtain ⟨hisname, hkept⟩ := htame.names below name hname
    have hpath : (below ++ [name]).foldl join (local_path v item0) = join (local_path v item) name := by
      rw [List.foldl_append, ← hsource]
      rfl
    have hshown : local_path v (display (join (local_path v item) name)) =
        join (local_path v item) name := by
      rw [← hpath]
      refine htame.shown (below ++ [name]) ?_ ?_
      · exact List.append_ne_nil_of_right_ne_nil _ (List.cons_ne_nil _ _)
      · rwa [← List.append_assoc]
    have hchild : target_of (join (local_path v item) name) (target_of (local_path v item) dir') =
        join (target_of (local_path v item) dir') name := by
      conv_lhs => unfold target_of
      rw [item_name_join hisname, hkept]
      rfl
    have htarget' : spelled cwd (join (target_of (local_path v item) dir') name) =
        spelled cwd (target_of (local_path v item0) dir) ++ (below ++ [name]) := by
      rw [spelled_join hisname, htarget, List.append_assoc]
    have hspec := ih (below ++ [name]) (display (join (local_path v item) name))
      (target_of (local_path v item) dir') ?_ (hshown.trans hpath.symm) ?_ ?_ ?_ w hw
    · rwa [← List.append_assoc, ← List.append_assoc] at hspec
    · intro rest hrest
      have hlength := hbound (name :: rest) (by
        rw [← List.append_assoc, List.append_assoc] at hrest
        rwa [List.singleton_append] at hrest)
      rw [List.length_cons] at hlength
      omega
    · rw [hshown, ← List.append_assoc]
      exact resolve_join hisname hplace hname
    · rw [hshown, hchild]
      exact htarget'
    · rw [hshown, hchild]
      intro q hq other hother
      rcases mem_passed_join hisname hq with hq | rfl
      · exact hout q hq other hother
      · rw [← spelled_join hisname, htarget']
        exact hclear.below hitem0 hother _

/-- A whole item. -/
theorem collect_item (hclear : Clear v cwd items dir) {item : List Char}
    (htame : Tame v cwd t item) (hitem : item ∈ items) {depth : ℕ}
    (hdepth : ∀ below, t.kind (spelled cwd (local_path v item) ++ below) ≠ none →
      below.length ≤ depth) {w : Walk} (hw : Inv v cwd t items w) :
    ∃ result, collect_tree v cwd (depth + 1) item dir w = some result ∧
      ∀ w', result = .ok w' → Inv v cwd t items w' ∧ ∃ records, w'.files = w.files ++ records ∧
        Records v cwd t dir item records := by
  unfold Records
  cases hplace : resolve t cwd (local_path v item) with
  | none =>
    -- it is still not there
    have hnone : resolve w.disk cwd (local_path v item) = none := by
      by_contra hthere
      obtain ⟨place, hthere⟩ := Option.ne_none_iff_exists'.mp hthere
      obtain rfl := resolve_spelled hthere
      have hsame := hw.same item hitem []
      rw [List.append_nil, (htame.there.resolve_left fun h => h hplace)] at hsame
      exact resolve_isSome hthere hsame
    refine ⟨.ok w, ?_, fun w' hw' => ?_⟩
    · unfold collect_tree
      dsimp only
      rw [hnone]
    · obtain rfl := Except.ok.inj hw'
      exact ⟨hw, [], (List.append_nil _).symm, rfl⟩
  | some place =>
    obtain rfl := resolve_spelled hplace
    have hspec := collect_spec hclear htame hitem depth [] item dir ?_ rfl ?_ ?_ ?_ w hw
    · rwa [List.append_nil, List.append_nil] at hspec
    · rwa [List.append_nil]
    · rwa [List.append_nil]
    · rw [List.append_nil]
    · intro q hq other hother
      rcases mem_passed_join (isName_item_name _) hq with hq | rfl
      · exact hclear.way other hother q hq
      · have hnot := hclear.below hitem hother []
        rwa [List.append_nil, spelled_target] at hnot

end Item

/-! ## All items -/

/-- The walk ends, and where it does not fail it has listed what it has to. -/
def Collects (v : Vars) (cwd : Place Bytes) (items : List (List Char)) (dir : Bytes) (t : Disk) :
    Prop :=
  ∃ fuel result, download_tree v cwd fuel items dir t = some result ∧
    ∀ w, result = .ok w → Collected v cwd t items dir w

theorem exists_depth {v : Vars} {cwd : Place Bytes} {t : Disk} {items : List (List Char)}
    (htame : ∀ item ∈ items, Tame v cwd t item) :
    ∃ depth, ∀ item ∈ items, ∀ below, t.kind (spelled cwd (local_path v item) ++ below) ≠ none →
      below.length ≤ depth := by
  induction items with
  | nil => exact ⟨0, fun item hitem => absurd hitem List.not_mem_nil⟩
  | cons item items ih =>
    obtain ⟨first, hfirst⟩ := (htame item List.mem_cons_self).finite
    obtain ⟨rest, hrest⟩ := ih fun item hitem => htame item (List.mem_cons_of_mem _ hitem)
    refine ⟨max first rest, fun other hother below hbelow => ?_⟩
    rcases List.mem_cons.mp hother with rfl | hother
    · exact (hfirst below hbelow).trans (le_max_left _ _)
    · exact (hrest other hother below hbelow).trans (le_max_right _ _)

/-- A file `/f`. -/
def with_f : Disk := Tree.root.put [] (encode ['f']) (.leaf (.regular 3)) rfl (.inr (by decide))

def root_vars : Vars := ⟨none, none⟩

/-- `/a/a/...`, as a text and as a path. -/
def nested : ℕ → List Char
  | 0 => []
  | n + 1 => '/' :: 'a' :: nested n

def nested_path (n : ℕ) : Bytes := encode (nested n)

/-- Its place. -/
def nested_place (n : ℕ) : Place Bytes := List.replicate n (encode ['a'])

theorem isName_a : IsName (encode ['a']) := ⟨by decide, by decide, by decide, by decide⟩

theorem nested_succ (n : ℕ) : nested (n + 1) = nested n ++ ['/', 'a'] := by
  induction n with
  | zero => rfl
  | succ n ih =>
    conv_lhs => rw [nested, ih]
    rfl

theorem nested_path_succ (n : ℕ) : nested_path (n + 1) = nested_path n ++ SLASH :: encode ['a'] := by
  unfold nested_path
  rw [nested_succ, encode_append]
  rfl

theorem nested_place_succ (n : ℕ) : nested_place (n + 1) = nested_place n ++ [encode ['a']] :=
  List.replicate_succ'

theorem nested_place_le {n m : ℕ} (hle : n ≤ m) : nested_place n <+: nested_place m := by
  refine ⟨nested_place (m - n), ?_⟩
  unfold nested_place
  rw [← List.replicate_add, Nat.add_sub_cancel' hle]

theorem join_nested (n : ℕ) : join (nested_path (n + 1)) (encode ['a']) = nested_path (n + 2) := by
  unfold join
  rw [not_absolute isName_a, if_neg Bool.false_ne_true, if_neg, ← nested_path_succ]
  rintro (h | h)
  · rw [nested_path_succ] at h
    exact List.append_ne_nil_of_right_ne_nil _ (List.cons_ne_nil _ _) h
  · have hlast : (nested_path (n + 1)).getLast? = some 0x61 := by
      rw [nested_path_succ, show SLASH :: encode ['a'] = [SLASH] ++ [0x61] from rfl,
        ← List.append_assoc]
      exact List.getLast?_concat
    rw [hlast] at h
    exact absurd h (by decide)

/-- It is shown as it is. -/
theorem local_path_nested (v : Vars) (n : ℕ) :
    local_path v (nested (n + 1)) = nested_path (n + 1) := by
  have htrim : Text.trim_end ('a' :: nested n) = 'a' :: nested n := by
    cases n with
    | zero => decide
    | succ n =>
      have hlast : 'a' :: nested (n + 1) = ('a' :: nested n ++ ['/']) ++ ['a'] := by
        rw [nested_succ, List.append_assoc]
        rfl
      rw [hlast]
      exact List.rdropWhile_concat_neg _ _ _ (by decide)
  unfold nested nested_path
  rw [local_path_of_slash, htrim]
  rfl

theorem display_nested (n : ℕ) : display (nested_path n) = nested n := by
  unfold display nested_path
  rw [from_utf8_lossy_encode]
  induction n with
  | zero => rfl
  | succ n ih =>
    rw [nested, List.map_cons, List.map_cons, ih]
    rfl

theorem item_name_nested (n : ℕ) : item_name (nested_path (n + 1)) = ['a'] := by
  cases n with
  | zero => decide +kernel
  | succ n =>
    rw [← join_nested, item_name_join isName_a, from_utf8_lossy_encode]

theorem parts_nested (n : ℕ) : parts (nested_path n) = [] :: nested_place n := by
  induction n with
  | zero => rfl
  | succ n ih =>
    rw [nested_path_succ, parts_append_slash, ih, parts_of_not_mem isName_a.2.1, nested_place_succ]
    rfl

theorem start_nested (n : ℕ) : start [] (nested_path n) = [] := by
  unfold start
  split <;> rfl

theorem follow_nested (n : ℕ) : follow [] (parts (nested_path n)) = nested_place n := by
  rw [parts_nested, follow_plain]
  · have hkept : (nested_place n).filter (fun part => ¬ Stays part) = nested_place n := by
      refine List.filter_eq_self.mpr fun part hpart => ?_
      rw [List.eq_of_mem_replicate hpart]
      exact decide_eq_true (not_stays isName_a)
    rw [List.filter_cons_of_neg (by simp [Stays]), hkept, List.nil_append]
  · intro hmem
    rcases List.mem_cons.mp hmem with h | h
    · cases h
    · exact isName_a.2.2.2 (List.eq_of_mem_replicate h).symm

/-- The way to it is the directories above it. -/
theorem mem_passed_nested (n : ℕ) (q : Place Bytes) :
    q ∈ passed [] (parts (nested_path n)) ↔ q <+: nested_place n := by
  induction n with
  | zero =>
    have hpassed : passed [] (parts (nested_path 0)) = [[], []] := by decide +kernel
    rw [hpassed]
    simp [nested_place]
  | succ n ih =>
    have hparts : parts (nested_path (n + 1)) = parts (nested_path n) ++ [encode ['a']] := by
      rw [nested_path_succ, parts_append_slash, parts_of_not_mem isName_a.2.1]
    rw [nested_place_succ, List.prefix_concat_iff, ← ih, ← nested_place_succ, ← follow_nested]
    constructor
    · intro h
      rw [hparts] at h
      rcases mem_passed_append h with h | h
      · exact .inr h
      · rcases List.mem_cons.mp h with rfl | h
        · exact .inr (follow_mem_passed _ _)
        · rw [← follow_append, ← hparts] at h
          exact .inl (List.mem_singleton.mp h)
    · rintro (rfl | h)
      · exact follow_mem_passed _ _
      · rw [hparts]
        exact mem_passed_left _ h

/-- Directories down to a depth, and nothing else. -/
def IsNested (disk : Disk) (n : ℕ) : Prop :=
  ∀ q, disk.kind q = if q <+: nested_place n then some .dir else none

variable {disk : Disk} {m n : ℕ}

theorem IsNested.kind (h : IsNested disk m) (hle : n ≤ m) : disk.kind (nested_place n) = some .dir := by
  rw [h, if_pos]
  exact nested_place_le hle

theorem IsNested.resolve (h : IsNested disk m) (hle : n + 1 ≤ m) :
    UnixPath.resolve disk [] (nested_path (n + 1)) = some (nested_place (n + 1)) := by
  induction n with
  | zero =>
    have hroot : disk.kind [] = some .dir := h.kind (Nat.zero_le m)
    have hfirst : disk.kind [encode ['a']] = some .dir := h.kind hle
    have hparts : parts (nested_path 1) = [[], encode ['a']] := parts_nested 1
    have hstep : walk disk [] [encode ['a']] = some [encode ['a']] := by
      refine walk_cons_eq_some.mpr ⟨hroot, _, .down (not_stays isName_a) isName_a.2.2.2 ?_, rfl⟩
      rw [List.nil_append, hfirst]
      exact Option.some_ne_none _
    have hwalk : walk disk [] [[], encode ['a']] = some [encode ['a']] :=
      walk_cons_eq_some.mpr ⟨hroot, _, .stay (.inl rfl), hstep⟩
    unfold UnixPath.resolve
    rw [if_neg (by decide), start_nested, hparts, hwalk]
    exact Option.filter_eq_some_iff.mpr ⟨rfl, congrArg Option.isSome hfirst⟩
  | succ n ih =>
    rw [← join_nested, nested_place_succ]
    refine resolve_join isName_a (ih (by omega)) ?_
    rw [← nested_place_succ, h.kind hle]
    exact Option.some_ne_none _

/-- The directory that is made is the next one. -/
theorem IsNested.create (h : IsNested disk m) :
    ∃ disk', create_dirs (fun _ => true) disk (start [] (nested_path (m + 1)))
        (parts (nested_path (m + 1))) = (some (nested_place (m + 1)), disk') ∧
      IsNested disk' (m + 1) := by
  rw [start_nested]
  obtain ⟨hsome, hmade⟩ := create_dirs_makes disk [] (parts (nested_path (m + 1)))
    (fun q _ => by
      rw [h]
      split
      · exact .inr rfl
      · exact .inl rfl)
    (h.kind (Nat.zero_le m))
  rw [follow_nested] at hsome
  refine ⟨_, Prod.ext hsome rfl, fun q => ?_⟩
  by_cases hq : q <+: nested_place (m + 1)
  · rw [if_pos hq]
    exact hmade q ((mem_passed_nested _ q).mpr hq)
  · rw [if_neg hq, create_dirs_passed _ _ _ _ fun hmem => hq ((mem_passed_nested _ q).mp hmem), h,
      if_neg]
    intro hq'
    rw [nested_place_succ] at hq
    exact hq (hq'.trans (List.prefix_append _ _))

theorem IsNested.list (h : IsNested disk m) (hlt : n < m) :
    disk.list (nested_place n) = [encode ['a']] := by
  have hmem (name : Bytes) : name ∈ disk.list (nested_place n) ↔ name = encode ['a'] := by
    rw [Tree.mem_list, h]
    constructor
    · intro hname
      split_ifs at hname with hle
      · have hin := hle.subset (List.mem_append_right _ (List.mem_singleton_self name))
        exact List.eq_of_mem_replicate hin
      · exact absurd rfl hname
    · rintro rfl
      rw [← nested_place_succ, if_pos (nested_place_le hlt)]
      exact Option.some_ne_none _
  refine List.perm_singleton.mp ((List.perm_ext_iff_of_nodup (disk.nodup_list _)
    (List.nodup_singleton _)).mpr fun name => ?_)
  rw [hmem, List.mem_singleton]

/-- **A directory in itself** is walked as long as there is fuel. -/
theorem collect_nested (v : Vars) (fuel : ℕ) :
    ∀ (n m : ℕ) (w : Walk), n < m → IsNested w.disk m →
      collect_tree v [] fuel (nested (n + 1)) (nested_path m) w = none := by
  induction fuel with
  | zero => exact fun _ _ _ _ _ => rfl
  | succ fuel ih =>
    intro n m w hlt h
    obtain ⟨m, rfl⟩ := Nat.exists_eq_succ_of_ne_zero (Nat.ne_zero_of_lt hlt)
    have htarget : target_of (nested_path (n + 1)) (nested_path (m + 1)) = nested_path (m + 2) := by
      unfold target_of
      rw [item_name_nested, join_nested]
    obtain ⟨disk, hcreate, hnested⟩ := h.create
    unfold collect_tree
    dsimp only
    rw [local_path_nested, h.resolve hlt, htarget]
    dsimp only
    rw [h.kind hlt]
    dsimp only
    rw [hcreate]
    dsimp only
    rw [hnested.list (by omega), List.mergeSort_singleton, List.map_singleton, join_nested, run_all,
      display_nested, ih (n + 1) (m + 2) _ (by omega) hnested]

/-- The directory `/a`. -/
def with_a : Disk := Tree.root.put [] (encode ['a']) .dir rfl (.inl rfl)

end WaSSH.Files.CollectTree
