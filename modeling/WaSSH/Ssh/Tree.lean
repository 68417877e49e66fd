import WaSSH.Lib.Lines
import WaSSH.Lib.Text

/-!
# Downloading a tree

A tree is measured from the server's listings; every directory is made as the walk goes and every
file gets a place below the chosen directory, named after the last segment of its remote path.

* `base_name`, `measure_tree`, `measure_items`: the walk;
* `ProperDescendant`: a path that stays below the chosen directory;
* **`measured_below_iff`**: the walk stays below it exactly if no name taken from the server leads
  out;
* `inside_unix_iff`: where only `/` separates, the one such name is `..`.
-/

namespace WaSSH.Ssh

/-! ## The walk -/

/-- Last segment of a slash-separated path. -/
def base_name (path : List Char) : List Char :=
  (((Text.trim_end_matches '/' path).splitOn '/').getLast?).getD "download".toList

/-- What the server and the local file system answer for one path and all below it, the entries in
the order the walk visits them. -/
inductive Answer
  | symlink
  | file (size : ℕ)
  /-- Something fails: the metadata, making the directory or, once it is made, its listing. -/
  | failed (created : Bool)
  | dir (entries : List (List Char × Answer))

/-- A local path: what is joined to the chosen directory, one after the other. -/
abbrev LocalPath := List (List Char)

/-- What the walk has made and recorded, and whether it failed. -/
structure Measured where
  created : List LocalPath := []
  files : List (List Char × LocalPath × ℕ) := []
  failed : Bool := false

/-- The walk goes on with `rest` unless it failed. -/
def Measured.followed (m rest : Measured) : Measured :=
  if m.failed then m else ⟨m.created ++ rest.created, m.files ++ rest.files, rest.failed⟩

/-- Every local path the walk uses. -/
def Measured.paths (m : Measured) : List LocalPath := m.created ++ m.files.map fun file => file.2.1

section Walk

variable (entry_path : List Char → List Char → List Char)

mutual

/-- Collect every file under `remote`, keeping its name under `dir`. `entry_path` is the path of an
entry of a listing. -/
def measure_tree (remote : List Char) (dir : LocalPath) : Answer → Measured
  | .symlink => {}
  | .file size => { files := [(remote, dir ++ [base_name remote], size)] }
  | .failed created => { created := if created then [dir ++ [base_name remote]] else [], failed := true }
  | .dir entries =>
    let target := dir ++ [base_name remote]
    Measured.followed { created := [target] } (measure_children remote target entries)

/-- The entries of one listing. -/
def measure_children (remote : List Char) (target : LocalPath) :
    List (List Char × Answer) → Measured
  | [] => {}
  | (name, answer) :: entries =>
    (measure_tree (entry_path remote name) target answer).followed
      (measure_children remote target entries)

end

/-- The items of one `DownloadTree` request, below the chosen directory. -/
def measure_items : List (List Char × Answer) → Measured
  | [] => {}
  | (item, answer) :: items => (measure_tree entry_path item [] answer).followed (measure_items items)

end Walk

/-! ## Staying below a directory -/

/-- What separates the segments of a local path. -/
inductive Platform
  | unix
  | windows

def Platform.is_separator : Platform → Char → Bool
  | unix, c => c = '/'
  | windows, c => c = '/' ∨ c = '\\'

/-- The text names a drive or the root. -/
def Platform.is_absolute (p : Platform) (t : List Char) : Bool :=
  t.head?.any p.is_separator ||
    match p, t with
    | windows, letter :: ':' :: _ => letter.isAlpha
    | _, _ => false

inductive Component
  | root
  | parent
  | normal (name : List Char)
  deriving DecidableEq

/-- `Path::components` of a text that is joined to a path. -/
def components (p : Platform) (t : List Char) : List Component :=
  (if p.is_absolute t then [.root] else []) ++
    ((t.splitOnP p.is_separator).filter fun part => part ≠ [] ∧ part ≠ ['.']).map fun part =>
      if part = ['.', '.'] then .parent else .normal part

def Component.IsNormal (c : Component) : Prop := ∃ name, c = .normal name

/-- A name that does not lead out of the directory it is joined to. -/
def Inside (p : Platform) (t : List Char) : Prop := ∀ c ∈ components p t, c.IsNormal

/-- The path has a component below the chosen directory, and none is `..` or absolute. -/
def ProperDescendant (p : Platform) (path : LocalPath) : Prop :=
  path.flatMap (components p) ≠ [] ∧ ∀ c ∈ path.flatMap (components p), c.IsNormal

/-! ## The names the server gives -/

mutual

/-- Something failed at the path or below it. -/
def Answer.fails : Answer → Bool
  | .failed _ => true
  | .dir entries => any_fails entries
  | _ => false

def any_fails : List (List Char × Answer) → Bool
  | [] => false
  | (_, answer) :: entries => answer.fails || any_fails entries

end

section Names

variable (p : Platform) (entry_path : List Char → List Char → List Char)

mutual

/-- The name of a path that is used satisfies `ok`, and the names below it do not lead out. -/
def SafeNames (ok : List Char → Prop) (remote : List Char) : Answer → Prop
  | .symlink => True
  | .file _ => ok (base_name remote)
  | .failed created => created = true → ok (base_name remote)
  | .dir entries => ok (base_name remote) ∧ SafeChildren remote entries

def SafeChildren (remote : List Char) : List (List Char × Answer) → Prop
  | [] => True
  | (name, answer) :: entries =>
    SafeNames (Inside p) (entry_path remote name) answer ∧
      (answer.fails = false → SafeChildren remote entries)

end

/-- A name that by itself leads below the directory it is joined to. -/
def Below (name : List Char) : Prop := ProperDescendant p [name]

/-- The names of the items lead below the chosen directory. -/
def SafeItems : List (List Char × Answer) → Prop
  | [] => True
  | (item, answer) :: items =>
    SafeNames p entry_path (Below p) item answer ∧
      (answer.fails = false → SafeItems items)

end Names

/-! ## The walk stays below -/

theorem followed_failed (m rest : Measured) :
    (m.followed rest).failed = (m.failed || rest.failed) := by
  unfold Measured.followed
  cases hm : m.failed with
  | true => rw [if_pos rfl, hm, Bool.true_or]
  | false => rw [if_neg Bool.false_ne_true, Bool.false_or]

theorem mem_followed_paths {m rest : Measured} {path : LocalPath} :
    path ∈ (m.followed rest).paths ↔
      path ∈ m.paths ∨ (m.failed = false ∧ path ∈ rest.paths) := by
  unfold Measured.followed
  cases hm : m.failed with
  | true => simp
  | false =>
    simp only [Bool.false_eq_true, if_false, true_and, Measured.paths, List.map_append,
      List.mem_append]
    tauto

/-- A path is used after the ones before it, unless the walk failed. -/
theorem forall_followed {m rest : Measured} {P : LocalPath → Prop} :
    (∀ path ∈ (m.followed rest).paths, P path) ↔
      (∀ path ∈ m.paths, P path) ∧ (m.failed = false → ∀ path ∈ rest.paths, P path) := by
  constructor
  · intro h
    exact ⟨fun path hp => h path (mem_followed_paths.mpr (.inl hp)),
      fun hm path hp => h path (mem_followed_paths.mpr (.inr ⟨hm, hp⟩))⟩
  · rintro ⟨hm, hrest⟩ path hp
    rcases mem_followed_paths.mp hp with hp | ⟨hf, hp⟩
    · exact hm path hp
    · exact hrest hf path hp

theorem proper_append_iff {p : Platform} {dir : LocalPath} (h : ProperDescendant p dir)
    (name : List Char) : ProperDescendant p (dir ++ [name]) ↔ Inside p name := by
  have hflat : (dir ++ [name]).flatMap (components p) =
      dir.flatMap (components p) ++ components p name := by
    rw [List.flatMap_append, List.flatMap_singleton]
  unfold ProperDescendant Inside
  rw [hflat]
  constructor
  · exact fun hp c hc => hp.2 c (List.mem_append_right _ hc)
  · intro hin
    refine ⟨List.append_ne_nil_of_left_ne_nil h.1 _, fun c hc => ?_⟩
    rcases List.mem_append.mp hc with hc | hc
    · exact h.2 c hc
    · exact hin c hc

section Contained

variable {p : Platform} {entry_path : List Char → List Char → List Char}

mutual

theorem measure_tree_failed (remote : List Char) (dir : LocalPath) : ∀ answer : Answer,
    (measure_tree entry_path remote dir answer).failed = answer.fails
  | .symlink => by simp [measure_tree, Answer.fails]
  | .file _ => by simp [measure_tree, Answer.fails]
  | .failed _ => by simp [measure_tree, Answer.fails]
  | .dir entries => by
    rw [measure_tree, followed_failed, measure_children_failed, Answer.fails, Bool.false_or]

theorem measure_children_failed (remote : List Char) (target : LocalPath) :
    ∀ entries : List (List Char × Answer),
      (measure_children entry_path remote target entries).failed = any_fails entries
  | [] => by simp [measure_children, any_fails]
  | (name, answer) :: entries => by
    rw [measure_children, followed_failed, measure_tree_failed, measure_children_failed, any_fails]

end

mutual

/-- Where the path itself is safe exactly if its name is `ok`, the walk below it is safe exactly if
the names are. -/
theorem measure_tree_below {dir : LocalPath} {ok : List Char → Prop} {remote : List Char}
    (hok : ProperDescendant p (dir ++ [base_name remote]) ↔ ok (base_name remote)) :
    ∀ answer : Answer,
      (∀ path ∈ (measure_tree entry_path remote dir answer).paths, ProperDescendant p path) ↔
        SafeNames p entry_path ok remote answer
  | .symlink => by simp [measure_tree, Measured.paths, SafeNames]
  | .file _ => by simp [measure_tree, Measured.paths, SafeNames, hok]
  | .failed created => by cases created <;> simp [measure_tree, Measured.paths, SafeNames, hok]
  | .dir entries => by
    rw [measure_tree, forall_followed, SafeNames]
    have hself : (∀ path ∈ ({ created := [dir ++ [base_name remote]] } : Measured).paths,
        ProperDescendant p path) ↔ ok (base_name remote) := by
      simp [Measured.paths, hok]
    rw [hself]
    refine and_congr_right fun hname => ?_
    rw [measure_children_below (hok.mpr hname) entries]
    exact ⟨fun h => h rfl, fun h _ => h⟩

theorem measure_children_below {target : LocalPath} (ht : ProperDescendant p target)
    {remote : List Char} : ∀ entries : List (List Char × Answer),
      (∀ path ∈ (measure_children entry_path remote target entries).paths,
        ProperDescendant p path) ↔ SafeChildren p entry_path remote entries
  | [] => by simp [measure_children, Measured.paths, SafeChildren]
  | (name, answer) :: entries => by
    rw [measure_children, forall_followed, SafeChildren, measure_tree_failed,
      measure_tree_below (proper_append_iff ht _) answer, measure_children_below ht entries]

end

/-- **Every directory made and every local path recorded is a proper descendant of the chosen
directory, exactly if the names of the items lead below it and no name below them leads out.** -/
theorem measured_below_iff : ∀ items : List (List Char × Answer),
    (∀ path ∈ (measure_items entry_path items).paths, ProperDescendant p path) ↔
      SafeItems p entry_path items
  | [] => by simp [measure_items, Measured.paths, SafeItems]
  | (item, answer) :: items => by
    rw [measure_items, forall_followed, SafeItems, measure_tree_failed,
      measure_tree_below (show _ ↔ Below p (base_name item) from Iff.rfl) answer,
      measured_below_iff items]

end Contained

/-! ## Where only `/` separates -/

theorem slash_not_mem_base_name (path : List Char) : '/' ∉ base_name path := by
  unfold base_name
  cases h : ((Text.trim_end_matches '/' path).splitOn '/').getLast? with
  | none => decide
  | some name => exact Lines.not_mem_of_mem_splitOn (List.mem_of_getLast? h)

theorem components_unix {name : List Char} (h : '/' ∉ name) :
    components .unix name =
      if name = [] ∨ name = ['.'] then []
      else if name = ['.', '.'] then [.parent] else [.normal name] := by
  have habs : Platform.unix.is_absolute name = false := by
    cases name with
    | nil => rfl
    | cons c name =>
      have hc : c ≠ '/' := fun hc => h (hc ▸ List.mem_cons_self)
      simp [Platform.is_absolute, Platform.is_separator, hc]
  have hsplit : name.splitOnP Platform.unix.is_separator = [name] := by
    apply List.splitOnP_eq_singleton
    intro c hc
    exact decide_eq_false fun hslash => h (hslash ▸ hc)
  unfold components
  rw [habs, hsplit]
  by_cases h1 : name = []
  · simp [h1]
  · by_cases h2 : name = ['.']
    · simp [h2]
    · simp only [List.filter_singleton, h1, h2, ne_eq, not_false_eq_true, and_self, decide_true,
        cond_true, or_self, if_false, List.map_singleton, Bool.false_eq_true, List.nil_append]
      split_ifs <;> rfl

/-- The one name that leads out of a directory is `..`. -/
theorem inside_unix_iff (path : List Char) :
    Inside .unix (base_name path) ↔ base_name path ≠ ['.', '.'] := by
  unfold Inside
  rw [components_unix (slash_not_mem_base_name path)]
  split_ifs with hempty hparent
  · refine iff_of_true (fun _ h => nomatch h) ?_
    rintro h
    rw [h] at hempty
    exact absurd hempty (by decide)
  · refine iff_of_false (fun h => ?_) (not_not.mpr hparent)
    obtain ⟨name, hname⟩ := h .parent List.mem_cons_self
    exact nomatch hname
  · refine iff_of_true (fun c hc => ?_) hparent
    exact ⟨_, List.mem_singleton.mp hc⟩

/-- A path of an entry as the directory's path, a slash and the name. -/
def slash_path (dir name : List Char) : List Char := dir ++ '/' :: name

/-- A server that lists a file named `x/..`. -/
def dotted_listing : List (List Char × Answer) :=
  [("/srv".toList, .dir [("x/..".toList, .file 1)])]

/-- The file's local path is the chosen directory's `srv/..`. -/
theorem dotted_listing_leads_out :
    ¬ ∀ path ∈ (measure_items slash_path dotted_listing).paths, ProperDescendant .unix path := by
  intro h
  obtain ⟨-, hnormal⟩ := h ["srv".toList, "..".toList] (by decide)
  obtain ⟨name, hname⟩ := hnormal .parent (by decide)
  exact nomatch hname

end WaSSH.Ssh
