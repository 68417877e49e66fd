import Mathlib.Data.Char
import Mathlib.Data.List.Lex
import WaSSH.Store.Backup

/-!
# Backing up and restoring

The export walks the data directory, in order of names, and packs every file it may pack; the import
puts them back.

* `Node`, `Node.at`: a data directory, and what it has at a path;
* `collect`, `export_backup`: the source;
* `Kept`: a file within the documented limits; `collected`, `mem_collected`: what the walk finds;
* `Restoring`: the disk while the files are written; `run_import_entries`;
* **`export_import`**: what is exported is restored as it was, unless the listing lost an entry;
* `large`: a directory whose archive wraps the offset of its directory.
-/

namespace WaSSH.Store.Export

open FileMap Utf8 Backup
open Ssh (Platform)
open Zip (ZipWriter Entry is_safe_entry_name)

/-- Files larger than this are skipped. -/
def MAX_ENTRY_BYTES : ℕ := 16 * 1024 * 1024

/-- Deepest subdirectory a backup walks. -/
def MAX_DEPTH : ℕ := 4

/-! ## The data directory -/

/-- A name in a directory, without colons and backslashes. -/
def IsName (name : List Char) : Prop :=
  SafePart name ∧ ∀ c ∈ name, c ≠ '/' ∧ c ≠ '\\' ∧ c ≠ ':'

abbrev Name := { name : List Char // IsName name }

/-- The path of what is in the data directory. -/
abbrev Place := List Name

/-- Files, directories and what is neither. -/
inductive Node
  | file (data : Bytes)
  | dir (children : List (Name × Node))
  | other

/-- What there is at a path. -/
def Node.at : Node → Place → Option Node
  | node, [] => some node
  | .dir children, name :: place => (children.lookup name).bind fun node => node.at place
  | _, _ :: _ => none

mutual

/-- The names in a directory are different from each other. -/
def Node.Distinct : Node → Prop
  | .dir children => (children.map Prod.fst).Nodup ∧ ChildrenDistinct children
  | _ => True

def ChildrenDistinct : List (Name × Node) → Prop
  | [] => True
  | (_, node) :: children => node.Distinct ∧ ChildrenDistinct children

end

/-- A regular file within the documented limits. -/
structure Kept (root : Node) (place : Place) (data : Bytes) : Prop where
  file : root.at place = some (.file data)
  depth : place.length ≤ MAX_DEPTH + 1
  size : data.length ≤ MAX_ENTRY_BYTES

/-! ## The export -/

/-- The path below the data directory, with forward slashes. -/
def entry_name (place : Place) : List Char := ['/'].intercalate (place.map Subtype.val)

/-- Why an export fails. -/
inductive ExportError
  | io (place : Place)
  | not_found (message : String)
  | save
  deriving DecidableEq

/-- What the run meets: which directories can be read, which entries the listing of a directory
gives, which metadata and files can be read, and whether the archive can be written. -/
structure Env where
  lists : Place → Bool
  listed : Place → Bool
  stats : Place → Bool
  reads : Place → Bool
  saves : Bool

section Export

variable (crc32 : Bytes → UInt32) (env : Env)

/-- The entries the listing gives, sorted. -/
def listing (current : Place) (children : List (Name × Node)) : List (Name × Node) :=
  (children.filter fun child => env.listed (current ++ [child.1])).mergeSort fun a b =>
    decide (a.1.val ≤ b.1.val)

/-- One round of the loop; `below` walks a directory. -/
def collect_entry (below : Place → List (Name × Node) → ZipWriter → Except ExportError ZipWriter)
    (current : Place) (writer : ZipWriter) (child : Name × Node) : Except ExportError ZipWriter :=
  let path := current ++ [child.1]
  if env.stats path = false then throw (.io path)
  else
    match child.2 with
    | .dir children => below path children writer
    | .other => pure writer
    | .file data =>
      if MAX_ENTRY_BYTES < data.length then pure writer
      else if is_safe_entry_name (entry_name path) = false then pure writer
      else if env.reads path = false then throw (.io path)
      else pure (writer.add crc32 (entry_name path) data)

/-- Recursively add the files under `current`; the first argument counts the levels that are left,
where the source counts up to `MAX_DEPTH`. -/
def collect : ℕ → Place → List (Name × Node) → ZipWriter → Except ExportError ZipWriter
  | 0, _, _, writer => pure writer
  | levels + 1, current, children, writer =>
    if env.lists current = false then throw (.io current)
    else
      (listing env current children).foldlM (collect_entry crc32 env (collect levels) current) writer

/-- Write every file of the data directory into an archive: the number of files, and its bytes. -/
def export_backup (display : String) (root : Node) : Except ExportError (ℕ × Bytes) :=
  match env.stats [], root with
  | true, .dir children => do
    let writer ← collect crc32 env (MAX_DEPTH + 1) [] children {}
    if writer.entries.isEmpty then throw (.not_found s!"{display} holds no files to back up")
    else if env.saves = false then throw .save
    else pure (writer.entries.length, writer.finish)
  | _, _ => throw (.not_found s!"{display} is not a directory")

end Export

/-! ## What the walk finds -/

/-- The files within the limits of one entry; `below` walks a directory. -/
def found (below : Place → List (Name × Node) → List (Place × Bytes)) (current : Place)
    (child : Name × Node) : List (Place × Bytes) :=
  match child.2 with
  | .file data => if data.length ≤ MAX_ENTRY_BYTES then [(current ++ [child.1], data)] else []
  | .dir children => below (current ++ [child.1]) children
  | .other => []

/-- The files within the limits that the listings lead to. -/
def collected (listed : Place → Bool) : ℕ → Place → List (Name × Node) → List (Place × Bytes)
  | 0, _, _ => []
  | levels + 1, current, children =>
    (children.filter fun child => listed (current ++ [child.1])).flatMap
      (found (collected listed levels) current)

section Walk

variable {listed : Place → Bool} {levels : ℕ} {current place : Place} {children : List (Name × Node)}
  {name : Name} {node : Node} {data : Bytes}

@[simp] theorem Node.at_nil (node : Node) : node.at [] = some node := by
  cases node <;> rfl

theorem Node.at_cons :
    (Node.dir children).at (name :: place) = (children.lookup name).bind fun node => node.at place :=
  rfl

theorem Node.at_file : (Node.file data).at place = some node ↔ place = [] ∧ node = .file data := by
  cases place with
  | nil => simp [eq_comm]
  | cons name place => exact ⟨nofun, nofun⟩

theorem lookup_iff (hnames : (children.map Prod.fst).Nodup) :
    children.lookup name = some node ↔ (name, node) ∈ children := by
  induction children with
  | nil => exact ⟨nofun, nofun⟩
  | cons child children ih =>
    obtain ⟨other, below⟩ := child
    rw [List.map_cons, List.nodup_cons] at hnames
    rw [List.lookup_cons, List.mem_cons]
    rcases eq_or_ne name other with rfl | hne
    · have hfirst : (name, node) ∉ children := fun hmem =>
        hnames.1 (List.mem_map.mpr ⟨_, hmem, rfl⟩)
      simp [hfirst, eq_comm]
    · have hother : (name == other) = false := beq_false_of_ne hne
      simp [hother, hne, ih hnames.2]

theorem distinct_of_mem (h : ChildrenDistinct children) (hmem : (name, node) ∈ children) :
    node.Distinct := by
  induction children with
  | nil => cases hmem
  | cons child children ih =>
    rcases List.mem_cons.mp hmem with rfl | hmem
    · exact h.1
    · exact ih h.2 hmem

/-- The beginnings of a place: its first name, and the beginnings behind that. -/
theorem forall_fronts_cons {p : Place → Prop} {name : Name} {rest : Place} :
    (∀ front, front ≠ [] → front <+: name :: rest → p front) ↔
      p [name] ∧ ∀ front, front ≠ [] → front <+: rest → p (name :: front) := by
  constructor
  · intro h
    refine ⟨h [name] (List.cons_ne_nil _ _) (List.prefix_append [name] rest), fun front _ hrest => ?_⟩
    exact h (name :: front) (List.cons_ne_nil _ _) ((List.prefix_cons_inj name).mpr hrest)
  · rintro ⟨hfirst, h⟩ front hne hfront
    rcases List.prefix_cons_iff.mp hfront with rfl | ⟨front, rfl, hrest⟩
    · exact absurd rfl hne
    · rcases eq_or_ne front [] with rfl | hfront
      · exact hfirst
      · exact h front hfront hrest

/-- **What the walk finds** are the files within the limits whose listing is complete on the way. -/
theorem mem_collected (hdistinct : (Node.dir children).Distinct) :
    (place, data) ∈ collected listed levels current children ↔
      ∃ rest, place = current ++ rest ∧ (Node.dir children).at rest = some (.file data) ∧
        rest.length ≤ levels ∧ data.length ≤ MAX_ENTRY_BYTES ∧
        ∀ front, front ≠ [] → front <+: rest → listed (current ++ front) = true := by
  induction levels generalizing current children with
  | zero =>
    refine ⟨nofun, ?_⟩
    rintro ⟨rest, -, hat, hlength, -, -⟩
    rw [List.length_eq_zero_iff.mp (Nat.le_zero.mp hlength), Node.at_nil] at hat
    cases hat
  | succ levels ih =>
    rw [collected, List.mem_flatMap]
    constructor
    · rintro ⟨⟨name, node⟩, hchild, hfile⟩
      obtain ⟨hmem, hlisted⟩ := List.mem_filter.mp hchild
      have hlookup := (lookup_iff hdistinct.1).mpr hmem
      cases node with
      | other => cases hfile
      | file contents =>
        unfold found at hfile
        dsimp only at hfile
        split at hfile
        · rename_i hsize
          obtain ⟨rfl, rfl⟩ := Prod.mk.inj (List.mem_singleton.mp hfile)
          refine ⟨[name], rfl, ?_, Nat.le_add_left _ _, hsize, ?_⟩
          · rw [Node.at_cons, hlookup]
            rfl
          · refine forall_fronts_cons.mpr ⟨hlisted, fun front hne hfront => ?_⟩
            exact absurd (List.prefix_nil.mp hfront) hne
        · cases hfile
      | dir below =>
        obtain ⟨rest, rfl, hat, hlength, hsize, hfronts⟩ :=
          (ih (distinct_of_mem hdistinct.2 hmem)).mp hfile
        refine ⟨name :: rest, by simp, ?_, Nat.succ_le_succ hlength, hsize, ?_⟩
        · rw [Node.at_cons, hlookup]
          exact hat
        · refine forall_fronts_cons.mpr ⟨hlisted, fun front hne hfront => ?_⟩
          simpa using hfronts front hne hfront
    · rintro ⟨rest, rfl, hat, hlength, hsize, hfronts⟩
      cases rest with
      | nil =>
        rw [Node.at_nil] at hat
        cases hat
      | cons name rest =>
        rw [Node.at_cons, Option.bind_eq_some_iff] at hat
        obtain ⟨node, hlookup, hat⟩ := hat
        have hmem := (lookup_iff hdistinct.1).mp hlookup
        obtain ⟨hlisted, hbelow⟩ := forall_fronts_cons.mp hfronts
        refine ⟨(name, node), List.mem_filter.mpr ⟨hmem, hlisted⟩, ?_⟩
        cases node with
        | other =>
          cases rest with
          | nil => cases hat
          | cons => cases hat
        | file contents =>
          obtain ⟨rfl, hfile⟩ := Node.at_file.mp hat
          obtain rfl := Node.file.inj hfile
          unfold found
          dsimp only
          rw [if_pos hsize]
          exact List.mem_singleton_self _
        | dir below =>
          refine (ih (distinct_of_mem hdistinct.2 hmem)).mpr
            ⟨rest, by simp, hat, Nat.le_of_succ_le_succ hlength, hsize, ?_⟩
          intro front hne hfront
          simpa using hbelow front hne hfront

end Walk

/-! ## The entries of the archive -/

/-- The path as the file system has it. -/
def rel (place : Place) : Backup.Path := place.map Subtype.val

def file_entry (file : Place × Bytes) : Entry := (entry_name file.1, file.2)

section Entries

variable {listed : Place → Bool} {levels : ℕ} {current place : Place} {children : List (Name × Node)}
  {crc32 : Bytes → UInt32} {env : Env} {p : Platform}

theorem not_separator (name : Name) (p : Platform) : ∀ c ∈ name.val, p.is_separator c = false := by
  intro c hc
  obtain ⟨hslash, hback, -⟩ := name.property.2 c hc
  cases p with
  | unix => exact decide_eq_false hslash
  | windows => exact decide_eq_false (not_or.mpr ⟨hslash, hback⟩)

theorem splitOnP_entry_name (hne : place ≠ []) :
    (entry_name place).splitOnP p.is_separator = rel place := by
  refine Lines.splitOnP_intercalate (by cases p <;> rfl) (mt List.map_eq_nil_iff.mp hne) ?_
  intro part hpart
  obtain ⟨name, -, rfl⟩ := List.mem_map.mp hpart
  exact not_separator name p

/-- **Every name the export makes** is one the import takes. -/
theorem is_safe_entry_name_entry_name (hne : place ≠ []) :
    is_safe_entry_name (entry_name place) = true := by
  obtain ⟨first, rest, rfl⟩ := List.exists_cons_of_ne_nil hne
  obtain ⟨c, cs, hfirst⟩ := List.exists_cons_of_ne_nil first.property.1.1
  have hc := first.property.2 c (by rw [hfirst]; exact List.mem_cons_self)
  obtain ⟨others, hname⟩ : ∃ others, entry_name (first :: rest) = c :: others := by
    unfold entry_name
    rw [List.map_cons]
    rcases eq_or_ne rest [] with rfl | hrest
    · exact ⟨cs, by rw [List.map_nil, List.intercalate_singleton, hfirst]⟩
    · rw [List.intercalate_cons_of_ne_nil (mt List.map_eq_nil_iff.mp hrest), hfirst]
      exact ⟨_, rfl⟩
  refine is_safe_entry_name_iff.mpr ⟨⟨⟨⟨?_, ?_⟩, ?_⟩, ?_⟩, ?_⟩
  · rw [hname]
    exact List.cons_ne_nil _ _
  · rw [hname]
    exact fun h => hc.1 (Option.some.inj h)
  · rw [hname]
    exact fun h => hc.2.1 (Option.some.inj h)
  · intro hcolon
    obtain ⟨part, hpart, hmem⟩ | hsep := Lines.mem_intercalate hcolon
    · obtain ⟨name, -, rfl⟩ := List.mem_map.mp hpart
      exact (name.property.2 _ hmem).2.2 rfl
    · cases hsep
  · rw [splitOnP_entry_name hne]
    intro part hpart
    obtain ⟨name, -, rfl⟩ := List.mem_map.mp hpart
    exact name.property.1

theorem target_entry_name (hne : place ≠ []) (dir : Backup.Path) :
    target p dir (entry_name place) = dir ++ rel place := by
  rw [target_of_safe (is_safe_entry_name_entry_name hne), splitOnP_entry_name hne]

theorem add_all_append (w : ZipWriter) (entries entries' : List Entry) :
    w.add_all crc32 (entries ++ entries') = (w.add_all crc32 entries).add_all crc32 entries' :=
  List.foldl_append

/-- One round packs what is found. -/
def Packs (crc32 : Bytes → UInt32) (files : List (Place × Bytes)) (writer writer' : ZipWriter) :
    Prop :=
  ∃ entries : List (Place × Bytes), entries.Perm files ∧
    writer' = writer.add_all crc32 (entries.map file_entry)

theorem packs_nil (writer : ZipWriter) : Packs crc32 [] writer writer := ⟨[], .nil, rfl⟩

theorem Packs.append {files files' : List (Place × Bytes)} {w w' w'' : ZipWriter}
    (h : Packs crc32 files w w') (h' : Packs crc32 files' w' w'') :
    Packs crc32 (files ++ files') w w'' := by
  obtain ⟨entries, hperm, rfl⟩ := h
  obtain ⟨entries', hperm', rfl⟩ := h'
  refine ⟨entries ++ entries', hperm.append hperm', ?_⟩
  rw [List.map_append, add_all_append]

theorem Packs.perm {files files' : List (Place × Bytes)} {w w' : ZipWriter}
    (h : Packs crc32 files w w') (hperm : files.Perm files') : Packs crc32 files' w w' := by
  obtain ⟨entries, hentries, hw⟩ := h
  exact ⟨entries, hentries.trans hperm, hw⟩

theorem collect_entry_ok
    {walk : Place → List (Name × Node) → ZipWriter → Except ExportError ZipWriter}
    {below : Place → List (Name × Node) → List (Place × Bytes)}
    (hbelow : ∀ path children w w', walk path children w = .ok w' →
      Packs crc32 (below path children) w w')
    {child : Name × Node} {w w' : ZipWriter}
    (h : collect_entry crc32 env walk current w child = .ok w') :
    Packs crc32 (found below current child) w w' := by
  obtain ⟨name, node⟩ := child
  unfold collect_entry at h
  dsimp only at h
  split at h
  · cases h
  · cases node with
    | dir children => exact hbelow _ _ _ _ h
    | other =>
      cases h
      exact packs_nil w
    | file data =>
      unfold found
      dsimp only at h ⊢
      have hsafe := is_safe_entry_name_entry_name (List.append_ne_nil_of_right_ne_nil current
        (List.cons_ne_nil name []))
      rw [hsafe] at h
      rcases Nat.lt_or_ge MAX_ENTRY_BYTES data.length with hlarge | hsize
      · rw [if_pos hlarge] at h
        rw [if_neg (Nat.not_le.mpr hlarge)]
        cases h
        exact packs_nil w
      · rw [if_neg (Nat.not_lt.mpr hsize), if_neg (fun htrue => Bool.false_ne_true htrue.symm)] at h
        rw [if_pos hsize]
        split at h
        · cases h
        · cases h
          exact ⟨[_], .refl _, rfl⟩

/-- **The export packs what the walk finds**, in some order. -/
theorem collect_ok {w w' : ZipWriter}
    (h : collect crc32 env levels current children w = .ok w') :
    Packs crc32 (collected env.listed levels current children) w w' := by
  induction levels generalizing current children w w' with
  | zero =>
    cases h
    exact packs_nil w
  | succ levels ih =>
    unfold collect at h
    split at h
    · cases h
    · have hbelow : ∀ path children w w', collect crc32 env levels path children w = .ok w' →
          Packs crc32 (collected env.listed levels path children) w w' := fun _ _ _ _ => ih
      have hlist (l : List (Name × Node)) : ∀ w w' : ZipWriter,
          l.foldlM (collect_entry crc32 env (collect crc32 env levels) current) w = .ok w' →
          Packs crc32 (l.flatMap (found (collected env.listed levels) current)) w w' := by
        induction l with
        | nil =>
          intro w w' hrun
          cases hrun
          exact packs_nil w
        | cons child l ihl =>
          intro w w' hrun
          rw [List.foldlM_cons] at hrun
          cases hentry : collect_entry crc32 env (collect crc32 env levels) current w child with
          | error e =>
            rw [hentry] at hrun
            cases hrun
          | ok next =>
            rw [hentry] at hrun
            exact (collect_entry_ok hbelow hentry).append (ihl next w' hrun)
      exact (hlist _ w w' h).perm ((List.mergeSort_perm _ _).flatMap_right _)

end Entries

/-! ## The files are put back -/

/-- Nothing is in the directory, and no file in the way to it. -/
structure Empty (dir : Backup.Path) (disk : Fs Obj) : Prop where
  way : ∀ q, q ≠ [] → q <+: dir → disk (.file q) = none
  below : ∀ q, Inside dir q → disk (.file q) = none ∧ disk (.directory q) = none

/-- No file is where another one has a directory. -/
structure Coherent (files : List (Place × Bytes)) : Prop where
  ne_nil : ∀ file ∈ files, file.1 ≠ []
  same : ∀ file ∈ files, ∀ other ∈ files, file.1 <+: other.1 → file = other

/-- The disk while the files are written. -/
structure Restoring (dir : Backup.Path) (start disk : Fs Obj) (done : List (Place × Bytes)) :
    Prop where
  file : ∀ file ∈ done, disk (.file (dir ++ rel file.1)) = some file.2
  no_file : ∀ q, (∀ file ∈ done, q ≠ dir ++ rel file.1) → disk (.file q) = start (.file q)
  directory : ∀ q, Inside dir q → (disk (.directory q)).isSome →
    ∃ file ∈ done, q <+: (dir ++ rel file.1).dropLast

section Restore

variable {dir : Backup.Path} {start disk : Fs Obj} {done files : List (Place × Bytes)}
  {place : Place} {data : Bytes} {p : Platform} {i : ℕ}

theorem rel_isPrefixOf_iff {place place' : Place} : rel place <+: rel place' ↔ place <+: place' :=
  (List.prefix_map_iff_of_injective Subtype.val_injective)

theorem place_of_target {place place' : Place} (h : dir ++ rel place <+: dir ++ rel place') :
    place <+: place' := rel_isPrefixOf_iff.mp ((List.prefix_append_right_inj dir).mp h)

/-- One more file. -/
theorem run_restore_entry (hempty : Empty dir start) (h : Restoring dir start disk done)
    (hcoherent : Coherent (done ++ [(place, data)])) :
    ∃ disk', (import_entry (Env.smooth (fun _ => true) fun _ => none) p dir i
        (file_entry (place, data))).run disk = (.ok (), disk') ∧
      Restoring dir start disk' (done ++ [(place, data)]) := by
  have hmem : (place, data) ∈ done ++ [(place, data)] :=
    List.mem_append_right _ (List.mem_singleton_self _)
  have hne := hcoherent.ne_nil _ hmem
  have htarget : target p dir (file_entry (place, data)).1 = dir ++ rel place :=
    target_entry_name hne dir
  have hnil : dir ++ rel place ≠ [] :=
    List.append_ne_nil_of_right_ne_nil _ (mt List.map_eq_nil_iff.mp hne)
  have hinside : Inside dir (dir ++ rel place) := ⟨_, mt List.map_eq_nil_iff.mp hne, rfl⟩
  have hown {file : Place × Bytes} (hfile : file ∈ done)
      (hpre : file.1 <+: place ∨ place <+: file.1) : file = (place, data) := by
    have hfile := List.mem_append_left [(place, data)] hfile
    rcases hpre with hpre | hpre
    · exact hcoherent.same _ hfile _ hmem hpre
    · exact (hcoherent.same _ hmem _ hfile hpre).symm
  -- no file is in the way: it would be one of those that are done
  have hfree : ∀ q, q ≠ [] → q <+: (dir ++ rel place).dropLast → disk (.file q) = none := by
    intro q hq hpre
    rw [h.no_file q ?_]
    · rcases List.prefix_or_prefix_of_prefix (hpre.trans (List.dropLast_prefix _))
        (List.prefix_append dir _) with hdir | ⟨rest, rfl⟩
      · exact hempty.way q hq hdir
      · rcases eq_or_ne rest [] with rfl | hrest
        · rw [List.append_nil] at hq ⊢
          exact hempty.way dir hq (List.prefix_refl _)
        · exact (hempty.below _ ⟨rest, hrest, rfl⟩).1
    · rintro file hfile rfl
      have hsame := hown hfile (.inl (place_of_target (hpre.trans (List.dropLast_prefix _))))
      rw [hsame] at hpre
      exact not_prefix_dropLast hnil hpre
  rw [← htarget] at hfree
  obtain ⟨made, hfiles, hothers, -, hrun⟩ : ∃ made, _ ∧ _ ∧ _ ∧
      (import_entry (Env.smooth (fun _ => true) fun _ => none) p dir i
        (file_entry (place, data))).run disk = _ :=
    run_import_entry_smooth p dir i (is_safe_entry_name_entry_name hne) hfree
  rw [htarget] at hothers hrun
  have hdirectory : made (.directory (dir ++ rel place)) = none := by
    rw [hothers _ (not_prefix_dropLast hnil), ← Option.not_isSome_iff_eq_none]
    intro hsome
    obtain ⟨file, hfile, hpre⟩ := h.directory _ hinside hsome
    have hsame := hown hfile (.inr (place_of_target (hpre.trans (List.dropLast_prefix _))))
    rw [hsame] at hpre
    exact not_prefix_dropLast hnil hpre
  refine ⟨made.set (.file (dir ++ rel place)) data, ?_, ?_, ?_, ?_⟩
  · rw [hrun, run_map_err, run_write, hdirectory]
    rfl
  · intro file hfile
    rcases eq_or_ne file.1 place with heq | hplace
    · have hsame : file = (place, data) :=
        hcoherent.same _ hfile _ hmem (heq ▸ List.prefix_refl _)
      rw [hsame, Fs.set_self]
    · have hdone : file ∈ done := by
        refine (List.mem_append.mp hfile).resolve_right fun hlast => hplace ?_
        rw [List.mem_singleton.mp hlast]
      rw [made.set_of_ne, hfiles, h.file file hdone]
      intro heq
      have hpaths : dir ++ rel file.1 = dir ++ rel place := Obj.file.inj heq
      exact hplace (Subtype.val_injective.list_map (List.append_cancel_left hpaths))
  · intro q hq
    rw [made.set_of_ne, hfiles, h.no_file q fun file hfile => hq file (List.mem_append_left _ hfile)]
    exact fun heq => hq _ hmem (Obj.file.inj heq)
  · intro q hinside' hsome
    rw [made.set_of_ne _ fun heq => Obj.noConfusion heq] at hsome
    by_cases hpre : q <+: (dir ++ rel place).dropLast
    · exact ⟨_, hmem, hpre⟩
    · rw [hothers q hpre] at hsome
      obtain ⟨file, hfile, hfront⟩ := h.directory q hinside' hsome
      exact ⟨file, List.mem_append_left _ hfile, hfront⟩

/-- **The loop of the import** on entries of an export. -/
theorem run_restore_entries (hempty : Empty dir start) (h : Restoring dir start disk done)
    (hcoherent : Coherent (done ++ files)) :
    ∃ disk', (import_entries (Env.smooth (fun _ => true) fun _ => none) p dir i
        (files.map file_entry)).run disk = (.ok (), disk') ∧
      Restoring dir start disk' (done ++ files) := by
  induction files generalizing disk done i with
  | nil => exact ⟨disk, rfl, by rwa [List.append_nil]⟩
  | cons file files ih =>
    obtain ⟨place, data⟩ := file
    rw [List.append_cons] at hcoherent ⊢
    have hfirst : Coherent (done ++ [(place, data)]) :=
      ⟨fun file hfile => hcoherent.ne_nil file (List.mem_append_left _ hfile),
        fun file hfile other hother =>
          hcoherent.same file (List.mem_append_left _ hfile) other (List.mem_append_left _ hother)⟩
    obtain ⟨next, hentry, hnext⟩ := run_restore_entry (p := p) (i := i) hempty h hfirst
    obtain ⟨disk', hrest, hdisk⟩ := ih (i := i + 1) hnext hcoherent
    refine ⟨disk', ?_, hdisk⟩
    rw [List.map_cons, import_entries, run_bind, hentry]
    exact hrest

end Restore

/-! ## The round trip -/

/-- The files within the limits, in the order of the listings. -/
def Node.kept : Node → List (Place × Bytes)
  | .dir children => collected (fun _ => true) (MAX_DEPTH + 1) [] children
  | _ => []

/-- The numbers of an archive of the files fit their fields. -/
structure Fits (files : List (Place × Bytes)) : Prop where
  count : files.length ≤ 65535
  names : ∀ file ∈ files, (encode (entry_name file.1)).length ≤ 65535
  length : (files.map fun file => Zip.block_length (file_entry file)).sum < 2 ^ 32

/-- Every entry on the way to a file within the limits comes through the listing. -/
def NothingLost (env : Env) (root : Node) : Prop :=
  ∀ place data, Kept root place data → ∀ front, front ≠ [] → front <+: place →
    env.listed front = true

/-- The import where every operation succeeds. -/
def restore (p : Platform) (crc32 : Bytes → UInt32) (source : String) (dir : Backup.Path)
    (bytes : Bytes) (disk : Fs Obj) : Except ImportError (ℕ × ℕ) × Fs Obj :=
  (import_backup (.smooth (fun _ => true) fun _ => none) p dir crc32 source bytes).run disk

/-- The import of the archive succeeds and puts back the files within the limits, the directories
that lead to them, and nothing else. -/
structure Restored (root : Node) (dir : Backup.Path) (disk : Fs Obj)
    (run : Except ImportError (ℕ × ℕ) × Fs Obj) : Prop where
  ok : ∃ summary, run.1 = .ok summary
  file : ∀ q, Inside dir q → ∀ data,
    run.2 (.file q) = some data ↔ ∃ place, q = dir ++ rel place ∧ Kept root place data
  directory : ∀ q, Inside dir q → (run.2 (.directory q)).isSome →
    ∃ place data, Kept root place data ∧ q <+: (dir ++ rel place).dropLast
  outside : ∀ q, ¬ Inside dir q → run.2 (.file q) = disk (.file q)

section RoundTrip

variable {crc32 : Bytes → UInt32} {env : Env} {display source : String} {root : Node}
  {dir : Backup.Path} {disk : Fs Obj} {p : Platform} {count : ℕ} {bytes : Bytes}
  {children : List (Name × Node)} {files : List (Place × Bytes)}

theorem sublist_flatMap {α β : Type} {l l' : List α} {f g : α → List β} (h : l.Sublist l')
    (hfg : ∀ a, (f a).Sublist (g a)) : (l.flatMap f).Sublist (l'.flatMap g) := by
  induction h with
  | slnil => exact .slnil
  | cons a _ ih => exact ih.trans (List.sublist_append_right _ _)
  | cons_cons a _ ih => exact (hfg a).append ih

theorem collected_sublist (listed : Place → Bool) (levels : ℕ) (current : Place)
    (children : List (Name × Node)) :
    (collected listed levels current children).Sublist
      (collected (fun _ => true) levels current children) := by
  induction levels generalizing current children with
  | zero => exact List.Sublist.refl _
  | succ levels ih =>
    refine sublist_flatMap ?_ fun child => ?_
    · rw [List.filter_true]
      exact List.filter_sublist
    · obtain ⟨name, node⟩ := child
      cases node with
      | dir children => exact ih _ _
      | file data => exact List.Sublist.refl _
      | other => exact List.Sublist.refl _

theorem Fits.of_sublist {kept : List (Place × Bytes)} (h : Fits kept)
    {found : List (Place × Bytes)} (hperm : files.Perm found) (hsub : found.Sublist kept) :
    Fits files := by
  refine ⟨?_, ?_, ?_⟩
  · rw [hperm.length_eq]
    exact hsub.length_le.trans h.count
  · exact fun file hfile => h.names file (hsub.subset (hperm.subset hfile))
  · rw [(hperm.map _).sum_eq]
    exact lt_of_le_of_lt ((hsub.map _).sum_le_sum fun n _ => Nat.zero_le n) h.length

/-- What an export that succeeds has packed. -/
theorem export_backup_ok (h : export_backup crc32 env display root = .ok (count, bytes)) :
    ∃ children files, root = .dir children ∧
      files.Perm (collected env.listed (MAX_DEPTH + 1) [] children) ∧ files ≠ [] ∧
      bytes = Zip.archive crc32 (files.map file_entry) := by
  unfold export_backup at h
  split at h
  · rename_i children _
    cases hcollect : collect crc32 env (MAX_DEPTH + 1) [] children {} with
    | error e =>
      rw [hcollect] at h
      cases h
    | ok writer =>
      rw [hcollect] at h
      obtain ⟨files, hperm, rfl⟩ := collect_ok hcollect
      simp only [bind, Except.bind] at h
      split at h
      · cases h
      · rename_i hempty
        split at h
        · cases h
        · cases h
          refine ⟨children, files, rfl, hperm, ?_, rfl⟩
          rintro rfl
          exact hempty rfl
  · cases h

theorem Node.at_append {node : Node} {place rest : Place} :
    node.at (place ++ rest) = (node.at place).bind fun below => below.at rest := by
  induction place generalizing node with
  | nil => rw [List.nil_append, Node.at_nil, Option.bind_some]
  | cons name place ih =>
    cases node with
    | dir children =>
      rw [List.cons_append, Node.at_cons, Node.at_cons, Option.bind_assoc]
      exact congrArg _ (funext fun below => ih)
    | file data => rfl
    | other => rfl

theorem Kept.same {place place' : Place} {data data' : Bytes} (h : Kept root place data)
    (h' : Kept root place' data') (hpre : place <+: place') : place = place' ∧ data = data' := by
  obtain ⟨rest, rfl⟩ := hpre
  have hat := h'.file
  rw [Node.at_append, h.file, Option.bind_some] at hat
  obtain ⟨rfl, hfile⟩ := Node.at_file.mp hat
  exact ⟨(List.append_nil _).symm, (Node.file.inj hfile).symm⟩

theorem Kept.ne_nil {place : Place} {data : Bytes} (h : Kept (.dir children) place data) :
    place ≠ [] := by
  rintro rfl
  have hat := h.file
  rw [Node.at_nil] at hat
  cases hat

theorem mem_collected_root (hdistinct : (Node.dir children).Distinct) {place : Place}
    {data : Bytes} :
    (place, data) ∈ collected env.listed (MAX_DEPTH + 1) [] children ↔
      Kept (.dir children) place data ∧
        ∀ front, front ≠ [] → front <+: place → env.listed front = true := by
  rw [mem_collected hdistinct]
  constructor
  · rintro ⟨rest, rfl, hat, hdepth, hsize, hfronts⟩
    exact ⟨⟨hat, hdepth, hsize⟩, hfronts⟩
  · rintro ⟨⟨hat, hdepth, hsize⟩, hfronts⟩
    exact ⟨place, rfl, hat, hdepth, hsize, hfronts⟩

/-- **The import of what an export wrote** puts back what the walk found. -/
theorem restore_export (hdistinct : (Node.dir children).Distinct) (hfits : Fits files)
    (hfiles : files.Perm (collected env.listed (MAX_DEPTH + 1) [] children)) (hne : files ≠ [])
    (hempty : Empty dir disk) :
    ∃ disk', restore p crc32 source dir (Zip.archive crc32 (files.map file_entry)) disk =
      (.ok (files.length, (Zip.archive crc32 (files.map file_entry)).length), disk') ∧
        Restoring dir disk disk' files := by
  have hkept {file : Place × Bytes} (hfile : file ∈ files) : Kept (.dir children) file.1 file.2 :=
    ((mem_collected_root hdistinct).mp (hfiles.subset hfile)).1
  have hcoherent : Coherent ([] ++ files) := by
    refine ⟨fun file hfile => (hkept hfile).ne_nil, fun file hfile other hother hpre => ?_⟩
    have hsame := (hkept hfile).same (hkept hother) hpre
    exact Prod.ext hsame.1 hsame.2
  have hread : Zip.read crc32 (Zip.archive crc32 (files.map file_entry)) =
      .ok (files.map file_entry) := by
    refine Zip.read_archive_of_fits ?_ ?_ ?_
    · rw [List.length_map]
      exact Nat.lt_succ_of_le hfits.count
    · intro entry hentry
      obtain ⟨file, hfile, rfl⟩ := List.mem_map.mp hentry
      exact Nat.lt_succ_of_le (hfits.names file hfile)
    · rw [List.map_map]
      exact hfits.length
  obtain ⟨start, hdirs, hsame, hothers, -⟩ := create_dir_all_ok hempty.way
  have hstart : Restoring dir disk start [] :=
    ⟨nofun, fun q _ => hsame q, fun q hq hsome => by
      rw [hothers q (not_prefix_of_inside hq), (hempty.below q hq).2] at hsome
      cases hsome⟩
  obtain ⟨disk', hrun, hdisk⟩ := run_restore_entries (p := p) (i := 0) hempty hstart hcoherent
  refine ⟨disk', ?_, hdisk⟩
  unfold restore
  rw [run_import_backup hread (mt List.map_eq_nil_iff.mp hne), run_bind, run_map_err, hdirs]
  change (import_entries _ p dir 0 _ >>= fun _ => pure _ : FsM Obj _ _).run start = _
  rw [run_bind, hrun]
  change (Except.ok ((files.map file_entry).length, _), disk') = _
  rw [List.length_map]

/-- **A backup is restored**: if the files within the limits fit into an archive, what an export
wrote is imported and gives back exactly these files, unless the listing lost an entry. -/
theorem export_import (hdistinct : root.Distinct) (hfits : Fits root.kept)
    (hexport : export_backup crc32 env display root = .ok (count, bytes))
    (hempty : Empty dir disk) :
    Restored root dir disk (restore p crc32 source dir bytes disk) ↔ NothingLost env root := by
  obtain ⟨children, files, rfl, hperm, hne, rfl⟩ := export_backup_ok hexport
  have hmem {place : Place} {data : Bytes} : (place, data) ∈ files ↔ _ :=
    hperm.mem_iff.trans (mem_collected_root hdistinct)
  have hsmall : Fits files := hfits.of_sublist hperm (collected_sublist _ _ _ _)
  obtain ⟨disk', hrun, hdisk⟩ : ∃ disk', restore p crc32 source dir _ disk = (_, disk') ∧ _ :=
    restore_export hdistinct hsmall hperm hne hempty
  have houtside : ∀ q, ¬ Inside dir q →
      (restore p crc32 source dir (Zip.archive crc32 (files.map file_entry)) disk).2 (.file q) =
        disk (.file q) := fun q hq => import_untouched hq disk
  rw [hrun] at houtside ⊢
  constructor
  · intro h place data hkept
    have hinside : Inside dir (dir ++ rel place) :=
      ⟨_, mt List.map_eq_nil_iff.mp hkept.ne_nil, rfl⟩
    have hfile := (h.file _ hinside data).mpr ⟨place, rfl, hkept⟩
    by_cases hdone : ∃ file ∈ files, dir ++ rel place = dir ++ rel file.1
    · obtain ⟨file, hin, heq⟩ := hdone
      have hplace : place = file.1 :=
        Subtype.val_injective.list_map (List.append_cancel_left heq)
      rw [hplace]
      exact (hmem.mp hin).2
    · push Not at hdone
      change disk' (.file _) = some data at hfile
      rw [hdisk.no_file _ hdone, (hempty.below _ hinside).1] at hfile
      cases hfile
  · intro hlost
    refine ⟨⟨_, rfl⟩, ?_, ?_, houtside⟩
    · intro q hq data
      constructor
      · intro hfile
        change disk' (.file q) = some data at hfile
        by_cases hdone : ∃ file ∈ files, q = dir ++ rel file.1
        · obtain ⟨file, hin, rfl⟩ := hdone
          rw [hdisk.file file hin] at hfile
          obtain rfl := Option.some.inj hfile
          exact ⟨file.1, rfl, (hmem.mp hin).1⟩
        · push Not at hdone
          rw [hdisk.no_file q hdone, (hempty.below q hq).1] at hfile
          cases hfile
      · rintro ⟨place, rfl, hkept⟩
        exact hdisk.file (place, data) (hmem.mpr ⟨hkept, hlost place data hkept⟩)
    · intro q hq hsome
      obtain ⟨file, hin, hpre⟩ := hdisk.directory q hq hsome
      exact ⟨file.1, file.2, (hmem.mp hin).1, hpre⟩

end RoundTrip

/-- Nothing fails. -/
def Env.fine : Env := ⟨fun _ => true, fun _ => true, fun _ => true, fun _ => true, true⟩

def name_a : Name := ⟨['a'], by simp [IsName, SafePart]⟩

/-- One file, packed and put back. -/
theorem export_import_one :
    Restored (.dir [(name_a, .file [1])]) [['d']] blank
        (restore .windows Zip.ieee "b.zip" [['d']] (Zip.archive Zip.ieee [(['a'], [1])]) blank) ↔
      NothingLost .fine (.dir [(name_a, .file [1])]) := by
  have hexport : export_backup Zip.ieee .fine "d" (.dir [(name_a, .file [1])]) =
      .ok (1, Zip.archive Zip.ieee [(['a'], [1])]) := by
    decide +kernel
  refine export_import ?_ ?_ hexport ?_
  · simp [Node.Distinct, ChildrenDistinct]
  · exact ⟨by decide +kernel, by decide +kernel, by decide +kernel⟩
  · exact ⟨fun _ _ _ => rfl, fun _ _ => ⟨rfl, rfl⟩⟩

/-! ## A backup that cannot be restored -/

section Overflow

variable {crc32 : Bytes → UInt32}

/-- Where nothing fails the walk does not fail. -/
theorem collect_fine (levels : ℕ) (current : Place) (children : List (Name × Node))
    (w : ZipWriter) : ∃ w', collect crc32 .fine levels current children w = .ok w' := by
  induction levels generalizing current children w with
  | zero => exact ⟨w, rfl⟩
  | succ levels ih =>
    have hlist (l : List (Name × Node)) : ∀ w : ZipWriter, ∃ w',
        l.foldlM (collect_entry crc32 .fine (collect crc32 .fine levels) current) w = .ok w' := by
      induction l with
      | nil => exact fun w => ⟨w, rfl⟩
      | cons child l ihl =>
        intro w
        obtain ⟨next, hnext⟩ : ∃ next,
            collect_entry crc32 .fine (collect crc32 .fine levels) current w child = .ok next := by
          obtain ⟨name, node⟩ := child
          have hstats : Env.fine.stats (current ++ [name]) ≠ false := Bool.noConfusion
          have hreads : Env.fine.reads (current ++ [name]) ≠ false := Bool.noConfusion
          unfold collect_entry
          rw [if_neg hstats]
          cases node with
          | dir below => exact ih _ below w
          | other => exact ⟨w, rfl⟩
          | file data =>
            dsimp only
            rw [if_neg hreads]
            split_ifs
            · exact ⟨_, rfl⟩
            · exact ⟨_, rfl⟩
            · exact ⟨_, rfl⟩
        rw [List.foldlM_cons, hnext]
        exact ihl next
    exact hlist _ w

/-- An archive whose wrapped offset leads into a block of zeros cannot be read. -/
theorem read_zeros {w : ZipWriter} {before after : Bytes} {n : ℕ} (hentries : w.entries.length = 256)
    (hout : w.out = before ++ List.replicate n 0 ++ after)
    (hbefore : before.length ≤ w.out.length % 2 ^ 32)
    (hwithin : w.out.length % 2 ^ 32 + 4 ≤ before.length + n) :
    Zip.read crc32 w.finish = .error "damaged central directory" := by
  obtain ⟨offset, hoffset⟩ := Nat.exists_eq_add_of_le hbefore
  obtain ⟨rest, hfinish⟩ : ∃ rest, w.finish = before ++ List.replicate n 0 ++ rest := by
    obtain ⟨tail, htail⟩ : ∃ tail, w.finish = w.out ++ tail := ⟨_, List.append_assoc _ _ _⟩
    exact ⟨after ++ tail, by rw [htail, hout, List.append_assoc]⟩
  have hread : Zip.read_u32 w.finish (w.out.length % 2 ^ 32) = some 0 := by
    unfold Zip.read_u32
    rw [hoffset, hfinish, LittleEndian.read_within _ _ _ (by rw [List.length_replicate]; omega)]
    unfold LittleEndian.read LittleEndian.slice
    rw [if_pos (by rw [List.length_replicate]; omega), List.drop_replicate, List.take_replicate,
      Nat.min_eq_left (by omega)]
    rfl
  rw [Zip.read_finish_eq, hentries]
  change Zip.read_entries crc32 _ (255 + 1) _ = _
  rw [Zip.read_entries, Zip.read_entry, hread]
  rfl

/-- One of 256 names. -/
def name_of (i : Fin 256) : Name :=
  ⟨[Char.ofNat (0x4E00 + i)], by
    revert i
    unfold IsName SafePart
    simp only [List.forall_mem_singleton]
    decide +kernel⟩

theorem name_of_injective : Function.Injective name_of := by
  have hcode : ∀ i : Fin 256, (Char.ofNat (0x4E00 + i)).toNat = 0x4E00 + i := by
    decide +kernel
  intro i j hij
  have hchar : Char.ofNat (0x4E00 + i) = Char.ofNat (0x4E00 + j) :=
    List.head_eq_of_cons_eq (congrArg Subtype.val hij)
  have hsum := congrArg Char.toNat hchar
  rw [hcode, hcode] at hsum
  omega

/-- 16 MiB, and one byte less for the first file. -/
def size_of (i : Fin 256) : ℕ := if i = 0 then MAX_ENTRY_BYTES - 1 else MAX_ENTRY_BYTES

/-- 256 files of zeros, one byte short of 4 GiB. -/
def large : Node :=
  .dir ((List.finRange 256).map fun i => (name_of i, .file (List.replicate (size_of i) 0)))

theorem kept_large :
    large.kept = (List.finRange 256).map fun i => ([name_of i], List.replicate (size_of i) 0) := by
  change (List.filter (fun _ => true) _).flatMap (found (collected (fun _ => true) MAX_DEPTH) []) = _
  rw [List.filter_true, List.flatMap_map, List.map_eq_flatMap]
  refine congrArg (fun f => List.flatMap f _) (funext fun i => ?_)
  unfold found
  dsimp only
  rw [if_pos]
  · rfl
  · rw [List.length_replicate]
    unfold size_of
    split_ifs
    · exact Nat.sub_le _ _
    · exact le_rfl

theorem large_sizes : (large.kept.map fun file => file.2.length).sum = 2 ^ 32 - 1 := by
  rw [kept_large, List.map_map]
  have hsizes : ((fun file : Place × Bytes => file.2.length) ∘
      fun i => ([name_of i], List.replicate (size_of i) 0)) = size_of := by
    funext i
    exact List.length_replicate
  rw [hsizes]
  decide +kernel

theorem length_name_of (i : Fin 256) : (encode (entry_name [name_of i])).length = 3 := by
  revert i
  decide +kernel

theorem large_blocks :
    (large.kept.map fun file => Zip.block_length (file_entry file)).sum = 2 ^ 32 + 8447 := by
  rw [kept_large, List.map_map]
  have hblocks : ((fun file : Place × Bytes => Zip.block_length (file_entry file)) ∘
      fun i => ([name_of i], List.replicate (size_of i) 0)) = fun i => 33 + size_of i := by
    funext i
    change Zip.LOCAL_HEADER_SIZE + (encode (entry_name [name_of i])).length +
      (List.replicate (size_of i) (0 : UInt8)).length = _
    rw [length_name_of, List.length_replicate]
    rfl
  rw [hblocks]
  decide +kernel

theorem large_distinct : large.Distinct := by
  have hnames : ((List.finRange 256).map name_of).Nodup :=
    List.Nodup.map name_of_injective (List.nodup_finRange 256)
  refine ⟨?_, ?_⟩
  · rw [List.map_map]
    exact hnames
  · generalize List.finRange 256 = l
    induction l with
    | nil => trivial
    | cons i l ih => exact ⟨trivial, ih⟩

theorem length_entries_add_all (crc32 : Bytes → UInt32) (files : List (Place × Bytes)) :
    (ZipWriter.add_all crc32 {} (files.map file_entry)).entries.length = files.length := by
  have hempty : Zip.Writer crc32 {} [] := List.Forall₂.nil
  refine (Zip.recorded_add_all hempty _).length_eq.trans ?_
  rw [List.nil_append, List.length_map]

/-- The directory of the archive is looked for at an offset that has lost its 33rd bit. -/
theorem read_large {files : List (Place × Bytes)} (hperm : files.Perm large.kept) :
    Zip.read crc32 (Zip.archive crc32 (files.map file_entry)) =
      .error "damaged central directory" := by
  have hlength : files.length = 256 := by
    rw [hperm.length_eq, kept_large, List.length_map, List.length_finRange]
  have hout : (ZipWriter.add_all crc32 {} (files.map file_entry)).out.length = 2 ^ 32 + 8447 := by
    rw [Zip.length_out_add_all, List.map_map, ← large_blocks]
    exact (hperm.map _).sum_eq
  obtain ⟨first, rest, rfl⟩ := List.exists_cons_of_ne_nil (l := files) (by
    rintro rfl
    cases hlength)
  have hfirst := hperm.subset List.mem_cons_self
  rw [kept_large] at hfirst
  obtain ⟨i, -, rfl⟩ := List.mem_map.mp hfirst
  have hsize : MAX_ENTRY_BYTES - 1 ≤ size_of i := by
    unfold size_of
    split_ifs
    · exact le_rfl
    · exact Nat.sub_le _ _
  obtain ⟨header, hblock, hheader⟩ : ∃ header, Zip.local_block crc32
      (entry_name [name_of i], List.replicate (size_of i) 0) =
        header ++ List.replicate (size_of i) 0 ∧ header.length = 33 := by
    refine ⟨_, rfl, ?_⟩
    rw [List.length_append, LittleEndian.length_record, Zip.width_local_header, length_name_of]
    rfl
  have hparts : (ZipWriter.add_all crc32 {} ((([name_of i], List.replicate (size_of i) 0) ::
      rest).map file_entry)).out = header ++ List.replicate (size_of i) 0 ++
        rest.flatMap fun file => Zip.local_block crc32 (file_entry file) := by
    rw [Zip.out_add_all, List.nil_append, List.flatMap_map, List.flatMap_cons, ← hblock]
    rfl
  refine read_zeros ((length_entries_add_all _ _).trans hlength) hparts ?_ ?_
  · rw [hout, hheader]
    decide
  · rw [hout, hheader]
    refine le_trans ?_ (Nat.add_le_add_left hsize 33)
    decide

/-- The 256 files are exported, and the archive is not imported. -/
theorem large_not_restored :
    ¬ ∀ root count bytes, root.Distinct → root.kept.length ≤ 65535 →
      (root.kept.map fun file => file.2.length).sum < 2 ^ 32 →
        export_backup Zip.ieee .fine "d" root = .ok (count, bytes) →
          Restored root [['d']] blank (restore .unix Zip.ieee "b.zip" [['d']] bytes blank) := by
  intro h
  obtain ⟨writer, hwriter⟩ : ∃ writer, collect Zip.ieee .fine (MAX_DEPTH + 1) []
      ((List.finRange 256).map fun i => (name_of i, .file (List.replicate (size_of i) 0))) {} =
        .ok writer := collect_fine _ _ _ _
  obtain ⟨files, hperm, rfl⟩ := collect_ok hwriter
  have hlength : files.length = 256 := by
    rw [hperm.length_eq]
    change large.kept.length = 256
    rw [kept_large, List.length_map, List.length_finRange]
  have hexport : export_backup Zip.ieee .fine "d" large =
      .ok (256, Zip.archive Zip.ieee (files.map file_entry)) := by
    have hcount := (length_entries_add_all Zip.ieee files).trans hlength
    change (collect Zip.ieee .fine (MAX_DEPTH + 1) [] _ {} >>= fun writer => _) = _
    rw [hwriter]
    change (if _ then _ else Except.ok (_, _)) = _
    rw [if_neg, hcount]
    · rfl
    · rw [List.isEmpty_iff_length_eq_zero, hcount]
      decide
  obtain ⟨summary, hsummary⟩ := (h large 256 _ large_distinct (by
    rw [kept_large, List.length_map, List.length_finRange]
    decide) (by
    rw [large_sizes]
    decide) hexport).ok
  unfold restore import_backup at hsummary
  rw [read_large hperm] at hsummary
  cases hsummary

end Overflow

end WaSSH.Store.Export
