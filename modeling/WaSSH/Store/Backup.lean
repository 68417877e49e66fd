import WaSSH.Lib.FileMap
import WaSSH.Lib.Lines
import WaSSH.Ssh.Tree
import WaSSH.Store.Zip

/-!
# Importing a backup

The archive is read whole; its entries are then written below the data directory one after the
other, until one is refused or cannot be written.

* `Obj`: files and directories, by their paths; `create_dir_all`, `write`: the file system;
* `target`, **`target_of_safe`**: where a safe name leads, on both systems;
* `import_entry`, `import_entries`, `import_backup`: the source;
* **`import_untouched`**: nothing changes that is not below the data directory;
* **`import_meets_iff`**: which archives are imported whole or not at all, whatever happens.
-/

namespace WaSSH.Store.Backup

open FileMap
open Ssh (Platform Component components)
open Zip (Entry is_safe_entry_name)

/-- The components of a path. -/
abbrev Path := List (List Char)

inductive Obj
  | file (path : Path)
  | directory (path : Path)
  deriving DecidableEq

/-! ## The file system -/

/-- Every directory on the way, the first one first; the environment says which can be made. -/
def make_dirs (makes : Path → Bool) : List Path → FsM Obj IoError Unit
  | [] => pure ()
  | path :: paths => do
    if ((← get) (.file path)).isSome then throw .denied
    if ((← get) (.directory path)).isNone then create (makes path) (.directory path)
    make_dirs makes paths

/-- `fs::create_dir_all`. -/
def create_dir_all (makes : Path → Bool) (path : Path) : FsM Obj IoError Unit :=
  make_dirs makes path.inits.tail

/-- `fs::write`: `cut` is how many bytes are written when not all of them are. -/
def write (creates : Bool) (cut : Option ℕ) (path : Path) (data : Bytes) :
    FsM Obj IoError Unit := do
  if ((← get) (.directory path)).isSome then throw .denied
  create creates (.file path)
  write_all (cut.filter (· < data.length)) (.file path) data

section FileSystem

variable {makes : Path → Bool} {paths : List Path} {q : Obj} (disk : Fs Obj)

theorem run_make_dirs_cons (path : Path) (paths : List Path) :
    (make_dirs makes (path :: paths)).run disk =
      if (disk (.file path)).isSome then (.error .denied, disk)
      else if (disk (.directory path)).isSome then (make_dirs makes paths).run disk
      else if makes path then (make_dirs makes paths).run (disk.set (.directory path) [])
      else (.error .denied, disk) := by
  rw [make_dirs, run_bind, run_get]
  cases hfile : disk (.file path) with
  | some _ =>
    simp only [hfile]
    rfl
  | none =>
    simp only [hfile, Option.isSome_none, Bool.false_eq_true, if_false, run_bind, run_get]
    cases hdir : disk (.directory path) with
    | some _ => rfl
    | none =>
      simp only [Option.isNone_none, if_true, run_bind, run_create]
      cases makes path <;> rfl

theorem run_write (creates : Bool) (cut : Option ℕ) (path : Path) (data : Bytes) :
    (write creates cut path data).run disk =
      if (disk (.directory path)).isSome then (.error .denied, disk)
      else if creates then
        match cut.filter (· < data.length) with
        | none => (.ok (), disk.set (.file path) data)
        | some n => (.error .denied, disk.set (.file path) (data.take n))
      else (.error .denied, disk) := by
  rw [write, run_bind, run_get]
  cases hdir : disk (.directory path) with
  | some _ =>
    simp only [hdir]
    rfl
  | none =>
    simp only [hdir]
    cases creates with
    | false => rfl
    | true =>
      change ((create true (.file path) >>= fun _ => write_all _ _ data).run disk) = _
      rw [run_bind, run_create, if_pos rfl]
      simp only [run_write_all, Fs.set_self, Fs.set_set, Option.getD_some, List.nil_append]
      rfl

theorem untouched_make_dirs (hq : ∀ path ∈ paths, q ≠ .directory path) :
    Untouched q (make_dirs makes paths) := by
  induction paths with
  | nil => exact untouched_pure ()
  | cons path paths ih =>
    intro disk
    have hrest := ih fun path hpath => hq path (List.mem_cons_of_mem _ hpath)
    rw [run_make_dirs_cons]
    split_ifs with hfile hdir hmake
    · rfl
    · exact hrest disk
    · exact (hrest _).trans (disk.set_of_ne _ (hq path List.mem_cons_self))
    · rfl

theorem untouched_create_dir_all {path : Path}
    (hq : ∀ parent, parent <+: path → q ≠ .directory parent) :
    Untouched q (create_dir_all makes path) :=
  untouched_make_dirs fun parent hparent =>
    hq parent ((List.mem_inits _ _).mp (List.mem_of_mem_tail hparent))

theorem untouched_write (creates : Bool) (cut : Option ℕ) {path : Path} (data : Bytes)
    (hq : q ≠ .file path) : Untouched q (write creates cut path data) := by
  intro disk
  rw [run_write]
  split_ifs
  · rfl
  · cases cut.filter (· < data.length) <;> exact disk.set_of_ne _ hq
  · rfl

end FileSystem

/-! ## Where a name leads -/

/-- `MAIN_SEPARATOR_STR`. -/
def main_separator : Platform → Char
  | .unix => '/'
  | .windows => '\\'

/-- What `join` and the system make of the components of a text. -/
def resolve (dir : Path) : List Component → Path
  | [] => dir
  | .root :: cs => resolve [] cs
  | .parent :: cs => resolve dir.dropLast cs
  | .normal name :: cs => resolve (dir ++ [name]) cs

/-- `dir.join(name.replace('/', MAIN_SEPARATOR_STR))`. -/
def target (p : Platform) (dir : Path) (name : List Char) : Path :=
  resolve dir (components p (name.map fun c => if c = '/' then main_separator p else c))

/-- The path is below the directory, and not the directory itself. -/
def Inside (dir path : Path) : Prop := ∃ rest, rest ≠ [] ∧ path = dir ++ rest

/-! ## The import -/

/-- Why an import fails. -/
inductive ImportError
  | io (source : IoError)
  | invalid (message : String)
  deriving DecidableEq

/-- What the run meets: whether the archive can be read, and what succeeds while the `i`-th entry is
written. -/
structure Env where
  readable : Bool
  makes_dir : Path → Bool
  makes (i : ℕ) : Path → Bool
  creates (i : ℕ) : Bool
  writes (i : ℕ) : Option ℕ

section Import

variable (env : Env) (p : Platform) (dir : Path)

/-- One round of the loop. -/
def import_entry (i : ℕ) (entry : Entry) : FsM Obj ImportError Unit := do
  if is_safe_entry_name entry.1 = false then
    throw (.invalid s!"{String.ofList entry.1}: refusing to write outside the data directory")
  let target := target p dir entry.1
  if target ≠ [] then map_err .io (create_dir_all (env.makes i) target.dropLast)
  map_err .io (write (env.creates i) (env.writes i) target entry.2)

/-- The loop, from the `i`-th entry on. -/
def import_entries (i : ℕ) : List Entry → FsM Obj ImportError Unit
  | [] => pure ()
  | entry :: entries => do
    import_entry env p dir i entry
    import_entries (i + 1) entries

variable (crc32 : Bytes → UInt32) (source : String) (bytes : Bytes)

/-- Restore an archive into `dir`: the number of files, and of bytes in the archive. -/
def import_backup : FsM Obj ImportError (ℕ × ℕ) := do
  map_err .io (pass env.readable)
  match Zip.read crc32 bytes with
  | .error error => throw (.invalid s!"{source}: {error}")
  | .ok [] => throw (.invalid s!"{source} holds no files")
  | .ok entries => do
    map_err .io (create_dir_all env.makes_dir dir)
    import_entries env p dir 0 entries
    pure (entries.length, bytes.length)

/-- One run writes below the data directory only, and leaves what is there as it was if it fails. -/
structure Meets (disk : Fs Obj) : Prop where
  inside : ∀ path, ¬ Inside dir path →
    ((import_backup env p dir crc32 source bytes).run disk).2 (.file path) = disk (.file path)
  unchanged : ∀ error, ((import_backup env p dir crc32 source bytes).run disk).1 = .error error →
    ∀ path, Inside dir path →
      ((import_backup env p dir crc32 source bytes).run disk).2 (.file path) = disk (.file path) ∧
      ((import_backup env p dir crc32 source bytes).run disk).2 (.directory path) =
        disk (.directory path)

end Import

/-- The archive is refused before anything is written, or it is one empty file at the top. -/
def Harmless (p : Platform) (crc32 : Bytes → UInt32) (bytes : Bytes) : Prop :=
  ∀ entry entries, Zip.read crc32 bytes = .ok (entry :: entries) →
    is_safe_entry_name entry.1 = true →
      entries = [] ∧ entry.2 = [] ∧ ∀ c ∈ entry.1, p.is_separator c = false

/-! ## Safe names -/

variable {p : Platform} {name : List Char}

/-- A part of a safe name. -/
def SafePart (part : List Char) : Prop := part ≠ [] ∧ part ≠ ['.'] ∧ part ≠ ['.', '.']

theorem is_safe_entry_name_iff : is_safe_entry_name name = true ↔
    (((name ≠ [] ∧ name.head? ≠ some '/') ∧ name.head? ≠ some '\\') ∧ ':' ∉ name) ∧
      ∀ part ∈ name.splitOnP Platform.windows.is_separator, SafePart part := by
  have hseparator : (fun c : Char => decide (c = '/') || decide (c = '\\')) =
      Platform.windows.is_separator := by
    funext c
    exact (Bool.decide_or _ _).symm
  unfold is_safe_entry_name SafePart
  rw [hseparator]
  simp only [Bool.and_eq_true, decide_eq_true_eq, List.all_eq_true, Bool.not_eq_true',
    List.contains_eq_mem, decide_eq_false_iff_not, and_assoc]

/-- On both systems every part of a safe name is a name. -/
theorem safe_parts (h : is_safe_entry_name name = true) :
    ∀ part ∈ name.splitOnP p.is_separator, SafePart part := by
  have hparts := (is_safe_entry_name_iff.mp h).2
  cases p with
  | windows => exact hparts
  | unix =>
    have hboth : Platform.windows.is_separator =
        fun c => Platform.unix.is_separator c || decide (c = '\\') := by
      funext c
      exact Bool.decide_or _ _
    rw [hboth, Lines.splitOnP_or] at hparts
    intro part hpart
    -- a part that is no name would be one for the other separator as well
    have hinner {x : List Char} (hx : part = x) (hsplit : x.splitOnP (fun c => c = '\\') = [x]) :
        SafePart x :=
      hparts x (List.mem_flatMap.mpr
        ⟨part, hpart, by rw [hx, hsplit]; exact List.mem_singleton_self x⟩)
    exact ⟨fun hx => (hinner hx rfl).1 rfl, fun hx => (hinner hx rfl).2.1 rfl,
      fun hx => (hinner hx rfl).2.2 rfl⟩

theorem is_separator_main (c : Char) :
    p.is_separator (if c = '/' then main_separator p else c) = p.is_separator c := by
  by_cases hc : c = '/'
  · rw [if_pos hc, hc]
    cases p <;> rfl
  · rw [if_neg hc]

theorem main_of_not_separator {c : Char} (h : p.is_separator c = false) :
    (if c = '/' then main_separator p else c) = c := by
  refine if_neg ?_
  rintro rfl
  cases p <;> cases h

theorem colon_of_main {c : Char} (h : (if c = '/' then main_separator p else c) = ':') :
    c = ':' := by
  by_cases hc : c = '/'
  · rw [if_pos hc] at h
    cases p <;> cases h
  · rwa [if_neg hc] at h

theorem not_absolute (h : is_safe_entry_name name = true) :
    p.is_absolute (name.map fun c => if c = '/' then main_separator p else c) = false := by
  obtain ⟨⟨⟨⟨hne, hslash⟩, hback⟩, hcolon⟩, -⟩ := is_safe_entry_name_iff.mp h
  have hhead : (name.map fun c => if c = '/' then main_separator p else c).head?.any
      p.is_separator = false := by
    cases name with
    | nil => exact absurd rfl hne
    | cons c cs =>
      have hc : c ≠ '/' ∧ c ≠ '\\' :=
        ⟨fun hc => hslash (congrArg some hc), fun hc => hback (congrArg some hc)⟩
      change p.is_separator _ = false
      rw [is_separator_main]
      cases p with
      | unix => exact decide_eq_false hc.1
      | windows => exact decide_eq_false (not_or.mpr hc)
  unfold Platform.is_absolute
  rw [hhead, Bool.false_or]
  split
  · -- the second character is no colon
    rename_i letter rest heq
    obtain ⟨c, cs, rfl, -, hcs⟩ := List.map_eq_cons_iff.mp heq
    obtain ⟨d, ds, rfl, hd, -⟩ := List.map_eq_cons_iff.mp hcs
    refine absurd ?_ hcolon
    rw [← colon_of_main hd]
    exact List.mem_cons_of_mem _ List.mem_cons_self
  · rfl

theorem components_of_safe (h : is_safe_entry_name name = true) :
    components p (name.map fun c => if c = '/' then main_separator p else c) =
      (name.splitOnP p.is_separator).map .normal := by
  unfold components
  rw [not_absolute h, Lines.splitOnP_map is_separator_main fun c => main_of_not_separator,
    List.filter_eq_self.mpr fun part hpart => by
      simpa using ⟨(safe_parts h part hpart).1, (safe_parts h part hpart).2.1⟩]
  exact List.map_congr_left fun part hpart => if_neg (safe_parts h part hpart).2.2

theorem resolve_normal (dir : Path) (parts : List (List Char)) :
    resolve dir (parts.map .normal) = dir ++ parts := by
  induction parts generalizing dir with
  | nil => exact (List.append_nil dir).symm
  | cons part parts ih =>
    rw [List.map_cons, resolve, ih, List.append_assoc, List.singleton_append]

/-- **A safe name** leads to a place below the directory, by its parts. -/
theorem target_of_safe (h : is_safe_entry_name name = true) (dir : Path) :
    target p dir name = dir ++ name.splitOnP p.is_separator := by
  unfold target
  rw [components_of_safe h, resolve_normal]

theorem inside_target (h : is_safe_entry_name name = true) (dir : Path) :
    Inside dir (target p dir name) :=
  ⟨_, List.splitOnP_ne_nil _ name, target_of_safe h dir⟩

theorem target_ne_nil (h : is_safe_entry_name name = true) (dir : Path) : target p dir name ≠ [] := by
  obtain ⟨rest, hrest, htarget⟩ := inside_target (p := p) h dir
  rw [htarget]
  exact List.append_ne_nil_of_right_ne_nil _ hrest

/-! ## Where the import writes -/

section Writes

variable {dir : Path} {env : Env} {i : ℕ} {entry : Entry} {crc32 : Bytes → UInt32} {source : String}
  {bytes : Bytes} {path : Path}

theorem import_entry_refused (h : is_safe_entry_name entry.1 = false) :
    import_entry env p dir i entry =
      throw (.invalid s!"{String.ofList entry.1}: refusing to write outside the data directory") := by
  unfold import_entry
  rw [if_pos h]
  rfl

theorem import_entry_safe (h : is_safe_entry_name entry.1 = true) :
    import_entry env p dir i entry = (do
      map_err .io (create_dir_all (env.makes i) (target p dir entry.1).dropLast)
      map_err .io (write (env.creates i) (env.writes i) (target p dir entry.1) entry.2)) := by
  unfold import_entry
  rw [if_neg (by simp [h])]
  simp only [target_ne_nil h dir, ne_eq, not_false_eq_true, if_true]

theorem file_untouched_create_dir_all (makes : Path → Bool) (at_path : Path) :
    Untouched (.file path) (create_dir_all makes at_path) :=
  untouched_create_dir_all fun _ _ => nofun

theorem untouched_import_entry (hpath : ¬ Inside dir path) :
    Untouched (.file path) (import_entry env p dir i entry) := by
  cases hsafe : is_safe_entry_name entry.1 with
  | false =>
    rw [import_entry_refused hsafe]
    exact untouched_throw _
  | true =>
    rw [import_entry_safe hsafe]
    refine untouched_bind (untouched_map_err _ (file_untouched_create_dir_all _ _)) fun _ =>
      untouched_map_err _ (untouched_write _ _ _ ?_)
    rintro ⟨rfl⟩
    exact hpath (inside_target hsafe dir)

theorem untouched_import_entries (hpath : ¬ Inside dir path) (entries : List Entry) :
    Untouched (.file path) (import_entries env p dir i entries) := by
  induction entries generalizing i with
  | nil => exact untouched_pure ()
  | cons entry entries ih => exact untouched_bind (untouched_import_entry hpath) fun _ => ih

/-- **Nothing outside the data directory** is written, whatever the names are. -/
theorem import_untouched (hpath : ¬ Inside dir path) :
    Untouched (.file path) (import_backup env p dir crc32 source bytes) := by
  refine untouched_bind (untouched_map_err _ (untouched_pass _)) fun _ => ?_
  split
  · exact untouched_throw _
  · exact untouched_throw _
  · exact untouched_bind (untouched_map_err _ (file_untouched_create_dir_all _ _)) fun _ =>
      untouched_bind (untouched_import_entries hpath _) fun _ => untouched_pure _

end Writes

/-! ## What is left of an import that fails -/

section Failure

variable {dir : Path} {env : Env} {i : ℕ} {entry : Entry} {crc32 : Bytes → UInt32} {source : String}
  {bytes : Bytes} {path : Path} {q : Obj}

/-- An object below the directory. -/
def Obj.Below (dir : Path) : Obj → Prop
  | .file path => Inside dir path
  | .directory path => Inside dir path

theorem not_prefix_of_inside (h : Inside dir path) : ¬ path <+: dir := by
  obtain ⟨rest, hrest, rfl⟩ := h
  intro hpre
  have hlength := hpre.length_le
  rw [List.length_append] at hlength
  have hpos := List.length_pos_iff.mpr hrest
  omega

theorem below_untouched_create_dir_all (makes : Path → Bool) (h : q.Below dir) :
    Untouched q (create_dir_all makes dir) := by
  refine untouched_create_dir_all ?_
  rintro parent hparent rfl
  exact not_prefix_of_inside h hparent

/-- Of an empty file nothing can be missing. -/
theorem keptOnError_write_nil (creates : Bool) (cut : Option ℕ) :
    KeptOnError q (write creates cut path []) := by
  intro disk e h
  have hcut : cut.filter (· < ([] : Bytes).length) = none := by
    simp
  rw [run_write, hcut] at h ⊢
  split_ifs at h ⊢
  · rfl
  · rfl

theorem keptOnError_import (h : Harmless p crc32 bytes) (hq : q.Below dir) :
    KeptOnError q (import_backup env p dir crc32 source bytes) := by
  refine keptOnError_bind (untouched_map_err _ (untouched_pass _)) fun _ => ?_
  split
  · exact (untouched_throw _).keptOnError
  · exact (untouched_throw _).keptOnError
  · rename_i entries hnil hread
    refine keptOnError_bind (untouched_map_err _ (below_untouched_create_dir_all _ hq)) fun _ => ?_
    obtain ⟨entry, rest, rfl⟩ := List.exists_cons_of_ne_nil hnil
    refine keptOnError_bind_pure _ ?_
    unfold import_entries
    cases hsafe : is_safe_entry_name entry.1 with
    | false =>
      rw [import_entry_refused hsafe]
      exact (untouched_throw _).keptOnError
    | true =>
      obtain ⟨rfl, hdata, hplain⟩ := h entry rest hread hsafe
      have hparent : (target p dir entry.1).dropLast = dir := by
        rw [target_of_safe hsafe, List.splitOnP_eq_singleton hplain, List.dropLast_concat]
      rw [import_entry_safe hsafe, hparent, hdata]
      refine keptOnError_bind_pure _ (keptOnError_bind ?_ fun _ => ?_)
      · exact untouched_map_err _ (below_untouched_create_dir_all _ hq)
      · exact keptOnError_map_err _ (keptOnError_write_nil _ _)

/-- Nothing fails but the writing of entries. -/
def Env.smooth (creates : ℕ → Bool) (writes : ℕ → Option ℕ) : Env where
  readable := true
  makes_dir _ := true
  makes _ _ := true
  creates := creates
  writes := writes

theorem make_dirs_ok (paths : List Path) {disk : Fs Obj}
    (hfree : ∀ q ∈ paths, disk (.file q) = none) :
    ((make_dirs (fun _ => true) paths).run disk).1 = .ok () ∧
      ∀ q, q ∈ paths ∨ (disk (.directory q)).isSome →
        (((make_dirs (fun _ => true) paths).run disk).2 (.directory q)).isSome := by
  induction paths generalizing disk with
  | nil => exact ⟨rfl, fun q hq => hq.resolve_left List.not_mem_nil⟩
  | cons path paths ih =>
    have hfile : ¬ (disk (.file path)).isSome := by
      rw [hfree path List.mem_cons_self]
      exact Bool.false_ne_true
    have hrest : ∀ q ∈ paths, disk (.file q) = none := fun q hq =>
      hfree q (List.mem_cons_of_mem _ hq)
    rw [run_make_dirs_cons, if_neg hfile, if_pos (rfl : true = true)]
    split_ifs with hdir
    · refine ⟨(ih hrest).1, fun q hq => (ih hrest).2 q ?_⟩
      rcases hq with hmem | hq
      · rcases List.mem_cons.mp hmem with rfl | hmem
        · exact .inr hdir
        · exact .inl hmem
      · exact .inr hq
    · have hset : ∀ q ∈ paths, disk.set (.directory path) [] (.file q) = none := by
        intro q hq
        rw [disk.set_of_ne [] (fun h => Obj.noConfusion h), hrest q hq]
      refine ⟨(ih hset).1, fun q hq => (ih hset).2 q ?_⟩
      rcases eq_or_ne q path with rfl | hne
      · exact .inr (by rw [Fs.set_self]; rfl)
      · rw [disk.set_of_ne _ fun h => hne (Obj.directory.inj h)]
        exact hq.imp_left fun hmem => (List.mem_cons.mp hmem).resolve_left hne

theorem mem_inits_tail {q path : Path} : q ∈ path.inits.tail ↔ q ≠ [] ∧ q <+: path := by
  cases path with
  | nil => exact ⟨nofun, fun ⟨hne, hq⟩ => absurd (List.prefix_nil.mp hq) hne⟩
  | cons part path =>
    rw [← List.mem_inits, List.inits_cons, List.tail_cons, List.mem_cons]
    constructor
    · intro hq
      obtain ⟨rest, -, rfl⟩ := List.mem_map.mp hq
      exact ⟨List.cons_ne_nil _ _, .inr hq⟩
    · exact fun ⟨hne, hq⟩ => hq.resolve_left hne

/-- Where no file is in the way every directory can be made, and no other is. -/
theorem create_dir_all_ok {disk : Fs Obj} {path : Path}
    (hfree : ∀ q, q ≠ [] → q <+: path → disk (.file q) = none) :
    ∃ disk', (create_dir_all (fun _ => true) path).run disk = (.ok (), disk') ∧
      (∀ q, disk' (.file q) = disk (.file q)) ∧
      (∀ q, ¬ q <+: path → disk' (.directory q) = disk (.directory q)) ∧
      ∀ q, q ≠ [] → q <+: path → (disk' (.directory q)).isSome := by
  obtain ⟨hok, hmade⟩ := make_dirs_ok path.inits.tail fun q hq =>
    hfree q (mem_inits_tail.mp hq).1 (mem_inits_tail.mp hq).2
  refine ⟨((create_dir_all (fun _ => true) path).run disk).2, Prod.ext hok rfl, ?_, ?_, ?_⟩
  · exact fun q => file_untouched_create_dir_all _ _ disk
  · intro q hq
    refine untouched_create_dir_all ?_ disk
    rintro parent hparent ⟨rfl⟩
    exact hq hparent
  · exact fun q hne hq => hmade q (.inl (mem_inits_tail.mpr ⟨hne, hq⟩))

variable {creates : ℕ → Bool} {writes : ℕ → Option ℕ}

theorem not_prefix_dropLast {path : Path} (hne : path ≠ []) : ¬ path <+: path.dropLast := by
  intro hpre
  have hlength := hpre.length_le
  have hpos := List.length_pos_iff.mpr hne
  rw [List.length_dropLast] at hlength
  omega

/-- Up to the writing of a safe entry the directories above it are made, and nothing else. -/
theorem run_import_entry_smooth (p : Platform) (dir : Path) (i : ℕ)
    (hsafe : is_safe_entry_name entry.1 = true) {disk : Fs Obj}
    (hfree : ∀ q, q ≠ [] → q <+: (target p dir entry.1).dropLast → disk (.file q) = none) :
    ∃ disk', (∀ q, disk' (.file q) = disk (.file q)) ∧
      (∀ q, ¬ q <+: (target p dir entry.1).dropLast →
        disk' (.directory q) = disk (.directory q)) ∧
      (∀ q, q ≠ [] → q <+: (target p dir entry.1).dropLast → (disk' (.directory q)).isSome) ∧
      (import_entry (Env.smooth creates writes) p dir i entry).run disk =
        (map_err ImportError.io
          (write (creates i) (writes i) (target p dir entry.1) entry.2)).run disk' := by
  obtain ⟨disk', hrun, hfiles, hothers, hparents⟩ := create_dir_all_ok hfree
  have hdirs : (create_dir_all ((Env.smooth creates writes).makes i)
      (target p dir entry.1).dropLast).run disk = (.ok (), disk') := hrun
  refine ⟨disk', hfiles, hothers, hparents, ?_⟩
  rw [import_entry_safe hsafe, run_bind, run_map_err, hdirs]
  rfl

theorem import_entry_fails (p : Platform) (dir : Path) (entry : Entry)
    (hcreates : env.creates i = false) (disk : Fs Obj) :
    ∃ e disk', (import_entry env p dir i entry).run disk = (.error e, disk') ∧
      ∀ q, disk' (.file q) = disk (.file q) := by
  cases hsafe : is_safe_entry_name entry.1 with
  | false =>
    rw [import_entry_refused hsafe]
    exact ⟨_, disk, rfl, fun q => rfl⟩
  | true =>
    rw [import_entry_safe hsafe, run_bind, run_map_err]
    have hfile (q : Path) : _ = disk (.file q) :=
      file_untouched_create_dir_all (env.makes i) (target p dir entry.1).dropLast disk
    generalize (create_dir_all (env.makes i) (target p dir entry.1).dropLast).run disk = r
      at hfile ⊢
    rcases r with ⟨e | _, disk'⟩
    · exact ⟨_, disk', rfl, hfile⟩
    · refine ⟨.io .denied, disk', ?_, hfile⟩
      change (map_err _ _).run disk' = _
      rw [run_map_err, run_write, hcreates, if_neg Bool.false_ne_true]
      split_ifs <;> rfl

theorem run_import_backup {entries : List Entry} (hread : Zip.read crc32 bytes = .ok entries)
    (hne : entries ≠ []) (disk : Fs Obj) :
    (import_backup (Env.smooth creates writes) p dir crc32 source bytes).run disk =
      (do
        map_err ImportError.io (create_dir_all (fun _ => true) dir)
        import_entries (Env.smooth creates writes) p dir 0 entries
        pure (entries.length, bytes.length) : FsM Obj ImportError (ℕ × ℕ)).run disk := by
  unfold import_backup
  rw [run_bind, run_map_err, run_pass, hread]
  cases entries with
  | nil => exact absurd rfl hne
  | cons entry entries => rfl

/-- No file and no directory. -/
def blank : Fs Obj := fun _ => none

/-- What an import leaves that fails at its entries. -/
theorem left_of_smooth {entries : List Entry} (hread : Zip.read crc32 bytes = .ok entries)
    (hne : entries ≠ [])
    (hmeets : Meets (Env.smooth creates writes) p dir crc32 source bytes blank) :
    ∃ disk, (∀ q, disk (.file q) = none) ∧ (∀ q, Inside dir q → disk (.directory q) = none) ∧
      ∀ e disk', (import_entries (Env.smooth creates writes) p dir 0 entries).run disk =
        (.error e, disk') → ∀ q, Inside dir q → disk' (.file q) = none ∧
          disk' (.directory q) = none := by
  have hblank : ∀ q, q ≠ [] → q <+: dir → blank (.file q) = none := fun _ _ _ => rfl
  obtain ⟨disk, hrun, hfiles, hothers, -⟩ := create_dir_all_ok hblank
  refine ⟨disk, hfiles, fun q hq => hothers q (not_prefix_of_inside hq), ?_⟩
  intro e disk' hentries q hq
  have himport : (import_backup (Env.smooth creates writes) p dir crc32 source bytes).run blank =
      (.error e, disk') := by
    rw [run_import_backup hread hne, run_bind, run_map_err, hrun]
    change (import_entries _ p dir 0 entries >>= fun _ => pure _ : FsM Obj _ _).run disk = _
    rw [run_bind, hentries]
  have h := hmeets.unchanged e (by rw [himport]) q hq
  rwa [himport] at h

theorem left_of_write {rest : List Entry} (hread : Zip.read crc32 bytes = .ok (entry :: rest))
    (hsafe : is_safe_entry_name entry.1 = true)
    (hmeets : Meets (Env.smooth creates writes) p dir crc32 source bytes blank) :
    ∃ disk, disk (.directory (target p dir entry.1)) = none ∧
      (∀ q, q ≠ [] → q <+: (target p dir entry.1).dropLast → (disk (.directory q)).isSome) ∧
      ∀ e disk', (map_err ImportError.io
          (write (creates 0) (writes 0) (target p dir entry.1) entry.2) >>= fun _ =>
        import_entries (Env.smooth creates writes) p dir 1 rest).run disk = (.error e, disk') →
          ∀ q, Inside dir q → disk' (.file q) = none ∧ disk' (.directory q) = none := by
  obtain ⟨start, hfiles, hbelow, hleft⟩ := left_of_smooth hread (List.cons_ne_nil _ _) hmeets
  obtain ⟨disk, -, hothers, hparents, hentry⟩ :=
    run_import_entry_smooth p dir 0 hsafe fun q _ _ => hfiles q
  have htarget : disk (.directory (target p dir entry.1)) = none := by
    rw [hothers _ (not_prefix_dropLast (target_ne_nil hsafe dir)),
      hbelow _ (inside_target hsafe dir)]
  refine ⟨disk, htarget, hparents, fun e disk' hrun => hleft e disk' ?_⟩
  unfold import_entries
  rw [run_bind, hentry, ← run_bind]
  exact hrun

/-- A file that is not empty may be left half written. -/
theorem empty_of_meets {rest : List Entry} (hread : Zip.read crc32 bytes = .ok (entry :: rest))
    (hsafe : is_safe_entry_name entry.1 = true)
    (h : ∀ env disk, Meets env p dir crc32 source bytes disk) : entry.2 = [] := by
  by_contra hdata
  obtain ⟨disk, htarget, -, hleft⟩ := left_of_write hread hsafe
    (h (Env.smooth (fun _ => true) fun _ => some 0) blank)
  have hcut : (some 0).filter (· < entry.2.length) = some 0 := by
    rw [Option.filter_some, if_pos (by simpa using List.length_pos_iff.mpr hdata)]
  have hrun := hleft (.io .denied) (disk.set (.file (target p dir entry.1)) []) (by
    rw [run_bind, run_map_err, run_write, htarget, hcut]
    rfl)
  have hfile := (hrun _ (inside_target (p := p) hsafe dir)).1
  rw [Fs.set_self] at hfile
  cases hfile

/-- A directory may be left that was made for the file. -/
theorem plain_of_meets {rest : List Entry} (hread : Zip.read crc32 bytes = .ok (entry :: rest))
    (hsafe : is_safe_entry_name entry.1 = true)
    (h : ∀ env disk, Meets env p dir crc32 source bytes disk) :
    ∀ c ∈ entry.1, p.is_separator c = false := by
  by_contra hplain
  push Not at hplain
  obtain ⟨c, hc, hsep⟩ := hplain
  obtain ⟨first, last, hname⟩ := List.append_of_mem hc
  have hparts := List.splitOnP_append_cons first last (p := p.is_separator)
    (by simpa using hsep)
  obtain ⟨disk, htarget, hparents, hleft⟩ := left_of_write hread hsafe
    (h (Env.smooth (fun _ => false) fun _ => none) blank)
  have hrun := hleft (.io .denied) disk (by
    rw [run_bind, run_map_err, run_write, htarget]
    rfl)
  have hparent : Inside dir (target p dir entry.1).dropLast := by
    refine ⟨first.splitOnP p.is_separator ++ (last.splitOnP p.is_separator).dropLast,
      List.append_ne_nil_of_left_ne_nil (List.splitOnP_ne_nil _ _) _, ?_⟩
    rw [target_of_safe hsafe, hname, hparts, ← List.append_assoc,
      List.dropLast_append_of_ne_nil (List.splitOnP_ne_nil _ _), List.append_assoc]
  have hmade := hparents _ (by
    obtain ⟨rest, hrest, heq⟩ := hparent
    rw [heq]
    exact List.append_ne_nil_of_right_ne_nil _ hrest) (List.prefix_refl _)
  rw [(hrun _ hparent).2] at hmade
  cases hmade

/-- The first file is left when the second one is not written. -/
theorem single_of_meets {rest : List Entry} (hread : Zip.read crc32 bytes = .ok (entry :: rest))
    (hsafe : is_safe_entry_name entry.1 = true)
    (h : ∀ env disk, Meets env p dir crc32 source bytes disk) : rest = [] := by
  by_contra hrest
  obtain ⟨next, others, rfl⟩ := List.exists_cons_of_ne_nil hrest
  obtain ⟨disk, htarget, -, hleft⟩ := left_of_write hread hsafe
    (h (Env.smooth (fun i => i = 0) fun _ => none) blank)
  have hstops : (Env.smooth (fun i => i = 0) fun _ => none).creates 1 = false := rfl
  obtain ⟨e, disk', hnext, hfiles⟩ := import_entry_fails p dir next hstops
    (disk.set (.file (target p dir entry.1)) entry.2)
  have hrun := hleft e disk' (by
    rw [run_bind, run_map_err, run_write, htarget]
    change (import_entry _ p dir 1 next >>= fun _ => _ : FsM Obj _ _).run
      (disk.set (.file (target p dir entry.1)) entry.2) = _
    rw [run_bind, hnext])
  have hfile := (hrun _ (inside_target (p := p) hsafe dir)).1
  rw [hfiles, Fs.set_self] at hfile
  cases hfile

end Failure

/-! ## The import as a whole -/

/-- **All or nothing**: an import writes below the data directory only; that it leaves everything as
it was whenever it fails is so exactly for the archives that are refused before the first entry is
written, and for those of one empty file. -/
theorem import_meets_iff (p : Platform) (dir : Path) (crc32 : Bytes → UInt32) (source : String)
    (bytes : Bytes) :
    (∀ env disk, Meets env p dir crc32 source bytes disk) ↔ Harmless p crc32 bytes := by
  constructor
  · intro h entry rest hread hsafe
    exact ⟨single_of_meets hread hsafe h, empty_of_meets hread hsafe h,
      plain_of_meets hread hsafe h⟩
  · intro h env disk
    exact ⟨fun path hpath => import_untouched hpath disk, fun error herror path hpath =>
      ⟨keptOnError_import (q := .file path) h hpath disk error herror,
        keptOnError_import (q := .directory path) h hpath disk error herror⟩⟩

/-- The first file stays when the name of the second one is refused; no operation fails here. -/
theorem second_name_refused :
    ¬ (∀ (env : Env) (p : Platform) (dir : Path) (source : String) (bytes : Bytes) (disk : Fs Obj),
      Meets env p dir Zip.ieee source bytes disk) ∧
    ((import_backup (Env.smooth (fun _ => true) fun _ => none) .unix [['d']] Zip.ieee "b.zip"
        (Zip.archive Zip.ieee [(['a'], [1]), (['.', '.', '/', 'x'], [2])])).run blank).1 =
      .error (.invalid "../x: refusing to write outside the data directory") := by
  have hrun :
      let run := (import_backup (Env.smooth (fun _ => true) fun _ => none) .unix [['d']] Zip.ieee
        "b.zip" (Zip.archive Zip.ieee [(['a'], [1]), (['.', '.', '/', 'x'], [2])])).run blank
      run.1 = .error (.invalid "../x: refusing to write outside the data directory") ∧
        run.2 (.file [['d'], ['a']]) = some [1] := by
    decide +kernel
  refine ⟨fun h => ?_, hrun.1⟩
  have hleft := ((h _ _ _ _ _ _).unchanged _ hrun.1 [['d'], ['a']]
    ⟨[['a']], List.cons_ne_nil _ _, rfl⟩).1
  rw [hrun.2] at hleft
  cases hleft

end WaSSH.Store.Backup
