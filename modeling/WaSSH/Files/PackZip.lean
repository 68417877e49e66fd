import WaSSH.Lib.FileMap
import WaSSH.Store.Zip

/-!
# Packing a staging copy

`pack_zip` walks a directory with a stack, reads every file it comes by and writes one archive.
What it cannot read it passes over.

* `Node`, `Node.files`: a tree, with every file that is in it;
* `scan`, `read_zip_entry`, `add_entries`, `write_blocks`, `pack_zip`: the source;
* `Gives`: a program that changes no file and gives a value, unless it is stopped;
* `scan_gives`, `add_entries_gives`: the walk finds what can be reached, the loop packs what can
  be read;
* **`pack_zip_meets_iff`**: which trees are packed as they are, or refused.
-/

namespace WaSSH.Files.PackZip

open FileMap Utf8
open Store.Zip (ZipWriter)

/-! ## The tree -/

/-- What one call of `read` gives when it is not at the end. -/
abbrev Block := { bytes : Bytes // bytes ≠ [] }

/-- A regular file: whether it opens, what reading it gives, and the call of `read` that fails. -/
structure File where
  opens : Bool
  blocks : List Block
  fails_at : Option ℕ

/-- The file can be opened and read to its end. -/
def File.Readable (f : File) : Prop := f.opens = true ∧ ∀ k ∈ f.fails_at, f.blocks.length < k

def File.contents (f : File) : Bytes := f.blocks.flatMap Subtype.val

/-- An entry of a directory: its name, and whether the listing and the metadata come through. -/
structure Listing where
  name : Bytes
  listed : Bool
  metadata : Bool

/-- A tree of directories and regular files. -/
inductive Node
  | file (file : File)
  | dir (readable : Bool) (children : List (Listing × Node))

/-- The path below the directory that is packed. -/
abbrev Path := List Bytes

/-- A directory of the walk. -/
structure Dir where
  path : Path
  readable : Bool
  children : List (Listing × Node)

/-- A file, and whether everything above it can be listed. -/
structure Item where
  path : Path
  file : File
  reached : Bool

/-- `path.strip_prefix(dir)`. -/
def relative (path : Path) : Bytes := [0x2F].intercalate path

mutual

/-- Every file of a tree. -/
def Node.files (path : Path) (reached : Bool) : Node → List Item
  | .file file => [⟨path, file, reached⟩]
  | .dir readable children => children_files path (reached && readable) children

def children_files (path : Path) (reached : Bool) : List (Listing × Node) → List Item
  | [] => []
  | (entry, node) :: children =>
    node.files (path ++ [entry.name]) (reached && entry.listed && entry.metadata) ++
      children_files path reached children

end

mutual

/-- The directories of a tree. -/
def Node.dirs : Node → ℕ
  | .file _ => 0
  | .dir _ children => children_dirs children + 1

def children_dirs : List (Listing × Node) → ℕ
  | [] => 0
  | (_, node) :: children => node.dirs + children_dirs children

end

namespace Dir

variable (dir : Dir)

def files (reached : Bool) : List Item := children_files dir.path (reached && dir.readable) dir.children

/-- `read.flatten()`. -/
def listed : List (Listing × Node) := dir.children.filter fun child => child.1.listed

/-- The files of the listing whose metadata is there. -/
def found : List (Path × File) :=
  dir.listed.filterMap fun child =>
    match child.1.metadata, child.2 with
    | true, .file file => some (dir.path ++ [child.1.name], file)
    | _, _ => none

/-- The directories of the listing whose metadata is there, the last one on top. -/
def pushed : List Dir :=
  (dir.listed.filterMap fun child =>
    match child.1.metadata, child.2 with
    | true, .dir readable children => some ⟨dir.path ++ [child.1.name], readable, children⟩
    | _, _ => none).reverse

end Dir

/-- The directories on the stack and below. -/
def walk_dirs (walk : List Dir) : ℕ := (walk.map fun dir => children_dirs dir.children + 1).sum

theorem walk_dirs_append (walk walk' : List Dir) :
    walk_dirs (walk ++ walk') = walk_dirs walk + walk_dirs walk' := by
  unfold walk_dirs
  rw [List.map_append, List.sum_append]

theorem walk_dirs_cons (dir : Dir) (walk : List Dir) :
    walk_dirs (dir :: walk) = children_dirs dir.children + 1 + walk_dirs walk := List.sum_cons

theorem walk_dirs_pushed (dir : Dir) : walk_dirs dir.pushed ≤ children_dirs dir.children := by
  obtain ⟨path, readable, children⟩ := dir
  unfold Dir.pushed Dir.listed walk_dirs
  rw [List.map_reverse, List.sum_reverse]
  dsimp only
  induction children with
  | nil => exact le_rfl
  | cons child children ih =>
    obtain ⟨⟨name, listed, metadata⟩, node⟩ := child
    rw [children_dirs]
    cases listed with
    | false => exact ih.trans (Nat.le_add_left _ _)
    | true =>
      rw [List.filter_cons_of_pos rfl, List.filterMap_cons]
      cases metadata with
      | false => exact ih.trans (Nat.le_add_left _ _)
      | true =>
        cases node with
        | file file => exact ih.trans (Nat.le_add_left _ _)
        | dir readable below =>
          dsimp only
          rw [List.map_cons, List.sum_cons, Node.dirs]
          exact Nat.add_le_add_left ih _

/-! ## The program -/

def SFTP_STOPPED : String := "File transfer stopped by the user."

def ZIP_WRITE_BLOCK : ℕ := 64 * 1024

/-- Where the stop signal is read. -/
inductive Place
  | directory (path : Path)
  | entry (path : Path) (name : Bytes)
  | opening (path : Path)
  | reading (path : Path) (call : ℕ)
  | read (path : Path)
  | added (path : Path)
  | packed
  | block (k : ℕ)
  | written
  | synced

/-- What the run meets: the answers of the stop signal, what else succeeds, and the texts of
failures. -/
structure Env where
  stops : Place → Bool
  reserves : Bool
  creates : Bool
  writes : ℕ → Option ℕ
  syncs : Bool
  removes : Bool
  reserve_error : String
  display : String
  describe : IoError → String

section Program

variable {P : Type} [DecidableEq P] (env : Env) (archive : P)

def check (place : Place) : FsM P String Unit :=
  if env.stops place then throw SFTP_STOPPED else pure ()

/-- The walk. The signal is read before each entry of a listing; the entries themselves change
nothing it depends on. -/
def scan (walk : List Dir) (entries : List (Path × File)) : FsM P String (List (Path × File)) :=
  match walk with
  | [] => pure entries
  | dir :: walk => do
    check env (.directory dir.path)
    if dir.readable then
      dir.listed.forM fun child => check env (.entry dir.path child.1.name)
      scan (dir.pushed ++ walk) (entries ++ dir.found)
    else scan walk entries
  termination_by walk_dirs walk
  decreasing_by
  · rw [walk_dirs_append, walk_dirs_cons]
    have := walk_dirs_pushed dir
    omega
  · rw [walk_dirs_cons]
    omega

/-- The loop of `read_zip_entry`, from one call of `read` on. -/
def read_blocks (path : Path) (fails_at : Option ℕ) (call : ℕ) :
    List Block → Bytes → FsM P String (Option Bytes)
  | blocks, data => do
    check env (.reading path call)
    if fails_at = some call then pure none
    else
      match blocks with
      | [] => pure (some data)
      | block :: blocks => read_blocks path fails_at (call + 1) blocks (data ++ block.val)

def read_zip_entry (path : Path) (file : File) : FsM P String (Option Bytes) :=
  if file.opens then read_blocks env path file.fails_at 0 file.blocks [] else pure none

/-- The name of an entry, `/` on every platform. -/
def entry_name (path : Path) : List Char :=
  (from_utf8_lossy (relative path)).map fun c => if c = '\\' then '/' else c

variable (crc32 : Bytes → UInt32)

/-- The loop over the files that were found. -/
def add_entries : List (Path × File) → ZipWriter → ℕ → FsM P String (ZipWriter × ℕ)
  | [], writer, files => pure (writer, files)
  | (path, file) :: entries, writer, files => do
    check env (.opening path)
    match ← read_zip_entry env path file with
    | none => add_entries entries writer files
    | some data => do
      check env (.read path)
      let writer := writer.add crc32 (entry_name path) data
      check env (.added path)
      add_entries entries writer (files + 1)

/-- `bytes.chunks(ZIP_WRITE_BLOCK)`. -/
def chunks (bytes : Bytes) : List Bytes :=
  if bytes = [] then [] else bytes.take ZIP_WRITE_BLOCK :: chunks (bytes.drop ZIP_WRITE_BLOCK)
  termination_by bytes.length
  decreasing_by
  · rename_i h
    have := List.length_pos_iff.mpr h
    rw [List.length_drop, ZIP_WRITE_BLOCK]
    omega

/-- The signal is read while the archive is written: it is removed again. -/
def check_written (place : Place) : FsM P String Unit :=
  if env.stops place then do
    let _ ← attempt (remove_file env.removes archive)
    throw SFTP_STOPPED
  else pure ()

def failure (error : IoError) : String := s!"Could not write {env.display}: {env.describe error}"

def write_blocks (k : ℕ) : List Bytes → FsM P String Unit
  | [] => pure ()
  | block :: blocks => do
    check_written env archive (.block k)
    map_err (failure env) (write_all (env.writes k) archive block)
    write_blocks (k + 1) blocks

/-- Pack a directory into `archive`. -/
def pack_zip (dir : Dir) : FsM P String String := do
  let entries ← scan env [dir] []
  if env.reserves = false then throw s!"reserving ZIP output: {env.reserve_error}"
  let (writer, files) ← add_entries env crc32 entries {} 0
  let bytes := writer.finish
  check env .packed
  map_err (failure env) (create env.creates archive)
  write_blocks env archive 0 (chunks bytes)
  check_written env archive .written
  map_err (failure env) (pass env.syncs)
  check_written env archive .synced
  let plural := if files = 1 then "" else "s"
  pure s!"Saved {env.display} ({files} file{plural})"

end Program

/-! ## What the walk finds -/

/-- A file as the walk records it. -/
def Item.entry (item : Item) : Path × File := (item.path, item.file)

/-- The files below a directory that the walk can get to. -/
def Dir.reached (dir : Dir) : List (Path × File) :=
  ((dir.files true).filter fun item => item.reached).map Item.entry

mutual

theorem Node.files_unreached (path : Path) :
    ∀ node : Node, (node.files path false).filter (fun item => item.reached) = []
  | .file _ => rfl
  | .dir _ children => children_files_unreached path children

theorem children_files_unreached (path : Path) : ∀ children : List (Listing × Node),
    (children_files path false children).filter (fun item => item.reached) = []
  | [] => rfl
  | (entry, node) :: children => by
    rw [children_files, List.filter_append, children_files_unreached path children,
      List.append_nil]
    exact Node.files_unreached (path ++ [entry.name]) node

end

theorem Dir.reached_eq_nil {dir : Dir} (h : dir.readable = false) : dir.reached = [] := by
  unfold Dir.reached Dir.files
  rw [h, Bool.and_false, children_files_unreached]
  rfl

/-- The files of a listing, and what is below its directories. -/
theorem reached_perm {dir : Dir} (h : dir.readable = true) :
    dir.reached.Perm (dir.found ++ dir.pushed.flatMap Dir.reached) := by
  obtain ⟨path, readable, children⟩ := dir
  obtain rfl : readable = true := h
  unfold Dir.pushed
  refine .trans ?_ (((List.reverse_perm _).symm.flatMap_right _).append_left _)
  unfold Dir.found Dir.reached Dir.files Dir.listed
  dsimp only [Bool.and_self]
  induction children with
  | nil => exact .nil
  | cons child children ih =>
    obtain ⟨⟨name, listed, metadata⟩, node⟩ := child
    rw [children_files, List.filter_append, List.map_append]
    cases listed with
    | false =>
      rw [Bool.and_false, Bool.false_and, Node.files_unreached]
      exact ih
    | true =>
      rw [List.filter_cons_of_pos rfl, List.filterMap_cons, List.filterMap_cons]
      cases metadata with
      | false =>
        rw [Bool.and_false, Node.files_unreached]
        exact ih
      | true =>
        cases node with
        | file file => exact ih.cons _
        | dir readable below =>
          dsimp only
          rw [List.flatMap_cons, Node.files]
          refine (ih.append_left _).trans ?_
          rw [← List.append_assoc, ← List.append_assoc]
          exact List.perm_append_comm.append_right _

/-! ## Programs that change no file -/

variable {P α β : Type} {env : Env}

/-- The signal is raised at some place. -/
def Env.Stopped (env : Env) : Prop := ∃ place, env.stops place = true

/-- The program changes no file and gives `a`, or fails in a run that is stopped. -/
def Gives (env : Env) (x : FsM P String α) (a : α) : Prop :=
  ∀ fs, x.run fs = (.ok a, fs) ∨ env.Stopped ∧ ∃ error, x.run fs = (.error error, fs)

theorem gives_pure (a : α) : Gives env (pure a : FsM P String α) a := fun _ => .inl rfl

theorem gives_bind {x : FsM P String α} {f : α → FsM P String β} {a : α} {b : β}
    (hx : Gives env x a) (hf : Gives env (f a) b) : Gives env (x >>= f) b := by
  intro fs
  rw [run_bind]
  obtain hrun | ⟨hstopped, error, hrun⟩ := hx fs
  · rw [hrun]
    exact hf fs
  · rw [hrun]
    exact .inr ⟨hstopped, error, rfl⟩

theorem gives_check (place : Place) : Gives env (check env place : FsM P String Unit) () := by
  intro fs
  unfold check
  cases hstop : env.stops place with
  | false => exact .inl rfl
  | true => exact .inr ⟨⟨place, hstop⟩, SFTP_STOPPED, rfl⟩

theorem gives_forM {ι : Type} (place : ι → Place) :
    ∀ xs : List ι, Gives env (xs.forM fun x => check env (place x) : FsM P String PUnit) ⟨⟩
  | [] => gives_pure _
  | x :: xs => gives_bind (gives_check (place x)) (gives_forM place xs)

/-- **The walk** finds what can be reached. -/
theorem scan_gives (walk : List Dir) (entries : List (Path × File)) :
    ∃ found, Gives env (scan env walk entries : FsM P String _) found ∧
      found.Perm (entries ++ walk.flatMap Dir.reached) := by
  induction walk, entries using scan.induct with
  | case1 entries =>
    rw [scan]
    exact ⟨entries, gives_pure entries, by simp⟩
  | case2 entries dir walk ih_listed ih_skipped =>
    cases h : dir.readable with
    | true =>
      obtain ⟨found, hgives, hperm⟩ := ih_listed
      refine ⟨found, ?_, hperm.trans ?_⟩
      · rw [scan]
        refine gives_bind (gives_check _) ?_
        rw [if_pos h]
        exact gives_bind (gives_forM _ _) hgives
      · rw [List.flatMap_append, List.flatMap_cons, List.append_assoc,
          ← List.append_assoc dir.found]
        exact ((reached_perm h).symm.append_right _).append_left _
    | false =>
      obtain ⟨found, hgives, hperm⟩ := ih_skipped
      refine ⟨found, ?_, ?_⟩
      · rw [scan]
        refine gives_bind (gives_check _) ?_
        rw [h, if_neg Bool.false_ne_true]
        exact hgives
      · rw [List.flatMap_cons, Dir.reached_eq_nil h]
        exact hperm

/-! ## What the loop packs -/

instance (f : File) : Decidable f.Readable :=
  inferInstanceAs (Decidable (_ ∧ ∀ k ∈ f.fails_at, f.blocks.length < k))

theorem read_blocks_gives (path : Path) (fails_at : Option ℕ) (call : ℕ) (blocks : List Block)
    (data : Bytes) :
    Gives env (read_blocks env path fails_at call blocks data : FsM P String _)
      (if ∀ k ∈ fails_at, k < call ∨ call + blocks.length < k then
        some (data ++ blocks.flatMap Subtype.val) else none) := by
  induction blocks generalizing call data with
  | nil =>
    rw [read_blocks]
    refine gives_bind (gives_check _) ?_
    by_cases hfails : fails_at = some call
    · rw [if_pos hfails, if_neg fun h => by simpa using h call hfails]
      exact gives_pure _
    · have hcond : ∀ k ∈ fails_at, k < call ∨ call + ([] : List Block).length < k :=
        fun k hk => Nat.lt_or_gt_of_ne fun hsame => hfails (hsame ▸ hk)
      rw [if_neg hfails, if_pos hcond, List.flatMap_nil, List.append_nil]
      exact gives_pure _
  | cons block blocks ih =>
    rw [read_blocks]
    refine gives_bind (gives_check _) ?_
    by_cases hfails : fails_at = some call
    · rw [if_pos hfails, if_neg fun h => by simpa using h call hfails]
      exact gives_pure _
    · have hcond : (∀ k ∈ fails_at, k < call + 1 ∨ call + 1 + blocks.length < k) ↔
          ∀ k ∈ fails_at, k < call ∨ call + (block :: blocks).length < k := by
        refine forall₂_congr fun k hk => ?_
        have hne : k ≠ call := fun hsame => hfails (hsame ▸ hk)
        rw [List.length_cons]
        omega
      have hnext := ih (call + 1) (data ++ block.val)
      rw [if_congr hcond rfl rfl, List.append_assoc] at hnext
      rw [if_neg hfails]
      exact hnext

/-- What the loop gets of a file. -/
def File.data (f : File) : Option Bytes := if f.Readable then some f.contents else none

theorem read_zip_entry_gives (path : Path) (file : File) :
    Gives env (read_zip_entry env path file : FsM P String _) file.data := by
  unfold read_zip_entry File.data
  by_cases hopens : file.opens = true
  · have hread : Gives env (read_blocks env path file.fails_at 0 file.blocks [] : FsM P String _) _ :=
      read_blocks_gives path file.fails_at 0 file.blocks []
    have hcond : (∀ k ∈ file.fails_at, k < 0 ∨ 0 + file.blocks.length < k) ↔ file.Readable := by
      simp [File.Readable, hopens]
    rw [if_congr hcond rfl rfl] at hread
    rw [if_pos hopens]
    exact hread
  · rw [if_neg hopens, if_neg fun h => hopens h.1]
    exact gives_pure none

variable {crc32 : Bytes → UInt32}

/-- The entries of the archive. -/
def packed (entries : List (Path × File)) : List Store.Zip.Entry :=
  entries.filterMap fun entry => entry.2.data.map fun data => (entry_name entry.1, data)

theorem add_entries_gives (entries : List (Path × File)) (writer : ZipWriter) (files : ℕ) :
    Gives env (add_entries env crc32 entries writer files : FsM P String _)
      (writer.add_all crc32 (packed entries), files + (packed entries).length) := by
  induction entries generalizing writer files with
  | nil => exact gives_pure _
  | cons entry entries ih =>
    obtain ⟨path, file⟩ := entry
    rw [add_entries]
    refine gives_bind (gives_check _) (gives_bind (read_zip_entry_gives path file) ?_)
    unfold packed
    rw [List.filterMap_cons]
    cases file.data with
    | none => exact ih writer files
    | some data =>
      refine gives_bind (gives_check _) (gives_bind (gives_check _) ?_)
      have hnext := ih (writer.add crc32 (entry_name path) data) (files + 1)
      rw [Nat.add_right_comm] at hnext
      exact hnext

/-! ## Writing the archive -/

theorem flatten_chunks (bytes : Bytes) : (chunks bytes).flatten = bytes := by
  induction bytes using chunks.induct with
  | case1 => rw [chunks, if_pos rfl]; rfl
  | case2 bytes h ih => rw [chunks, if_neg h, List.flatten_cons, ih, List.take_append_drop]

/-- Nothing goes wrong in the run. -/
structure Env.Calm (env : Env) : Prop where
  unstopped : ¬ env.Stopped
  reserves : env.reserves = true
  creates : env.creates = true
  writes (k : ℕ) : env.writes k = none
  syncs : env.syncs = true

/-- The program ends with `ok`, or fails in a run in which something went wrong. -/
def Ends (env : Env) (ok : Fs P → Prop) : Except String α → Fs P → Prop
  | .ok _, fs => ok fs
  | .error _, _ => ¬ env.Calm

theorem wp_of_gives {x : FsM P String α} {a : α} (hx : Gives env x a) {f : α → FsM P String β}
    {ok : Fs P → Prop} {fs : Fs P} (hf : wp (f a) (Ends env ok) fs) :
    wp (x >>= f) (Ends env ok) fs := by
  rw [wp_bind, wp]
  obtain hrun | ⟨hstopped, error, hrun⟩ := hx fs
  · rw [hrun]
    exact hf
  · rw [hrun]
    exact fun hcalm => hcalm.unstopped hstopped

/-- A step of the file system, whose failure is reported. -/
theorem wp_failure {x : FsM P IoError Unit} {ok : Fs P → Prop} {fs : Fs P}
    {f : Unit → FsM P String β}
    (hx : wp x (fun r fs' => match r with
      | .ok () => wp (f ()) (Ends env ok) fs'
      | .error _ => ¬ env.Calm) fs) :
    wp (map_err (failure env) x >>= f) (Ends env ok) fs := by
  rw [wp_bind, wp_map_err]
  refine wp_mono hx fun r fs' h => ?_
  cases r with
  | ok _ => exact h
  | error _ => exact h

section Archive

variable [DecidableEq P] {archive : P} {fs : Fs P} {ok : Fs P → Prop}

theorem wp_check_written {place : Place} {f : Unit → FsM P String β}
    (hf : wp (f ()) (Ends env ok) fs) :
    wp (check_written env archive place >>= f) (Ends env ok) fs := by
  rw [wp_bind, wp]
  unfold check_written
  cases hstop : env.stops place with
  | false => exact hf
  | true =>
    rw [if_pos rfl, run_bind, run_attempt]
    exact fun hcalm => hcalm.unstopped ⟨place, hstop⟩

theorem write_blocks_ends {written : Bytes} (blocks : List Bytes) (k : ℕ)
    (hfs : fs archive = some written) {f : Unit → FsM P String β}
    (hf : ∀ fs', fs' archive = some (written ++ blocks.flatten) → wp (f ()) (Ends env ok) fs') :
    wp (write_blocks env archive k blocks >>= f) (Ends env ok) fs := by
  induction blocks generalizing fs written k with
  | nil =>
    rw [List.flatten_nil, List.append_nil] at hf
    exact hf fs hfs
  | cons block blocks ih =>
    rw [write_blocks, bind_assoc]
    refine wp_check_written ?_
    rw [bind_assoc]
    refine wp_failure ?_
    rw [wp_write_all, hfs, Option.getD_some]
    cases hwrites : env.writes k with
    | some n =>
      exact fun hcalm => Option.some_ne_none n (hwrites.symm.trans (hcalm.writes k))
    | none =>
      refine ih (k + 1) (fs.set_self _) fun fs' hfs' => hf fs' ?_
      rw [hfs', List.flatten_cons, List.append_assoc]

/-- **The whole run**: it ends with the files that can be reached and read in the archive, or
something went wrong. -/
theorem pack_zip_ends (env : Env) (archive : P) (crc32 : Bytes → UInt32) (dir : Dir) (fs : Fs P) :
    ∃ found, found.Perm dir.reached ∧
      wp (pack_zip env archive crc32 dir) (Ends env fun fs' =>
        fs' archive = some (Store.Zip.archive crc32 (packed found))) fs := by
  obtain ⟨found, hgives, hperm⟩ :
      ∃ found, Gives env (scan env [dir] [] : FsM P String _) found ∧ _ := scan_gives [dir] []
  rw [List.flatMap_singleton, List.nil_append] at hperm
  refine ⟨found, hperm, ?_⟩
  unfold pack_zip
  refine wp_of_gives hgives ?_
  cases hreserves : env.reserves with
  | false =>
    exact fun hcalm => Bool.false_ne_true (hreserves.symm.trans hcalm.reserves)
  | true =>
    rw [if_neg nofun]
    refine wp_of_gives (add_entries_gives found {} 0) (wp_of_gives (gives_check _) ?_)
    refine wp_failure (wp_create.mpr ?_)
    cases hcreates : env.creates with
    | false =>
      exact fun hcalm => Bool.false_ne_true (hcreates.symm.trans hcalm.creates)
    | true =>
      refine write_blocks_ends _ 0 (fs.set_self _) fun fs' hfs' => wp_check_written ?_
      refine wp_failure (wp_pass.mpr ?_)
      cases hsyncs : env.syncs with
      | false =>
        exact fun hcalm => Bool.false_ne_true (hsyncs.symm.trans hcalm.syncs)
      | true =>
        refine wp_check_written ?_
        rw [flatten_chunks, List.nil_append] at hfs'
        exact hfs'

end Archive

/-! ## Trees that are packed as they are -/

/-- The directory that is packed. -/
def root (readable : Bool) (children : List (Listing × Node)) : Dir := ⟨[], readable, children⟩

/-- The file is found and can be read. -/
def Item.CanRead (item : Item) : Prop := item.reached = true ∧ item.file.Readable

/-- The path is text without a `\`. -/
def Plain (path : Path) : Prop := ∃ text, relative path = encode text ∧ '\\' ∉ text

/-- What the fields of the format can hold. -/
structure Fits (files : List Item) : Prop where
  count : files.length ≤ 65535
  names : ∀ item ∈ files, (relative item.path).length ≤ 65535
  blocks : (files.map fun item =>
    Store.Zip.LOCAL_HEADER_SIZE + (relative item.path).length + item.file.contents.length).sum <
      2 ^ 32
  directory : (files.map fun item =>
    Store.Zip.CENTRAL_HEADER_SIZE + (relative item.path).length).sum < 2 ^ 32

/-- One entry for each file, under its path and with its bytes. -/
def Exact (files : List Item) (entries : List Store.Zip.Entry) : Prop :=
  (entries.map fun entry => (encode entry.1, entry.2)).Perm
    (files.map fun item => (relative item.path, item.file.contents))

/-- One run packs the tree as it is, or refuses it. -/
structure Meets [DecidableEq P] (env : Env) (crc32 : Bytes → UInt32) (archive : P) (dir : Dir)
    (fs : Fs P) : Prop where
  saved : ∀ text, ((pack_zip env archive crc32 dir).run fs).1 = .ok text →
    ∃ bytes entries, ((pack_zip env archive crc32 dir).run fs).2 archive = some bytes ∧
      Store.Zip.read crc32 bytes = .ok entries ∧ Exact (dir.files true) entries
  refused : (∃ item ∈ dir.files true, ¬ item.CanRead) ∨ ¬ Fits (dir.files true) →
    ∃ error, ((pack_zip env archive crc32 dir).run fs).1 = .error error

/-- Every file can be read, under a path that is text without a `\`, and the numbers fit. -/
structure Packable (files : List Item) : Prop where
  readable : ∀ item ∈ files, item.CanRead
  plain : ∀ item ∈ files, Plain item.path
  fits : Fits files

theorem entry_name_of_text {path : Path} {text : List Char} (h : relative path = encode text) :
    entry_name path = text.map fun c => if c = '\\' then '/' else c := by
  unfold entry_name
  rw [h, from_utf8_lossy_encode]

theorem not_mem_entry_name (path : Path) : '\\' ∉ entry_name path := by
  unfold entry_name
  rw [List.mem_map]
  rintro ⟨c, -, hc⟩
  by_cases h : c = '\\'
  · rw [if_pos h] at hc
    exact absurd hc (by decide)
  · rw [if_neg h] at hc
    exact h hc

theorem length_entry_name {path : Path} {text : List Char} (h : relative path = encode text) :
    (encode (entry_name path)).length = (relative path).length := by
  rw [entry_name_of_text h, h]
  clear h
  induction text with
  | nil => rfl
  | cons c text ih =>
    rw [List.map_cons, encode_cons, encode_cons, List.length_append, List.length_append, ih]
    by_cases hc : c = '\\'
    · rw [if_pos hc, hc]
      rfl
    · rw [if_neg hc]

theorem encode_entry_name {path : Path} (h : Plain path) :
    encode (entry_name path) = relative path := by
  obtain ⟨text, htext, hplain⟩ := h
  rw [entry_name_of_text htext, htext]
  congr 1
  refine (List.map_congr_left fun c hc => if_neg ?_).trans (List.map_id text)
  rintro rfl
  exact hplain hc

/-- What is packed of files that can all be read. -/
theorem packed_perm {dir : Dir} {found : List (Path × File)} (hfound : found.Perm dir.reached)
    (hread : ∀ item ∈ dir.files true, item.CanRead) :
    (packed found).Perm
      ((dir.files true).map fun item => (entry_name item.path, item.file.contents)) := by
  have hreached : dir.reached = (dir.files true).map Item.entry := by
    unfold Dir.reached
    rw [List.filter_eq_self.mpr fun item hitem => (hread item hitem).1]
  rw [hreached] at hfound
  refine (hfound.filterMap _).trans (.of_eq ?_)
  rw [List.filterMap_map, ← List.filterMap_eq_map]
  refine List.filterMap_congr fun item hitem => ?_
  have hdata : item.file.data = some item.file.contents := if_pos (hread item hitem).2
  rw [Function.comp_apply, Item.entry, hdata]
  rfl

/-- The archive of files that can all be read is read back, where the numbers fit. -/
theorem read_packed {dir : Dir} {found : List (Path × File)} (hfound : found.Perm dir.reached)
    (hread : ∀ item ∈ dir.files true, item.CanRead)
    (htext : ∀ item ∈ dir.files true, ∃ text, relative item.path = encode text)
    (hfits : Fits (dir.files true)) :
    Store.Zip.read crc32 (Store.Zip.archive crc32 (packed found)) = .ok (packed found) := by
  have hperm := packed_perm hfound hread
  refine Store.Zip.read_archive_of_fits ?_ ?_ ?_
  · rw [hperm.length_eq, List.length_map]
    exact Nat.lt_succ_of_le hfits.count
  · intro entry hentry
    obtain ⟨item, hitem, rfl⟩ := List.mem_map.mp (hperm.mem_iff.mp hentry)
    obtain ⟨text, htext⟩ := htext item hitem
    rw [length_entry_name htext]
    exact Nat.lt_succ_of_le (hfits.names item hitem)
  · rw [(hperm.map _).sum_eq, List.map_map]
    refine lt_of_eq_of_lt (congrArg List.sum (List.map_congr_left fun item hitem => ?_)) hfits.blocks
    obtain ⟨text, htext⟩ := htext item hitem
    rw [Function.comp_apply, Store.Zip.block_length, length_entry_name htext]

/-- A run in which nothing goes wrong. -/
def calm : Env where
  stops _ := false
  reserves := true
  creates := true
  writes _ := none
  syncs := true
  removes := true
  reserve_error := ""
  display := "/home/me/site.zip"
  describe _ := ""

theorem calm_calm : calm.Calm :=
  ⟨fun ⟨_, h⟩ => Bool.false_ne_true h, rfl, rfl, fun _ => rfl, rfl⟩

section Theorem

variable [DecidableEq P] {archive : P}

theorem meets_of_packable {dir : Dir} (h : Packable (dir.files true)) (env : Env) (fs : Fs P) :
    Meets env crc32 archive dir fs := by
  obtain ⟨found, hfound, hends⟩ := pack_zip_ends env archive crc32 dir fs
  refine ⟨fun text hok => ?_, fun hbad => absurd hbad ?_⟩
  · rw [wp, hok] at hends
    have htext (item : Item) (hitem : item ∈ dir.files true) :
        ∃ text, relative item.path = encode text :=
      (h.plain item hitem).imp fun text ht => ht.1
    refine ⟨_, _, hends, read_packed hfound h.readable htext h.fits, ?_⟩
    refine ((packed_perm hfound h.readable).map _).trans (.of_eq ?_)
    rw [List.map_map]
    refine List.map_congr_left fun item hitem => ?_
    rw [Function.comp_apply, encode_entry_name (h.plain item hitem)]
  · rintro (⟨item, hitem, hunread⟩ | hunfit)
    · exact hunread (h.readable item hitem)
    · exact hunfit h.fits

theorem packable_of_meets {dir : Dir} {fs : Fs P} (h : Meets calm crc32 archive dir fs) :
    Packable (dir.files true) := by
  obtain ⟨found, hfound, hends⟩ := pack_zip_ends calm archive crc32 dir fs
  cases hrun : ((pack_zip calm archive crc32 dir).run fs).1 with
  | error error =>
    rw [wp, hrun] at hends
    exact absurd calm_calm hends
  | ok text =>
    rw [wp, hrun] at hends
    have hgood : ¬ ((∃ item ∈ dir.files true, ¬ item.CanRead) ∨ ¬ Fits (dir.files true)) := by
      intro hbad
      obtain ⟨error, herror⟩ := h.refused hbad
      rw [hrun] at herror
      cases herror
    obtain ⟨hread, hfits⟩ := not_or.mp hgood
    push Not at hread hfits
    obtain ⟨bytes, entries, hbytes, hentries, hexact⟩ := h.saved text hrun
    obtain rfl : Store.Zip.archive crc32 (packed found) = bytes :=
      Option.some.inj (hends.symm.trans hbytes)
    -- what is read back has names that are text
    have hfrom (item : Item) (hitem : item ∈ dir.files true) :
        ∃ entry ∈ entries, encode entry.1 = relative item.path := by
      obtain ⟨entry, hentry, heq⟩ := List.mem_map.mp
        (hexact.mem_iff.mpr (List.mem_map_of_mem hitem))
      exact ⟨entry, hentry, congrArg Prod.fst heq⟩
    have htext (item : Item) (hitem : item ∈ dir.files true) :
        ∃ text, relative item.path = encode text := by
      obtain ⟨entry, -, hname⟩ := hfrom item hitem
      exact ⟨entry.1, hname.symm⟩
    -- and they are the names that were packed, where no `\` is left
    have hpacked : Store.Zip.read crc32 _ = .ok _ := read_packed hfound hread htext hfits
    obtain rfl := Except.ok.inj (hpacked.symm.trans hentries)
    refine ⟨hread, fun item hitem => ?_, hfits⟩
    obtain ⟨entry, hentry, hname⟩ := hfrom item hitem
    obtain ⟨other, -, rfl⟩ := List.mem_map.mp ((packed_perm hfound hread).mem_iff.mp hentry)
    exact ⟨entry_name other.path, hname.symm, not_mem_entry_name other.path⟩

/-- **A tree is packed as it is, or refused, in every run** exactly if every file can be read, under a
path that is text without a `\`, and the numbers fit the fields of the format. -/
theorem pack_zip_meets_iff (crc32 : Bytes → UInt32) (archive : P) (readable : Bool)
    (children : List (Listing × Node)) :
    (∀ env fs, Meets env crc32 archive (root readable children) fs) ↔
      Packable ((root readable children).files true) :=
  ⟨fun h => packable_of_meets (h calm fun _ => none), fun h env fs => meets_of_packable h env fs⟩

end Theorem

/-- One file that opens and one that does not: the archive is saved with one file. -/
theorem unreadable_file_left_out :
    let page : File := ⟨true, [⟨[0x68, 0x69], by decide⟩], none⟩
    let secret : File := ⟨false, [⟨[0x6b], by decide⟩], none⟩
    let dir := root true [(⟨encode "a.html".toList, true, true⟩, .file page),
      (⟨encode "key".toList, true, true⟩, .file secret)]
    let out := (pack_zip calm () Store.Zip.ieee dir).run fun _ => none
    out.1 = .ok "Saved /home/me/site.zip (1 file)" ∧
      ((out.2 ()).map (Store.Zip.read Store.Zip.ieee)) =
        some (.ok [("a.html".toList, [0x68, 0x69])]) ∧
      ¬ Meets calm Store.Zip.ieee () dir fun _ => none := by
  intro page secret dir out
  have hok : out.1 = .ok "Saved /home/me/site.zip (1 file)" := by decide +kernel
  have hread : ((out.2 ()).map (Store.Zip.read Store.Zip.ieee)) =
      some (.ok [("a.html".toList, [0x68, 0x69])]) := by decide +kernel
  refine ⟨hok, hread, fun h => ?_⟩
  obtain ⟨-, hreadable⟩ := (packable_of_meets h).readable _ (.tail _ (.head _))
  exact Bool.false_ne_true hreadable.1

end WaSSH.Files.PackZip
