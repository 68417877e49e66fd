import WaSSH.Agent.LocalFiles
import WaSSH.Agent.Rag
import WaSSH.Lib.Lowercase
import WaSSH.Lib.Search

/-!
# What the knowledge base holds

The documents below a few folders are cut into chunks that overlap.

* `files_under`, `chunk_text`, `build`: the source;
* `Listed`: the documents below a folder; **`files_are_listed`**: they are what is read, once;
* `piece`, `mem_chunk_text`: the chunks of a text; **`passage_in_chunk`**: a passage that is no
  longer than the overlap is whole in one of them;
* `documents`, **`build_chunks`**: the chunks of all documents, as many as fit;
* **`passages_are_held`**: no passage of a document is lost where chunks begin and end.
-/

namespace WaSSH.Agent.Rag

open FileTree UnixPath Utf8 Lowercase LocalFiles

/-! ## Files -/

def MAX_FILE_BYTES : ℕ := 512000

/-- Extensions that are never documents. -/
def SKIP_EXTENSIONS : List String :=
  ["png", "jpg", "jpeg", "gif", "webp", "bmp", "ico", "svg", "pdf", "zip", "gz", "xz", "bz2",
    "7z", "tar", "exe", "dll", "so", "dylib", "bin", "o", "a", "class", "jar", "mp3", "mp4",
    "mkv", "avi", "mov", "woff", "woff2", "ttf", "otf", "db", "sqlite", "lock"]

/-- `Path::extension`, of a name: what is behind the last dot, unless that is its first byte. -/
def extension (name : Bytes) : Option Bytes :=
  let front := name.rdropWhile (· ≠ 0x2e)
  if name = DOTDOT ∨ front.length ≤ 1 then none else some (name.drop front.length)

/-- Which calls of the system go through. -/
structure Access where
  read_dir : Place Bytes → Bool
  metadata : Place Bytes → Bool
  read : Place Bytes → Bool

/-- The system that a knowledge base is read on. -/
structure System where
  tables : CaseTables
  vars : Vars
  cwd : Place Bytes
  disk : Disk
  access : Access

section Walk

variable (sys : System)

/-- A file should be read into the index. -/
def is_indexable (place : Place Bytes) (name : Bytes) : Bool :=
  if Text.starts_with (to_lowercase sys.tables (from_utf8_lossy name)) ['.'] then false
  else if (SKIP_EXTENSIONS.map String.toList).contains
      (to_lowercase sys.tables (from_utf8_lossy ((extension name).getD []))) then false
  else match sys.disk.kind place with
    | some (.leaf contents) =>
      sys.access.metadata place && contents.length ≤ MAX_FILE_BYTES && 0 < contents.length
    | _ => false

/-- What the walk leaves out. -/
def skipped (name : Bytes) : Bool :=
  let name := from_utf8_lossy name
  Text.starts_with name ['.'] || name = "node_modules".toList || name = "target".toList

/-- A directory on the stack: the names below the folder, and how many. -/
structure Dir where
  below : Place Bytes
  depth : ℕ

/-- The names in a directory, in order. -/
def entries (root : Place Bytes) (dir : Dir) : List Bytes :=
  if 6 < dir.depth then []
  else if !sys.access.read_dir (root ++ dir.below) then []
  else
    ((sys.disk.list (root ++ dir.below)).mergeSort fun a b => decide (a ≤ b)).filter fun name =>
      !skipped name

def is_dir (place : Place Bytes) : Bool := sys.disk.kind place = some .dir

/-- The walk: files are kept, and directories put on the stack. -/
def walk_dirs (root : Place Bytes) : Search Dir (Place Bytes) where
  out dir := ((entries sys root dir).filter fun name =>
    !is_dir sys (root ++ (dir.below ++ [name])) &&
      is_indexable sys (root ++ (dir.below ++ [name])) name).map (dir.below ++ [·])
  next dir := ((entries sys root dir).filter fun name =>
    is_dir sys (root ++ (dir.below ++ [name]))).map fun name =>
      ⟨dir.below ++ [name], dir.depth + 1⟩
  height dir := 7 - dir.depth
  lower {x y} h := by
    obtain ⟨name, hname, rfl⟩ := List.mem_map.mp h
    have hdepth : ¬ 6 < x.depth := fun hdeep => by
      rw [entries, if_pos hdeep] at hname
      cases hname
    dsimp only
    omega

/-- Every indexable file under a folder, as the names below it. -/
def files_under (root : Place Bytes) : List (Place Bytes) :=
  (walk_dirs sys root).run [⟨[], 0⟩] []

/-! ### What is read -/

/-- A document below a folder: not too deep, in directories that can be read, and nothing on the way
to it is left out. -/
structure Listed (root dirs : Place Bytes) (name : Bytes) : Prop where
  depth : dirs.length ≤ 6
  shown : ∀ part ∈ dirs ++ [name], skipped part = false
  read : ∀ p, p <+: dirs → sys.access.read_dir (root ++ p)
  indexable : is_indexable sys (root ++ (dirs ++ [name])) name

variable {sys} {root : Place Bytes}

theorem mem_entries {dir : Dir} {name : Bytes} :
    name ∈ entries sys root dir ↔
      dir.depth ≤ 6 ∧ sys.access.read_dir (root ++ dir.below) ∧ skipped name = false ∧
        sys.disk.kind (root ++ (dir.below ++ [name])) ≠ none := by
  unfold entries
  by_cases hdeep : 6 < dir.depth
  · rw [if_pos hdeep]
    simp
    omega
  by_cases hread : sys.access.read_dir (root ++ dir.below)
  · rw [if_neg hdeep, if_neg (by simp [hread]), List.mem_filter, List.mem_mergeSort, Tree.mem_list,
      List.append_assoc]
    simp [hread, Nat.le_of_not_lt hdeep, and_comm]
  · rw [if_neg hdeep, if_pos (by simp [hread])]
    simp [hread]

theorem next_iff {x y : Dir} :
    (walk_dirs sys root).Next x y ↔ ∃ name, name ∈ entries sys root x ∧
      sys.disk.kind (root ++ (x.below ++ [name])) = some .dir ∧
        y = ⟨x.below ++ [name], x.depth + 1⟩ := by
  simp only [Search.Next, walk_dirs, List.mem_map, List.mem_filter, is_dir, decide_eq_true_eq]
  constructor
  · rintro ⟨name, ⟨hname, hdir⟩, rfl⟩
    exact ⟨name, hname, hdir, rfl⟩
  · rintro ⟨name, hname, hdir, rfl⟩
    exact ⟨name, ⟨hname, hdir⟩, rfl⟩

/-- A directory that the walk comes to. -/
structure Met (sys : System) (root : Place Bytes) (dir : Dir) : Prop where
  depth : dir.depth = dir.below.length
  shown : ∀ part ∈ dir.below, skipped part = false
  read : ∀ p, p <+: dir.below → p ≠ dir.below → sys.access.read_dir (root ++ p)
  shallow : dir.depth ≤ 7

theorem met_of_reached {dir : Dir}
    (h : Relation.ReflTransGen (walk_dirs sys root).Next ⟨[], 0⟩ dir) : Met sys root dir := by
  induction h with
  | refl => exact ⟨rfl, by simp, fun p hp hne => absurd (List.prefix_nil.mp hp) hne, by simp⟩
  | @tail dir _ _ hnext ih =>
    obtain ⟨name, hname, -, rfl⟩ := next_iff.mp hnext
    obtain ⟨hshallow, hread, hshown, -⟩ := mem_entries.mp hname
    refine ⟨by simp [ih.depth], fun part hpart => ?_, fun p hp hne => ?_, by dsimp only; omega⟩
    · rcases List.mem_append.mp hpart with hpart | hpart
      · exact ih.shown part hpart
      · exact List.mem_singleton.mp hpart ▸ hshown
    · rcases List.prefix_concat_iff.mp hp with rfl | hp
      · exact absurd rfl hne
      · by_cases hsame : p = dir.below
        · exact hsame ▸ hread
        · exact ih.read p hp hsame

theorem reached_of_listed (below : Place Bytes)
    (hshown : ∀ part ∈ below, skipped part = false)
    (hread : ∀ p, p <+: below → p ≠ below → sys.access.read_dir (root ++ p))
    (hlength : below.length ≤ 6) (hkind : sys.disk.kind (root ++ below) = some .dir) :
    Relation.ReflTransGen (walk_dirs sys root).Next ⟨[], 0⟩ ⟨below, below.length⟩ := by
  induction below using List.reverseRecOn with
  | nil => exact .refl
  | append_singleton below name ih =>
    rw [List.length_append, List.length_singleton] at hlength ⊢
    have hprefix : below <+: below ++ [name] := List.prefix_append _ _
    have hproper : below ≠ below ++ [name] := by simp
    have hsome : sys.disk.kind (root ++ below ++ [name]) ≠ none := by
      rw [List.append_assoc, hkind]
      exact Option.some_ne_none _
    refine .tail (ih (fun part hpart => hshown part (List.mem_append_left _ hpart)) ?_ (by omega)
      (sys.disk.above hsome)) (next_iff.mpr ⟨name, mem_entries.mpr ⟨by dsimp only; omega, ?_, ?_,
        ?_⟩, hkind, rfl⟩)
    · intro p hp hne
      refine hread p (hp.trans hprefix) fun heq => ?_
      have hle := hp.length_le
      rw [heq, List.length_append, List.length_singleton] at hle
      omega
    · exact hread below hprefix hproper
    · exact hshown name (by simp)
    · rw [List.append_assoc] at hsome
      exact hsome

theorem kind_of_indexable {place : Place Bytes} {name : Bytes} (h : is_indexable sys place name) :
    ∃ contents, sys.disk.kind place = some (.leaf contents) := by
  unfold is_indexable at h
  split_ifs at h
  split at h
  next contents hkind => exact ⟨contents, hkind⟩
  next => cases h

/-- **The files under a folder** are the documents below it. -/
theorem mem_files_under {below : Place Bytes} :
    below ∈ files_under sys root ↔
      ∃ dirs name, below = dirs ++ [name] ∧ Listed sys root dirs name := by
  rw [files_under, Search.run_eq, List.nil_append, List.flatMap_singleton, Search.mem_collect]
  constructor
  · rintro ⟨dir, hreach, hout⟩
    obtain ⟨name, hname, rfl⟩ := List.mem_map.mp hout
    obtain ⟨hentry, hfile⟩ := List.mem_filter.mp hname
    obtain ⟨hshallow, hread, hshown, -⟩ := mem_entries.mp hentry
    have hmet := met_of_reached hreach
    refine ⟨dir.below, name, rfl, ?_, ?_, fun p hp => ?_, ?_⟩
    · rw [← hmet.depth]
      exact hshallow
    · intro part hpart
      rcases List.mem_append.mp hpart with hpart | hpart
      · exact hmet.shown part hpart
      · exact List.mem_singleton.mp hpart ▸ hshown
    · by_cases hsame : p = dir.below
      · exact hsame ▸ hread
      · exact hmet.read p hp hsame
    · exact (Bool.and_eq_true_iff.mp hfile).2
  · rintro ⟨dirs, name, rfl, hlisted⟩
    obtain ⟨contents, hkind⟩ := kind_of_indexable hlisted.indexable
    have hsome : sys.disk.kind (root ++ (dirs ++ [name])) ≠ none := by
      rw [hkind]
      exact Option.some_ne_none _
    have hdirs : sys.disk.kind (root ++ dirs) = some .dir := by
      rw [← List.append_assoc] at hsome
      exact sys.disk.above hsome
    refine ⟨⟨dirs, dirs.length⟩, reached_of_listed dirs ?_ ?_ hlisted.depth hdirs, ?_⟩
    · exact fun part hpart => hlisted.shown part (List.mem_append_left _ hpart)
    · exact fun p hp _ => hlisted.read p hp
    · refine List.mem_map.mpr ⟨name, List.mem_filter.mpr ⟨mem_entries.mpr ⟨hlisted.depth,
        hlisted.read _ List.prefix_rfl, hlisted.shown name (by simp), hsome⟩, ?_⟩, rfl⟩
      rw [is_dir, hkind, hlisted.indexable]
      rfl

theorem nodup_entries (dir : Dir) : (entries sys root dir).Nodup := by
  unfold entries
  split_ifs
  · exact List.nodup_nil
  · exact List.nodup_nil
  · exact ((List.mergeSort_perm _ _).nodup_iff.mpr (sys.disk.nodup_list _)).filter _

theorem below_prefix {dir dir' : Dir}
    (h : Relation.ReflTransGen (walk_dirs sys root).Next dir dir') : dir.below <+: dir'.below := by
  induction h with
  | refl => exact List.prefix_rfl
  | tail _ hnext ih =>
    obtain ⟨name, -, -, rfl⟩ := next_iff.mp hnext
    exact ih.trans (List.prefix_append _ _)

/-- What is found from a directory on lies below it. -/
theorem below_of_mem_collect {dir : Dir} {below : Place Bytes}
    (h : below ∈ (walk_dirs sys root).collect dir) :
    ∃ rest, rest ≠ [] ∧ below = dir.below ++ rest := by
  obtain ⟨dir', hreach, hout⟩ := Search.mem_collect.mp h
  obtain ⟨name, -, rfl⟩ := List.mem_map.mp hout
  obtain ⟨rest, hrest⟩ := below_prefix hreach
  exact ⟨rest ++ [name], by simp, by rw [← hrest, List.append_assoc]⟩

/-- No file is read twice. -/
theorem nodup_files_under : (files_under sys root).Nodup := by
  rw [files_under, Search.run_eq, List.nil_append, List.flatMap_singleton]
  refine Search.nodup_collect (fun dir => ?_) (fun dir => ?_) (fun x y b hnext hb hb' => ?_)
    (fun x y z b hy hz hb hb' => ?_) _
  · refine ((nodup_entries dir).filter _).map fun name name' h => ?_
    exact List.singleton_inj.mp (List.append_cancel_left h)
  · refine ((nodup_entries dir).filter _).map fun name name' h => ?_
    exact List.singleton_inj.mp (List.append_cancel_left (Dir.mk.inj h).1)
  · obtain ⟨name, -, -, rfl⟩ := next_iff.mp hnext
    obtain ⟨rest, hne, hrest⟩ := below_of_mem_collect hb'
    obtain ⟨name', -, rfl⟩ := List.mem_map.mp hb
    have hlength := congrArg List.length hrest
    have hpos := List.length_pos_of_ne_nil hne
    simp only [List.length_append, List.length_singleton] at hlength
    omega
  · obtain ⟨name, -, -, rfl⟩ := next_iff.mp hy
    obtain ⟨name', -, -, rfl⟩ := next_iff.mp hz
    obtain ⟨rest, -, hrest⟩ := below_of_mem_collect hb
    obtain ⟨rest', -, hrest'⟩ := below_of_mem_collect hb'
    have hsame := hrest.symm.trans hrest'
    simp only [List.append_assoc, List.append_cancel_left_eq, List.singleton_append,
      List.cons.injEq] at hsame
    rw [hsame.1]

/-- **What is read** under a folder: every document below it, and nothing else, once. -/
theorem files_are_listed :
    (files_under sys root).Nodup ∧ ∀ below, below ∈ files_under sys root ↔
      ∃ dirs name, below = dirs ++ [name] ∧ Listed sys root dirs name :=
  ⟨nodup_files_under, fun _ => mem_files_under⟩

end Walk

/-! ## Chunks -/

def CHUNK_CHARS : ℕ := 1200
def CHUNK_OVERLAP : ℕ := 200
def MAX_CHUNKS : ℕ := 4000

section Chunks

variable {V : Type} (path text : List Char)

/-- The slice of a document from a character on. -/
def piece (start : ℕ) : Chunk V where
  path := path
  start_line := (text.take start).count '\n' + 1
  text := (text.drop start).take CHUNK_CHARS
  vector := none

/-- The chunks from a character on. -/
def chunks_from (start : ℕ) : List (Chunk V) :=
  if start < text.length then
    let stop := min (start + CHUNK_CHARS) text.length
    if stop = text.length then [piece path text start]
    else piece path text start :: chunks_from (stop - min CHUNK_OVERLAP (CHUNK_CHARS / 4))
  else []
termination_by text.length - start
decreasing_by
  have hchars : CHUNK_CHARS = 1200 := rfl
  have hoverlap : CHUNK_OVERLAP = 200 := rfl
  omega

/-- Split a document into overlapping chunks. -/
def chunk_text : List (Chunk V) := chunks_from path text 0

variable {path text}

theorem chunks_from_last {start : ℕ} (h : start < text.length)
    (hend : text.length ≤ start + 1200) :
    (chunks_from path text start : List (Chunk V)) = [piece path text start] := by
  rw [chunks_from, if_pos h, if_pos (by simp only [CHUNK_CHARS]; omega)]

theorem chunks_from_cons {start : ℕ} (hmore : start + 1200 < text.length) :
    (chunks_from path text start : List (Chunk V)) =
      piece path text start :: chunks_from path text (start + 1000) := by
  have hstop : min (start + CHUNK_CHARS) text.length - min CHUNK_OVERLAP (CHUNK_CHARS / 4) =
      start + 1000 := by
    simp only [CHUNK_CHARS, CHUNK_OVERLAP]
    omega
  rw [chunks_from, if_pos (by omega), if_neg (by simp only [CHUNK_CHARS]; omega), hstop]

/-- **The chunks**: one for every thousand characters, as long as there is more behind the overlap
with the one before. -/
theorem mem_chunks_from {start : ℕ} {c : Chunk V} (h : start < text.length) :
    c ∈ chunks_from path text start ↔
      ∃ k, (k = 0 ∨ start + 1000 * k + 200 < text.length) ∧
        c = piece path text (start + 1000 * k) := by
  induction hn : text.length - start using Nat.strong_induction_on generalizing start with
  | _ n ih =>
    by_cases hmore : start + 1200 < text.length
    · rw [chunks_from_cons hmore, List.mem_cons,
        ih (text.length - (start + 1000)) (by omega) (by omega) rfl]
      have hzero : start + 1000 * 0 = start := by omega
      have hshift (k : ℕ) : start + 1000 * (k + 1) = start + 1000 + 1000 * k := by omega
      constructor
      · rintro (rfl | ⟨k, hk, rfl⟩)
        · exact ⟨0, .inl rfl, by rw [hzero]⟩
        · refine ⟨k + 1, .inr ?_, by rw [hshift]⟩
          rw [hshift]
          obtain rfl | hk := hk
          · exact hmore
          · exact hk
      · rintro ⟨_ | k, hk, rfl⟩
        · exact .inl (by rw [hzero])
        · exact .inr ⟨k, by omega, by rw [hshift]⟩
    · rw [chunks_from_last h (by omega), List.mem_singleton]
      constructor
      · rintro rfl
        exact ⟨0, .inl rfl, by rw [Nat.mul_zero, Nat.add_zero]⟩
      · rintro ⟨_ | k, hk, rfl⟩
        · rw [Nat.mul_zero, Nat.add_zero]
        · omega

/-- **No short passage is cut**: one that is no longer than the overlap and one character is whole
in a chunk, and the line of the chunk says its line. -/
theorem passage_in_chunk {pre passage post : List Char} (htext : text = pre ++ passage ++ post)
    (hne : passage ≠ []) (hlength : passage.length ≤ CHUNK_OVERLAP + 1) :
    ∃ c ∈ (chunk_text path text : List (Chunk V)), ∃ front back,
      c.text = front ++ passage ++ back ∧
        c.start_line + front.count '\n' = pre.count '\n' + 1 := by
  have hsplit : text.length = pre.length + passage.length + post.length := by
    rw [htext, List.length_append, List.length_append]
  have hpos := List.length_pos_of_ne_nil hne
  simp only [CHUNK_OVERLAP] at hlength
  -- the chunk that begins last before the passage, or the one before it if that was the last
  obtain ⟨k, hk, hstart, hend⟩ : ∃ k, (k = 0 ∨ 1000 * k + 200 < text.length) ∧
      1000 * k ≤ pre.length ∧ pre.length + passage.length ≤ 1000 * k + 1200 := by
    by_cases hlast : pre.length / 1000 = 0 ∨ 1000 * (pre.length / 1000) + 200 < text.length
    · exact ⟨pre.length / 1000, hlast, by omega, by omega⟩
    · exact ⟨pre.length / 1000 - 1, by omega, by omega, by omega⟩
  refine ⟨piece path text (1000 * k), ?_, pre.drop (1000 * k),
    post.take (1000 * k + 1200 - (pre.length + passage.length)), ?_, ?_⟩
  · rw [chunk_text, mem_chunks_from (by omega)]
    exact ⟨k, by omega, by rw [Nat.zero_add]⟩
  · change (text.drop (1000 * k)).take CHUNK_CHARS = _
    rw [htext, List.append_assoc, List.drop_append_of_le_length hstart, List.take_append,
      List.take_append, List.take_of_length_le, List.take_of_length_le, List.append_assoc]
    · congr 3
      simp only [CHUNK_CHARS, List.length_drop]
      omega
    · simp only [CHUNK_CHARS, List.length_drop]
      omega
    · simp only [CHUNK_CHARS, List.length_drop]
      omega
  · change (text.take (1000 * k)).count '\n' + 1 + _ = _
    rw [htext, List.append_assoc, List.take_append_of_le_length hstart, Nat.add_right_comm,
      ← List.count_append, List.take_append_drop]

/-- A chunk is what the document says at its line. -/
theorem chunk_of_text {c : Chunk V} (h : c ∈ chunk_text path text) :
    c.path = path ∧ c.vector = none ∧ c.text ≠ [] ∧ c.text.length ≤ CHUNK_CHARS ∧
      ∃ pre post, text = pre ++ c.text ++ post ∧ c.start_line = pre.count '\n' + 1 := by
  have hpos : 0 < text.length := by
    by_contra hempty
    rw [chunk_text, chunks_from, if_neg hempty] at h
    cases h
  obtain ⟨k, hk, rfl⟩ := (mem_chunks_from hpos).mp h
  refine ⟨rfl, rfl, ?_, List.length_take_le _ _, text.take (0 + 1000 * k),
    (text.drop (0 + 1000 * k)).drop CHUNK_CHARS, ?_, rfl⟩
  · refine List.ne_nil_of_length_pos ?_
    change 0 < ((text.drop (0 + 1000 * k)).take CHUNK_CHARS).length
    rw [List.length_take, List.length_drop]
    simp only [CHUNK_CHARS]
    omega
  · change text = _ ++ (text.drop (0 + 1000 * k)).take CHUNK_CHARS ++ _
    rw [List.append_assoc, List.take_append_drop, List.take_append_drop]

end Chunks

/-! ## The index -/

section Build

variable {V : Type} (sys : System)

/-- The path of a file below a folder. -/
def file_path (folder : Bytes) (below : Place Bytes) : Bytes := below.foldl join folder

/-- The text of a file; one with a zero byte near its start has none. -/
def read_text (place : Place Bytes) : Option (List Char) :=
  match sys.disk.kind place with
  | some (.leaf contents) =>
    if !sys.access.read place then none
    else if (contents.take 2048).contains 0 then none
    else some (from_utf8_lossy contents)
  | _ => none

/-- One more chunk, unless there are enough: then the index is done. -/
def push_chunk (index : Index V) (chunk : Chunk V) : Except (Index V) (Index V) :=
  if MAX_CHUNKS ≤ index.chunks.length then .error index
  else .ok { index with chunks := index.chunks ++ [chunk] }

def add_file (folder : Bytes) (root : Place Bytes) (index : Index V) (below : Place Bytes) :
    Except (Index V) (Index V) :=
  match read_text sys (root ++ below) with
  | none => .ok index
  | some text =>
    (chunk_text (from_utf8_lossy (file_path folder below)) text).foldlM push_chunk index

def add_folder (index : Index V) (folder : List Char) : Except (Index V) (Index V) :=
  let trimmed := Text.trim folder
  if trimmed = [] then .ok index
  else
    let path := local_path sys.vars trimmed
    match (resolve sys.disk sys.cwd path).filter (is_dir sys) with
    | none => .ok index
    | some root =>
      (files_under sys root).foldlM (add_file sys path root)
        { index with folders := index.folders ++ [from_utf8_lossy path] }

/-- Read every document in `folders` into one index. -/
def build (folders : List (List Char)) : Index V :=
  match folders.foldlM (add_folder sys) ⟨[], [], false⟩ with
  | .ok index | .error index => index

/-! ### Documents -/

/-- A document, with the path it is shown by. -/
structure Document where
  path : List Char
  text : List Char
  deriving DecidableEq

def folder_documents (folder : List Char) : List Document :=
  let trimmed := Text.trim folder
  if trimmed = [] then []
  else
    let path := local_path sys.vars trimmed
    match (resolve sys.disk sys.cwd path).filter (is_dir sys) with
    | none => []
    | some root =>
      (files_under sys root).filterMap fun below =>
        (read_text sys (root ++ below)).map (⟨from_utf8_lossy (file_path path below), ·⟩)

/-- The documents of some folders, in the order they are read. -/
def documents (folders : List (List Char)) : List Document := folders.flatMap (folder_documents sys)

def Document.chunks (document : Document) : List (Chunk V) :=
  chunk_text document.path document.text

/-- An index with all these chunks, or with as many as it holds and done. -/
def Filled (chunks : List (Chunk V)) : Except (Index V) (Index V) → Prop
  | .ok index => index.chunks = chunks ∧ chunks.length ≤ MAX_CHUNKS
  | .error index => index.chunks = chunks.take MAX_CHUNKS ∧ MAX_CHUNKS ≤ chunks.length

theorem filled_foldlM {γ : Type} {f : Index V → γ → Except (Index V) (Index V)}
    {g : γ → List (Chunk V)}
    (hf : ∀ chunks index c, Filled chunks (.ok index) → Filled (chunks ++ g c) (f index c)) :
    ∀ (l : List γ) (chunks : List (Chunk V)) (index : Index V), Filled chunks (.ok index) →
      Filled (chunks ++ l.flatMap g) (l.foldlM f index)
  | [], chunks, index, h => by
    rw [List.flatMap_nil, List.append_nil]
    exact h
  | c :: l, chunks, index, h => by
    rw [List.foldlM_cons, List.flatMap_cons, ← List.append_assoc]
    have hc := hf chunks index c h
    cases hstep : f index c with
    | ok next => exact filled_foldlM hf l _ next (hstep ▸ hc)
    | error done =>
      rw [hstep] at hc
      obtain ⟨hchunks, hfull⟩ := hc
      refine ⟨hchunks.trans ?_, hfull.trans ?_⟩
      · rw [List.take_append_of_le_length hfull]
      · exact (List.prefix_append (chunks ++ g c) _).length_le

theorem filled_push_chunk (chunks : List (Chunk V)) (index : Index V) (c : Chunk V)
    (h : Filled chunks (.ok index)) : Filled (chunks ++ [c]) (push_chunk index c) := by
  obtain ⟨rfl, hroom⟩ := h
  unfold push_chunk
  split
  next hfull =>
    refine ⟨?_, hfull.trans (by simp)⟩
    rw [List.take_append_of_le_length hfull, List.take_of_length_le hroom]
  next hfull =>
    refine ⟨rfl, ?_⟩
    rw [List.length_append, List.length_singleton]
    omega

theorem filled_add_file (folder : Bytes) (root : Place Bytes) (chunks : List (Chunk V))
    (index : Index V) (below : Place Bytes) (h : Filled chunks (.ok index)) :
    Filled (chunks ++ (((read_text sys (root ++ below)).map
        fun text => (⟨from_utf8_lossy (file_path folder below), text⟩ : Document)).toList.flatMap
          Document.chunks))
      (add_file sys folder root index below) := by
  unfold add_file
  cases read_text sys (root ++ below) with
  | none => simpa using h
  | some text =>
    have hpushed := filled_foldlM (g := fun c => [c]) filled_push_chunk
      (chunk_text (from_utf8_lossy (file_path folder below)) text) chunks index h
    simpa [Document.chunks] using hpushed

theorem filled_add_folder (chunks : List (Chunk V)) (index : Index V) (folder : List Char)
    (h : Filled chunks (.ok index)) :
    Filled (chunks ++ (folder_documents sys folder).flatMap Document.chunks)
      (add_folder sys index folder) := by
  unfold add_folder folder_documents
  dsimp only
  split
  · simpa using h
  split
  · simpa using h
  next root _ =>
    have hadded := filled_foldlM (filled_add_file sys (local_path sys.vars (Text.trim folder)) root)
      (files_under sys root) chunks
      { index with
        folders := index.folders ++ [from_utf8_lossy (local_path sys.vars (Text.trim folder))] } h
    rw [List.filterMap_eq_flatMap_toList, List.flatMap_assoc]
    exact hadded

/-- **The index** has the chunks of all documents, as many as it holds. -/
theorem build_chunks (folders : List (List Char)) :
    (build sys folders : Index V).chunks =
      ((documents sys folders).flatMap Document.chunks).take MAX_CHUNKS := by
  have hfilled := filled_foldlM (V := V) (filled_add_folder sys) folders [] ⟨[], [], false⟩
    ⟨rfl, Nat.zero_le _⟩
  rw [List.nil_append] at hfilled
  unfold build documents
  rw [List.flatMap_assoc]
  split
  next index hindex =>
    rw [hindex] at hfilled
    rw [hfilled.1, List.take_of_length_le hfilled.2]
  next index hindex =>
    rw [hindex] at hfilled
    exact hfilled.1

variable {sys}

theorem dir_of_listed {root dirs : Place Bytes} {name : Bytes} (h : Listed sys root dirs name) :
    is_dir sys root = true := by
  obtain ⟨contents, hkind⟩ := kind_of_indexable h.indexable
  have hsome : sys.disk.kind (root ++ (dirs ++ [name])) ≠ none := by
    rw [hkind]
    exact Option.some_ne_none _
  exact decide_eq_true (Tree.kind_of_below hsome (by simp))

theorem mem_folder_documents {folder : List Char} {document : Document} :
    document ∈ folder_documents sys folder ↔
      Text.trim folder ≠ [] ∧ ∃ root dirs name,
        resolve sys.disk sys.cwd (local_path sys.vars (Text.trim folder)) = some root ∧
          Listed sys root dirs name ∧
            read_text sys (root ++ (dirs ++ [name])) = some document.text ∧
              document.path = from_utf8_lossy
                (file_path (local_path sys.vars (Text.trim folder)) (dirs ++ [name])) := by
  unfold folder_documents
  dsimp only
  by_cases hblank : Text.trim folder = []
  · simp [hblank]
  rw [if_neg hblank]
  constructor
  · intro hmem
    split at hmem
    · cases hmem
    next root hroot =>
      obtain ⟨below, hbelow, htext⟩ := List.mem_filterMap.mp hmem
      obtain ⟨dirs, name, rfl, hlisted⟩ := mem_files_under.mp hbelow
      obtain ⟨text, hread, rfl⟩ := Option.map_eq_some_iff.mp htext
      exact ⟨hblank, root, dirs, name, (Option.filter_eq_some_iff.mp hroot).1, hlisted, hread, rfl⟩
  · rintro ⟨-, root, dirs, name, hroot, hlisted, hread, hpath⟩
    have hfilter : (resolve sys.disk sys.cwd (local_path sys.vars (Text.trim folder))).filter
        (is_dir sys) = some root :=
      Option.filter_eq_some_iff.mpr ⟨hroot, dir_of_listed hlisted⟩
    rw [hfilter]
    refine List.mem_filterMap.mpr ⟨dirs ++ [name], mem_files_under.mpr ⟨dirs, name, rfl, hlisted⟩,
      ?_⟩
    rw [hread, Option.map_some, ← hpath]

/-- **The documents** of some folders. -/
theorem mem_documents {folders : List (List Char)} {document : Document} :
    document ∈ documents sys folders ↔
      ∃ folder ∈ folders, Text.trim folder ≠ [] ∧ ∃ root dirs name,
        resolve sys.disk sys.cwd (local_path sys.vars (Text.trim folder)) = some root ∧
          Listed sys root dirs name ∧
            read_text sys (root ++ (dirs ++ [name])) = some document.text ∧
              document.path = from_utf8_lossy
                (file_path (local_path sys.vars (Text.trim folder)) (dirs ++ [name])) := by
  rw [documents, List.mem_flatMap]
  exact exists_congr fun folder => and_congr_right fun _ => mem_folder_documents

/-- **No passage is lost**: an index that is not full has a chunk for every passage of its documents
that is no longer than the overlap, with its line; and all its chunks say what their documents say
at their lines. -/
theorem passages_are_held (folders : List (List Char)) :
    ((build sys folders : Index V).chunks.length < MAX_CHUNKS →
      ∀ document ∈ documents sys folders, ∀ pre passage post,
        document.text = pre ++ passage ++ post → passage ≠ [] →
          passage.length ≤ CHUNK_OVERLAP + 1 →
            ∃ c ∈ (build sys folders : Index V).chunks, c.path = document.path ∧
              ∃ front back, c.text = front ++ passage ++ back ∧
                c.start_line + front.count '\n' = pre.count '\n' + 1) ∧
      ∀ c ∈ (build sys folders : Index V).chunks, ∃ document ∈ documents sys folders,
        c.path = document.path ∧ ∃ pre post, document.text = pre ++ c.text ++ post ∧
          c.start_line = pre.count '\n' + 1 := by
  refine ⟨fun hroom document hdocument pre passage post htext hne hlength => ?_, fun c hc => ?_⟩
  · have hall : (build sys folders : Index V).chunks =
        (documents sys folders).flatMap Document.chunks := by
      rw [build_chunks] at hroom ⊢
      rw [List.length_take] at hroom
      exact List.take_of_length_le (by omega)
    obtain ⟨c, hc, front, back, hsplit, hline⟩ := passage_in_chunk htext hne hlength
    refine ⟨c, ?_, (chunk_of_text hc).1, front, back, hsplit, hline⟩
    rw [hall]
    exact List.mem_flatMap.mpr ⟨document, hdocument, hc⟩
  · rw [build_chunks] at hc
    obtain ⟨document, hdocument, hc⟩ := List.mem_flatMap.mp (List.mem_of_mem_take hc)
    obtain ⟨hpath, -, -, -, pre, post, htext, hline⟩ := chunk_of_text hc
    exact ⟨document, hdocument, hpath, pre, post, htext, hline⟩

end Build

/-! ## A note -/

/-- A folder with one note in it. -/
def one_note : System where
  tables := ascii_tables
  vars := ⟨some [SLASH], none⟩
  cwd := []
  disk := (Tree.root.put [] [0x6b] .dir (by decide) (.inl rfl)).put [[0x6b]] [0x61]
    (.leaf [0x68, 0x69]) (by decide) (.inr (by decide))
  access := ⟨fun _ => true, fun _ => true, fun _ => true⟩

theorem listed_note : Listed one_note [[0x6b]] [] [0x61] where
  depth := Nat.zero_le _
  shown := by decide
  read _ _ := rfl
  indexable := by decide

theorem files_under_note : files_under one_note [[0x6b]] = [[[0x61]]] := by
  have hentries : entries one_note [[0x6b]] ⟨[], 0⟩ = [[0x61]] := by
    have hlist : one_note.disk.list [[0x6b]] = [[0x61]] := by decide
    rw [entries, if_neg (by decide), if_neg (by decide), List.append_nil, hlist,
      List.mergeSort_singleton]
    rfl
  have hout : (walk_dirs one_note [[0x6b]]).out ⟨[], 0⟩ = [[[0x61]]] := by
    simp only [walk_dirs, hentries]
    decide
  have hnext : (walk_dirs one_note [[0x6b]]).next ⟨[], 0⟩ = [] := by
    simp only [walk_dirs, hentries]
    rfl
  rw [files_under, Search.run_eq, List.nil_append, List.flatMap_singleton, Search.collect_eq, hout,
    hnext]
  rfl

theorem documents_note :
    documents one_note ["/k".toList] = [⟨"/k/a".toList, "hi".toList⟩] := by
  have hroot : (resolve one_note.disk one_note.cwd
      (local_path one_note.vars (Text.trim "/k".toList))).filter (is_dir one_note) =
        some [[0x6b]] := by
    decide
  rw [documents, List.flatMap_singleton, folder_documents, if_neg (by decide)]
  dsimp only
  rw [hroot]
  dsimp only
  rw [files_under_note]
  decide

/-- What it says is found. -/
theorem passages_are_held_note :
    ∃ c ∈ (build one_note ["/k".toList] : Index Unit).chunks, c.path = "/k/a".toList ∧
      ∃ front back, c.text = front ++ "hi".toList ++ back ∧
        c.start_line + front.count '\n' = ([] : List Char).count '\n' + 1 := by
  have hroom : (build one_note ["/k".toList] : Index Unit).chunks.length < MAX_CHUNKS := by
    have hone : (Document.chunks ⟨"/k/a".toList, "hi".toList⟩ : List (Chunk Unit)).length = 1 := by
      rw [Document.chunks, chunk_text, chunks_from_last (by decide) (by decide)]
      rfl
    rw [build_chunks, documents_note, List.flatMap_singleton, List.length_take, hone]
    decide
  have hdocument : (⟨"/k/a".toList, "hi".toList⟩ : Document) ∈
      documents one_note ["/k".toList] := by
    rw [documents_note]
    exact List.mem_cons_self
  exact (passages_are_held ["/k".toList]).1 hroom _ hdocument [] "hi".toList [] rfl
    (by decide) (by decide)

end WaSSH.Agent.Rag
