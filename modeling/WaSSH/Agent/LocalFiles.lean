import WaSSH.Lib.UnixPath
import WaSSH.Lib.Text
import WaSSH.Lib.Utf8

/-!
# Deleting on this machine

What the tools of the agent do to the files of the machine that the program runs on, which are a
tree without links.

* `local_root`, `local_path`, `local_delete`: the source;
* `Protected`: the root, the home directory and what lies between them;
* **`local_delete_refuses_iff`**: the deletions that are refused when they have to be;
* `guarded_iff_of_plain`: of the paths without `..` the guard lets those through that lie between.
-/

namespace WaSSH.Agent.LocalFiles

open FileTree UnixPath Utf8

/-- The files of this machine. -/
abbrev Disk := Tree Bytes Bytes

/-! ## Paths -/

/-- The environment variables that are looked at. -/
structure Vars where
  HOME : Option Bytes
  USERPROFILE : Option Bytes

/-- The local root operations resolve against: the user's home directory. -/
def local_root (v : Vars) : Bytes := (v.HOME.orElse fun _ => v.USERPROFILE).getD [SLASH]

/-- Resolve `path` against the local root, expanding `~`. -/
def local_path (v : Vars) (path : List Char) : Bytes :=
  let trimmed := Text.trim path
  match Text.strip_prefix ['~', '/'] trimmed with
  | some rest => join (local_root v) (encode rest)
  | none =>
    let candidate := encode trimmed
    if is_absolute candidate then candidate else join (local_root v) candidate

/-! ## What may fail -/

/-- How far copying comes. -/
inductive Copying
  | refused
  /-- It stops after so many bytes. -/
  | stopped (bytes : ℕ)
  | done

/-- What the system does with the calls. -/
structure Env where
  metadata : Bool
  remove_dir_all : ∀ (t : Disk) (place : Place Bytes), t.Removal place
  remove_file : Place Bytes → Bool
  create_dir : Place Bytes → Bool
  rename : Bool
  copy : Copying

/-- A directory is removed with what is in it, anything else by itself. -/
def Env.remove (env : Env) (t : Disk) (place : Place Bytes) : Bool × Disk :=
  if t.kind place = some .dir then (env.remove_dir_all t place).result
  else if env.remove_file place then (true, t.remove place)
  else (false, t)

/-! ## Deleting -/

structure DeleteArgs where
  path : Option (List Char)
  recursive : Option Bool

inductive DeleteError
  | path_is_required
  | cannot_delete (path : Bytes)
  | refusing (path : Bytes)
  | is_directory (path : Bytes)
  deriving DecidableEq

/-- The path is compared with the root and the local root as it is spelled. -/
def Guarded (v : Vars) (path : Bytes) : Prop :=
  has_parent path = false ∨ components path = components (local_root v)

instance (v : Vars) (path : Bytes) : Decidable (Guarded v path) :=
  inferInstanceAs (Decidable (_ ∨ _))

/-- `local_fs_delete_file`. -/
def local_delete (v : Vars) (env : Env) (cwd : Place Bytes) (args : DeleteArgs) (t : Disk) :
    Except DeleteError Unit × Disk :=
  let raw := Text.trim (args.path.getD [])
  if raw = [] then (.error .path_is_required, t)
  else
    let path := local_path v raw
    match (resolve t cwd path).filter fun _ => env.metadata with
    | none => (.error (.cannot_delete path), t)
    | some place =>
      if Guarded v path then (.error (.refusing path), t)
      else if t.kind place = some .dir ∧ args.recursive.getD false = false then
        (.error (.is_directory path), t)
      else
        match env.remove t place with
        | (true, t) => (.ok (), t)
        | (false, t) => (.error (.cannot_delete path), t)

/-- The root, the home directory, and what lies between them. -/
def Protected (v : Vars) (cwd : Place Bytes) (t : Disk) (place : Place Bytes) : Prop :=
  place = [] ∨ ∃ home, resolve t cwd (local_root v) = some home ∧ place <+: home

/-- The path of the arguments. -/
def DeleteArgs.local_path (v : Vars) (args : DeleteArgs) : Bytes :=
  LocalFiles.local_path v (Text.trim (args.path.getD []))

/-- If the path leads to something that is protected, the tool refuses and removes nothing. -/
def Refuses (v : Vars) (cwd : Place Bytes) (args : DeleteArgs) (t : Disk) : Prop :=
  ∀ env place, resolve t cwd (args.local_path v) = some place → Protected v cwd t place →
    ∃ error, local_delete v env cwd args t = (.error error, t)

/-- Every call succeeds. -/
def Env.fine : Env := ⟨true, fun _ _ => .done, fun _ => true, fun _ => true, true, .done⟩

theorem Env.remove_fine (t : Disk) (place : Place Bytes) :
    Env.fine.remove t place = (true, t.remove place) := by
  unfold Env.remove
  split_ifs with hdir hfile
  · rfl
  · rfl
  · exact absurd rfl hfile

/-- **A deletion** of the root, the home directory or a directory above it is refused exactly when
the path is blank or spelled like the root or the local root, or when it is not recursive. -/
theorem local_delete_refuses_iff (v : Vars) (cwd : Place Bytes) (args : DeleteArgs) (t : Disk) :
    Refuses v cwd args t ↔
      ∀ place, resolve t cwd (args.local_path v) = some place → Protected v cwd t place →
        Text.trim (args.path.getD []) = [] ∨ Guarded v (args.local_path v) ∨
          (t.kind place = some .dir ∧ args.recursive.getD false = false) := by
  constructor
  · intro h place hplace hprotected
    by_contra hcond
    obtain ⟨hraw, hguard, hdir⟩ : _ ∧ _ ∧ _ := by
      rw [not_or, not_or] at hcond
      exact hcond
    obtain ⟨error, herror⟩ := h .fine place hplace hprotected
    unfold local_delete at herror
    dsimp only at herror
    rw [if_neg hraw] at herror
    change (match (resolve t cwd (args.local_path v)).filter fun _ => true with
      | none => _
      | some place => _) = _ at herror
    rw [hplace] at herror
    change (if Guarded v (args.local_path v) then _ else _) = _ at herror
    rw [if_neg hguard, if_neg hdir, Env.remove_fine] at herror
    cases herror
  · intro h env place hplace hprotected
    unfold local_delete
    dsimp only
    by_cases hraw : Text.trim (args.path.getD []) = []
    · rw [if_pos hraw]
      exact ⟨_, rfl⟩
    · rw [if_neg hraw]
      have hpath : resolve t cwd (local_path v (Text.trim (args.path.getD []))) = some place := hplace
      rw [hpath]
      cases env.metadata with
      | false => exact ⟨_, rfl⟩
      | true =>
        change ∃ error, (if Guarded v (args.local_path v) then _ else _) = _
        rcases (h place hplace hprotected).resolve_left hraw with hguard | hdir
        · exact ⟨_, if_pos hguard⟩
        · rw [if_pos hdir]
          split_ifs
          · exact ⟨_, rfl⟩
          · exact ⟨_, rfl⟩

/-! ## Paths without `..` -/

/-- **Without `..`** the guard stops what leads to the root or to the home directory, and nothing
else. -/
theorem guarded_iff_of_plain {v : Vars} {cwd place home : Place Bytes} {path : Bytes} {t : Disk}
    (habs : is_absolute path) (hplain : DOTDOT ∉ parts path)
    (hroot : is_absolute (local_root v)) (hrootplain : DOTDOT ∉ parts (local_root v))
    (hplace : resolve t cwd path = some place) (hhome : resolve t cwd (local_root v) = some home) :
    Guarded v path ↔ place = [] ∨ place = home := by
  have hdot {p : Bytes} (h : is_absolute p) : decide ((parts p).head? = some DOT) = false := by
    rw [head_parts h, decide_eq_false_iff_not]
    exact Option.some_inj.not.mpr (List.cons_ne_nil _ _).symm
  rw [resolve_plain habs hplain hplace, resolve_plain hroot hrootplain hhome]
  unfold Guarded has_parent components
  rw [hdot habs, hdot hroot, habs, hroot]
  simp

/-- The user's home directory is `/h/u`. -/
def vars : Vars := ⟨some (encode "/h/u".toList), none⟩

def homes : Disk :=
  (Tree.root.put [] (encode ['h']) .dir rfl (.inl rfl)).put [encode ['h']] (encode ['u']) .dir
    (by decide) (.inl rfl)

/-- The home directory, by way of the directory above it. -/
theorem home_deleted : ¬ Refuses vars [] ⟨some "~/../u".toList, some true⟩ homes := by
  intro h
  have hplace : resolve homes [] (DeleteArgs.local_path vars ⟨some "~/../u".toList, some true⟩) =
      some [encode ['h'], encode ['u']] := by
    decide +kernel
  have hhome : resolve homes [] (local_root vars) = some [encode ['h'], encode ['u']] := by
    decide +kernel
  obtain ⟨error, herror⟩ := h .fine _ hplace (.inr ⟨_, hhome, List.prefix_rfl⟩)
  have hok : (local_delete vars .fine [] ⟨some "~/../u".toList, some true⟩ homes).1 = .ok () := by
    decide +kernel
  rw [herror] at hok
  cases hok

end WaSSH.Agent.LocalFiles
