import Mathlib.Tactic
import WaSSH.Lib.FileMap

/-!
# `write_atomic`

Every JSON document is written to a temporary file in its own directory, which is then renamed
over the target. Each file system step takes from `Faults` whether it succeeds.

* `Path`, `temp_path` and `temp_path_ne`: the temporary file is never the target;
* `write_temp`, `replace`, `write_atomic`: the source, with its Windows branch;
* `Atomic`: old contents or new contents, and which of the two follows from the result;
* **`write_atomic_atomic_iff`**: a call is atomic unless the Windows branch removes the target and
  then has nothing to put in its place.
-/

namespace WaSSH.Store

open FileMap

/-- The components of a path. A leading `/` is a component, as in `std::path::Component`. -/
abbrev Path := List String

/-- `Path::parent`, with an empty parent left out. -/
def parent (path : Path) : Option Path :=
  if path.dropLast = [] then none else some path.dropLast

/-- `Path::file_name`: the last component when it is a name. -/
def file_name (path : Path) : Option String :=
  path.getLast?.filter fun c => c ≠ "." ∧ c ≠ ".." ∧ c ≠ "/"

/-- `temp_path`, in process `pid` with `counter` taken from `TEMP_COUNTER`. -/
def temp_path (pid counter : ℕ) (path : Path) : Path :=
  let name := (file_name path).getD "document"
  path.dropLast ++ [s!".{name}.{pid}.{counter}.tmp"]

/-- Failures of the store that carry the path they happened on. -/
inductive StoreError
  | io (path : Path) (source : IoError)
  deriving DecidableEq, Repr

/-- The two `cfg` branches. -/
inductive TargetOs
  | unix
  | windows
  deriving DecidableEq, Repr

/-- Which steps of one call succeed; `write_all` fails after the bytes it names. -/
structure Faults where
  create_dir_all : Bool
  create : Bool
  write_all : Option ℕ
  sync_all : Bool
  rename : Bool
  remove_temp : Bool
  remove_target : Bool
  rename_again : Bool
  deriving DecidableEq, Repr

/-- The inner block: fill the temporary file. -/
def write_temp (f : Faults) (temp : Path) (bytes : Bytes) : FsM Path StoreError Unit := do
  map_err (.io temp) (create f.create temp)
  map_err (.io temp) (write_all f.write_all temp bytes)
  map_err (.io temp) (pass f.sync_all)

/-- What follows a failed rename. -/
def recover (os : TargetOs) (f : Faults) (temp path : Path) (error : IoError) :
    FsM Path StoreError Unit := do
  let _ ← attempt (remove_file f.remove_temp temp)
  if os = .windows ∧ ((← get) path).isSome then
    map_err (.io path) (remove_file f.remove_target path)
    map_err (.io path) (rename f.rename_again temp path)
  else
    throw (.io path error)

/-- The rename over the target. -/
def replace (os : TargetOs) (f : Faults) (temp path : Path) : FsM Path StoreError Unit := do
  match ← attempt (rename f.rename temp path) with
  | .ok () => pure ()
  | .error error => recover os f temp path error

/-- Write `bytes` to `path` atomically. -/
def write_atomic (os : TargetOs) (f : Faults) (pid counter : ℕ) (path : Path) (bytes : Bytes) :
    FsM Path StoreError Unit := do
  if let some parent := parent path then
    map_err (.io parent) (pass f.create_dir_all)
  let temp := temp_path pid counter path
  write_temp f temp bytes
  replace os f temp path

/-! ## The temporary file -/

theorem length_last_le (dir : Path) (last : String) :
    last.length ≤ ((file_name (dir ++ [last])).getD "document").length := by
  by_cases h : last ≠ "." ∧ last ≠ ".." ∧ last ≠ "/"
  · simp [file_name, Option.filter, h]
  · have hd : "document".length = 8 := rfl
    have hl : last = "." ∨ last = ".." ∨ last = "/" := by tauto
    have hn : file_name (dir ++ [last]) = none := by simpa [file_name] using h
    rw [hn, Option.getD_none, hd]
    rcases hl with rfl | rfl | rfl <;> decide

theorem temp_name_length (name : String) (pid counter : ℕ) :
    name.length < s!".{name}.{pid}.{counter}.tmp".length := by
  have hdot : ".".length = 1 := rfl
  simp only [String.length_append, toString, hdot]
  omega

/-- The temporary file is never the target. -/
theorem temp_path_ne (pid counter : ℕ) (path : Path) : temp_path pid counter path ≠ path := by
  intro h
  rcases List.eq_nil_or_concat' path with rfl | ⟨dir, last, rfl⟩
  · simp [temp_path] at h
  · simp only [temp_path, List.dropLast_concat] at h
    have hlast := List.singleton_injective (List.append_cancel_left h)
    have hlen := temp_name_length ((file_name (dir ++ [last])).getD "document") pid counter
    rw [hlast] at hlen
    exact absurd (length_last_le dir last) (by omega)

/-! ## The inner block -/

/-- The inner block writes every byte and syncs. -/
structure Faults.Fills (f : Faults) : Prop where
  create : f.create
  write_all : f.write_all = none
  sync_all : f.sync_all

theorem run_write_temp_of_fills {f : Faults} (h : f.Fills) (temp : Path) (bytes : Bytes)
    (fs : Fs Path) : (write_temp f temp bytes).run fs = (.ok (), fs.set temp bytes) := by
  obtain ⟨hc, hw, hs⟩ := h
  simp [write_temp, run_bind, run_create, run_write_all, hc, hw, hs, Except.mapError]

theorem run_write_temp_of_not_fills {f : Faults} (h : ¬ f.Fills) (temp : Path) (bytes : Bytes)
    (fs : Fs Path) :
    ∃ e fs', (write_temp f temp bytes).run fs = (.error e, fs') ∧
      ∀ q, q ≠ temp → fs' q = fs q := by
  by_cases hc : f.create
  · cases hw : f.write_all with
    | some n =>
      refine ⟨.io temp .denied, fs.set temp (bytes.take n), ?_, fun q hq => fs.set_of_ne _ hq⟩
      simp [write_temp, run_bind, run_create, run_write_all, hc, hw, Except.mapError]
    | none =>
      have hs : ¬ f.sync_all := fun hs => h ⟨hc, hw, hs⟩
      refine ⟨.io temp .denied, fs.set temp bytes, ?_, fun q hq => fs.set_of_ne _ hq⟩
      simp [write_temp, run_bind, run_create, run_write_all, hc, hw, hs, Except.mapError]
  · refine ⟨.io temp .denied, fs, ?_, fun q _ => rfl⟩
    simp [write_temp, run_bind, run_create, hc, Except.mapError]

/-! ## Atomicity -/

/-- What a caller may rely on: the target holds its old contents or the new ones, the new ones
when the call succeeds and the old ones when it fails. -/
structure Atomic (before : Fs Path) (path : Path) (bytes : Bytes)
    (out : Except StoreError Unit × Fs Path) : Prop where
  complete : out.2 path = before path ∨ out.2 path = some bytes
  ok_new : out.1 = .ok () → out.2 path = some bytes
  err_old : ∀ e, out.1 = .error e → out.2 path = before path

variable {before fs : Fs Path} {path : Path} {bytes : Bytes}

theorem Atomic.of_ok (h : fs path = some bytes) : Atomic before path bytes (.ok (), fs) :=
  ⟨.inr h, fun _ => h, fun _ he => nomatch he⟩

theorem Atomic.of_error {e : StoreError} (h : fs path = before path) :
    Atomic before path bytes (.error e, fs) :=
  ⟨.inl h, fun he => (nomatch he), fun _ _ => h⟩

theorem not_atomic_of_missing {out : Except StoreError Unit × Fs Path}
    (hb : (before path).isSome) (h : out.2 path = none) : ¬ Atomic before path bytes out := by
  intro ha
  rcases ha.complete with hc | hc
  · rw [← hc, h] at hb
    exact absurd hb (by decide)
  · rw [h] at hc
    exact nomatch hc

/-! ## The rename and its fallback -/

section Replace

variable {os : TargetOs} {f : Faults} {temp : Path}

/-- The file system once the leftover temporary file has been dealt with. -/
def cleaned (f : Faults) (temp : Path) (fs : Fs Path) : Fs Path :=
  if f.remove_temp then fs.erase temp else fs

theorem cleaned_of_ne {q : Path} (h : q ≠ temp) : cleaned f temp fs q = fs q := by
  unfold cleaned
  split_ifs
  · exact fs.erase_of_ne h
  · rfl

theorem run_remove_temp (htemp : fs temp = some bytes) :
    ((remove_file f.remove_temp temp).run fs).2 = cleaned f temp fs := by
  rw [run_remove_file, htemp, cleaned]
  cases f.remove_temp <;> rfl

theorem run_recover_keep {e : IoError} (h : ¬ (os = .windows ∧ (fs path).isSome))
    (htemp : fs temp = some bytes) (hne : path ≠ temp) :
    (recover os f temp path e).run fs = (.error (.io path e), cleaned f temp fs) := by
  have hq : cleaned f temp fs path = fs path := cleaned_of_ne hne
  simp only [recover, run_bind, run_attempt, run_remove_temp htemp, run_get, hq]
  rw [if_neg h, run_throw]

theorem run_recover_windows {e : IoError} (hos : os = .windows) (hp : (fs path).isSome)
    (htemp : fs temp = some bytes) (hne : path ≠ temp) :
    (recover os f temp path e).run fs =
      if f.remove_target = false then (.error (.io path .denied), cleaned f temp fs)
      else if f.remove_temp then (.error (.io path .notFound), (fs.erase temp).erase path)
      else if f.rename_again = false then (.error (.io path .denied), fs.erase path)
      else (.ok (), ((fs.erase path).erase temp).set path bytes) := by
  have hq : cleaned f temp fs path = fs path := cleaned_of_ne hne
  simp only [recover, run_bind, run_attempt, run_remove_temp htemp, run_get, hq]
  rw [if_pos ⟨hos, hp⟩]
  obtain ⟨old, hold⟩ := Option.isSome_iff_exists.mp hp
  simp only [run_bind, run_map_err, run_remove_file, run_rename, hq, hold]
  cases ht : f.remove_target
  · rfl
  · cases hm : f.remove_temp
    · cases ha : f.rename_again <;>
        simp [cleaned, hm, Fs.erase_of_ne _ hne.symm, htemp, Except.mapError]
    · simp [cleaned, hm, Fs.erase_of_ne _ hne.symm, Except.mapError]

/-- The fallback leaves the target missing: Windows, an existing target whose removal succeeds, and
a temporary file that is already gone or cannot be renamed the second time. -/
structure DropsTarget (os : TargetOs) (f : Faults) (fs : Fs Path) (path : Path) : Prop where
  windows : os = .windows
  existing : (fs path).isSome
  target_removed : f.remove_target
  not_restored : f.remove_temp ∨ f.rename_again = false

theorem recover_atomic_iff {e : IoError} (htemp : fs temp = some bytes) (hne : path ≠ temp)
    (hb : fs path = before path) :
    Atomic before path bytes ((recover os f temp path e).run fs) ↔
      ¬ DropsTarget os f before path := by
  by_cases hw : os = .windows ∧ (fs path).isSome
  · rw [run_recover_windows hw.1 hw.2 htemp hne]
    have hex : (before path).isSome := hb ▸ hw.2
    by_cases ht : f.remove_target = false
    · rw [if_pos ht]
      exact iff_of_true (.of_error ((cleaned_of_ne hne).trans hb))
        fun h => absurd h.target_removed (by simp [ht])
    · rw [if_neg ht]
      have ht' : f.remove_target := by simpa using ht
      by_cases hm : f.remove_temp
      · rw [if_pos hm]
        exact iff_of_false (not_atomic_of_missing hex (Fs.erase_self _))
          (not_not.mpr ⟨hw.1, hex, ht', .inl hm⟩)
      · rw [if_neg hm]
        by_cases ha : f.rename_again = false
        · rw [if_pos ha]
          exact iff_of_false (not_atomic_of_missing hex (Fs.erase_self _))
            (not_not.mpr ⟨hw.1, hex, ht', .inr ha⟩)
        · rw [if_neg ha]
          exact iff_of_true (.of_ok (Fs.set_self _ _)) fun h => h.not_restored.elim hm ha
  · rw [run_recover_keep hw htemp hne]
    exact iff_of_true (.of_error ((cleaned_of_ne hne).trans hb))
      fun h => hw ⟨h.windows, hb ▸ h.existing⟩

theorem run_replace (htemp : fs temp = some bytes) :
    (replace os f temp path).run fs =
      if f.rename then (.ok (), (fs.erase temp).set path bytes)
      else (recover os f temp path .denied).run fs := by
  rw [replace, run_bind, run_attempt, run_rename, htemp]
  cases f.rename <;> rfl

theorem replace_atomic_iff (htemp : fs temp = some bytes) (hne : path ≠ temp)
    (hb : fs path = before path) :
    Atomic before path bytes ((replace os f temp path).run fs) ↔
      ¬ (f.rename = false ∧ DropsTarget os f before path) := by
  rw [run_replace htemp]
  cases hr : f.rename
  · rw [if_neg Bool.false_ne_true, recover_atomic_iff htemp hne hb]
    simp
  · exact iff_of_true (.of_ok (Fs.set_self _ _)) fun h => nomatch h.1

end Replace

/-! ## The whole call -/

/-- The call reaches the rename over the target with every byte in the temporary file. -/
structure ReachesRename (f : Faults) (path : Path) : Prop where
  parent_made : (parent path).isSome → f.create_dir_all
  filled : f.Fills

/-- The runs that lose an existing document. -/
structure LosesTarget (os : TargetOs) (f : Faults) (fs : Fs Path) (path : Path) : Prop where
  reaches : ReachesRename f path
  rename_fails : f.rename = false
  drops : DropsTarget os f fs path

theorem run_write_atomic_of_reaches {os : TargetOs} {f : Faults} (h : ReachesRename f path)
    (pid counter : ℕ) :
    (write_atomic os f pid counter path bytes).run fs =
      (replace os f (temp_path pid counter path) path).run
        (fs.set (temp_path pid counter path) bytes) := by
  cases hp : parent path with
  | none => simp only [write_atomic, hp, run_bind, run_write_temp_of_fills h.filled]
  | some dir =>
    have hd : f.create_dir_all := h.parent_made (by simp [hp])
    simp only [write_atomic, hp, run_bind, run_map_err, run_pass, hd, if_true, Except.mapError,
      run_write_temp_of_fills h.filled]

theorem run_write_atomic_of_not_reaches {os : TargetOs} {f : Faults} (h : ¬ ReachesRename f path)
    (pid counter : ℕ) (bytes : Bytes) (fs : Fs Path) :
    ∃ e fs', (write_atomic os f pid counter path bytes).run fs = (.error e, fs') ∧
      fs' path = fs path := by
  have hne := (temp_path_ne pid counter path).symm
  by_cases hp : (parent path).isSome → f.create_dir_all
  · have hf : ¬ f.Fills := fun hf => h ⟨hp, hf⟩
    obtain ⟨e, fs', hrun, hrest⟩ :=
      run_write_temp_of_not_fills hf (temp_path pid counter path) bytes fs
    refine ⟨e, fs', ?_, hrest path hne⟩
    cases hq : parent path with
    | none => simp only [write_atomic, hq, run_bind, hrun]
    | some dir =>
      have hd : f.create_dir_all := hp (by simp [hq])
      simp only [write_atomic, hq, run_bind, run_map_err, run_pass, hd, if_true, Except.mapError,
        hrun]
  · obtain ⟨hsome, hd⟩ := Classical.not_imp.mp hp
    obtain ⟨dir, hdir⟩ := Option.isSome_iff_exists.mp hsome
    refine ⟨.io dir .denied, fs, ?_, rfl⟩
    simp [write_atomic, hdir, run_bind, hd, Except.mapError]

theorem write_atomic_of_not_reaches {os : TargetOs} {f : Faults} (h : ¬ ReachesRename f path)
    (pid counter : ℕ) :
    Atomic fs path bytes ((write_atomic os f pid counter path bytes).run fs) := by
  obtain ⟨e, fs', hrun, hsame⟩ := run_write_atomic_of_not_reaches h pid counter bytes fs
  rw [hrun]
  exact .of_error hsame

/-- **A call is atomic unless it loses the target**, for every target, every contents, every fault
pattern and both systems. -/
theorem write_atomic_atomic_iff (os : TargetOs) (f : Faults) (pid counter : ℕ) (path : Path)
    (bytes : Bytes) (fs : Fs Path) :
    Atomic fs path bytes ((write_atomic os f pid counter path bytes).run fs) ↔
      ¬ LosesTarget os f fs path := by
  have hne := (temp_path_ne pid counter path).symm
  by_cases h : ReachesRename f path
  · rw [run_write_atomic_of_reaches h, replace_atomic_iff (fs.set_self _) hne (fs.set_of_ne _ hne)]
    exact not_congr ⟨fun ⟨hr, hd⟩ => ⟨h, hr, hd⟩, fun hl => ⟨hl.rename_fails, hl.drops⟩⟩
  · exact iff_of_true (write_atomic_of_not_reaches h pid counter) fun hl => h hl.reaches

/-! ## Results and other files -/

theorem write_atomic_of_loses {os : TargetOs} {f : Faults} (h : LosesTarget os f fs path)
    (pid counter : ℕ) (bytes : Bytes) :
    ∃ e fs', (write_atomic os f pid counter path bytes).run fs = (.error e, fs') ∧
      fs' path = none := by
  obtain ⟨hreaches, hrename, hdrops⟩ := h
  have hne := (temp_path_ne pid counter path).symm
  have htemp := fs.set_self (p := temp_path pid counter path) bytes
  have hexisting : (fs.set (temp_path pid counter path) bytes path).isSome := by
    rw [fs.set_of_ne _ hne]
    exact hdrops.existing
  rw [run_write_atomic_of_reaches hreaches, run_replace htemp, hrename,
    if_neg Bool.false_ne_true, run_recover_windows hdrops.windows hexisting htemp hne,
    hdrops.target_removed, if_neg (by decide)]
  split
  · exact ⟨_, _, rfl, Fs.erase_self _⟩
  next hkept =>
    have hagain := hdrops.not_restored.resolve_left hkept
    rw [if_pos hagain]
    exact ⟨_, _, rfl, Fs.erase_self _⟩

/-- The calls that succeed: the rename goes through, or on Windows the second one does, with the
temporary file still there. -/
structure Lands (os : TargetOs) (f : Faults) (fs : Fs Path) (path : Path) : Prop where
  reaches : ReachesRename f path
  replaced : f.rename ∨ os = .windows ∧ (fs path).isSome ∧ f.remove_target ∧
    f.remove_temp = false ∧ f.rename_again

instance (os : TargetOs) (f : Faults) (fs : Fs Path) (path : Path) :
    Decidable (Lands os f fs path) :=
  decidable_of_iff
    ((((parent path).isSome → f.create_dir_all) ∧ f.create ∧ f.write_all = none ∧ f.sync_all) ∧
      (f.rename ∨ os = .windows ∧ (fs path).isSome ∧ f.remove_target ∧ f.remove_temp = false ∧
        f.rename_again))
    ⟨fun ⟨⟨hp, hc, hw, hs⟩, h⟩ => ⟨⟨hp, hc, hw, hs⟩, h⟩,
      fun ⟨⟨hp, hc, hw, hs⟩, h⟩ => ⟨⟨hp, hc, hw, hs⟩, h⟩⟩

theorem write_atomic_ok_iff (os : TargetOs) (f : Faults) (pid counter : ℕ) (path : Path)
    (bytes : Bytes) (fs : Fs Path) :
    ((write_atomic os f pid counter path bytes).run fs).1 = .ok () ↔ Lands os f fs path := by
  by_cases hreaches : ReachesRename f path
  swap
  · obtain ⟨e, fs', hrun, -⟩ := run_write_atomic_of_not_reaches hreaches pid counter bytes fs
    rw [hrun]
    refine iff_of_false (fun h => ?_) fun h => hreaches h.reaches
    cases h
  have hne := (temp_path_ne pid counter path).symm
  have htemp := fs.set_self (p := temp_path pid counter path) bytes
  have hsame := fs.set_of_ne bytes hne
  have hlands : Lands os f fs path ↔ _ := ⟨Lands.replaced, fun h => ⟨hreaches, h⟩⟩
  rw [hlands, run_write_atomic_of_reaches hreaches, run_replace htemp]
  cases hrename : f.rename with
  | true => exact iff_of_true rfl (.inl rfl)
  | false =>
    rw [if_neg Bool.false_ne_true, or_iff_right Bool.false_ne_true]
    by_cases hw : os = .windows ∧ (fs path).isSome
    · have hexisting : (fs.set (temp_path pid counter path) bytes path).isSome := hsame ▸ hw.2
      rw [run_recover_windows hw.1 hexisting htemp hne]
      cases f.remove_target <;> cases f.remove_temp <;> cases f.rename_again <;> simp [hw.1, hw.2]
    · have hnot : ¬ (os = .windows ∧
          (fs.set (temp_path pid counter path) bytes path).isSome) := by rwa [hsame]
      rw [run_recover_keep hnot htemp hne]
      refine iff_of_false (fun h => ?_) fun h => hw ⟨h.1, h.2.1⟩
      cases h

/-- A call that succeeds leaves the new contents. -/
theorem write_atomic_ok {os : TargetOs} {f : Faults} {pid counter : ℕ}
    (h : ((write_atomic os f pid counter path bytes).run fs).1 = .ok ()) :
    ((write_atomic os f pid counter path bytes).run fs).2 path = some bytes := by
  by_cases hloses : LosesTarget os f fs path
  · obtain ⟨e, fs', hrun, -⟩ := write_atomic_of_loses hloses pid counter bytes
    rw [hrun] at h
    cases h
  · exact ((write_atomic_atomic_iff os f pid counter path bytes fs).mpr hloses).ok_new h

/-- A call that fails leaves the old contents, unless it loses the target. -/
theorem write_atomic_error {os : TargetOs} {f : Faults} {pid counter : ℕ} {e : StoreError}
    (h : ((write_atomic os f pid counter path bytes).run fs).1 = .error e) :
    LosesTarget os f fs path ∧
        ((write_atomic os f pid counter path bytes).run fs).2 path = none ∨
      ¬ LosesTarget os f fs path ∧
        ((write_atomic os f pid counter path bytes).run fs).2 path = fs path := by
  by_cases hloses : LosesTarget os f fs path
  · obtain ⟨e', fs', hrun, hgone⟩ := write_atomic_of_loses hloses pid counter bytes
    rw [hrun]
    exact .inl ⟨hloses, hgone⟩
  · exact .inr ⟨hloses,
      ((write_atomic_atomic_iff os f pid counter path bytes fs).mpr hloses).err_old e h⟩

/-- No other file changes but the temporary one. -/
theorem write_atomic_untouched (os : TargetOs) (f : Faults) (pid counter : ℕ) (bytes : Bytes)
    {q : Path} (hpath : q ≠ path) (htemp : q ≠ temp_path pid counter path) :
    Untouched q (write_atomic os f pid counter path bytes) := by
  have hfill : Untouched q (write_temp f (temp_path pid counter path) bytes) :=
    untouched_bind (untouched_map_err _ (untouched_create _ htemp)) fun _ =>
      untouched_bind (untouched_map_err _ (untouched_write_all _ _ htemp)) fun _ =>
        untouched_map_err _ (untouched_pass _)
  have hrecover (error : IoError) :
      Untouched q (recover os f (temp_path pid counter path) path error) := by
    refine untouched_bind (untouched_attempt (untouched_remove_file _ htemp)) fun _ =>
      untouched_bind untouched_get fun _ => ?_
    split
    · exact untouched_bind (untouched_map_err _ (untouched_remove_file _ hpath)) fun _ =>
        untouched_map_err _ (untouched_rename _ htemp hpath)
    · exact untouched_throw _
  have hreplace : Untouched q (replace os f (temp_path pid counter path) path) := by
    refine untouched_bind (untouched_attempt (untouched_rename _ htemp hpath)) fun r => ?_
    cases r with
    | ok _ => exact untouched_pure _
    | error error => exact hrecover error
  unfold write_atomic
  cases parent path with
  | none => exact untouched_bind hfill fun _ => hreplace
  | some dir =>
    exact untouched_bind (untouched_map_err _ (untouched_pass _)) fun _ =>
      untouched_bind hfill fun _ => hreplace

/-- A Windows call whose first rename fails on an existing document, with no other fault: the
document is gone. -/
theorem write_atomic_windows_missing :
    ((write_atomic .windows ⟨true, true, none, true, false, true, true, true⟩ 7 0 ["hosts.json"]
      [91, 93]).run (fun p => if p = ["hosts.json"] then some [123, 125] else none)).2
      ["hosts.json"] = none ∧
    ¬ Atomic (fun p => if p = ["hosts.json"] then some [123, 125] else none) ["hosts.json"] [91, 93]
      ((write_atomic .windows ⟨true, true, none, true, false, true, true, true⟩ 7 0 ["hosts.json"]
        [91, 93]).run (fun p => if p = ["hosts.json"] then some [123, 125] else none)) :=
  have h : ((write_atomic .windows ⟨true, true, none, true, false, true, true, true⟩ 7 0
      ["hosts.json"] [91, 93]).run
      (fun p => if p = ["hosts.json"] then some [123, 125] else none)).2 ["hosts.json"] = none := by
    decide
  ⟨h, not_atomic_of_missing (by decide) h⟩

end WaSSH.Store
