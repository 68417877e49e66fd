import WaSSH.Store.Atomic

/-!
# JSON files

* `Serde`: how the values of a type become bytes and come back, as code outside gives it;
* `write_json`, `read_json`;
* `Writes`, `Loses`, and **`write_json_cases`**: what each write leaves in its file.
-/

namespace WaSSH.Store

open FileMap

/-- How the values of a type are written and read. -/
structure Serde (T : Type) where
  to_vec_pretty : T → Option Bytes
  from_slice : Bytes → Option T

/-- Why a file was not read or written. -/
inductive JsonError
  | io (source : StoreError)
  | json (path : Path)
  deriving DecidableEq

/-- One attempt to write a file: what succeeds, and the number of its temporary file. -/
structure Write where
  faults : Faults
  counter : ℕ

variable {T : Type} (serde : Serde T) (os : TargetOs) (pid : ℕ) (write : Write) (path : Path)
  (value : T) (fs : Fs Path)

/-- Serialise `value` as pretty JSON (with a trailing newline) and write it atomically. -/
def write_json : FsM Path JsonError Unit :=
  match serde.to_vec_pretty value with
  | none => throw (.json path)
  | some bytes =>
    map_err .io (write_atomic os write.faults pid write.counter path (bytes ++ [10]))

/-- Read and parse a JSON document. A missing file yields `Ok(None)`. -/
def read_json (readable : Bool) : Except JsonError (Option T) :=
  if readable then
    match fs path with
    | none => .ok none
    | some bytes =>
      match serde.from_slice bytes with
      | some value => .ok (some value)
      | none => .error (.json path)
  else .error (.io (.io path .denied))

/-! ## What a write does -/

/-- The value can be written, and the write succeeds. -/
def Writes : Prop := (serde.to_vec_pretty value).isSome ∧ Lands os write.faults fs path

/-- The value can be written, and the write loses the file. -/
def Loses : Prop := (serde.to_vec_pretty value).isSome ∧ LosesTarget os write.faults fs path

instance : Decidable (Writes serde os write path value fs) :=
  inferInstanceAs (Decidable (_ ∧ _))

/-- **A write** succeeds and leaves the value in its file, or fails and leaves the file, unless it
loses it; the other files but the temporary one are as they were. -/
theorem write_json_cases :
    ∃ fs', (∀ q, q ≠ path → q ≠ temp_path pid write.counter path → fs' q = fs q) ∧
      (Writes serde os write path value fs ∧
          (∃ json, serde.to_vec_pretty value = some json ∧ fs' path = some (json ++ [10])) ∧
          (write_json serde os pid write path value).run fs = (.ok (), fs') ∨
        ¬ Writes serde os write path value fs ∧
          (Loses serde os write path value fs ∧ fs' path = none ∨
            ¬ Loses serde os write path value fs ∧ fs' path = fs path) ∧
          ∃ error, (write_json serde os pid write path value).run fs = (.error error, fs')) := by
  unfold write_json Writes Loses
  cases hjson : serde.to_vec_pretty value with
  | none => exact ⟨fs, fun _ _ _ => rfl, .inr ⟨nofun, .inr ⟨nofun, rfl⟩, .json path, rfl⟩⟩
  | some json =>
    have hok := write_atomic_ok_iff os write.faults pid write.counter path (json ++ [10]) fs
    refine ⟨_, fun q hpath htemp => write_atomic_untouched os write.faults pid write.counter
      (json ++ [10]) hpath htemp fs, ?_⟩
    dsimp only
    rw [run_map_err, ← hok]
    cases hresult : ((write_atomic os write.faults pid write.counter path
      (json ++ [10])).run fs).1 with
    | ok done => exact .inl ⟨⟨rfl, rfl⟩, ⟨json, rfl, write_atomic_ok hresult⟩, rfl⟩
    | error error =>
      refine .inr ⟨nofun, ?_, .io error, rfl⟩
      exact (write_atomic_error hresult).imp (And.imp_left fun h => ⟨rfl, h⟩)
        (And.imp_left fun h h' => h h'.2)

end WaSSH.Store
