import Mathlib.Logic.Function.Basic
import Mathlib.Data.Nat.Notation
import Mathlib.Tactic.SplitIfs

/-!
# File systems as maps from paths to bytes

A file system is a map from paths to contents. A program on it is an exception computation over
that state; every operation takes from its environment whether it succeeds, so a fault pattern is
an argument and not a case of its own.

* `Fs`, `Fs.set`, `Fs.erase` and their lookup lemmas;
* `FsM`: programs, with `map_err` and `attempt` for the two ways a caller treats a failure;
* `create`, `write_all`, `rename`, `remove_file`, `open_file` with one run lemma each;
* `Untouched`, `KeptOnError`: programs that change nothing at a path, or nothing if they fail;
* `wp`: weakest preconditions, with **`wp_bind`** and one rule for each operation.
-/

namespace FileMap

/-- File contents. -/
abbrev Bytes := List UInt8

/-- A file system: the contents of every file that exists. -/
def Fs (P : Type*) := P → Option Bytes

/-- Why an operation failed. -/
inductive IoError
  | notFound
  | denied
  deriving DecidableEq, Repr

namespace Fs

variable {P : Type*} [DecidableEq P]

/-- The file system with `b` as the contents of `p`. -/
def set (fs : Fs P) (p : P) (b : Bytes) : Fs P := Function.update fs p (some b)

/-- The file system without `p`. -/
def erase (fs : Fs P) (p : P) : Fs P := Function.update fs p none

variable (fs : Fs P) {p q : P} (b : Bytes)

@[simp] theorem set_self : fs.set p b p = some b := Function.update_self ..

@[simp] theorem erase_self : fs.erase p p = none := Function.update_self ..

@[simp] theorem set_set (c : Bytes) : (fs.set p b).set p c = fs.set p c :=
  Function.update_idem ..

theorem set_of_ne (h : q ≠ p) : fs.set p b q = fs q := Function.update_of_ne h ..

theorem erase_of_ne (h : q ≠ p) : fs.erase p q = fs q := Function.update_of_ne h ..

end Fs

/-- A program on a file system that may fail with an `ε`. -/
abbrev FsM (P ε : Type) := ExceptT ε (StateM (Fs P))

/-! ## Control -/

section Control

variable {P : Type} {ε ε' α β : Type} (fs : Fs P)

/-- `Result::map_err`. -/
def map_err (f : ε → ε') (x : FsM P ε α) : FsM P ε' α := ExceptT.adapt f x

/-- Run `x` and keep its result as a value, as `let _ = x` and `if let Err(e) = x` do. -/
def attempt (x : FsM P ε α) : FsM P ε' (Except ε α) := ExceptT.lift x.run

/-- A step that leaves every file as it is. -/
def pass (ok : Bool) : FsM P IoError Unit := if ok then pure () else throw .denied

/-- Open an existing file. -/
def open_file (ok : Bool) (p : P) : FsM P IoError Unit := do
  if ((← get) p).isNone then throw .notFound
  else pass ok

@[simp] theorem run_pure (a : α) : (pure a : FsM P ε α).run fs = (.ok a, fs) := rfl

@[simp] theorem run_throw (e : ε) : (throw e : FsM P ε α).run fs = (.error e, fs) := rfl

@[simp] theorem run_get : (get : FsM P ε (Fs P)).run fs = (.ok fs, fs) := rfl

theorem run_bind (x : FsM P ε α) (f : α → FsM P ε β) :
    (x >>= f).run fs =
      match x.run fs with
      | (.ok a, fs') => (f a).run fs'
      | (.error e, fs') => (.error e, fs') := by
  change (ExceptT.bindCont f (x.run fs).1).run (x.run fs).2 = _
  rcases x.run fs with ⟨_ | _, fs'⟩ <;> rfl

@[simp] theorem run_map_err (f : ε → ε') (x : FsM P ε α) :
    (map_err f x).run fs = ((x.run fs).1.mapError f, (x.run fs).2) := rfl

@[simp] theorem run_attempt (x : FsM P ε α) :
    (attempt x : FsM P ε' (Except ε α)).run fs = (.ok (x.run fs).1, (x.run fs).2) := rfl

@[simp] theorem run_pass (ok : Bool) :
    (pass ok).run fs = (if ok then .ok () else .error .denied, fs) := by
  cases ok <;> rfl

theorem run_open_file (ok : Bool) (p : P) :
    (open_file ok p).run fs =
      if (fs p).isNone then (.error .notFound, fs)
      else if ok then (.ok (), fs) else (.error .denied, fs) := by
  change (if (fs p).isNone then _ else _ : FsM P IoError Unit).run fs = _
  cases (fs p).isNone <;> cases ok <;> rfl

end Control

/-! ## Operations on files -/

section Files

variable {P : Type} [DecidableEq P] (fs : Fs P)

/-- `File::create`: an empty file, in place of whatever was there. -/
def create (ok : Bool) (p : P) : FsM P IoError Unit :=
  if ok then modify (·.set p []) else throw .denied

/-- `write_all` at the end of a file: all of `bytes`, or a failure after the first `n` of them. -/
def write_all (cut : Option ℕ) (p : P) (bytes : Bytes) : FsM P IoError Unit := do
  let old := ((← get) p).getD []
  match cut with
  | none => modify (·.set p (old ++ bytes))
  | some n => do
    modify (·.set p (old ++ bytes.take n))
    throw .denied

/-- `fs::rename`: the file moves, replacing what was at the target. -/
def rename (ok : Bool) (src dst : P) : FsM P IoError Unit := do
  match (← get) src with
  | none => throw .notFound
  | some b => if ok then modify fun fs => (fs.erase src).set dst b else throw .denied

/-- `fs::remove_file`. -/
def remove_file (ok : Bool) (p : P) : FsM P IoError Unit := do
  if ((← get) p).isNone then throw .notFound
  else if ok then modify (·.erase p) else throw .denied

theorem run_create (ok : Bool) (p : P) :
    (create ok p).run fs = if ok then (.ok (), fs.set p []) else (.error .denied, fs) := by
  cases ok <;> rfl

theorem run_write_all (cut : Option ℕ) (p : P) (b : Bytes) :
    (write_all cut p b).run fs =
      match cut with
      | none => (.ok (), fs.set p ((fs p).getD [] ++ b))
      | some n => (.error .denied, fs.set p ((fs p).getD [] ++ b.take n)) := by
  cases cut <;> rfl

theorem run_rename (ok : Bool) (src dst : P) :
    (rename ok src dst).run fs =
      match fs src with
      | none => (.error .notFound, fs)
      | some b =>
        if ok then (.ok (), (fs.erase src).set dst b) else (.error .denied, fs) := by
  change (match fs src with | none => _ | some b => _ : FsM P IoError Unit).run fs = _
  cases fs src with
  | none => rfl
  | some b => cases ok <;> rfl

theorem run_remove_file (ok : Bool) (p : P) :
    (remove_file ok p).run fs =
      if (fs p).isNone then (.error .notFound, fs)
      else if ok then (.ok (), fs.erase p) else (.error .denied, fs) := by
  change (if (fs p).isNone then _ else _ : FsM P IoError Unit).run fs = _
  cases (fs p).isNone <;> cases ok <;> rfl

end Files

/-! ## What a program leaves alone -/

section Untouched

variable {P : Type} {ε ε' α β : Type} {q : P}

/-- The program changes nothing at `q`. -/
def Untouched (q : P) (x : FsM P ε α) : Prop := ∀ fs : Fs P, (x.run fs).2 q = fs q

theorem untouched_pure (a : α) : Untouched q (pure a : FsM P ε α) := fun _ => rfl

theorem untouched_throw (e : ε) : Untouched q (throw e : FsM P ε α) := fun _ => rfl

theorem untouched_get : Untouched q (get : FsM P ε (Fs P)) := fun _ => rfl

theorem untouched_bind {x : FsM P ε α} {f : α → FsM P ε β} (hx : Untouched q x)
    (hf : ∀ a, Untouched q (f a)) : Untouched q (x >>= f) := by
  intro fs
  have hfirst := hx fs
  rw [run_bind]
  generalize x.run fs = r at hfirst ⊢
  rcases r with ⟨e | a, fs'⟩
  · exact hfirst
  · exact (hf a fs').trans hfirst

theorem untouched_map_err {x : FsM P ε α} (f : ε → ε') (hx : Untouched q x) :
    Untouched q (map_err f x) := hx

theorem untouched_attempt {x : FsM P ε α} (hx : Untouched q x) :
    Untouched q (attempt x : FsM P ε' (Except ε α)) := hx

theorem untouched_pass (ok : Bool) : Untouched q (pass ok) := fun fs => by rw [run_pass]

variable [DecidableEq P] {p : P}

theorem untouched_create (ok : Bool) (hne : q ≠ p) : Untouched q (create ok p) := by
  intro fs
  rw [run_create]
  split
  · exact fs.set_of_ne _ hne
  · rfl

theorem untouched_write_all (cut : Option ℕ) (bytes : Bytes) (hne : q ≠ p) :
    Untouched q (write_all cut p bytes) := by
  intro fs
  rw [run_write_all]
  cases cut <;> exact fs.set_of_ne _ hne

theorem untouched_rename (ok : Bool) {dst : P} (hsrc : q ≠ p) (hdst : q ≠ dst) :
    Untouched q (rename ok p dst) := by
  intro fs
  rw [run_rename]
  split
  · rfl
  · split
    · exact (Fs.set_of_ne _ _ hdst).trans (fs.erase_of_ne hsrc)
    · rfl

theorem untouched_remove_file (ok : Bool) (hne : q ≠ p) : Untouched q (remove_file ok p) := by
  intro fs
  rw [run_remove_file]
  split
  · rfl
  · split
    · exact fs.erase_of_ne hne
    · rfl

end Untouched

/-! ## What a failure leaves alone -/

section KeptOnError

variable {P : Type} {ε ε' α β : Type} {q : P}

/-- A run of the program that fails changes nothing at `q`. -/
def KeptOnError (q : P) (x : FsM P ε α) : Prop :=
  ∀ (fs : Fs P) (e : ε), (x.run fs).1 = .error e → (x.run fs).2 q = fs q

theorem Untouched.keptOnError {x : FsM P ε α} (hx : Untouched q x) : KeptOnError q x :=
  fun fs _ _ => hx fs

theorem keptOnError_map_err {x : FsM P ε α} (f : ε → ε') (hx : KeptOnError q x) :
    KeptOnError q (map_err f x) := by
  intro fs e h
  rw [run_map_err] at h ⊢
  cases hr : (x.run fs).1 with
  | ok a => rw [hr] at h; cases h
  | error e' => exact hx fs e' hr

/-- What may fail comes after what changes nothing at `q`. -/
theorem keptOnError_bind {x : FsM P ε α} {f : α → FsM P ε β} (hx : Untouched q x)
    (hf : ∀ a, KeptOnError q (f a)) : KeptOnError q (x >>= f) := by
  intro fs e h
  have hfirst := hx fs
  rw [run_bind] at h ⊢
  generalize x.run fs = r at h hfirst ⊢
  rcases r with ⟨e' | a, fs'⟩
  · exact hfirst
  · exact (hf a fs' e h).trans hfirst

theorem keptOnError_bind_pure {x : FsM P ε α} (g : α → β) (hx : KeptOnError q x) :
    KeptOnError q (x >>= fun a => pure (g a)) := by
  intro fs e h
  have hfirst := hx fs
  rw [run_bind] at h ⊢
  generalize x.run fs = r at h hfirst ⊢
  rcases r with ⟨e' | a, fs'⟩
  · exact hfirst e' rfl
  · cases h

end KeptOnError

/-! ## Postconditions -/

section Wp

variable {P : Type} {ε ε' α β : Type} {fs : Fs P}

/-- Weakest precondition: `x` ends in `fs` with a result and a file system that satisfy `Q`. -/
def wp (x : FsM P ε α) (Q : Except ε α → Fs P → Prop) (fs : Fs P) : Prop :=
  Q (x.run fs).1 (x.run fs).2

/-- What must hold after the first part of a sequence, `rest` being what its success leads to. -/
def Continues (rest : α → Fs P → Prop) (Q : Except ε β → Fs P → Prop) :
    Except ε α → Fs P → Prop
  | .ok a, fs => rest a fs
  | .error e, fs => Q (.error e) fs

theorem continues_ok {rest : α → Fs P → Prop} {Q : Except ε β → Fs P → Prop} {a : α} :
    Continues rest Q (.ok a) fs ↔ rest a fs := Iff.rfl

theorem wp_mono {x : FsM P ε α} {Q R : Except ε α → Fs P → Prop} (h : wp x Q fs)
    (hQR : ∀ r fs', Q r fs' → R r fs') : wp x R fs := hQR _ _ h

theorem wp_pure {a : α} {Q : Except ε α → Fs P → Prop} : wp (pure a) Q fs ↔ Q (.ok a) fs := Iff.rfl

theorem wp_bind {x : FsM P ε α} {f : α → FsM P ε β} {Q : Except ε β → Fs P → Prop} :
    wp (x >>= f) Q fs ↔ wp x (Continues (fun a => wp (f a) Q) Q) fs := by
  unfold wp
  rw [run_bind]
  rcases x.run fs with ⟨_ | _, fs'⟩ <;> exact Iff.rfl

theorem wp_get {f : Fs P → FsM P ε β} {Q : Except ε β → Fs P → Prop} :
    wp (get >>= f) Q fs ↔ wp (f fs) Q fs := by
  rw [wp_bind]
  exact Iff.rfl

theorem wp_map_err {f : ε → ε'} {x : FsM P ε α} {Q : Except ε' α → Fs P → Prop} :
    wp (map_err f x) Q fs ↔ wp x (fun r => Q (r.mapError f)) fs := Iff.rfl

theorem wp_pass {ok : Bool} {Q : Except IoError Unit → Fs P → Prop} :
    wp (pass ok) Q fs ↔ if ok then Q (.ok ()) fs else Q (.error .denied) fs := by
  cases ok <;> exact Iff.rfl

theorem wp_open_file {ok : Bool} {p : P} {Q : Except IoError Unit → Fs P → Prop} :
    wp (open_file ok p) Q fs ↔
      if (fs p).isNone then Q (.error .notFound) fs
      else if ok then Q (.ok ()) fs else Q (.error .denied) fs := by
  rw [wp, run_open_file]
  split_ifs <;> exact Iff.rfl

variable [DecidableEq P]

theorem wp_create {ok : Bool} {p : P} {Q : Except IoError Unit → Fs P → Prop} :
    wp (create ok p) Q fs ↔ if ok then Q (.ok ()) (fs.set p []) else Q (.error .denied) fs := by
  cases ok <;> exact Iff.rfl

theorem wp_write_all {cut : Option ℕ} {p : P} {b : Bytes}
    {Q : Except IoError Unit → Fs P → Prop} :
    wp (write_all cut p b) Q fs ↔
      match cut with
      | none => Q (.ok ()) (fs.set p ((fs p).getD [] ++ b))
      | some n => Q (.error .denied) (fs.set p ((fs p).getD [] ++ b.take n)) := by
  rw [wp, run_write_all]
  cases cut <;> exact Iff.rfl

end Wp

end FileMap
