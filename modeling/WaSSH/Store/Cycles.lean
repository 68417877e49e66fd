import Mathlib.Logic.Relation
import WaSSH.Store.Document

/-!
# Loading and saving again and again

* `Serde.ReadsBack`: what is written of a value reads as that value;
* `Cycle`: a document is loaded and saved;
* `Stored`: the file holds what is written of a value;
* `Cycle.stored`, `Cycle.of_stored`: a cycle ends so, and changes nothing where it begins so;
* **`Cycle.steady`**: where normalising twice is normalising once, no cycle after the first changes
  the value or a file.
-/

namespace WaSSH.Store

open FileMap Relation

variable {T : Type}

/-- What is written of `value` reads as `value`. -/
def Serde.ReadsBack (serde : Serde T) (value : T) : Prop :=
  ∀ json, serde.to_vec_pretty value = some json → serde.from_slice (json ++ [10]) = some value

/-- One document of the data directory. -/
structure DocumentFile (T : Type) where
  serde : Serde T
  os : TargetOs
  pid : ℕ
  path : Path
  default : T
  normalize : T → T

namespace DocumentFile

variable (d : DocumentFile T)

/-- `open_lenient`, of a file that may be read. -/
def load (renames : Bool) (fs : Fs Path) : JsonDocument T × Fs Path :=
  JsonDocument.open_lenient d.serde d.path d.default d.normalize true renames fs

/-- The document is loaded as `value` and saved. -/
def Cycle (fs : Fs Path) (value : T) (fs' : Fs Path) : Prop :=
  ∃ renames write saved, (d.load renames fs).1.value = value ∧
    (d.load renames fs).1.save d.serde d.os d.pid write (d.load renames fs).2 =
      (.ok (), saved, fs')

/-- The file holds what is written of `value`. -/
def Stored (fs : Fs Path) (value : T) : Prop :=
  ∃ json, d.serde.to_vec_pretty value = some json ∧ fs d.path = some (json ++ [10])

/-- The files are the same but for temporary ones of the document. -/
def Same (fs fs' : Fs Path) : Prop :=
  ∀ q, q = d.path ∨ (∀ counter, q ≠ temp_path d.pid counter d.path) → fs' q = fs q

/-- Cycles change nothing from here on. -/
def Steady (fs : Fs Path) (value : T) : Prop :=
  ∀ fs', ReflTransGen (fun before after => ∃ loaded, d.Cycle before loaded after) fs fs' →
    d.Same fs fs' ∧ ∀ loaded after, d.Cycle fs' loaded after → loaded = value ∧ d.Same fs after

variable {d} {fs fs' : Fs Path} {value loaded : T}

/-- The value is one that was normalised. -/
theorem load_cases (d : DocumentFile T) (renames : Bool) (fs : Fs Path) :
    (d.load renames fs).1.path = d.path ∧
      ∃ raw, (d.load renames fs).1.value = d.normalize raw := by
  unfold load JsonDocument.open_lenient
  split
  · exact ⟨rfl, _, rfl⟩
  · exact ⟨rfl, _, rfl⟩
  · exact ⟨rfl, _, rfl⟩

/-- A value that reads back is loaded from its file. -/
theorem Stored.load (hstored : d.Stored fs value) (hread : d.serde.ReadsBack value)
    (renames : Bool) : d.load renames fs = (⟨d.path, d.normalize value, false⟩, fs) := by
  obtain ⟨json, hjson, hfile⟩ := hstored
  have hloaded : read_json d.serde d.path fs true = .ok (some value) := by
    simp only [read_json, if_true, hfile, hread json hjson]
  unfold DocumentFile.load JsonDocument.open_lenient
  rw [hloaded]

theorem save_stores {doc saved : JsonDocument T} {write : Write} (hpath : doc.path = d.path)
    (h : doc.save d.serde d.os d.pid write fs = (.ok (), saved, fs')) :
    d.Stored fs' doc.value ∧
      ∀ q, q ≠ d.path → (∀ counter, q ≠ temp_path d.pid counter d.path) → fs' q = fs q := by
  obtain ⟨out, hsame, hcases⟩ :=
    write_json_cases d.serde d.os d.pid write doc.path doc.value fs
  obtain ⟨-, ⟨json, hjson, hfile⟩, hrun⟩ | ⟨-, -, error, hrun⟩ := hcases
  · rw [JsonDocument.save_of_ok _ _ _ _ (congrArg Prod.fst hrun), hrun] at h
    obtain rfl : out = fs' := congrArg (fun r => r.2.2) h
    rw [hpath] at hsame hfile
    exact ⟨⟨json, hjson, hfile⟩, fun q hq htemp => hsame q hq (htemp write.counter)⟩
  · rw [JsonDocument.save_of_error _ _ _ _ (congrArg Prod.fst hrun)] at h
    cases congrArg Prod.fst h

/-- A cycle leaves its value, normalised, in the file. -/
theorem Cycle.stored (h : d.Cycle fs value fs') :
    d.Stored fs' value ∧ ∃ raw, value = d.normalize raw := by
  obtain ⟨renames, write, saved, rfl, hsave⟩ := h
  obtain ⟨hpath, hraw⟩ := load_cases d renames fs
  exact ⟨(save_stores hpath hsave).1, hraw⟩

/-- **Step lemma**: where the file holds a value that is normalised and reads back, a cycle loads it
and changes nothing. -/
theorem Cycle.of_stored (hstored : d.Stored fs value) (hread : d.serde.ReadsBack value)
    (hnormal : d.normalize value = value) (h : d.Cycle fs loaded fs') :
    loaded = value ∧ d.Stored fs' value ∧ d.Same fs fs' := by
  obtain ⟨renames, write, saved, rfl, hsave⟩ := h
  rw [hstored.load hread renames, hnormal] at hsave ⊢
  obtain ⟨hstored', hothers⟩ := save_stores rfl hsave
  refine ⟨rfl, hstored', fun q hq => ?_⟩
  obtain ⟨json, hjson, hfile⟩ := hstored
  obtain ⟨json', hjson', hfile'⟩ := hstored'
  by_cases hpath : q = d.path
  · have hjsons : json = json' := Option.some.inj (hjson.symm.trans hjson')
    rw [hpath, hfile, hfile', hjsons]
  · exact hothers q hpath (hq.resolve_left hpath)

/-- **Run lemma**: the cycles after the first change nothing. -/
theorem Cycle.steady (hidem : ∀ raw, d.normalize (d.normalize raw) = d.normalize raw)
    (hfirst : d.Cycle fs value fs') (hread : d.serde.ReadsBack value) : d.Steady fs' value := by
  intro later hcycles
  obtain ⟨hstored, raw, rfl⟩ := hfirst.stored
  have hrun : d.Stored later (d.normalize raw) ∧ d.Same fs' later := by
    induction hcycles with
    | refl => exact ⟨hstored, fun _ _ => rfl⟩
    | tail _ hcycle ih =>
      obtain ⟨loaded, hcycle⟩ := hcycle
      obtain ⟨-, hnext, hsame⟩ := hcycle.of_stored ih.1 hread (hidem raw)
      exact ⟨hnext, fun q hq => (hsame q hq).trans (ih.2 q hq)⟩
  refine ⟨hrun.2, fun loaded after hcycle => ?_⟩
  obtain ⟨hvalue, -, hsame⟩ := hcycle.of_stored hrun.1 hread (hidem raw)
  exact ⟨hvalue, fun q hq => (hsame q hq).trans (hrun.2 q hq)⟩

end DocumentFile

end WaSSH.Store
