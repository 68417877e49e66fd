import WaSSH.Lib.Run
import WaSSH.Store.Json

/-!
# Documents that are written when they change

A document is a value in memory and a file; a flag says that the file has not been written yet.

* `JsonDocument`, `save`, `set`, `update`, `get_mut`: one document;
* `Config`, `open`, `open_lenient`, `flush`: the three documents of the data directory;
* `Holds`, `Synced`: what a file holds, and that a document that is not marked is in its file;
* `Keeps`: an operation that leaves that so;
* **`synced_iff_keeps`**: in every run exactly while every operation is one of these, and then a
  flush that succeeds leaves everything on disk.
-/

namespace WaSSH.Store

open FileMap StepRun

/-! ## One document -/

/-- A typed document backed by one file. -/
structure JsonDocument (T : Type) where
  path : Path
  value : T
  dirty : Bool
  deriving DecidableEq

namespace JsonDocument

variable {T : Type} (serde : Serde T) (os : TargetOs) (pid : ℕ)

/-- Load `path`, falling back to `default` and applying `normalize` in both cases. -/
def «open» (path : Path) (default : T) (normalize : T → T) (readable : Bool) (fs : Fs Path) :
    Except JsonError (JsonDocument T) :=
  match read_json serde path fs readable with
  | .error error => .error error
  | .ok loaded => .ok ⟨path, normalize (loaded.getD default), loaded.isNone⟩

/-- `settings.json` -> `settings.json.corrupt`. -/
def corrupt_path (path : Path) : Path :=
  path.dropLast ++ [((file_name path).getD "") ++ ".corrupt"]

/-- Load `path` like `open`, but a corrupt file is moved aside. -/
def open_lenient (path : Path) (default : T) (normalize : T → T) (readable renames : Bool)
    (fs : Fs Path) : JsonDocument T × Fs Path :=
  match read_json serde path fs readable with
  | .ok (some value) => (⟨path, normalize value, false⟩, fs)
  | .ok none => (⟨path, normalize default, true⟩, fs)
  | .error _ =>
    (⟨path, normalize default, true⟩, ((rename renames path (corrupt_path path)).run fs).2)

variable (doc : JsonDocument T)

/-- Write the current value. -/
def save (write : Write) (fs : Fs Path) : Except JsonError Unit × JsonDocument T × Fs Path :=
  match (write_json serde os pid write doc.path doc.value).run fs with
  | (.ok (), fs) => (.ok (), { doc with dirty := false }, fs)
  | (.error error, fs) => (.error error, doc, fs)

theorem save_of_ok {write : Write} {fs : Fs Path}
    (h : ((write_json serde os pid write doc.path doc.value).run fs).1 = .ok ()) :
    doc.save serde os pid write fs =
      (.ok (), { doc with dirty := false },
        ((write_json serde os pid write doc.path doc.value).run fs).2) := by
  unfold save
  generalize (write_json serde os pid write doc.path doc.value).run fs = out at h ⊢
  obtain ⟨result, fs'⟩ := out
  obtain rfl : result = .ok () := h
  rfl

theorem save_of_error {write : Write} {fs : Fs Path} {error : JsonError}
    (h : ((write_json serde os pid write doc.path doc.value).run fs).1 = .error error) :
    doc.save serde os pid write fs =
      (.error error, doc, ((write_json serde os pid write doc.path doc.value).run fs).2) := by
  unfold save
  generalize (write_json serde os pid write doc.path doc.value).run fs = out at h ⊢
  obtain ⟨result, fs'⟩ := out
  obtain rfl : result = .error error := h
  rfl

/-- Replace the value and persist it. -/
def set (value : T) (write : Write) (fs : Fs Path) :
    Except JsonError Unit × JsonDocument T × Fs Path :=
  { doc with value }.save serde os pid write fs

/-- Mutate the value and persist it. -/
def update (change : T → T) (write : Write) (fs : Fs Path) :
    Except JsonError Unit × JsonDocument T × Fs Path :=
  { doc with value := change doc.value }.save serde os pid write fs

/-- `get_mut`, and a change of the value through it. -/
def get_mut (change : T → T) : JsonDocument T :=
  { doc with dirty := true, value := change doc.value }

end JsonDocument

/-! ## The three documents -/

inductive Kind
  | settings | hosts | tabs
  deriving DecidableEq

def Kind.file_name : Kind → String
  | settings => "settings.json"
  | hosts => "hosts.json"
  | tabs => "tabs.json"

/-- Where the documents are and what they are. -/
structure Setup (T : Kind → Type) where
  dir : Path
  serde (k : Kind) : Serde (T k)
  default (k : Kind) : T k
  normalize (k : Kind) : T k → T k
  os : TargetOs
  pid : ℕ

/-- The documents that are open, and the files. -/
structure Config (T : Kind → Type) where
  docs (k : Kind) : Option (JsonDocument (T k))
  fs : Fs Path

variable {T : Kind → Type} (c : Setup T)

/-- `settings_file`, `hosts_file`, `tabs_file`. -/
def Setup.file (k : Kind) : Path := c.dir ++ [k.file_name]

namespace Config

variable (w : Config T)

def put (k : Kind) (doc : JsonDocument (T k)) (fs : Fs Path) : Config T :=
  { docs := Function.update w.docs k (some doc), fs }

/-- What a write makes of a document that is open. -/
def with_doc (k : Kind)
    (f : JsonDocument (T k) → Fs Path → Except JsonError Unit × JsonDocument (T k) × Fs Path) :
    Except JsonError Unit × Config T :=
  match w.docs k with
  | none => (.ok (), w)
  | some doc =>
    let (result, doc, fs) := f doc w.fs
    (result, w.put k doc fs)

@[simp] theorem docs_put_self {k : Kind} (doc : JsonDocument (T k)) (fs : Fs Path) :
    (w.put k doc fs).docs k = some doc := Function.update_self ..

theorem docs_put_of_ne {k k' : Kind} (h : k' ≠ k) (doc : JsonDocument (T k)) (fs : Fs Path) :
    (w.put k doc fs).docs k' = w.docs k' := Function.update_of_ne h ..

def save (k : Kind) (write : Write) : Except JsonError Unit × Config T :=
  w.with_doc k fun doc => doc.save (c.serde k) c.os c.pid write

/-- `flush` of these documents. -/
def flush_each (writes : Kind → Write) : Config T → List Kind → Except JsonError Unit × Config T
  | w, [] => (.ok (), w)
  | w, k :: ks =>
    if (w.docs k).any (·.dirty) then
      match w.save c k (writes k) with
      | (.ok (), w) => flush_each writes w ks
      | (.error error, w) => (.error error, w)
    else flush_each writes w ks

/-- Persist every document that has not been written yet. -/
def flush (writes : Kind → Write) : Except JsonError Unit × Config T :=
  w.flush_each c writes [.settings, .hosts, .tabs]

end Config

/-- An operation on the documents. -/
inductive Op (T : Kind → Type)
  | «open» (k : Kind) (readable : Bool)
  | open_lenient (k : Kind) (readable renames : Bool)
  | set (k : Kind) (value : T k) (write : Write)
  | update (k : Kind) (change : T k → T k) (write : Write)
  | get_mut (k : Kind) (change : T k → T k)
  | save (k : Kind) (write : Write)
  | flush (writes : Kind → Write)

/-- The documents and files after an operation. -/
def step (w : Config T) : Op T → Config T
  | .open k readable =>
    match JsonDocument.open (c.serde k) (c.file k) (c.default k) (c.normalize k) readable w.fs with
    | .ok doc => w.put k doc w.fs
    | .error _ => w
  | .open_lenient k readable renames =>
    let (doc, fs) := JsonDocument.open_lenient (c.serde k) (c.file k) (c.default k) (c.normalize k)
      readable renames w.fs
    w.put k doc fs
  | .set k value write =>
    (w.with_doc k fun doc => doc.set (c.serde k) c.os c.pid value write).2
  | .update k change write =>
    (w.with_doc k fun doc => doc.update (c.serde k) c.os c.pid change write).2
  | .get_mut k change =>
    match w.docs k with
    | none => w
    | some doc => w.put k (doc.get_mut change) w.fs
  | .save k write => (w.save c k write).2
  | .flush writes => (w.flush c writes).2

/-! ## The files -/

theorem temp_name_ne (name : String) (pid counter : ℕ) {other : String}
    (h : other.toList.head? ≠ some '.') : s!".{name}.{pid}.{counter}.tmp" ≠ other := by
  rintro rfl
  refine h ?_
  simp [toString, String.toList_append]

namespace Setup

theorem file_ne {k k' : Kind} (h : k ≠ k') : c.file k ≠ c.file k' := by
  intro heq
  have hname := List.singleton_injective (List.append_cancel_left heq)
  refine h ?_
  revert hname
  cases k <;> cases k' <;> decide

theorem file_ne_temp (pid counter : ℕ) (k k' : Kind) :
    c.file k' ≠ temp_path pid counter (c.file k) := by
  unfold temp_path file
  rw [List.dropLast_concat]
  intro heq
  have hname := List.singleton_injective (List.append_cancel_left heq)
  refine temp_name_ne _ pid counter ?_ hname.symm
  cases k' <;> decide

theorem file_ne_corrupt (k k' : Kind) : c.file k' ≠ JsonDocument.corrupt_path (c.file k) := by
  have hname : file_name (c.file k) = some k.file_name := by
    unfold file_name file
    rw [List.getLast?_concat]
    cases k <;> rfl
  unfold JsonDocument.corrupt_path
  rw [hname, Option.getD_some]
  unfold file
  rw [List.dropLast_concat]
  intro heq
  have hsame := List.singleton_injective (List.append_cancel_left heq)
  revert hsame
  cases k <;> cases k' <;> decide

end Setup

/-! ## What a file holds -/

/-- The file is the value as it is written, or what is read from it is normalised to the value. -/
def Holds (fs : Fs Path) (k : Kind) (value : T k) : Prop :=
  ∃ bytes, fs (c.file k) = some bytes ∧
    ((∃ json, (c.serde k).to_vec_pretty value = some json ∧ bytes = json ++ [10]) ∨
      ∃ raw, (c.serde k).from_slice bytes = some raw ∧ c.normalize k raw = value)

/-- A document that is not marked is in its file. -/
def Synced (w : Config T) : Prop :=
  ∀ k doc, w.docs k = some doc →
    doc.path = c.file k ∧ (doc.dirty = false → Holds c w.fs k doc.value)

/-- A write that succeeds, is of a document that is marked, or of a value that its file holds and does
not lose. -/
def Stays (fs : Fs Path) (k : Kind) (dirty : Bool) (value : T k) (write : Write) : Prop :=
  Writes (c.serde k) c.os write (c.file k) value fs ∨ dirty = true ∨
    Holds c fs k value ∧ ¬ Loses (c.serde k) c.os write (c.file k) value fs

/-- An operation that leaves every document in its file or marked. -/
def Keeps (w : Config T) : Op T → Prop
  | .set k value write => ∀ doc ∈ w.docs k, Stays c w.fs k doc.dirty value write
  | .update k change write =>
    ∀ doc ∈ w.docs k, Stays c w.fs k doc.dirty (change doc.value) write
  | .save k write => ∀ doc ∈ w.docs k, Stays c w.fs k doc.dirty doc.value write
  | _ => True

variable {c}

theorem Holds.congr {fs fs' : Fs Path} {k : Kind} {value : T k}
    (h : fs' (c.file k) = fs (c.file k)) : Holds c fs' k value ↔ Holds c fs k value := by
  unfold Holds
  rw [h]

theorem holds_of_read_json {readable : Bool} {k : Kind} {fs : Fs Path} {raw : T k}
    (h : read_json (c.serde k) (c.file k) fs readable = .ok (some raw)) :
    Holds c fs k (c.normalize k raw) := by
  unfold read_json at h
  split at h
  · cases hfile : fs (c.file k) with
    | none => simp [hfile] at h
    | some bytes =>
      cases hraw : (c.serde k).from_slice bytes with
      | none => simp [hfile, hraw] at h
      | some value =>
        simp only [hfile, hraw, Except.ok.injEq, Option.some.injEq] at h
        exact ⟨bytes, hfile, .inr ⟨value, hraw, congrArg _ h⟩⟩
  · cases h

/-- A document that is put back, with the other files as they were. -/
theorem synced_put {w : Config T} (hw : Synced c w) {k : Kind} {doc : JsonDocument (T k)}
    {fs : Fs Path} (hpath : doc.path = c.file k)
    (hothers : ∀ k', k' ≠ k → fs (c.file k') = w.fs (c.file k')) :
    Synced c (w.put k doc fs) ↔ (doc.dirty = false → Holds c fs k doc.value) := by
  constructor
  · intro h
    exact (h k doc (w.docs_put_self doc fs)).2
  · intro h k' doc' hdoc'
    by_cases hk : k' = k
    · subst hk
      obtain rfl : doc = doc' := Option.some.inj ((w.docs_put_self doc fs).symm.trans hdoc')
      exact ⟨hpath, h⟩
    · have hold := (w.docs_put_of_ne hk doc fs).symm.trans hdoc'
      exact ⟨(hw k' doc' hold).1, fun hclean =>
        (Holds.congr (hothers k' hk)).mpr ((hw k' doc' hold).2 hclean)⟩

/-- Saving, case by case. -/
theorem save_cases {k : Kind} {doc : JsonDocument (T k)} (hpath : doc.path = c.file k)
    (write : Write) (fs : Fs Path) :
    ∃ fs', (∀ k', k' ≠ k → fs' (c.file k') = fs (c.file k')) ∧
      (Writes (c.serde k) c.os write (c.file k) doc.value fs ∧ Holds c fs' k doc.value ∧
          doc.save (c.serde k) c.os c.pid write fs = (.ok (), { doc with dirty := false }, fs') ∨
        ¬ Writes (c.serde k) c.os write (c.file k) doc.value fs ∧
          (Loses (c.serde k) c.os write (c.file k) doc.value fs ∧ fs' (c.file k) = none ∨
            ¬ Loses (c.serde k) c.os write (c.file k) doc.value fs ∧ fs' (c.file k) = fs (c.file k)) ∧
          ∃ error, doc.save (c.serde k) c.os c.pid write fs = (.error error, doc, fs')) := by
  obtain ⟨path, value, dirty⟩ := doc
  obtain rfl : path = c.file k := hpath
  obtain ⟨fs', hsame, hcases⟩ :=
    write_json_cases (c.serde k) c.os c.pid write (c.file k) value fs
  refine ⟨fs', fun k' hk => hsame _ (c.file_ne hk) (c.file_ne_temp c.pid write.counter k k'), ?_⟩
  obtain ⟨hwrites, ⟨json, hjson, hfile⟩, hrun⟩ | ⟨hfails, hfile, error, hrun⟩ := hcases
  · have hsave := JsonDocument.save_of_ok (c.serde k) c.os c.pid ⟨c.file k, value, dirty⟩
      (congrArg Prod.fst hrun)
    rw [hrun] at hsave
    exact .inl ⟨hwrites, ⟨_, hfile, .inl ⟨json, hjson, rfl⟩⟩, hsave⟩
  · have hsave := JsonDocument.save_of_error (c.serde k) c.os c.pid ⟨c.file k, value, dirty⟩
      (congrArg Prod.fst hrun)
    rw [hrun] at hsave
    exact .inr ⟨hfails, hfile, error, hsave⟩

/-- **Step lemma**: putting back a document that was saved. -/
theorem synced_save {w : Config T} (hw : Synced c w) {k : Kind} {doc : JsonDocument (T k)}
    (hpath : doc.path = c.file k) (write : Write) :
    Synced c (w.put k (doc.save (c.serde k) c.os c.pid write w.fs).2.1
        (doc.save (c.serde k) c.os c.pid write w.fs).2.2) ↔
      Stays c w.fs k doc.dirty doc.value write := by
  obtain ⟨fs', hothers, ⟨hwrites, hholds, hsave⟩ | ⟨hfails, hfile, error, hsave⟩⟩ :=
    save_cases hpath write w.fs
  · have hput : Synced c (w.put k { doc with dirty := false } fs') ↔ _ :=
      synced_put hw hpath hothers
    rw [hsave, hput]
    exact iff_of_true (fun _ => hholds) (.inl hwrites)
  · rw [hsave, synced_put hw hpath hothers]
    cases hdirty : doc.dirty with
    | true => exact iff_of_true nofun (.inr (.inl rfl))
    | false =>
      rw [forall_prop_of_true rfl, Stays, or_iff_right hfails, or_iff_right Bool.false_ne_true]
      obtain ⟨hlost, hgone⟩ | ⟨hkept, hsame⟩ := hfile
      · refine iff_of_false ?_ fun h => h.2 hlost
        rintro ⟨bytes, hbytes, -⟩
        rw [hgone] at hbytes
        cases hbytes
      · exact (Holds.congr hsame).trans (and_iff_left hkept).symm

/-! ## Flushing -/

/-- The document of a kind is marked. -/
def Marked (w : Config T) (k : Kind) : Prop := (w.docs k).any (·.dirty) = true

theorem Marked.exists_doc {w : Config T} {k : Kind} (h : Marked w k) :
    ∃ doc, w.docs k = some doc ∧ doc.dirty = true := by
  unfold Marked at h
  cases hdoc : w.docs k with
  | none =>
    rw [hdoc] at h
    cases h
  | some doc =>
    rw [hdoc] at h
    exact ⟨doc, rfl, h⟩

theorem value_put {w : Config T} {k : Kind} {doc : JsonDocument (T k)}
    (hdoc : w.docs k = some doc) (doc' : JsonDocument (T k)) (hvalue : doc'.value = doc.value)
    (fs : Fs Path) (k' : Kind) :
    ((w.put k doc' fs).docs k').map (·.value) = (w.docs k').map (·.value) := by
  by_cases hk : k' = k
  · subst hk
    rw [w.docs_put_self, hdoc, Option.map_some, Option.map_some, hvalue]
  · rw [w.docs_put_of_ne hk]

/-- A flush keeps the values and leaves every document in its file or marked; if it succeeds, none of
these documents is marked. -/
theorem flush_each_spec {w : Config T} (hw : Synced c w) (writes : Kind → Write)
    (ks : List Kind) :
    Synced c (w.flush_each c writes ks).2 ∧
      (∀ k, ((w.flush_each c writes ks).2.docs k).map (·.value) = (w.docs k).map (·.value)) ∧
      ((w.flush_each c writes ks).1 = .ok () →
        ∀ k, k ∈ ks ∨ ¬ Marked w k → ¬ Marked (w.flush_each c writes ks).2 k) := by
  induction ks generalizing w with
  | nil => exact ⟨hw, fun _ => rfl, fun _ k hk => hk.resolve_left List.not_mem_nil⟩
  | cons k ks ih =>
    rw [Config.flush_each]
    by_cases hmarked : Marked w k
    · have hif : (w.docs k).any (·.dirty) = true := hmarked
      rw [if_pos hif]
      obtain ⟨doc, hdoc, hdirty⟩ := hmarked.exists_doc
      have hsynced := (synced_save hw (hw k doc hdoc).1 (writes k)).mpr (.inr (.inl hdirty))
      have hput : w.save c k (writes k) =
          ((doc.save (c.serde k) c.os c.pid (writes k) w.fs).1,
            w.put k (doc.save (c.serde k) c.os c.pid (writes k) w.fs).2.1
              (doc.save (c.serde k) c.os c.pid (writes k) w.fs).2.2) := by
        unfold Config.save Config.with_doc
        rw [hdoc]
      obtain ⟨fs', -, ⟨-, -, hsave⟩ | ⟨-, -, error, hsave⟩⟩ :=
        save_cases (hw k doc hdoc).1 (writes k) w.fs
      · rw [hsave] at hsynced hput
        rw [hput]
        dsimp only at hsynced ⊢
        obtain ⟨hrest, hvalues, hclean⟩ := ih hsynced
        have hput_value := value_put hdoc { doc with dirty := false } rfl fs'
        refine ⟨hrest, fun k' => (hvalues k').trans (hput_value k'),
          fun hok k' hk' => hclean hok k' ?_⟩
        by_cases hk : k' = k
        · subst hk
          right
          rw [Marked, w.docs_put_self]
          exact Bool.false_ne_true
        · rw [Marked, w.docs_put_of_ne hk]
          exact hk'.imp_left fun hmem => (List.mem_cons.mp hmem).resolve_left hk
      · rw [hsave] at hsynced hput
        rw [hput]
        exact ⟨hsynced, value_put hdoc doc rfl fs', nofun⟩
    · have hif : ¬ (w.docs k).any (·.dirty) = true := hmarked
      rw [if_neg hif]
      obtain ⟨hrest, hvalues, hclean⟩ := ih hw
      refine ⟨hrest, hvalues, fun hok k' hk' => hclean hok k' ?_⟩
      by_cases hk : k' = k
      · exact .inr (hk ▸ hmarked)
      · exact hk'.imp_left fun hmem => (List.mem_cons.mp hmem).resolve_left hk

/-- Once a flush succeeds, everything is on disk. -/
def FlushSaves (c : Setup T) (w : Config T) : Prop :=
  ∀ writes, (w.flush c writes).1 = .ok () →
    ∀ k doc, w.docs k = some doc → Holds c (w.flush c writes).2.fs k doc.value

theorem flush_saves {w : Config T} (hw : Synced c w) : FlushSaves c w := by
  intro writes hok k doc hdoc
  obtain ⟨hsynced, hvalues, hclean⟩ := flush_each_spec hw writes [.settings, .hosts, .tabs]
  have hvalue := hvalues k
  rw [hdoc, Option.map_some] at hvalue
  obtain ⟨saved, hsaved, hsame⟩ := Option.map_eq_some_iff.mp hvalue
  have hmem : k ∈ [Kind.settings, .hosts, .tabs] := by cases k <;> decide
  have hunmarked := hclean hok k (.inl hmem)
  rw [Marked, hsaved] at hunmarked
  have hholds := (hsynced k saved hsaved).2 (Bool.eq_false_iff.mpr hunmarked)
  rwa [hsame] at hholds

/-! ## Runs -/

theorem synced_open {w : Config T} (hw : Synced c w) (k : Kind) (readable : Bool) :
    Synced c (step c w (.open k readable)) := by
  cases hread : read_json (c.serde k) (c.file k) w.fs readable with
  | error error =>
    have hstep : step c w (.open k readable) = w := by simp only [step, JsonDocument.open, hread]
    rwa [hstep]
  | ok loaded =>
    have hstep : step c w (.open k readable) = w.put k
        ⟨c.file k, c.normalize k (loaded.getD (c.default k)), loaded.isNone⟩ w.fs := by
      simp only [step, JsonDocument.open, hread]
    rw [hstep, synced_put hw rfl fun _ _ => rfl]
    intro hclean
    cases loaded with
    | none => cases hclean
    | some raw => exact holds_of_read_json hread

theorem synced_open_lenient {w : Config T} (hw : Synced c w) (k : Kind) (readable renames : Bool) :
    Synced c (step c w (.open_lenient k readable renames)) := by
  cases hread : read_json (c.serde k) (c.file k) w.fs readable with
  | error error =>
    have hstep : step c w (.open_lenient k readable renames) =
        w.put k ⟨c.file k, c.normalize k (c.default k), true⟩
          ((rename renames (c.file k) (JsonDocument.corrupt_path (c.file k))).run w.fs).2 := by
      simp only [step, JsonDocument.open_lenient, hread]
    rw [hstep, synced_put hw rfl fun k' hk =>
      untouched_rename renames (c.file_ne hk) (c.file_ne_corrupt k k') w.fs]
    exact fun hclean => Bool.noConfusion hclean
  | ok loaded =>
    have hstep : step c w (.open_lenient k readable renames) = w.put k
        ⟨c.file k, c.normalize k (loaded.getD (c.default k)), loaded.isNone⟩ w.fs := by
      cases loaded <;> simp only [step, JsonDocument.open_lenient, hread] <;> rfl
    rw [hstep, synced_put hw rfl fun _ _ => rfl]
    intro hclean
    cases loaded with
    | none => cases hclean
    | some raw => exact holds_of_read_json hread

/-- Saving a document that is open, after its value was changed. -/
theorem synced_with_doc {w : Config T} (hw : Synced c w) (k : Kind)
    (change : JsonDocument (T k) → T k) (write : Write) :
    Synced c (w.with_doc k fun doc =>
        { doc with value := change doc }.save (c.serde k) c.os c.pid write).2 ↔
      ∀ doc ∈ w.docs k, Stays c w.fs k doc.dirty (change doc) write := by
  unfold Config.with_doc
  cases hdoc : w.docs k with
  | none => exact iff_of_true hw nofun
  | some doc =>
    have hpath : JsonDocument.path { doc with value := change doc } = c.file k := (hw k doc hdoc).1
    refine (synced_save hw hpath write).trans ⟨fun h doc' hdoc' => ?_, fun h => h doc rfl⟩
    exact Option.mem_some_iff.mp hdoc' ▸ h

/-- **Step lemma**: an operation leaves every document in its file or marked exactly if it meets its
condition. -/
theorem synced_step {w : Config T} (hw : Synced c w) (op : Op T) :
    Synced c (step c w op) ↔ Keeps c w op := by
  cases op with
  | «open» k readable => exact iff_of_true (synced_open hw k readable) trivial
  | open_lenient k readable renames =>
    exact iff_of_true (synced_open_lenient hw k readable renames) trivial
  | set k value write => exact synced_with_doc hw k (fun _ => value) write
  | update k change write => exact synced_with_doc hw k (fun doc => change doc.value) write
  | get_mut k change =>
    refine iff_of_true ?_ trivial
    cases hdoc : w.docs k with
    | none =>
      have hstep : step c w (.get_mut k change) = w := by simp only [step, hdoc]
      rwa [hstep]
    | some doc =>
      have hstep : step c w (.get_mut k change) = w.put k (doc.get_mut change) w.fs := by
        simp only [step, hdoc]
      have hpath : (doc.get_mut change).path = c.file k := (hw k doc hdoc).1
      rw [hstep, synced_put hw hpath fun _ _ => rfl]
      exact fun hclean => Bool.noConfusion hclean
  | save k write => exact synced_with_doc hw k (fun doc => doc.value) write
  | flush writes => exact iff_of_true (flush_each_spec hw writes _).1 trivial

/-- Nothing is open yet. -/
def start (T : Kind → Type) (fs : Fs Path) : Config T := ⟨fun _ => none, fs⟩

variable (c) in
/-- **A document that is not marked is in its file, and a flush that succeeds saves every change**:
in all states of a run exactly while every write that fails is of a document already marked or of a
value already in its file. -/
theorem synced_iff_keeps (fs : Fs Path) (ops : List (Op T)) :
    (∀ w, Reached (step c) (start T fs) ops w → Synced c w ∧ FlushSaves c w) ↔
      Guarded (step c) (Keeps c) (start T fs) ops := by
  rw [← forall_reached_iff_guarded (I := Synced c) (fun _ op hw => synced_step hw op) ops
    (start T fs) nofun]
  exact forall₂_congr fun w _ => and_iff_left_of_imp flush_saves

/-- Documents that are one `bool`. -/
def bools : Setup fun _ => Bool where
  dir := ["/", "data"]
  serde _ :=
    { to_vec_pretty := fun value => some (toString value).toUTF8.toList
      from_slice := fun bytes =>
        if bytes = "true\n".toUTF8.toList then some true
        else if bytes = "false\n".toUTF8.toList then some false
        else none }
  default _ := false
  normalize _ := id
  os := .unix
  pid := 7

/-- A full disk while the value is replaced: the document is not marked, a flush writes nothing and
succeeds, and the file holds the value from before. -/
theorem set_forgets_failed_write :
    let written : Write := ⟨⟨true, true, none, true, true, true, true, true⟩, 0⟩
    let full : Write := ⟨⟨true, true, some 0, true, true, true, true, true⟩, 0⟩
    let file := bools.file .settings
    let w := run (step bools)
      (start _ fun p => if p = file then some "false\n".toUTF8.toList else none)
      [.open_lenient .settings true true, .set .settings true full]
    (w.docs .settings).map (fun doc => (doc.value, doc.dirty)) = some (true, false) ∧
      (w.flush bools fun _ => written).1 = .ok () ∧
      (w.flush bools fun _ => written).2.fs file = some "false\n".toUTF8.toList ∧
      ¬ Synced bools w ∧ ¬ FlushSaves bools w := by
  intro written full file w
  have hdoc : w.docs .settings = some ⟨file, true, false⟩ := by decide +kernel
  have hfile : w.fs file = some "false\n".toUTF8.toList := by decide +kernel
  have hok : (w.flush bools fun _ => written).1 = .ok () := by decide +kernel
  have hflushed : (w.flush bools fun _ => written).2.fs file = some "false\n".toUTF8.toList := by
    decide +kernel
  have hnot {fs : Fs Path} (h : fs file = some "false\n".toUTF8.toList) :
      ¬ Holds bools fs .settings true := by
    rintro ⟨bytes, hbytes, hvalue⟩
    obtain rfl := Option.some.inj (h.symm.trans hbytes)
    obtain ⟨json, hjson, hsame⟩ | ⟨raw, hraw, hvalue⟩ := hvalue
    · obtain rfl := Option.some.inj hjson
      revert hsame
      decide +kernel
    · have hread : (bools.serde .settings).from_slice "false\n".toUTF8.toList = some false := by
        decide +kernel
      rw [hread] at hraw
      obtain rfl := Option.some.inj hraw
      cases hvalue
  exact ⟨by rw [hdoc]; rfl, hok, hflushed,
    fun h => hnot hfile ((h .settings _ hdoc).2 rfl),
    fun h => hnot hflushed (h _ hok .settings _ hdoc)⟩

end WaSSH.Store
