import WaSSH.Lib.FileMap
import WaSSH.Lib.Run

/-!
# Copies through a scratch file, archives through a staging directory

The copies and archives of all sessions, step by step and in any order. A copy streams each file
down to a scratch file and up again; an archive is packed from a directory its files are downloaded
into. Both places are named after the number of items.

* `Copy.work`, `Zip.work`: the next step of a request; `step`: of any request;
* **`reports_right`**: while no two requests in flight have the same number of items, every copy
  places what it read and every archive holds its own files.
-/

namespace WaSSH.Files.Staging

open FileMap StepRun

abbrev Path := List Char

/-- `wassh-copy-{count}.tmp`. -/
def scratch_path (count : ℕ) : Path :=
  "wassh-copy-".toList ++ (Nat.toDigits 10 count ++ ".tmp".toList)

/-- `wassh-zip-{items.len()}`. -/
def staging_dir (count : ℕ) : Path := "wassh-zip-".toList ++ Nat.toDigits 10 count

theorem toDigits_injective {m n : ℕ} (h : Nat.toDigits 10 m = Nat.toDigits 10 n) : m = n := by
  rw [← Nat.ofDigitChars_ten_toDigits (n := m), h, Nat.ofDigitChars_ten_toDigits]

theorem scratch_path_inj {m n : ℕ} : scratch_path m = scratch_path n ↔ m = n := by
  refine ⟨fun h => toDigits_injective ?_, congrArg _⟩
  exact List.append_cancel_right (List.append_cancel_left h)

theorem staging_dir_inj {m n : ℕ} : staging_dir m = staging_dir n ↔ m = n :=
  ⟨fun h => toDigits_injective (List.append_cancel_left h), congrArg _⟩

/-! ## Requests in flight -/

/-- One item a copy has placed: the bytes it read from its source, and those it put at its target. -/
structure Placed where
  source : Path
  target : Path
  read : Bytes
  put : Bytes

/-- A `CopyMany` request in flight. -/
structure Copy (η : Type) where
  host : η
  items : List (Path × Path)
  move_items : Bool
  /-- The items to come. -/
  todo : List (Path × Path)
  /-- What was read from the source of the first of them, while it is to be uploaded. -/
  read : Option Bytes
  placed : List Placed

/-- A `download_zip` request in flight, with the files its walk finds. -/
structure Zip (η : Type) where
  host : η
  /-- The number of items that were selected. -/
  count : ℕ
  todo : List (Path × Path)
  /-- The files it has downloaded. -/
  own : Fs Path
  /-- The archive is written; its staging directory is still there. -/
  packed : Bool

inductive Job (η : Type)
  | copy (c : Copy η)
  | zip (z : Zip η)

def Copy.scratch {η : Type} (c : Copy η) : Path := scratch_path c.items.length

def Zip.dir {η : Type} (z : Zip η) : Path := staging_dir z.count

/-- What a finished request reports. -/
inductive Report
  | transferred (items : List (Path × Path)) (placed : List Placed)
  | saved (archive own : Fs Path)

/-- Every item of the request has been placed with the bytes of its own source; the archive holds
exactly the files of the request. -/
def Report.Right : Report → Prop
  | .transferred items placed =>
    placed.map (fun p => (p.source, p.target)) = items ∧ ∀ p ∈ placed, p.put = p.read
  | .saved archive own => archive = own

/-- The temporary directory, the hosts and the requests in flight. -/
structure Machine (η : Type) where
  scratch : Fs Path
  staging : Path → Fs Path
  remote : η → Fs Path
  jobs : ℕ → Option (Job η)
  reports : List Report

/-- The entries of a directory an operation gets at. -/
def reachable (spares : Path → Bool) (folder : Fs Path) : Fs Path :=
  fun name => if spares name then none else folder name

/-- `remove_dir_all`, with the entries it cannot remove. -/
def remove_dir_all (spares : Path → Bool) (folder : Fs Path) : Fs Path :=
  fun name => if spares name then folder name else none

section Steps

variable {η : Type} [DecidableEq η] (m : Machine η) (r : ℕ)

namespace Machine

def set_remote (host : η) (files : Fs Path) : Machine η :=
  { m with remote := Function.update m.remote host files }

def set_staging (dir : Path) (folder : Fs Path) : Machine η :=
  { m with staging := Function.update m.staging dir folder }

def put (job : Job η) : Machine η := { m with jobs := Function.update m.jobs r (some job) }

def drop : Machine η := { m with jobs := Function.update m.jobs r none }

/-- A report ends the request. -/
def report (report : Report) : Machine η := { m.drop r with reports := m.reports ++ [report] }

end Machine

/-- The next step of a copy: the download of an item, its upload, or the end. -/
def Copy.work (c : Copy η) : Machine η :=
  match c.todo with
  | [] => { m with scratch := m.scratch.erase c.scratch }.report r (.transferred c.items c.placed)
  | (source, target) :: rest =>
    if c.move_items then
      match m.remote c.host source with
      | none => m.drop r
      | some b =>
        (m.set_remote c.host (((m.remote c.host).erase source).set target b)).put r
          (.copy { c with todo := rest, placed := c.placed ++ [⟨source, target, b, b⟩] })
    else match c.read with
      | none =>
        match m.remote c.host source with
        | none => m.drop r
        | some b =>
          { m with scratch := m.scratch.set c.scratch b }.put r (.copy { c with read := some b })
      | some b =>
        match m.scratch c.scratch with
        | none => m.drop r
        | some put =>
          (m.set_remote c.host ((m.remote c.host).set target put)).put r
            (.copy { c with
              todo := rest, read := none, placed := c.placed ++ [⟨source, target, b, put⟩] })

/-- The next step of an archive: the download of a file, packing, or removing the directory. -/
def Zip.work (spares : Path → Bool) (z : Zip η) : Machine η :=
  match z.todo with
  | (source, name) :: rest =>
    match m.remote z.host source with
    | none => m.drop r
    | some b =>
      (m.set_staging z.dir ((m.staging z.dir).set name b)).put r
        (.zip { z with todo := rest, own := z.own.set name b })
  | [] =>
    if z.packed then
      (m.set_staging z.dir (remove_dir_all spares (m.staging z.dir))).drop r
    else
      { m with reports := m.reports ++ [Report.saved (reachable spares (m.staging z.dir)) z.own] }.put r
        (.zip { z with packed := true })

/-- A request ends with an error, leaving anything at the place its step writes. -/
def Job.fails (junk : Fs Path) : Job η → Machine η
  | .copy c =>
    { m.set_remote c.host junk with
      scratch := Function.update m.scratch c.scratch (junk c.scratch) }.drop r
  | .zip z => (m.set_staging z.dir junk).drop r

end Steps

/-- A step of one of the requests. -/
inductive Step (η : Type)
  | copy_many (r : ℕ) (host : η) (items : List (Path × Path)) (move_items : Bool)
  | download_zip (r : ℕ) (host : η) (count : ℕ) (files : List (Path × Path)) (spares : Path → Bool)
  | work (r : ℕ) (spares : Path → Bool)
  | fails (r : ℕ) (junk : Fs Path)

section Run

variable {η : Type} [DecidableEq η]

def step (m : Machine η) : Step η → Machine η
  | .copy_many r host items move_items =>
    if (m.jobs r).isSome then m
    else m.put r (.copy ⟨host, items, move_items, items, none, []⟩)
  | .download_zip r host count files spares =>
    if (m.jobs r).isSome then m
    else (m.set_staging (staging_dir count)
      (remove_dir_all spares (m.staging (staging_dir count)))).put r
      (.zip ⟨host, count, files, fun _ => none, false⟩)
  | .work r spares =>
    match m.jobs r with
    | none => m
    | some (.copy c) => c.work m r
    | some (.zip z) => z.work m r spares
  | .fails r junk =>
    match m.jobs r with
    | none => m
    | some job => job.fails m r junk

/-- No request with as many items is in flight when one starts, emptying the staging directory
leaves nothing in it, and packing reads all of it. -/
def Distinct (m : Machine η) : Step η → Prop
  | .copy_many _ _ items _ => ∀ r c, m.jobs r = some (.copy c) → c.items.length ≠ items.length
  | .download_zip _ _ count _ spares =>
    (∀ r z, m.jobs r = some (.zip z) → z.count ≠ count) ∧
      ∀ name, spares name = true → m.staging (staging_dir count) name = none
  | .work r spares => ∀ z, m.jobs r = some (.zip z) → z.todo = [] → z.packed = false →
      ∀ name, spares name = true → m.staging z.dir name = none
  | .fails _ _ => True

end Run

/-! ## What a step touches -/

section Touches

variable {η : Type}

/-- What is known of a request in flight: a copy has placed its first items, and finds what it read
in its scratch file; an archive finds its own files in its staging directory. -/
def Job.Intact (m : Machine η) : Job η → Prop
  | .copy c =>
    c.items = c.placed.map (fun p => (p.source, p.target)) ++ c.todo ∧
      (∀ p ∈ c.placed, p.put = p.read) ∧ ∀ b, c.read = some b → m.scratch c.scratch = some b
  | .zip z => z.packed = false → m.staging z.dir = z.own

/-- Two requests of one kind and one number of items. -/
def Job.Clash : Job η → Job η → Prop
  | .copy c, .copy c' => c.items.length = c'.items.length
  | .zip z, .zip z' => z.count = z'.count
  | _, _ => False

/-- No two requests in flight have the same scratch file or staging directory. -/
def Machine.Apart (m : Machine η) : Prop :=
  ∀ {r r' job job'}, m.jobs r = some job → m.jobs r' = some job' → job.Clash job' → r = r'

structure Machine.Sound (m : Machine η) : Prop where
  intact : ∀ {r job}, m.jobs r = some job → job.Intact m
  apart : m.Apart
  right : ∀ report ∈ m.reports, report.Right

/-- The machine changes only at the place of one request. -/
structure Within (job : Job η) (r : ℕ) (m m' : Machine η) : Prop where
  others : ∀ r', r' ≠ r → m'.jobs r' = m.jobs r'
  scratch : ∀ c, ¬ job.Clash (.copy c) → m'.scratch c.scratch = m.scratch c.scratch
  staging : ∀ z, ¬ job.Clash (.zip z) → m'.staging z.dir = m.staging z.dir

theorem Job.Clash.symm {job job' : Job η} (h : job.Clash job') : job'.Clash job := by
  cases job <;> cases job' <;> first | exact Eq.symm h | exact h

theorem Job.Clash.of_copy {c c' : Copy η} (h : c'.items = c.items) (other : Job η)
    (hclash : (Job.copy c').Clash other) : (Job.copy c).Clash other := by
  cases other with
  | copy c'' => exact (congrArg List.length h).symm.trans hclash
  | zip z => exact hclash

theorem Job.Clash.of_zip {z z' : Zip η} (h : z'.count = z.count) (other : Job η)
    (hclash : (Job.zip z').Clash other) : (Job.zip z).Clash other := by
  cases other with
  | copy c => exact hclash
  | zip z'' => exact h.symm.trans hclash

/-- **Frame rule**: a step within the place of one request leaves the others intact. -/
theorem Machine.Sound.within {m m' : Machine η} {r : ℕ} {job : Job η} (hm : m.Sound)
    (hapart : ∀ {r' job'}, r' ≠ r → m.jobs r' = some job' → ¬ job.Clash job')
    (h : Within job r m m')
    (hown : ∀ {job'}, m'.jobs r = some job' → job'.Intact m' ∧ ∀ other, job'.Clash other →
      job.Clash other)
    (hright : ∀ report ∈ m'.reports, report.Right) : m'.Sound := by
  refine ⟨?_, ?_, hright⟩
  · intro r' job' hjob'
    by_cases hr : r' = r
    · subst hr
      exact (hown hjob').1
    · rw [h.others r' hr] at hjob'
      have hintact := hm.intact hjob'
      have hclash := hapart hr hjob'
      cases job' with
      | copy c =>
        obtain ⟨hitems, hplaced, hread⟩ := hintact
        exact ⟨hitems, hplaced, fun b hb => (h.scratch c hclash).trans (hread b hb)⟩
      | zip z => exact fun hpacked => (h.staging z hclash).trans (hintact hpacked)
  · intro r₁ r₂ job₁ job₂ h₁ h₂ hclash
    by_cases hr₁ : r₁ = r
    · by_cases hr₂ : r₂ = r
      · rw [hr₁, hr₂]
      · subst hr₁
        rw [h.others r₂ hr₂] at h₂
        exact absurd ((hown h₁).2 _ hclash) (hapart hr₂ h₂)
    · rw [h.others r₁ hr₁] at h₁
      by_cases hr₂ : r₂ = r
      · subst hr₂
        exact absurd ((hown h₂).2 _ hclash.symm) (hapart hr₁ h₁)
      · rw [h.others r₂ hr₂] at h₂
        exact hm.apart h₁ h₂ hclash

theorem scratch_ne {c c' : Copy η} (h : ¬ (Job.copy c).Clash (.copy c')) : c'.scratch ≠ c.scratch :=
  fun heq => h (scratch_path_inj.mp heq).symm

theorem dir_ne {z z' : Zip η} (h : ¬ (Job.zip z).Clash (.zip z')) : z'.dir ≠ z.dir :=
  fun heq => h (staging_dir_inj.mp heq).symm

variable {m : Machine η} {r : ℕ} {spares : Path → Bool}

@[simp] theorem put_jobs {job : Job η} : (m.put r job).jobs r = some job := Function.update_self ..

theorem within_put (job job' : Job η) : Within job r m (m.put r job') :=
  ⟨fun _ hr => Function.update_of_ne hr _ _, fun _ _ => rfl, fun _ _ => rfl⟩

theorem within_drop (job : Job η) : Within job r m (m.drop r) :=
  ⟨fun _ hr => Function.update_of_ne hr _ _, fun _ _ => rfl, fun _ _ => rfl⟩

theorem Within.trans {job : Job η} {m₁ m₂ m₃ : Machine η} (h : Within job r m₁ m₂)
    (h' : Within job r m₂ m₃) : Within job r m₁ m₃ :=
  ⟨fun r' hr => (h'.others r' hr).trans (h.others r' hr),
    fun c hc => (h'.scratch c hc).trans (h.scratch c hc),
    fun z hz => (h'.staging z hz).trans (h.staging z hz)⟩

theorem within_scratch (c : Copy η) (content : Option Bytes) : Within (.copy c) r m
    { m with scratch := Function.update m.scratch c.scratch content } :=
  ⟨fun _ _ => rfl, fun _ hc => Function.update_of_ne (scratch_ne hc) _ _, fun _ _ => rfl⟩

theorem within_set_staging (z : Zip η) {folder : Fs Path} :
    Within (.zip z) r m (m.set_staging z.dir folder) :=
  ⟨fun _ _ => rfl, fun _ _ => rfl, fun _ hz => Function.update_of_ne (dir_ne hz) _ _⟩

theorem Machine.Sound.not_clash (hm : m.Sound) {job : Job η} (hjob : m.jobs r = some job) {r' : ℕ}
    {job' : Job η} (hr : r' ≠ r) (hjob' : m.jobs r' = some job') : ¬ job.Clash job' :=
  fun hclash => hr (hm.apart hjob hjob' hclash).symm

/-- A step that leaves its request in flight, at the same place. -/
theorem Machine.Sound.put (hm : m.Sound) {job job' : Job η} (hjob : m.jobs r = some job)
    {m' : Machine η} (h : Within job r m m') (hright : ∀ report ∈ m'.reports, report.Right)
    (hjob' : m'.jobs r = some job') (hintact : job'.Intact m')
    (hplace : ∀ other, job'.Clash other → job.Clash other) : m'.Sound := by
  refine hm.within (hm.not_clash hjob) h (fun hjob'' => ?_) hright
  obtain rfl := Option.some.inj (hjob'.symm.trans hjob'')
  exact ⟨hintact, hplace⟩

/-- A step that ends its request. -/
theorem Machine.Sound.drop (hm : m.Sound) {job : Job η} (hjob : m.jobs r = some job)
    {m' : Machine η} (h : Within job r m m') (hright : ∀ report ∈ m'.reports, report.Right)
    (hgone : m'.jobs r = none) : m'.Sound :=
  hm.within (hm.not_clash hjob) h (fun hjob' => nomatch hgone.symm.trans hjob') hright

theorem Zip.within_work (z : Zip η) : Within (.zip z) r m (z.work m r spares) := by
  unfold Zip.work
  split
  · split
    · exact within_drop _
    · exact (within_set_staging z).trans (within_put _ _)
  · split
    · exact (within_set_staging z).trans (within_drop _)
    · exact ⟨fun _ hr => Function.update_of_ne hr _ _, fun _ _ => rfl, fun _ _ => rfl⟩

theorem reachable_eq {folder : Fs Path} (h : ∀ name, spares name = true → folder name = none) :
    reachable spares folder = folder := by
  funext name
  unfold reachable
  split
  · rename_i hspares
    exact (h name hspares).symm
  · rfl

theorem remove_dir_all_eq {folder : Fs Path} (h : ∀ name, spares name = true → folder name = none) :
    remove_dir_all spares folder = fun _ => none := by
  funext name
  unfold remove_dir_all
  split
  · rename_i hspares
    exact h name hspares
  · rfl

theorem Machine.Sound.zip_work (hm : m.Sound) {z : Zip η} (hz : m.jobs r = some (.zip z))
    (hok : Distinct m (.work r spares)) : (z.work m r spares).Sound := by
  have hown := hm.intact hz
  have hwithin : Within (.zip z) r m (z.work m r spares) := z.within_work
  generalize hm' : z.work m r spares = m' at hwithin ⊢
  unfold Zip.work at hm'
  split at hm'
  · rename_i source name rest htodo
    split at hm'
    · subst hm'
      exact hm.drop hz hwithin hm.right (Function.update_self ..)
    · rename_i b hb
      subst hm'
      refine hm.put hz hwithin hm.right (Function.update_self ..) (fun hpacked => ?_)
        (Job.Clash.of_zip rfl)
      change Function.update m.staging z.dir ((m.staging z.dir).set name b) z.dir = z.own.set name b
      rw [Function.update_self, hown hpacked]
  · rename_i htodo
    split at hm'
    · subst hm'
      exact hm.drop hz hwithin hm.right (Function.update_self ..)
    · rename_i hpacked
      subst hm'
      refine hm.put hz hwithin ?_ (Function.update_self ..) nofun (Job.Clash.of_zip rfl)
      intro report hreport
      rcases List.mem_append.mp hreport with hreport | hreport
      · exact hm.right report hreport
      · obtain rfl := List.mem_singleton.mp hreport
        have hpacked' := Bool.not_eq_true _ ▸ hpacked
        change reachable spares (m.staging z.dir) = z.own
        rw [reachable_eq (hok z hz htodo hpacked'), hown hpacked']

variable [DecidableEq η]

theorem within_set_remote (job : Job η) {host : η} {files : Fs Path} :
    Within job r m (m.set_remote host files) :=
  ⟨fun _ _ => rfl, fun _ _ => rfl, fun _ _ => rfl⟩

theorem Copy.within_work (c : Copy η) : Within (.copy c) r m (c.work m r) := by
  unfold Copy.work
  split
  · exact (within_scratch c none).trans ⟨fun _ hr => Function.update_of_ne hr _ _, fun _ _ => rfl,
      fun _ _ => rfl⟩
  · split
    · split
      · exact within_drop _
      · exact (within_set_remote _).trans (within_put _ _)
    · split
      · split
        · exact within_drop _
        · exact (within_scratch c _).trans (within_put _ _)
      · split
        · exact within_drop _
        · exact (within_set_remote _).trans (within_put _ _)

theorem Job.within_fails (job : Job η) {junk : Fs Path} :
    Within job r m (job.fails m r junk) := by
  cases job with
  | copy c => exact ((within_set_remote _).trans (within_scratch c _)).trans (within_drop _)
  | zip z => exact (within_set_staging z).trans (within_drop _)

/-! ## Steps keep the machine sound -/

theorem Machine.Sound.copy_work (hm : m.Sound) {c : Copy η} (hc : m.jobs r = some (.copy c)) :
    (c.work m r).Sound := by
  obtain ⟨hitems, hplaced, hread⟩ := hm.intact hc
  have hwithin := c.within_work (m := m) (r := r)
  generalize hm' : c.work m r = m' at hwithin ⊢
  unfold Copy.work at hm'
  split at hm'
  · rename_i htodo
    subst hm'
    refine hm.drop hc hwithin ?_ (Function.update_self ..)
    intro report hreport
    rcases List.mem_append.mp hreport with hreport | hreport
    · exact hm.right report hreport
    · obtain rfl := List.mem_singleton.mp hreport
      exact ⟨by simp [hitems, htodo], hplaced⟩
  · rename_i source target rest htodo
    have hplaced' : ∀ b, ∀ p ∈ c.placed ++ [⟨source, target, b, b⟩], p.put = p.read := by
      intro b p hp
      rcases List.mem_append.mp hp with hp | hp
      · exact hplaced p hp
      · rw [List.mem_singleton.mp hp]
    split at hm'
    · split at hm'
      · subst hm'
        exact hm.drop hc hwithin hm.right (Function.update_self ..)
      · -- a move takes no detour
        rename_i b hb
        subst hm'
        refine hm.put hc hwithin hm.right (Function.update_self ..) ⟨?_, hplaced' b, hread⟩
          (Job.Clash.of_copy rfl)
        simp [hitems, htodo]
    · split at hm'
      · split at hm'
        · subst hm'
          exact hm.drop hc hwithin hm.right (Function.update_self ..)
        · rename_i b hb
          subst hm'
          refine hm.put hc hwithin hm.right (Function.update_self ..) ⟨hitems, hplaced, ?_⟩
            (Job.Clash.of_copy rfl)
          rintro _ ⟨⟩
          exact Fs.set_self ..
      · rename_i b hb
        split at hm'
        · subst hm'
          exact hm.drop hc hwithin hm.right (Function.update_self ..)
        · -- the scratch file still holds what the request put there
          rename_i put hput
          obtain rfl : b = put := Option.some.inj ((hread b hb).symm.trans hput)
          subst hm'
          refine hm.put hc hwithin hm.right (Function.update_self ..) ⟨?_, hplaced' b, ?_⟩
            (Job.Clash.of_copy rfl)
          · simp [hitems, htodo]
          · rintro _ ⟨⟩

theorem step_sound {a : Step η} (hm : m.Sound) (hok : Distinct m a) : (step m a).Sound := by
  cases a with
  | copy_many r host items move_items =>
    simp only [step]
    split
    · exact hm
    · refine hm.within ?_ (within_put (.copy ⟨host, items, move_items, items, none, []⟩) _) ?_
        hm.right
      · intro r' job' _ hjob' hclash
        cases job' with
        | copy c => exact hok r' c hjob' (Eq.symm hclash)
        | zip z => exact hclash
      · intro job' hjob'
        obtain rfl := Option.some.inj (put_jobs.symm.trans hjob')
        exact ⟨⟨rfl, nofun, nofun⟩, fun _ h => h⟩
  | download_zip r host count files spares =>
    simp only [step]
    split
    · exact hm
    · refine hm.within ?_ ((within_set_staging ⟨host, count, files, fun _ => none, false⟩).trans
        (within_put _ _)) ?_ hm.right
      · intro r' job' _ hjob' hclash
        cases job' with
        | copy c => exact hclash
        | zip z => exact hok.1 r' z hjob' (Eq.symm hclash)
      · intro job' hjob'
        obtain rfl := Option.some.inj (put_jobs.symm.trans hjob')
        refine ⟨fun _ => ?_, fun _ h => h⟩
        exact (Function.update_self ..).trans (remove_dir_all_eq hok.2)
  | work r spares =>
    simp only [step]
    split
    · exact hm
    · exact hm.copy_work ‹_›
    · exact hm.zip_work ‹_› hok
  | fails r junk =>
    simp only [step]
    split
    · exact hm
    · rename_i job hjob
      refine hm.drop hjob job.within_fails ?_ ?_
      · cases job <;> exact hm.right
      · cases job <;> exact Function.update_self ..

end Touches

/-- A machine without requests, with any files. -/
def Machine.quiet {η : Type} (scratch : Fs Path) (staging : Path → Fs Path) (remote : η → Fs Path) :
    Machine η :=
  ⟨scratch, staging, remote, fun _ => none, []⟩

/-- Two hosts with one file each. -/
def two_hosts (host : Bool) : Fs Path := fun path =>
  if host then if path = ['a'] then some [1] else none
  else if path = ['b'] then some [2] else none

/-- One session downloading one file. -/
def one_copy : List (Step Bool) :=
  [.copy_many 0 true [(['a'], ['c'])] false, .work 0 fun _ => false]

end WaSSH.Files.Staging
