import WaSSH.Agent.LocalFiles

/-!
# Moving on this machine

* `local_move`, with `clear_destination`, `make_parent`, `copy`, `move_entry`: the source;
* `Moved`, `Kept`: what a move has to do, and what a failed one has to leave;
* `Overwrites`, `Clobbers`: a destination that is deleted first, and one that comes into being;
* `move_entry_safe`: the last step of a move;
* **`local_move_safe_iff`**: the moves that lose nothing, whatever fails.
-/

namespace WaSSH.Agent.LocalFiles

open FileTree UnixPath Utf8

structure MoveArgs where
  path : Option (List Char)
  destination : Option (List Char)
  overwrite : Option Bool

inductive MoveError
  | destination_is_required
  | does_not_exist (path : Bytes)
  | already_exists (path : Bytes)
  | cannot_replace (path : Bytes)
  | cannot_create (path : Bytes)
  | cannot_move (path dest : Bytes)
  | cannot_remove (path : Bytes)
  deriving DecidableEq

/-! ## The source -/

/-- What is at the destination is deleted, if it may be overwritten. -/
def clear_destination (env : Env) (cwd : Place Bytes) (overwrite : Bool) (dest : Bytes) (t : Disk) :
    Except MoveError Unit × Disk :=
  match resolve t cwd dest with
  | none => (.ok (), t)
  | some place =>
    if overwrite = false then (.error (.already_exists dest), t)
    else
      match env.remove t place with
      | (true, t) => (.ok (), t)
      | (false, t) => (.error (.cannot_replace dest), t)

/-- The directory of the destination is made. -/
def make_parent (env : Env) (cwd : Place Bytes) (dest : Bytes) (t : Disk) :
    Option (Place Bytes) × Disk :=
  if has_parent dest then create_dirs env.create_dir t (start cwd dest) (above (parts dest))
  else (some (start cwd dest), t)

/-- What there is to read once the destination is opened, which empties it. -/
def readable (t : Disk) (cwd : Place Bytes) (source : Bytes) (dest : Place Bytes) (data : Bytes) :
    Bytes :=
  if resolve t cwd source = some dest then [] else data

/-- `std::fs::copy`. -/
def copy (copying : Copying) (t : Disk) (cwd : Place Bytes) (source dest : Bytes) : Bool × Disk :=
  match (resolve t cwd source).bind t.kind, target t cwd dest with
  | some (.leaf data), some (parent, name, false) =>
    if h : t.kind parent = some .dir ∧ t.kind (parent ++ [name]) ≠ some .dir then
      let read := readable t cwd source (parent ++ [name]) data
      match copying with
      | .refused => (false, t)
      | .stopped bytes => (false, t.put parent name (.leaf (read.take bytes)) h.1 (.inr h.2))
      | .done => (true, t.put parent name (.leaf read) h.1 (.inr h.2))
    else (false, t)
  | _, _ => (false, t)

/-- The source is removed after it was copied. -/
def remove_source (env : Env) (cwd : Place Bytes) (source : Bytes) (t : Disk) :
    Except MoveError Unit × Disk :=
  match resolve t cwd source with
  | none => (.error (.cannot_remove source), t)
  | some place =>
    if t.kind place ≠ some .dir ∧ env.remove_file place then (.ok (), t.remove place)
    else (.error (.cannot_remove source), t)

/-- Renaming across filesystems fails; copying and removing does the same job. -/
def move_entry (env : Env) (cwd : Place Bytes) (source dest : Bytes) (t : Disk) :
    Except MoveError Unit × Disk :=
  match (rename t cwd source dest).filter fun _ => env.rename with
  | some t => (.ok (), t)
  | none =>
    if (resolve t cwd source).bind t.kind = some .dir then (.error (.cannot_move source dest), t)
    else
      match copy env.copy t cwd source dest with
      | (false, t) => (.error (.cannot_move source dest), t)
      | (true, t) => remove_source env cwd source t

/-- `local_fs_move_file`. -/
def local_move (v : Vars) (env : Env) (cwd : Place Bytes) (args : MoveArgs) (t : Disk) :
    Except MoveError Unit × Disk :=
  let source := local_path v (args.path.getD [])
  let dest := local_path v (args.destination.getD [])
  if Text.trim (args.destination.getD []) = [] then (.error .destination_is_required, t)
  else if resolve t cwd source = none then (.error (.does_not_exist source), t)
  else
    match clear_destination env cwd (args.overwrite.getD false) dest t with
    | (.error error, t) => (.error error, t)
    | (.ok _, t) =>
      match make_parent env cwd dest t with
      | (none, t) => (.error (.cannot_create dest), t)
      | (some _, t) => move_entry env cwd source dest t

/-! ## What a move has to do -/

/-- The destination has what the source had, and the source is gone. -/
structure Moved (t t' : Disk) (source dest : Place Bytes) : Prop where
  there : ∀ below, t.kind (source ++ below) ≠ none →
    t'.kind (dest ++ below) = t.kind (source ++ below)
  gone : ∀ below, t'.kind (source ++ below) = none

/-- What the source and the destination had is there as it was. -/
structure Kept (t t' : Disk) (source dest : Place Bytes) : Prop where
  source : t.Intact t' source
  dest : t.Intact t' dest

/-- A move that is done has moved; one that fails has lost nothing. -/
def Safe (t : Disk) (source dest : Place Bytes) : Except MoveError Unit × Disk → Prop
  | (.ok _, t') => Moved t t' source dest
  | (.error _, t') => Kept t t' source dest

/-- So it is whatever fails. -/
def MovesSafely (v : Vars) (cwd : Place Bytes) (args : MoveArgs) (t : Disk) : Prop :=
  ∀ env, Safe t (spelled cwd (local_path v (args.path.getD [])))
    (spelled cwd (local_path v (args.destination.getD []))) (local_move v env cwd args t)

/-- There is something at the destination, and it may be overwritten. -/
def Overwrites (cwd : Place Bytes) (overwrite : Bool) (dest : Bytes) (t : Disk) : Prop :=
  resolve t cwd dest ≠ none ∧ overwrite = true

/-- The tree with the directories that are missing on the way to the destination. -/
def prepared (cwd : Place Bytes) (dest : Bytes) (t : Disk) : Option (Place Bytes) × Disk :=
  create_dirs (fun _ => true) t (start cwd dest) (above (parts dest))

/-- The destination names nothing until the directories on the way to it are made, and then it is
the source itself, or a file that copying would empty. -/
def Clobbers (cwd : Place Bytes) (source dest : Bytes) (t : Disk) : Prop :=
  resolve t cwd dest = none ∧ (prepared cwd dest t).1 ≠ none ∧
    ((spelled cwd source = spelled cwd dest ∧
        rename (prepared cwd dest t).2 cwd source dest ≠ none) ∨
      ((∃ parent name, target (prepared cwd dest t).2 cwd dest = some (parent, name, false)) ∧
        ∃ data data', t.kind (spelled cwd source) = some (.leaf data) ∧
          t.kind (spelled cwd dest) = some (.leaf data') ∧ (data ≠ [] ∨ data' ≠ [])))

/-! ## The last step -/

section Entry

variable {t t' t'' : Disk} {cwd place : Place Bytes} {source dest : Bytes} {env : Env}
  {place' : Place Bytes}

theorem Kept.refl (t : Disk) (source dest : Place Bytes) : Kept t t source dest :=
  ⟨fun _ _ => rfl, fun _ _ => rfl⟩

theorem Kept.of_grows (h : t.Grows t') (source dest : Place Bytes) : Kept t t' source dest :=
  ⟨h.intact source, h.intact dest⟩

/-- What is safe in a tree with more is safe. -/
theorem Safe.of_grows (h : t.Grows t') {outcome : Except MoveError Unit × Disk}
    (hsafe : Safe t' place place' outcome) : Safe t place place' outcome := by
  have hintact {t'' : Disk} {q : Place Bytes} (hkept : t'.Intact t'' q) : t.Intact t'' q := by
    intro below hbelow
    have hsame := h _ hbelow
    rw [hkept below (by rwa [hsame]), hsame]
  obtain ⟨result, t''⟩ := outcome
  cases result with
  | ok _ =>
    refine ⟨fun below hbelow => ?_, hsafe.gone⟩
    have hsame := h _ hbelow
    rw [hsafe.there below (by rwa [hsame]), hsame]
  | error _ => exact ⟨hintact hsafe.source, hintact hsafe.dest⟩

/-- A file that is found has a name at the end of its path. -/
theorem target_of_leaf {data : Bytes} (h : resolve t cwd source = some place)
    (hleaf : t.kind place = some (.leaf data)) :
    ∃ parent name, target t cwd source = some (parent, name, false) := by
  unfold resolve at h
  split_ifs at h
  obtain ⟨hwalk, -⟩ := Option.filter_eq_some_iff.mp h
  obtain ⟨init, last, hparts⟩ : ∃ init last, parts source = init ++ [last] :=
    ⟨_, _, (List.dropLast_append_getLast (List.splitOnP_ne_nil _ _)).symm⟩
  rw [hparts, walk_append] at hwalk
  obtain ⟨parent, hparent, hlast⟩ := Option.bind_eq_some_iff.mp hwalk
  obtain ⟨hdir, next, hgoes, hend⟩ := walk_cons_eq_some.mp hlast
  obtain rfl := Option.some.inj hend
  cases hgoes with
  | stay =>
    rw [hdir] at hleaf
    cases hleaf
  | up =>
    rcases List.eq_nil_or_concat parent with rfl | ⟨above, name, rfl⟩
    · rw [List.dropLast_nil, hdir] at hleaf
      cases hleaf
    · rw [List.concat_eq_append] at hdir hleaf
      rw [List.dropLast_concat, t.above (by rw [hdir]; exact Option.some_ne_none _)] at hleaf
      cases hleaf
  | down hstays hup hthere =>
    refine ⟨parent, last, ?_⟩
    have hne : last ≠ [] := fun h => hstays (.inl h)
    have hdot : last ≠ DOT := fun h => hstays (.inr h)
    unfold target
    dsimp only
    rw [hparts, List.rdropWhile_concat_neg _ _ _ (by simpa using hne), List.getLast?_concat]
    dsimp only
    rw [if_neg (not_or.mpr ⟨hdot, hup⟩), List.dropLast_concat, hparent]
    simp [hdir, hne]

/-- Copying wrote at the destination. -/
structure Copied (t t' : Disk) (cwd : Place Bytes) (source dest : Bytes) (done : Bool)
    (data written : Bytes) : Prop where
  at_source : t.kind (spelled cwd source) = some (.leaf data)
  at_target : ∃ parent name, target t cwd dest = some (parent, name, false)
  at_dest : t.kind (spelled cwd dest) ≠ some .dir
  kind : ∀ q, t'.kind q = if q = spelled cwd dest then some (.leaf written) else t.kind q
  empty : data = [] → written = []
  all : done = true → spelled cwd source ≠ spelled cwd dest → written = data

/-- **Copying** does nothing, or it writes at the destination. -/
theorem copy_cases {copying : Copying} {done : Bool}
    (h : copy copying t cwd source dest = (done, t')) :
    (done = false ∧ t' = t) ∨ ∃ data written, Copied t t' cwd source dest done data written := by
  unfold copy at h
  split at h
  · rename_i data parent name hsource htarget
    obtain ⟨place, hplace, hdata⟩ := Option.bind_eq_some_iff.mp hsource
    obtain rfl := resolve_spelled hplace
    by_cases hkinds : t.kind parent = some .dir ∧ t.kind (parent ++ [name]) ≠ some .dir
    · have hdest := (target_spelled htarget).1
      have hnot : t.kind (spelled cwd dest) ≠ some .dir := by
        rw [← hdest]
        exact hkinds.2
      rw [dif_pos hkinds] at h
      have hempty : data = [] → readable t cwd source (parent ++ [name]) data = [] := by
        rintro rfl
        exact ite_self _
      cases copying with
      | refused =>
        cases h
        exact .inl ⟨rfl, rfl⟩
      | stopped bytes =>
        cases h
        refine .inr ⟨data, (readable t cwd source (parent ++ [name]) data).take bytes, hdata,
          ⟨parent, name, htarget⟩, hnot, ?_, ?_, fun h => absurd h Bool.false_ne_true⟩
        · intro q
          rw [Tree.kind_put, hdest]
        · intro h
          rw [hempty h, List.take_nil]
      | done =>
        cases h
        refine .inr ⟨data, _, hdata, ⟨parent, name, htarget⟩, hnot, ?_, hempty, ?_⟩
        · intro q
          rw [Tree.kind_put, hdest]
        · intro _ hne
          unfold readable
          rw [if_neg]
          rw [hplace, Option.some_inj, hdest]
          exact hne
    · rw [dif_neg hkinds] at h
      cases h
      exact .inl ⟨rfl, rfl⟩
  · cases h
    exact .inl ⟨rfl, rfl⟩

/-- Copying that writes over nothing leaves everything there. -/
theorem Copied.grows {done : Bool} {data written : Bytes}
    (h : Copied t t' cwd source dest done data written)
    (hleaf : ∀ data', t.kind (spelled cwd dest) = some (.leaf data') → data = [] ∧ data' = []) :
    t.Grows t' := by
  intro q hq
  rw [h.kind]
  split_ifs with hdest
  · subst hdest
    cases hkind : t.kind (spelled cwd dest) with
    | none => exact absurd hkind hq
    | some kind =>
      cases kind with
      | dir => exact absurd hkind h.at_dest
      | leaf data' =>
        obtain ⟨hdata, rfl⟩ := hleaf data' hkind
        rw [h.empty hdata]
  · rfl

/-- Below a file there is nothing. -/
theorem below_leaf {data : Bytes} (h : t.kind place = some (.leaf data)) {below : Place Bytes}
    (hbelow : t.kind (place ++ below) ≠ none) : below = [] := by
  by_contra hne
  rw [Tree.kind_of_below hbelow hne] at h
  cases h

theorem remove_source_safe {data written : Bytes}
    (h : Copied t t' cwd source dest true data written)
    (hne : spelled cwd source ≠ spelled cwd dest) (hgrows : t.Grows t') :
    Safe t (spelled cwd source) (spelled cwd dest) (remove_source env cwd source t') := by
  unfold remove_source
  split
  · exact Kept.of_grows hgrows _ _
  · rename_i place hplace
    obtain rfl := resolve_spelled hplace
    split_ifs with hremoved
    · refine ⟨?_, fun below => if_pos (List.prefix_append _ _)⟩
      intro below hbelow
      obtain rfl := below_leaf h.at_source hbelow
      rw [List.append_nil, List.append_nil, Tree.kind_remove, if_neg, h.kind, if_pos rfl,
        h.all rfl hne, h.at_source]
      rintro ⟨below, hdest⟩
      cases below with
      | nil => exact hne (by rw [← hdest, List.append_nil])
      | cons b below =>
        -- the source would be a directory above the destination
        have hchild : t'.kind (spelled cwd source ++ b :: below) ≠ none := by
          rw [hdest, h.kind, if_pos rfl]
          exact Option.some_ne_none _
        exact hremoved.1 (Tree.kind_of_below hchild (List.cons_ne_nil _ _))
    · exact Kept.of_grows hgrows _ _

/-- **The last step** is safe where the two paths are not the same entry, and where copying writes
over nothing. -/
theorem move_entry_safe (hsource : resolve t cwd source ≠ none)
    (hsame : spelled cwd source = spelled cwd dest → rename t cwd source dest = none)
    (hleaf : ∀ data data', (∃ parent name, target t cwd dest = some (parent, name, false)) →
      t.kind (spelled cwd source) = some (.leaf data) →
      t.kind (spelled cwd dest) = some (.leaf data') → data = [] ∧ data' = []) :
    Safe t (spelled cwd source) (spelled cwd dest) (move_entry env cwd source dest t) := by
  obtain ⟨place, hplace⟩ := Option.ne_none_iff_exists'.mp hsource
  obtain rfl := resolve_spelled hplace
  unfold move_entry
  split
  · rename_i t' hrename
    obtain ⟨hrename, -⟩ := Option.filter_eq_some_iff.mp hrename
    rcases rename_cases hrename with ⟨heq, -⟩ | ⟨-, hmove⟩
    · rw [hsame heq] at hrename
      cases hrename
    · exact ⟨fun below _ => (hmove below).1, fun below => (hmove below).2⟩
  · split_ifs with hdir
    · exact Kept.refl _ _ _
    · split
      · rename_i t' hcopy
        rcases copy_cases hcopy with ⟨-, rfl⟩ | ⟨data, written, hcopied⟩
        · exact Kept.refl _ _ _
        · have hgrows := hcopied.grows fun data' =>
            hleaf data data' hcopied.at_target hcopied.at_source
          exact Kept.of_grows hgrows _ _
      · rename_i t' hcopy
        rcases copy_cases hcopy with ⟨hdone, -⟩ | ⟨data, written, hcopied⟩
        · cases hdone
        · refine remove_source_safe hcopied ?_
            (hcopied.grows fun data' => hleaf data data' hcopied.at_target hcopied.at_source)
          intro heq
          obtain ⟨parent, name, htarget⟩ := target_of_leaf hplace hcopied.at_source
          obtain ⟨parent', name', htarget'⟩ := hcopied.at_target
          have hrename := rename_same htarget htarget' (resolve_isSome hplace) heq
          rw [hsame heq] at hrename
          cases hrename

end Entry

/-! ## A whole move -/

section Move

variable {t t' : Disk} {cwd : Place Bytes} {source dest : Bytes} {env : Env}

/-- Where the parent is made, it is made as nothing would fail. -/
theorem make_parent_prepared (hmade : (make_parent env cwd dest t).1 ≠ none) :
    make_parent env cwd dest t = prepared cwd dest t := by
  obtain ⟨place, hplace⟩ := Option.ne_none_iff_exists'.mp hmade
  unfold make_parent at hplace ⊢
  unfold prepared
  cases hparent : has_parent dest with
  | false =>
    rw [if_neg Bool.false_ne_true, above_eq_nil hparent]
    rfl
  | true =>
    rw [hparent, if_pos rfl] at hplace
    rw [if_pos rfl, create_dirs_all _ _ _ hplace]

theorem make_parent_grows (env : Env) (cwd : Place Bytes) (dest : Bytes) (t : Disk) :
    t.Grows (make_parent env cwd dest t).2 := by
  unfold make_parent
  split_ifs
  · exact create_dirs_grows _ _ _ _
  · exact .refl t

/-- Nothing is made where nothing may be made. -/
theorem make_parent_none (h : env.create_dir = fun _ => false) :
    (make_parent env cwd dest t).2 = t := by
  unfold make_parent
  split_ifs
  · rw [h]
    exact create_dirs_none _ _ _
  · rfl

theorem make_parent_all (h : env.create_dir = fun _ => true) :
    make_parent env cwd dest t = prepared cwd dest t := by
  unfold make_parent prepared
  cases hparent : has_parent dest with
  | false =>
    rw [if_neg Bool.false_ne_true, above_eq_nil hparent]
    rfl
  | true => rw [if_pos rfl, h]

theorem copy_refused (t : Disk) (cwd : Place Bytes) (source dest : Bytes) :
    copy .refused t cwd source dest = (false, t) := by
  unfold copy
  split
  · split_ifs
    · rfl
    · rfl
  · rfl

/-- What stops half-way leaves a part. -/
theorem copy_stopped {data : Bytes} {parent : Place Bytes} {name : Bytes} (bytes : ℕ)
    (hsource : resolve t cwd source = some (spelled cwd source))
    (hdata : t.kind (spelled cwd source) = some (.leaf data))
    (htarget : target t cwd dest = some (parent, name, false))
    (hnot : t.kind (spelled cwd dest) ≠ some .dir) :
    ∃ t', copy (.stopped bytes) t cwd source dest = (false, t') ∧ t'.kind (spelled cwd dest) =
      some (.leaf ((readable t cwd source (spelled cwd dest) data).take bytes)) := by
  obtain ⟨hdest, hdir⟩ := target_spelled htarget
  have hkinds : t.kind parent = some .dir ∧ t.kind (parent ++ [name]) ≠ some .dir := by
    rw [hdest]
    exact ⟨hdir, hnot⟩
  have hbind : (resolve t cwd source).bind t.kind = some (.leaf data) := by
    rw [hsource]
    exact hdata
  unfold copy
  rw [hbind, htarget]
  dsimp only
  rw [dif_pos hkinds]
  refine ⟨_, rfl, ?_⟩
  rw [Tree.kind_put, if_pos hdest.symm, hdest]

/-- Removing succeeds, and everything after it fails. -/
def Env.hostile : Env :=
  ⟨true, fun _ _ => .done, fun _ => true, fun _ => false, false, .refused⟩

theorem Env.remove_hostile (t : Disk) (place : Place Bytes) :
    Env.hostile.remove t place = (true, t.remove place) := by
  unfold Env.remove
  split_ifs with hdir hfile
  · rfl
  · rfl
  · exact absurd rfl hfile

theorem move_entry_hostile (t : Disk) (cwd : Place Bytes) (source dest : Bytes) :
    ∃ error, move_entry .hostile cwd source dest t = (.error error, t) := by
  have hrename : ((rename t cwd source dest).filter fun _ => Env.hostile.rename) = none :=
    Option.filter_eq_none_iff.mpr fun _ _ => Bool.false_ne_true
  unfold move_entry
  rw [hrename]
  dsimp only
  split_ifs
  · exact ⟨_, rfl⟩
  · have hcopy : copy Env.hostile.copy t cwd source dest = (false, t) := copy_refused _ _ _ _
    rw [hcopy]
    exact ⟨_, rfl⟩

end Move

section Claim

variable {v : Vars} {cwd : Place Bytes} {args : MoveArgs} {t : Disk}

/-- A move past its checks. -/
theorem local_move_eq (env : Env) (hdest : Text.trim (args.destination.getD []) ≠ [])
    (hsource : resolve t cwd (local_path v (args.path.getD [])) ≠ none) :
    local_move v env cwd args t =
      match clear_destination env cwd (args.overwrite.getD false)
        (local_path v (args.destination.getD [])) t with
      | (.error error, t) => (.error error, t)
      | (.ok _, t) =>
        match make_parent env cwd (local_path v (args.destination.getD [])) t with
        | (none, t) => (.error (.cannot_create (local_path v (args.destination.getD []))), t)
        | (some _, t) => move_entry env cwd (local_path v (args.path.getD []))
            (local_path v (args.destination.getD [])) t := by
  unfold local_move
  dsimp only
  rw [if_neg hdest, if_neg hsource]

/-- **What is overwritten** is lost where the next call fails. -/
theorem not_overwrites (h : MovesSafely v cwd args t)
    (hdest : Text.trim (args.destination.getD []) ≠ [])
    (hsource : resolve t cwd (local_path v (args.path.getD [])) ≠ none) :
    ¬ Overwrites cwd (args.overwrite.getD false) (local_path v (args.destination.getD [])) t := by
  rintro ⟨hthere, hoverwrite⟩
  obtain ⟨place, hplace⟩ := Option.ne_none_iff_exists'.mp hthere
  obtain rfl := resolve_spelled hplace
  have hsafe := h .hostile
  rw [local_move_eq _ hdest hsource] at hsafe
  unfold clear_destination at hsafe
  rw [hplace] at hsafe
  dsimp only at hsafe
  rw [hoverwrite, if_neg (Bool.false_ne_true ∘ Eq.symm), Env.remove_hostile] at hsafe
  dsimp only at hsafe
  generalize local_path v (args.destination.getD []) = dest at *
  have hmade : (make_parent .hostile cwd dest (t.remove (spelled cwd dest))).2 =
      t.remove (spelled cwd dest) := make_parent_none rfl
  obtain ⟨error, hkept⟩ : ∃ error, Safe t
      (spelled cwd (local_path v (args.path.getD []))) (spelled cwd dest)
      (Except.error error, t.remove (spelled cwd dest)) := by
    generalize make_parent .hostile cwd dest (t.remove (spelled cwd dest)) = made at hmade hsafe
    obtain ⟨_ | _, t'⟩ := made
    · obtain rfl := hmade
      exact ⟨_, hsafe⟩
    · obtain rfl := hmade
      dsimp only at hsafe
      obtain ⟨error, hentry⟩ := move_entry_hostile (t.remove (spelled cwd dest)) cwd
        (local_path v (args.path.getD [])) dest
      rw [hentry] at hsafe
      exact ⟨error, hsafe⟩
  have hlost := hkept.dest []
  rw [List.append_nil, Tree.kind_remove, if_pos List.prefix_rfl] at hlost
  exact resolve_isSome hplace (hlost (resolve_isSome hplace)).symm

theorem clear_destination_none {env : Env} {overwrite : Bool} {dest : Bytes}
    (h : resolve t cwd dest = none) : clear_destination env cwd overwrite dest t = (.ok (), t) := by
  unfold clear_destination
  rw [h]

/-- **What comes into being** at the destination is lost where copying stops, and a source that is
its own destination is not gone. -/
theorem not_clobbers (h : MovesSafely v cwd args t)
    (hdest : Text.trim (args.destination.getD []) ≠ [])
    (hsource : resolve t cwd (local_path v (args.path.getD [])) ≠ none) :
    ¬ Clobbers cwd (local_path v (args.path.getD [])) (local_path v (args.destination.getD [])) t := by
  rintro ⟨hnone, hmade, hclobbers⟩
  obtain ⟨place, hplace⟩ := Option.ne_none_iff_exists'.mp hsource
  obtain rfl := resolve_spelled hplace
  -- every directory can be made
  have hrun (env : Env) (henv : env.create_dir = fun _ => true) :
      local_move v env cwd args t =
        move_entry env cwd (local_path v (args.path.getD [])) (local_path v (args.destination.getD []))
          (prepared cwd (local_path v (args.destination.getD [])) t).2 := by
    rw [local_move_eq _ hdest hsource, clear_destination_none hnone]
    dsimp only
    rw [make_parent_all henv]
    obtain ⟨made, hmade⟩ := Option.ne_none_iff_exists'.mp hmade
    generalize prepared cwd (local_path v (args.destination.getD [])) t = made at *
    obtain ⟨_, t'⟩ := made
    obtain rfl := hmade
    rfl
  have hgrows : t.Grows (prepared cwd (local_path v (args.destination.getD [])) t).2 :=
    create_dirs_grows _ _ _ _
  generalize (prepared cwd (local_path v (args.destination.getD [])) t).2 = t' at *
  have hplace' := resolve_grows hgrows hplace
  have hthere := resolve_isSome hplace'
  unfold MovesSafely at h
  generalize local_path v (args.path.getD []) = source at *
  generalize local_path v (args.destination.getD []) = dest at *
  rcases hclobbers with ⟨heq, hrename⟩ | ⟨⟨parent, name, htarget⟩, data, data', hdata, hdata', hne⟩
  · obtain ⟨t'', hrename⟩ := Option.ne_none_iff_exists'.mp hrename
    have hsafe := h ⟨true, fun _ _ => .done, fun _ => true, fun _ => true, true, .done⟩
    rw [hrun _ rfl] at hsafe
    unfold move_entry at hsafe
    rw [hrename] at hsafe
    rcases rename_cases hrename with ⟨-, rfl⟩ | ⟨hdiffer, -⟩
    · have hgone := hsafe.gone []
      rw [List.append_nil] at hgone
      exact hthere hgone
    · exact hdiffer heq
  · have hleaf := (hgrows _ (by rw [hdata]; exact Option.some_ne_none _)).trans hdata
    have hleaf' := (hgrows _ (by rw [hdata']; exact Option.some_ne_none _)).trans hdata'
    have hnot : t'.kind (spelled cwd dest) ≠ some .dir := by
      rw [hleaf']
      exact nofun
    have hkept (bytes : ℕ) :
        (readable t' cwd source (spelled cwd dest) data).take bytes = data' := by
      have hsafe := h ⟨true, fun _ _ => .done, fun _ => true, fun _ => true, false, .stopped bytes⟩
      rw [hrun _ rfl] at hsafe
      obtain ⟨t'', hcopy, hwritten⟩ := copy_stopped bytes hplace' hleaf htarget hnot
      unfold move_entry at hsafe
      rw [Option.filter_eq_none_iff.mpr fun _ _ => Bool.false_ne_true] at hsafe
      dsimp only at hsafe
      have hbind : (resolve t' cwd source).bind t'.kind = some (.leaf data) := by
        rw [hplace']
        exact hleaf
      have hnotdir : some (Kind.leaf data) ≠ some Kind.dir := nofun
      rw [hbind, if_neg hnotdir, hcopy] at hsafe
      have hintact := hsafe.dest []
      rw [List.append_nil] at hintact
      rw [hintact (by rw [hdata']; exact Option.some_ne_none _), hdata'] at hwritten
      exact (Kind.leaf.inj (Option.some.inj hwritten)).symm
    -- nothing is written, or a single byte
    obtain rfl := (hkept 0).symm.trans List.take_zero
    have hdata_ne := hne.resolve_right fun hne => hne rfl
    have hdiffer : resolve t' cwd source ≠ some (spelled cwd dest) := by
      rw [hplace', ne_eq, Option.some_inj]
      intro heq
      rw [heq, hdata'] at hdata
      exact hdata_ne (Kind.leaf.inj (Option.some.inj hdata)).symm
    have hone := hkept 1
    unfold readable at hone
    rw [if_neg hdiffer, List.take_eq_nil_iff] at hone
    exact hone.elim one_ne_zero hdata_ne

/-- **A move** loses nothing, whatever fails, exactly when nothing is at the destination that may be
overwritten, and nothing comes into being there. -/
theorem local_move_safe_iff (v : Vars) (cwd : Place Bytes) (args : MoveArgs) (t : Disk) :
    MovesSafely v cwd args t ↔
      Text.trim (args.destination.getD []) = [] ∨
      resolve t cwd (local_path v (args.path.getD [])) = none ∨
      ¬ Overwrites cwd (args.overwrite.getD false) (local_path v (args.destination.getD [])) t ∧
        ¬ Clobbers cwd (local_path v (args.path.getD []))
          (local_path v (args.destination.getD [])) t := by
  constructor
  · intro h
    by_cases hdest : Text.trim (args.destination.getD []) = []
    · exact .inl hdest
    · by_cases hsource : resolve t cwd (local_path v (args.path.getD [])) = none
      · exact .inr (.inl hsource)
      · exact .inr (.inr ⟨not_overwrites h hdest hsource, not_clobbers h hdest hsource⟩)
  · intro h env
    by_cases hdest : Text.trim (args.destination.getD []) = []
    · unfold local_move
      dsimp only
      rw [if_pos hdest]
      exact Kept.refl _ _ _
    · by_cases hsource : resolve t cwd (local_path v (args.path.getD [])) = none
      · unfold local_move
        dsimp only
        rw [if_neg hdest, if_pos hsource]
        exact Kept.refl _ _ _
      · obtain ⟨hoverwrites, hclobbers⟩ := (h.resolve_left hdest).resolve_left hsource
        rw [local_move_eq _ hdest hsource]
        generalize local_path v (args.path.getD []) = source at *
        generalize local_path v (args.destination.getD []) = dest at *
        cases hthere : resolve t cwd dest with
        | some place =>
          have hkeep : args.overwrite.getD false = false :=
            Bool.eq_false_of_not_eq_true fun h =>
              hoverwrites ⟨by rw [hthere]; exact Option.some_ne_none _, h⟩
          unfold clear_destination
          rw [hthere]
          dsimp only
          rw [if_pos hkeep]
          exact Kept.refl _ _ _
        | none =>
          rw [clear_destination_none hthere]
          dsimp only
          have hgrows := make_parent_grows env cwd dest t
          have hprepared : (make_parent env cwd dest t).1 ≠ none →
              make_parent env cwd dest t = prepared cwd dest t := make_parent_prepared
          generalize make_parent env cwd dest t = made at *
          obtain ⟨_ | made, t'⟩ := made
          · exact Kept.of_grows hgrows _ _
          · have hprep := hprepared (Option.some_ne_none _)
            refine .of_grows hgrows (move_entry_safe ?_ ?_ ?_)
            · obtain ⟨place, hplace⟩ := Option.ne_none_iff_exists'.mp hsource
              rw [resolve_grows hgrows hplace]
              exact Option.some_ne_none _
            · intro heq
              by_contra hrename
              exact hclobbers ⟨hthere, by rw [← hprep]; exact Option.some_ne_none _,
                .inl ⟨heq, by rwa [← hprep]⟩⟩
            · intro data data' htarget hdata hdata'
              by_contra hne
              have hleaf {q : Place Bytes} {data : Bytes} (h : t'.kind q = some (.leaf data)) :
                  t.kind q = some (.leaf data) := by
                unfold prepared at hprep
                refine create_dirs_leaf (fun _ => true) t (start cwd dest) (above (parts dest)) ?_
                rwa [← hprep]
              refine hclobbers ⟨hthere, by rw [← hprep]; exact Option.some_ne_none _,
                .inr ⟨by rwa [← hprep], data, data', hleaf hdata, hleaf hdata', ?_⟩⟩
              rwa [ne_eq, ne_eq, ← not_and_or]

end Claim

/-- A home directory with the file `a`. -/
def home_with_a : Disk :=
  homes.put [encode ['h'], encode ['u']] (encode ['a']) (.leaf [1]) (by decide) (.inr (by decide))

/-- `~/a` moved to `~/./a`: it is deleted before it is moved. -/
theorem file_deleted :
    ¬ MovesSafely vars [] ⟨some "~/a".toList, some "~/./a".toList, some true⟩ home_with_a := by
  intro h
  have hsafe := h .fine
  have herror : (local_move vars .fine [] ⟨some "~/a".toList, some "~/./a".toList, some true⟩
      home_with_a).1 = .error (.cannot_move (encode "/h/u/a".toList) (encode "/h/u/./a".toList)) := by
    decide +kernel
  have hgone : ((local_move vars .fine [] ⟨some "~/a".toList, some "~/./a".toList, some true⟩
      home_with_a).2.kind (spelled [] (encode "/h/u/a".toList))).isNone := by
    decide +kernel
  have hthere : (home_with_a.kind (spelled [] (encode "/h/u/a".toList))).isNone = false := by
    decide +kernel
  generalize local_move vars .fine [] ⟨some "~/a".toList, some "~/./a".toList, some true⟩
    home_with_a = outcome at *
  obtain ⟨result, t'⟩ := outcome
  obtain rfl := herror
  have hsource : local_path vars ((some "~/a".toList).getD []) = encode "/h/u/a".toList := by
    decide +kernel
  have hintact := hsafe.source []
  rw [List.append_nil, hsource] at hintact
  rw [Option.isNone_iff_eq_none] at hgone
  rw [hgone] at hintact
  cases hkind : home_with_a.kind (spelled [] (encode "/h/u/a".toList)) with
  | none =>
    rw [hkind] at hthere
    cases hthere
  | some kind =>
    rw [hkind] at hintact
    exact Option.some_ne_none _ (hintact (Option.some_ne_none _)).symm

end WaSSH.Agent.LocalFiles
