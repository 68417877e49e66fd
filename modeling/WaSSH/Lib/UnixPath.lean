import WaSSH.Lib.FileTree
import Mathlib.Data.List.DropRight

/-!
# Unix paths

Paths are byte strings, as `std::path` has them on Unix.

* `parts`, `body`, `components`, `is_absolute`, `join`, `parent`, `file_name`: the operations of
  `Path`;
* `walk`, `resolve`: where a path leads in a file tree without links;
* `spelled`, `resolve_spelled`: where it leads is read off the path;
* `resolve_plain`: a path without `..` leads to where it says;
* `Goes`, `walk_cons_eq_some`: a walk, step by step;
* `walk_grows`: what was found is found in every tree that has more;
* `create_dirs`, `target`, `rename`: the calls, with `create_dirs_grows`, `rename_cases`;
* `passed`, `create_dirs_passed`: a path and the directories that are made on its way;
* `spelled_join`, `resolve_join`: a name below a directory.
-/

namespace UnixPath

open FileTree

abbrev Bytes := List UInt8

def SLASH : UInt8 := 0x2f
def DOT : Bytes := [0x2e]
def DOTDOT : Bytes := [0x2e, 0x2e]

/-- A name in a directory. -/
def IsName (name : Bytes) : Prop :=
  name ≠ [] ∧ SLASH ∉ name ∧ name ≠ DOT ∧ name ≠ DOTDOT

/-! ## Operations on paths -/

/-- What lies between the slashes. -/
def parts (path : Bytes) : List Bytes := path.splitOn SLASH

/-- A part that says to stay. -/
def Stays (part : Bytes) : Prop := part = [] ∨ part = DOT

instance : DecidablePred Stays := fun part => inferInstanceAs (Decidable (part = [] ∨ part = DOT))

/-- `Path::is_absolute`. -/
def is_absolute (path : Bytes) : Bool := path.head? = some SLASH

/-- The components that are names or `..`. -/
def body (path : Bytes) : List Bytes := (parts path).filter fun part => ¬ Stays part

/-- `Path::components`, by which paths are compared: whether it starts at the root, whether it
starts with a `.`, and the rest. -/
def components (path : Bytes) : Bool × Bool × List Bytes :=
  (is_absolute path, (parts path).head? = some DOT, body path)

/-- `Path::join`. -/
def join (base path : Bytes) : Bytes :=
  if is_absolute path then path
  else if base = [] ∨ base.getLast? = some SLASH then base ++ path
  else base ++ SLASH :: path

/-- Without the last name, and what says to stay around it. -/
def above (l : List Bytes) : List Bytes :=
  ((l.rdropWhile fun part => Stays part).dropLast).rdropWhile fun part => Stays part

/-- `Path::parent` is `None` for the root and for the empty path. -/
def has_parent (path : Bytes) : Bool :=
  body path ≠ [] || ((parts path).head? = some DOT : Bool)

/-- `Path::file_name`: the last component, if it is a name. -/
def file_name (path : Bytes) : Option Bytes :=
  (body path).getLast?.filter fun part => part ≠ DOTDOT

/-! ## Where a path leads -/

variable {β : Type*}

/-- Part by part, through directories. -/
def walk (t : Tree Bytes β) : Place Bytes → List Bytes → Option (Place Bytes)
  | place, [] => some place
  | place, part :: rest =>
    match t.kind place with
    | some .dir =>
      if Stays part then walk t place rest
      else if part = DOTDOT then walk t place.dropLast rest
      else if (t.kind (place ++ [part])).isSome then walk t (place ++ [part]) rest
      else none
    | _ => none

/-- Where the parts of a path are followed from. -/
def start (cwd : Place Bytes) (path : Bytes) : Place Bytes := if is_absolute path then [] else cwd

/-- What a path names: the place of something that exists. -/
def resolve (t : Tree Bytes β) (cwd : Place Bytes) (path : Bytes) : Option (Place Bytes) :=
  if path = [] then none
  else
    (walk t (start cwd path) (parts path)).filter fun place => (t.kind place).isSome

/-! ## Lemmas -/

variable {t t' : Tree Bytes β} {place place' cwd : Place Bytes} {part : Bytes} {rest path : List UInt8}

theorem parts_slash (path : Bytes) : parts (SLASH :: path) = [] :: parts path := by
  unfold parts List.splitOn
  rw [List.splitOnP_cons_eq_if_modifyHead, if_pos (beq_self_eq_true _)]

theorem head_parts (h : is_absolute path) : (parts path).head? = some [] := by
  cases path with
  | nil => cases h
  | cons b path =>
    obtain rfl : b = SLASH := Option.some.inj (of_decide_eq_true h)
    rw [parts_slash]
    rfl

theorem parts_append_slash (p q : Bytes) : parts (p ++ SLASH :: q) = parts p ++ parts q :=
  List.splitOnP_append_cons p q (beq_self_eq_true _)

theorem parts_of_not_mem {p : Bytes} (h : SLASH ∉ p) : parts p = [p] :=
  List.splitOnP_eq_singleton fun _ hb => beq_eq_false_iff_ne.mpr fun heq => h (heq ▸ hb)

theorem body_append_slash (p q : Bytes) : body (p ++ SLASH :: q) = body p ++ body q := by
  unfold body
  rw [parts_append_slash, List.filter_append]

theorem body_of_not_mem {p : Bytes} (h : SLASH ∉ p) : body p = if Stays p then [] else [p] := by
  unfold body
  rw [parts_of_not_mem h, List.filter_singleton]
  split_ifs with hstays <;> simp_all

/-- Slashes at the end do not count. -/
theorem body_append_slashes (p : Bytes) {q : Bytes} (h : ∀ b ∈ q, b = SLASH) :
    body (p ++ q) = body p := by
  induction q with
  | nil => rw [List.append_nil]
  | cons b q ih =>
    have hempty : body q = [] := by
      clear ih
      induction q with
      | nil => rfl
      | cons c q ih =>
        obtain rfl := h c (List.mem_cons_of_mem _ List.mem_cons_self)
        have hq := body_append_slash [] q
        rw [List.nil_append] at hq
        rw [hq, ih fun _ hb => h _ (by
          rcases List.mem_cons.mp hb with rfl | hb
          · exact List.mem_cons_self
          · exact List.mem_cons_of_mem _ (List.mem_cons_of_mem _ hb))]
        rfl
    obtain rfl := h b List.mem_cons_self
    rw [body_append_slash, hempty, List.append_nil]

theorem mem_of_mem_parts {path part : Bytes} {b : UInt8} (hpart : part ∈ parts path) (hb : b ∈ part) :
    b ∈ path := by
  induction hn : path.length using Nat.strong_induction_on generalizing path with
  | h n ih =>
    by_cases hslash : SLASH ∈ path
    · obtain ⟨p, q, rfl, hp⟩ := List.eq_append_cons_of_mem hslash
      rw [parts_append_slash, List.mem_append, parts_of_not_mem hp, List.mem_singleton] at hpart
      rcases hpart with rfl | hpart
      · exact List.mem_append_left _ hb
      · refine List.mem_append_right _ (List.mem_cons_of_mem _ (ih q.length ?_ hpart rfl))
        rw [← hn, List.length_append, List.length_cons]
        omega
    · rw [parts_of_not_mem hslash, List.mem_singleton] at hpart
      exact hpart ▸ hb

/-- A byte that is neither a slash nor a dot is in a component. -/
theorem mem_body_of_mem {path : Bytes} {b : UInt8} (hb : b ∈ path) (hslash : b ≠ SLASH)
    (hdot : b ≠ 0x2e) : ∃ part ∈ body path, b ∈ part := by
  induction hn : path.length using Nat.strong_induction_on generalizing path with
  | h n ih =>
    by_cases hmem : SLASH ∈ path
    · obtain ⟨p, q, rfl, hp⟩ := List.eq_append_cons_of_mem hmem
      rw [body_append_slash]
      rw [List.length_append, List.length_cons] at hn
      rcases List.mem_append.mp hb with hb | hb
      · obtain ⟨part, hpart, hbpart⟩ := ih p.length (by omega) hb rfl
        exact ⟨part, List.mem_append_left _ hpart, hbpart⟩
      · obtain ⟨part, hpart, hbpart⟩ :=
          ih q.length (by omega) ((List.mem_cons.mp hb).resolve_left hslash) rfl
        exact ⟨part, List.mem_append_right _ hpart, hbpart⟩
    · rw [body_of_not_mem hmem]
      refine ⟨path, ?_, hb⟩
      rw [if_neg, List.mem_singleton]
      rintro (rfl | rfl)
      · cases hb
      · exact hdot (List.mem_singleton.mp hb)

/-- A name below a directory. -/
theorem body_join {dir name : Bytes} (hdir : dir ≠ []) (hname : name ≠ []) (h : SLASH ∉ name) :
    body (join dir name) = body dir ++ body name := by
  have hrel : is_absolute name = false := by
    cases name with
    | nil => exact absurd rfl hname
    | cons b name =>
      refine decide_eq_false fun heq => h ?_
      rw [← Option.some.inj heq]
      exact List.mem_cons_self
  unfold join
  rw [hrel, if_neg Bool.false_ne_true]
  split_ifs with hends
  · obtain ⟨init, rfl⟩ := List.getLast?_eq_some_iff.mp (hends.resolve_left hdir)
    have hinit := body_append_slash init []
    rw [List.append_assoc, List.singleton_append, body_append_slash, hinit]
    rw [show body [] = [] from rfl, List.append_nil]
  · exact body_append_slash _ _

theorem is_absolute_join {dir name : Bytes} (hdir : is_absolute dir) :
    is_absolute (join dir name) := by
  unfold join
  cases dir with
  | nil => cases hdir
  | cons b dir =>
    split_ifs with hname
    · exact hname
    · exact hdir
    · exact hdir

theorem components_of_absolute (h : is_absolute path) :
    components path = (true, false, body path) := by
  unfold components
  rw [h, head_parts h]
  rfl

/-- Above the root there is nothing to make. -/
theorem above_eq_nil (h : has_parent path = false) : above (parts path) = [] := by
  unfold has_parent at h
  rw [Bool.or_eq_false_iff, decide_eq_false_iff_not, not_not] at h
  have hstays : ∀ part ∈ parts path, decide (Stays part) = true := by
    intro part hpart
    have hnot := List.filter_eq_nil_iff.mp h.1 part hpart
    simpa using hnot
  unfold above
  rw [List.rdropWhile_eq_nil_iff.mpr hstays]
  rfl

theorem walk_append (t : Tree Bytes β) (place : Place Bytes) (l l' : List Bytes) :
    walk t place (l ++ l') = (walk t place l).bind fun place => walk t place l' := by
  induction l generalizing place with
  | nil => rfl
  | cons part l ih =>
    rw [List.cons_append, walk, walk]
    split
    · split_ifs
      · exact ih _
      · exact ih _
      · exact ih _
      · rfl
    · rfl

/-- One step of a walk out of a directory. -/
inductive Goes (t : Tree Bytes β) (place : Place Bytes) (part : Bytes) : Place Bytes → Prop
  | stay (hstays : Stays part) : Goes t place part place
  | up (hstays : ¬ Stays part) (hup : part = DOTDOT) : Goes t place part place.dropLast
  | down (hstays : ¬ Stays part) (hup : part ≠ DOTDOT) (hthere : t.kind (place ++ [part]) ≠ none) :
    Goes t place part (place ++ [part])

/-- **A walk** goes step by step. -/
theorem walk_cons_eq_some {part : Bytes} {l : List Bytes} :
    walk t place (part :: l) = some place' ↔
      t.kind place = some .dir ∧ ∃ next, Goes t place part next ∧ walk t next l = some place' := by
  constructor
  · intro hwalk
    unfold walk at hwalk
    split at hwalk
    · rename_i hdir
      refine ⟨hdir, ?_⟩
      split_ifs at hwalk with hstays hup hthere
      · exact ⟨place, .stay hstays, hwalk⟩
      · exact ⟨place.dropLast, .up hstays hup, hwalk⟩
      · exact ⟨place ++ [part], .down hstays hup (Option.isSome_iff_ne_none.mp hthere), hwalk⟩
    · cases hwalk
  · rintro ⟨hdir, next, hgoes, hwalk⟩
    unfold walk
    rw [hdir]
    dsimp only
    cases hgoes with
    | stay hstays => rwa [if_pos hstays]
    | up hstays hup => rwa [if_neg hstays, if_pos hup]
    | down hstays hup hthere =>
      rwa [if_neg hstays, if_neg hup, if_pos (Option.isSome_iff_ne_none.mpr hthere)]

theorem Goes.grows {part : Bytes} (hgrows : t.Grows t') (h : Goes t place part place') :
    Goes t' place part place' := by
  cases h with
  | stay hstays => exact .stay hstays
  | up hstays hup => exact .up hstays hup
  | down hstays hup hthere => exact .down hstays hup (by rwa [hgrows _ hthere])

/-- **More in the tree**, and the way is the same. -/
theorem walk_grows (h : t.Grows t') {l : List Bytes} (hwalk : walk t place l = some place') :
    walk t' place l = some place' := by
  induction l generalizing place with
  | nil => exact hwalk
  | cons part l ih =>
    obtain ⟨hdir, next, hgoes, hrest⟩ := walk_cons_eq_some.mp hwalk
    have hthere : t.kind place ≠ none := by
      rw [hdir]
      exact Option.some_ne_none _
    exact walk_cons_eq_some.mpr ⟨(h place hthere).trans hdir, next, hgoes.grows h, ih hrest⟩

/-- Where the parts lead if every name is a directory. -/
def follow : Place Bytes → List Bytes → Place Bytes
  | place, [] => place
  | place, part :: rest =>
    if Stays part then follow place rest
    else if part = DOTDOT then follow place.dropLast rest
    else follow (place ++ [part]) rest

/-- The place that a path spells. -/
def spelled (cwd : Place Bytes) (path : Bytes) : Place Bytes := follow (start cwd path) (parts path)

theorem Goes.follow_cons {part : Bytes} (h : Goes t place part place') (l : List Bytes) :
    follow place (part :: l) = follow place' l := by
  rw [follow]
  cases h with
  | stay hstays => exact if_pos hstays
  | up hstays hup => rw [if_neg hstays, if_pos hup]
  | down hstays hup hthere => rw [if_neg hstays, if_neg hup]

/-- **Where a walk ends** is where its parts lead. -/
theorem walk_follow {l : List Bytes} (hwalk : walk t place l = some place') :
    place' = follow place l := by
  induction l generalizing place with
  | nil =>
    cases hwalk
    rfl
  | cons part l ih =>
    obtain ⟨-, next, hgoes, hrest⟩ := walk_cons_eq_some.mp hwalk
    rw [hgoes.follow_cons]
    exact ih hrest

theorem follow_append (place : Place Bytes) (l l' : List Bytes) :
    follow place (l ++ l') = follow (follow place l) l' := by
  induction l generalizing place with
  | nil => rfl
  | cons part l ih =>
    rw [List.cons_append, follow, follow]
    split_ifs
    · exact ih _
    · exact ih _
    · exact ih _

theorem follow_stays {l : List Bytes} (h : ∀ part ∈ l, Stays part) : follow place l = place := by
  induction l with
  | nil => rfl
  | cons part l ih =>
    unfold follow
    rw [if_pos (h part List.mem_cons_self)]
    exact ih fun part hpart => h part (List.mem_cons_of_mem _ hpart)

/-- Without `..` that is what the parts say. -/
theorem follow_plain {l : List Bytes} (hplain : DOTDOT ∉ l) :
    follow place l = place ++ l.filter fun part => ¬ Stays part := by
  induction l generalizing place with
  | nil => exact (List.append_nil _).symm
  | cons part l ih =>
    rw [List.mem_cons, not_or] at hplain
    unfold follow
    split_ifs with hstays hup
    · rw [ih hplain.2, List.filter_cons_of_neg (by simpa using hstays)]
    · exact absurd hup.symm hplain.1
    · rw [ih hplain.2, List.filter_cons_of_pos (by simpa using hstays), List.append_assoc]
      rfl

theorem resolve_spelled (h : resolve t cwd path = some place) : place = spelled cwd path := by
  unfold resolve at h
  split_ifs at h
  exact walk_follow (Option.filter_eq_some_iff.mp h).1

/-- **A path from the root without `..`** leads to where it says. -/
theorem resolve_plain (habs : is_absolute path) (hplain : DOTDOT ∉ parts path)
    (h : resolve t cwd path = some place) : place = body path := by
  rw [resolve_spelled h]
  unfold spelled start
  rw [if_pos habs]
  exact follow_plain hplain

theorem resolve_isSome (h : resolve t cwd path = some place) : t.kind place ≠ none := by
  unfold resolve at h
  split_ifs at h
  exact Option.isSome_iff_ne_none.mp (Option.filter_eq_some_iff.mp h).2

/-- **More in the tree**, and a path names what it named. -/
theorem resolve_grows (hgrows : t.Grows t') (h : resolve t cwd path = some place) :
    resolve t' cwd path = some place := by
  have hthere := resolve_isSome h
  unfold resolve at h ⊢
  split_ifs at h ⊢
  obtain ⟨hwalk, -⟩ := Option.filter_eq_some_iff.mp h
  refine Option.filter_eq_some_iff.mpr ⟨walk_grows hgrows hwalk, ?_⟩
  rw [hgrows _ hthere]
  exact Option.isSome_iff_ne_none.mpr hthere

/-! ## Calls -/

/-- `std::fs::create_dir_all`: the directories that are missing are made one after the other. -/
def create_dirs (allows : Place Bytes → Bool) (t : Tree Bytes β) (place : Place Bytes) :
    List Bytes → Option (Place Bytes) × Tree Bytes β
  | [] => (some place, t)
  | part :: rest =>
    if hdir : t.kind place = some .dir then
      if Stays part then create_dirs allows t place rest
      else if part = DOTDOT then create_dirs allows t place.dropLast rest
      else
        match t.kind (place ++ [part]) with
        | some .dir => create_dirs allows t (place ++ [part]) rest
        | some (.leaf _) => (none, t)
        | none =>
          if allows (place ++ [part]) then
            create_dirs allows (t.put place part .dir hdir (.inl rfl)) (place ++ [part]) rest
          else (none, t)
    else (none, t)

/-- The entry that a path names: its directory, its name, and whether a slash follows. -/
def target (t : Tree Bytes β) (cwd : Place Bytes) (path : Bytes) :
    Option (Place Bytes × Bytes × Bool) :=
  let named := (parts path).rdropWhile fun part => part = []
  match named.getLast? with
  | none => none
  | some name =>
    if name = DOT ∨ name = DOTDOT then none
    else
      (walk t (start cwd path) named.dropLast).bind fun parent =>
        if t.kind parent = some .dir then
          some (parent, name, decide ((parts path).getLast? = some []))
        else none

/-- What `rename` may put in the place of what is there. -/
def Replaces (t : Tree Bytes β) (source place : Place Bytes) : Prop :=
  match t.kind source, t.kind place with
  | some _, none => True
  | some .dir, some .dir => t.list place = []
  | some (.leaf _), some (.leaf _) => True
  | _, _ => False

instance (t : Tree Bytes β) (source place : Place Bytes) : Decidable (Replaces t source place) := by
  unfold Replaces
  split
  · exact instDecidableTrue
  · exact inferInstance
  · exact instDecidableTrue
  · exact instDecidableFalse

/-- `rename(2)`, where nothing but the two paths is in its way. -/
def rename (t : Tree Bytes β) (cwd : Place Bytes) (source path : Bytes) : Option (Tree Bytes β) :=
  match target t cwd source, target t cwd path with
  | some (parent, name, slash), some (parent', name', slash') =>
    if (slash ∨ slash') ∧ t.kind (parent ++ [name]) ≠ some .dir then none
    else if t.kind (parent ++ [name]) = none then none
    else if parent ++ [name] = parent' ++ [name'] then some t
    else if h : t.kind parent' = some .dir ∧ ¬ parent ++ [name] <+: parent' ++ [name'] ∧
        Replaces t (parent ++ [name]) (parent' ++ [name']) then
      some (t.move (parent ++ [name]) parent' name' h.1 h.2.1)
    else none
  | _, _ => none

/-! ## What the calls do -/

section Calls

variable {allows : Place Bytes → Bool}

theorem create_dirs_grows (allows : Place Bytes → Bool) (t : Tree Bytes β) (place : Place Bytes)
    (l : List Bytes) : t.Grows (create_dirs allows t place l).2 := by
  fun_induction create_dirs allows t place l with
  | case1 t place => exact .refl t
  | case2 t place part rest hdir hstays ih => exact ih
  | case3 t place rest hdir hstays ih => exact ih
  | case4 t place part rest hdir hstays hup hthere ih => exact ih
  | case5 t place part rest hdir hstays hup data hthere => exact .refl t
  | case6 t place part rest hdir hstays hup hnew hallows ih => exact (Tree.Grows.put hnew).trans ih
  | case7 t place part rest hdir hstays hup hnew hallows => exact .refl t
  | case8 t place part rest hdir => exact .refl t

/-- Only directories are made. -/
theorem create_dirs_leaf (allows : Place Bytes → Bool) (t : Tree Bytes β) (place : Place Bytes)
    (l : List Bytes) {q : Place Bytes} {data : β}
    (h : (create_dirs allows t place l).2.kind q = some (.leaf data)) :
    t.kind q = some (.leaf data) := by
  fun_induction create_dirs allows t place l with
  | case1 t place => exact h
  | case2 t place part rest hdir hstays ih => exact ih h
  | case3 t place rest hdir hstays ih => exact ih h
  | case4 t place part rest hdir hstays hup hthere ih => exact ih h
  | case5 t place part rest hdir hstays hup data hthere => exact h
  | case6 t place part rest hdir hstays hup hnew hallows ih =>
    have hput := ih h
    rw [Tree.kind_put] at hput
    split_ifs at hput
    · cases hput
    · exact hput
  | case7 t place part rest hdir hstays hup hnew hallows => exact h
  | case8 t place part rest hdir => exact h

/-- Where the directories are made, nothing was in the way. -/
theorem create_dirs_all (t : Tree Bytes β) (place : Place Bytes) (l : List Bytes)
    (h : (create_dirs allows t place l).1 = some place') :
    create_dirs (fun _ => true) t place l = create_dirs allows t place l := by
  fun_induction create_dirs allows t place l with
  | case1 t place => rfl
  | case2 t place part rest hdir hstays ih =>
    rw [← ih h, create_dirs, dif_pos hdir, if_pos hstays]
  | case3 t place rest hdir hstays ih =>
    rw [← ih h, create_dirs, dif_pos hdir, if_neg hstays, if_pos rfl]
  | case4 t place part rest hdir hstays hup hthere ih =>
    rw [← ih h, create_dirs, dif_pos hdir, if_neg hstays, if_neg hup, hthere]
  | case5 t place part rest hdir hstays hup data hthere => cases h
  | case6 t place part rest hdir hstays hup hnew hallows ih =>
    rw [← ih h]
    conv_lhs => unfold create_dirs
    rw [dif_pos hdir, if_neg hstays, if_neg hup]
    split
    · simp_all
    · simp_all
    · rfl
  | case7 t place part rest hdir hstays hup hnew hallows => cases h
  | case8 t place part rest hdir => cases h

/-- Where no directory can be made, none is. -/
theorem create_dirs_none (t : Tree Bytes β) (place : Place Bytes) (l : List Bytes) :
    (create_dirs (fun _ => false) t place l).2 = t := by
  fun_induction create_dirs (fun _ => false) t place l with
  | case1 t place => rfl
  | case2 t place part rest hdir hstays ih => exact ih
  | case3 t place rest hdir hstays ih => exact ih
  | case4 t place part rest hdir hstays hup hthere ih => exact ih
  | case5 t place part rest hdir hstays hup data hthere => rfl
  | case6 t place part rest hdir hstays hup hnew hallows ih => cases hallows
  | case7 t place part rest hdir hstays hup hnew hallows => rfl
  | case8 t place part rest hdir => rfl

/-- **The entry** that a path names is at the place it spells. -/
theorem target_spelled {parent : Place Bytes} {name : Bytes} {slash : Bool}
    (h : target t cwd path = some (parent, name, slash)) :
    parent ++ [name] = spelled cwd path ∧ t.kind parent = some .dir := by
  unfold target at h
  dsimp only at h
  generalize hnamed : ((parts path).rdropWhile fun part => part = []) = named at h
  cases hlast : named.getLast? with
  | none =>
    rw [hlast] at h
    cases h
  | some last =>
    rw [hlast] at h
    dsimp only at h
    split_ifs at h with hdots
    obtain ⟨dir, hwalk, hdir⟩ := Option.bind_eq_some_iff.mp h
    split_ifs at hdir with hkind
    obtain ⟨rfl, rfl, -⟩ : dir = parent ∧ last = name ∧ _ = slash := by
      simpa only [Option.some_inj, Prod.mk.injEq] using hdir
    refine ⟨?_, hkind⟩
    obtain ⟨init, rfl⟩ := List.getLast?_eq_some_iff.mp hlast
    have hempty : last ≠ [] := by
      have hkept := List.rdropWhile_last_not (fun part : Bytes => decide (part = [])) (parts path)
        (by
          rw [hnamed]
          exact List.append_ne_nil_of_right_ne_nil _ (List.cons_ne_nil _ _))
      simpa [hnamed] using hkept
    have hrest : ∀ part ∈ (parts path).rtakeWhile fun part => part = [], Stays part :=
      fun part hpart => .inl (by simpa using List.mem_rtakeWhile_imp hpart)
    rw [List.dropLast_concat] at hwalk
    unfold spelled
    rw [← List.rdropWhile_append_rtakeWhile (l := parts path) (p := fun part => part = []), hnamed,
      follow_append, follow_stays hrest, follow_append, ← walk_follow hwalk]
    unfold follow
    rw [if_neg fun h => h.elim hempty fun h => hdots (.inl h), if_neg fun h => hdots (.inr h)]
    rfl

/-- A file on itself. -/
theorem rename_same {source : Bytes} {parent parent' : Place Bytes} {name name' : Bytes}
    (hsource : target t cwd source = some (parent, name, false))
    (hpath : target t cwd path = some (parent', name', false))
    (hthere : t.kind (spelled cwd source) ≠ none) (h : spelled cwd source = spelled cwd path) :
    rename t cwd source path = some t := by
  unfold rename
  rw [hsource, hpath]
  dsimp only
  rw [← (target_spelled hsource).1] at hthere
  rw [← (target_spelled hsource).1, ← (target_spelled hpath).1] at h
  rw [if_neg fun h => h.1.elim Bool.false_ne_true Bool.false_ne_true, if_neg hthere, if_pos h]

/-- What may be replaced is not above what exists. -/
theorem not_below_of_replaces {source : Place Bytes} (hsource : t.kind source ≠ none)
    (hne : source ≠ place) (h : Replaces t source place) : ¬ place <+: source := by
  rintro ⟨below, rfl⟩
  cases below with
  | nil => exact hne (List.append_nil _)
  | cons b below =>
    have hdir := Tree.kind_of_below hsource (List.cons_ne_nil _ _)
    have hlist : b ∈ t.list place := by
      refine Tree.mem_list.mpr (Tree.ne_none_of_prefix hsource ⟨below, ?_⟩)
      rw [List.append_assoc]
      rfl
    unfold Replaces at h
    rw [hdir] at h
    split at h
    · rename_i heq
      cases heq
    · rw [h] at hlist
      cases hlist
    · rename_i heq
      cases heq
    · exact h

/-- **A rename** leaves everything as it is, or moves the source. -/
theorem rename_cases {source : Bytes} (h : rename t cwd source path = some t') :
    (spelled cwd source = spelled cwd path ∧ t' = t) ∨
      (spelled cwd source ≠ spelled cwd path ∧
        ∀ below, t'.kind (spelled cwd path ++ below) = t.kind (spelled cwd source ++ below) ∧
          t'.kind (spelled cwd source ++ below) = none) := by
  unfold rename at h
  split at h
  · rename_i parent name slash parent' name' slash' hsource hpath
    obtain ⟨hsource, -⟩ := target_spelled hsource
    obtain ⟨hpath, -⟩ := target_spelled hpath
    rw [← hsource, ← hpath]
    split_ifs at h with hslash hmissing hsame hmoves
    · exact .inl ⟨hsame, (Option.some.inj h).symm⟩
    · obtain ⟨hdir, hout, hreplaces⟩ := hmoves
      refine .inr ⟨hsame, fun below => ?_⟩
      rw [← Option.some.inj h]
      exact Tree.move_moves (not_below_of_replaces hmissing hsame hreplaces) below
  · cases h

theorem slash_not_mem_parts {part : Bytes} (h : part ∈ parts path) : SLASH ∉ part := by
  induction hn : path.length using Nat.strong_induction_on generalizing path with
  | h n ih =>
    by_cases hslash : SLASH ∈ path
    · obtain ⟨p, q, rfl, hp⟩ := List.eq_append_cons_of_mem hslash
      rw [parts_append_slash, List.mem_append, parts_of_not_mem hp, List.mem_singleton] at h
      rcases h with rfl | h
      · exact hp
      · refine ih q.length ?_ h rfl
        rw [← hn, List.length_append, List.length_cons]
        omega
    · rw [parts_of_not_mem hslash, List.mem_singleton] at h
      rwa [h]

theorem isName_of_file_name {name : Bytes} (h : file_name path = some name) : IsName name := by
  obtain ⟨hlast, hup⟩ := Option.filter_eq_some_iff.mp h
  obtain ⟨hpart, hstays⟩ := List.mem_filter.mp (List.mem_of_getLast? hlast)
  have hnot : ¬ Stays name := by simpa using hstays
  exact ⟨fun h => hnot (.inl h), slash_not_mem_parts hpart, fun h => hnot (.inr h),
    of_decide_eq_true hup⟩

/-- The places on the way of the parts. -/
def passed : Place Bytes → List Bytes → List (Place Bytes)
  | place, [] => [place]
  | place, part :: rest => place :: passed (follow place [part]) rest

/-- **Only on the way** of a path something is made. -/
theorem create_dirs_passed (allows : Place Bytes → Bool) (t : Tree Bytes β) (place : Place Bytes)
    (l : List Bytes) {q : Place Bytes} (h : q ∉ passed place l) :
    (create_dirs allows t place l).2.kind q = t.kind q := by
  have hfollow {part : Bytes} (place : Place Bytes) (hstays : ¬ Stays part) (hup : part ≠ DOTDOT) :
      follow place [part] = place ++ [part] := by
    unfold follow
    rw [if_neg hstays, if_neg hup]
    rfl
  have hself (place : Place Bytes) (l : List Bytes) : place ∈ passed place l := by
    cases l <;> exact List.mem_cons_self
  fun_induction create_dirs allows t place l with
  | case1 t place => rfl
  | case2 t place part rest hdir hstays ih =>
    refine ih fun hq => h (List.mem_cons_of_mem _ ?_)
    unfold follow
    rwa [if_pos hstays]
  | case3 t place rest hdir hstays ih =>
    refine ih fun hq => h (List.mem_cons_of_mem _ ?_)
    unfold follow
    rwa [if_neg hstays, if_pos rfl]
  | case4 t place part rest hdir hstays hup hthere ih =>
    refine ih fun hq => h (List.mem_cons_of_mem _ ?_)
    rwa [hfollow place hstays hup]
  | case5 t place part rest hdir hstays hup data hthere => rfl
  | case6 t place part rest hdir hstays hup hnew hallows ih =>
    have hrest : q ∉ passed (place ++ [part]) rest := by
      intro hq
      refine h (List.mem_cons_of_mem _ ?_)
      rwa [hfollow place hstays hup]
    rw [ih hrest, Tree.kind_put, if_neg]
    rintro rfl
    exact hrest (hself _ _)
  | case7 t place part rest hdir hstays hup hnew hallows => rfl
  | case8 t place part rest hdir => rfl

/-- Where nothing but directories is on the way, all of them are there afterwards. -/
theorem create_dirs_makes (t : Tree Bytes β) (place : Place Bytes) (l : List Bytes)
    (h : ∀ q ∈ passed place l, t.kind q = none ∨ t.kind q = some .dir)
    (hplace : t.kind place = some .dir) :
    (create_dirs (fun _ => true) t place l).1 = some (follow place l) ∧
      ∀ q ∈ passed place l, (create_dirs (fun _ => true) t place l).2.kind q = some .dir := by
  induction l generalizing t place with
  | nil =>
    refine ⟨rfl, fun q hq => ?_⟩
    rw [List.mem_singleton.mp hq]
    exact hplace
  | cons part rest ih =>
    -- one part further, in a tree that has all the old one has
    have hnext (t' : Tree Bytes β) (place' : Place Bytes) (hfollow : follow place [part] = place')
        (hcreate : create_dirs (fun _ => true) t place (part :: rest) =
          create_dirs (fun _ => true) t' place' rest)
        (hgrows : t.Grows t') (hother : ∀ q, q ≠ place' → t'.kind q = t.kind q)
        (hplace' : t'.kind place' = some .dir) :
        (create_dirs (fun _ => true) t place (part :: rest)).1 = some (follow place (part :: rest)) ∧
          ∀ q ∈ passed place (part :: rest),
            (create_dirs (fun _ => true) t place (part :: rest)).2.kind q = some .dir := by
      have hcons := follow_append place [part] rest
      rw [List.singleton_append, hfollow] at hcons
      obtain ⟨hsome, hall⟩ := ih t' place' (fun q hq => by
        by_cases hq' : q = place'
        · exact .inr (hq' ▸ hplace')
        · rw [hother q hq']
          refine h q (List.mem_cons_of_mem _ ?_)
          rwa [hfollow]) hplace'
      rw [hcreate]
      refine ⟨by rw [hsome, hcons], fun q hq => ?_⟩
      rcases List.mem_cons.mp hq with rfl | hq
      · have hthere : t.kind q ≠ none := by
          rw [hplace]
          exact Option.some_ne_none _
        have hthere' : t'.kind q ≠ none := by rwa [hgrows q hthere]
        rw [create_dirs_grows _ _ _ _ q hthere', hgrows q hthere, hplace]
      · exact hall q (by rwa [hfollow] at hq)
    by_cases hstays : Stays part
    · refine hnext t place ?_ ?_ (.refl t) (fun _ _ => rfl) hplace
      · unfold follow
        rw [if_pos hstays]
        rfl
      · conv_lhs => unfold create_dirs
        rw [dif_pos hplace, if_pos hstays]
    · by_cases hup : part = DOTDOT
      · have hparent : t.kind place.dropLast = some .dir := by
          rcases List.eq_nil_or_concat place with rfl | ⟨above, name, rfl⟩
          · exact hplace
          · rw [List.concat_eq_append] at hplace ⊢
            rw [List.dropLast_concat]
            exact t.above (by rw [hplace]; exact Option.some_ne_none _)
        refine hnext t place.dropLast ?_ ?_ (.refl t) (fun _ _ => rfl) hparent
        · unfold follow
          rw [if_neg hstays, if_pos hup]
          rfl
        · conv_lhs => unfold create_dirs
          rw [dif_pos hplace, if_neg hstays, if_pos hup]
      · have hfollow : follow place [part] = place ++ [part] := by
          unfold follow
          rw [if_neg hstays, if_neg hup]
          rfl
        have hmem : place ++ [part] ∈ passed place (part :: rest) := by
          refine List.mem_cons_of_mem _ ?_
          rw [hfollow]
          cases rest <;> exact List.mem_cons_self
        rcases h _ hmem with hnew | hold
        · refine hnext (t.put place part .dir hplace (.inl rfl)) _ hfollow ?_ (Tree.Grows.put hnew)
            (fun q hq => if_neg hq) (if_pos rfl)
          conv_lhs => unfold create_dirs
          rw [dif_pos hplace, if_neg hstays, if_neg hup]
          split
          · simp_all
          · simp_all
          · rfl
        · refine hnext t _ hfollow ?_ (.refl t) (fun _ _ => rfl) hold
          conv_lhs => unfold create_dirs
          rw [dif_pos hplace, if_neg hstays, if_neg hup, hold]

theorem mem_passed_append {place q : Place Bytes} {l l' : List Bytes}
    (h : q ∈ passed place (l ++ l')) : q ∈ passed place l ∨ q ∈ passed (follow place l) l' := by
  induction l generalizing place with
  | nil => exact .inr h
  | cons part l ih =>
    rcases List.mem_cons.mp h with rfl | h
    · exact .inl List.mem_cons_self
    · refine (ih h).imp (List.mem_cons_of_mem _) fun h => ?_
      rwa [← follow_append] at h

theorem follow_mem_passed (place : Place Bytes) (l : List Bytes) :
    follow place l ∈ passed place l := by
  induction l generalizing place with
  | nil => exact List.mem_singleton_self _
  | cons part l ih =>
    refine List.mem_cons_of_mem _ ?_
    have hcons := follow_append place [part] l
    rw [List.singleton_append] at hcons
    rw [hcons]
    exact ih _

theorem mem_passed_left {place q : Place Bytes} {l : List Bytes} (l' : List Bytes)
    (h : q ∈ passed place l) : q ∈ passed place (l ++ l') := by
  induction l generalizing place with
  | nil =>
    obtain rfl := List.mem_singleton.mp h
    cases l' <;> exact List.mem_cons_self
  | cons part l ih =>
    rcases List.mem_cons.mp h with rfl | h
    · exact List.mem_cons_self
    · exact List.mem_cons_of_mem _ (ih h)

end Calls

/-! ## Names below a directory -/

section Join

variable {dir name : Bytes}

theorem not_absolute (hname : IsName name) : is_absolute name = false := by
  cases name with
  | nil => exact absurd rfl hname.1
  | cons b name =>
    refine decide_eq_false fun heq => hname.2.1 ?_
    rw [← Option.some.inj heq]
    exact List.mem_cons_self

theorem start_join (hname : IsName name) (cwd : Place Bytes) (dir : Bytes) :
    start cwd (join dir name) = start cwd dir := by
  unfold join start
  rw [not_absolute hname, if_neg Bool.false_ne_true]
  cases dir with
  | nil =>
    have hjoin : (if ([] : Bytes) = [] ∨ ([] : Bytes).getLast? = some SLASH then [] ++ name
        else [] ++ SLASH :: name) = name := if_pos (.inl rfl)
    rw [hjoin, not_absolute hname]
    rfl
  | cons b dir => split_ifs <;> simp_all [is_absolute]

/-- The parts of a directory, and the name. -/
theorem parts_join (hname : IsName name) (dir : Bytes) :
    ∃ l, parts (join dir name) = l ++ [name] ∧ (parts dir = l ∨ parts dir = l ++ [[]]) := by
  unfold join
  rw [not_absolute hname, if_neg Bool.false_ne_true]
  split_ifs with hends
  · rcases hends with rfl | hends
    · exact ⟨[], parts_of_not_mem hname.2.1, .inr rfl⟩
    · obtain ⟨init, rfl⟩ := List.getLast?_eq_some_iff.mp hends
      refine ⟨parts init, ?_, .inr (parts_append_slash init [])⟩
      rw [List.append_assoc, List.singleton_append, parts_append_slash,
        parts_of_not_mem hname.2.1]
  · refine ⟨parts dir, ?_, .inl rfl⟩
    rw [parts_append_slash, parts_of_not_mem hname.2.1]

theorem not_stays (hname : IsName name) : ¬ Stays name := fun h => h.elim hname.1 hname.2.2.1

theorem spelled_join (hname : IsName name) (cwd : Place Bytes) (dir : Bytes) :
    spelled cwd (join dir name) = spelled cwd dir ++ [name] := by
  obtain ⟨l, hjoin, hdir⟩ := parts_join hname dir
  have hl : follow (start cwd dir) (parts dir) = follow (start cwd dir) l := by
    rcases hdir with hdir | hdir
    · rw [hdir]
    · rw [hdir, follow_append]
      exact follow_stays fun part hpart => .inl (List.mem_singleton.mp hpart)
  unfold spelled
  rw [hjoin, start_join hname, follow_append, hl]
  conv_lhs => unfold follow
  rw [if_neg (not_stays hname), if_neg hname.2.2.2]
  rfl

/-- **A name that is there** is found below its directory. -/
theorem resolve_join (hname : IsName name) (h : resolve t cwd dir = some place)
    (hthere : t.kind (place ++ [name]) ≠ none) :
    resolve t cwd (join dir name) = some (place ++ [name]) := by
  obtain ⟨l, hjoin, hdir⟩ := parts_join hname dir
  have hne : join dir name ≠ [] := by
    intro hnil
    rw [hnil] at hjoin
    have hlast := congrArg List.getLast? hjoin
    rw [List.getLast?_concat] at hlast
    exact hname.1 (Option.some.inj hlast).symm
  unfold resolve at h ⊢
  split_ifs at h with hempty
  obtain ⟨hwalk, -⟩ := Option.filter_eq_some_iff.mp h
  have hl : walk t (start cwd dir) l = some place := by
    rcases hdir with hdir | hdir
    · rwa [← hdir]
    · rw [hdir, walk_append] at hwalk
      obtain ⟨last, hlast, hstep⟩ := Option.bind_eq_some_iff.mp hwalk
      obtain ⟨-, next, hgoes, hend⟩ := walk_cons_eq_some.mp hstep
      cases hgoes with
      | stay => rw [hlast, ← Option.some.inj hend]
      | up hstays => exact absurd (.inl rfl) hstays
      | down hstays => exact absurd (.inl rfl) hstays
  have hstep : walk t place [name] = some (place ++ [name]) :=
    walk_cons_eq_some.mpr
      ⟨t.above hthere, _, .down (not_stays hname) hname.2.2.2 hthere, rfl⟩
  rw [if_neg hne, start_join hname, hjoin, walk_append, hl, Option.bind_some, hstep]
  exact Option.filter_eq_some_iff.mpr ⟨rfl, Option.isSome_iff_ne_none.mpr hthere⟩

/-- On the way to a name below a directory there is the name, besides the way to the directory. -/
theorem mem_passed_join (hname : IsName name) {q : Place Bytes}
    (h : q ∈ passed (start cwd (join dir name)) (parts (join dir name))) :
    q ∈ passed (start cwd dir) (parts dir) ∨ q = spelled cwd dir ++ [name] := by
  obtain ⟨l, hjoin, hdir⟩ := parts_join hname dir
  have hl : ∀ q ∈ passed (start cwd dir) l, q ∈ passed (start cwd dir) (parts dir) := by
    intro q hq
    rcases hdir with hdir | hdir
    · rwa [hdir]
    · rw [hdir]
      exact mem_passed_left _ hq
  have hspelled := spelled_join hname cwd dir
  unfold spelled at hspelled
  rw [start_join hname, hjoin, follow_append] at hspelled
  rw [start_join hname, hjoin] at h
  rcases mem_passed_append h with h | h
  · exact .inl (hl q h)
  · rcases List.mem_cons.mp h with rfl | h
    · exact .inl (hl _ (follow_mem_passed _ _))
    · rw [hspelled] at h
      exact .inr (List.mem_singleton.mp h)

end Join

end UnixPath
