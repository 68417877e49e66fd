import Mathlib.Data.List.Dedup
import Mathlib.Data.List.Infix

/-!
# File trees

A tree of directories and leaves, as the partial function from places to what is there.

* `Tree`, `Tree.list`: what is somewhere is in a directory, which lists it; `kind_of_below`;
* `Tree.remove`, `Tree.put`, `Tree.move`: the changes, each of them a tree again;
* `Removal`: how a removal may go, with what it may leave;
* `Tree.Intact`: nothing below a place is lost or changed;
* `Tree.write`, `Tree.SameShape`: other contents in a leaf, which changes no name;
* **`move_moves`**: after a move the target holds what the source held, and the source is gone.
-/

namespace FileTree

variable {ν β : Type*}

/-- What is at a place. -/
inductive Kind (β : Type*)
  | dir
  | leaf (contents : β)

instance : ∀ k : Option (Kind β), Decidable (k = some .dir)
  | some .dir => isTrue rfl
  | some (.leaf _) => isFalse nofun
  | none => isFalse nofun

/-- The names from the root on. -/
abbrev Place (ν : Type*) := List ν

/-- A file tree: what there is, and for every directory names enough to list it. -/
structure Tree (ν β : Type*) where
  kind : Place ν → Option (Kind β)
  names : Place ν → List ν
  above : ∀ {place : Place ν} {name : ν}, kind (place ++ [name]) ≠ none → kind place = some .dir
  named : ∀ {place : Place ν} {name : ν}, kind (place ++ [name]) ≠ none → name ∈ names place

namespace Tree

variable {t t' : Tree ν β} {place place' q : Place ν} {name : ν} {k : Kind β}

/-- Only the root. -/
def root [DecidableEq ν] : Tree ν β where
  kind q := if q = [] then some .dir else none
  names _ := []
  above h := by
    rw [if_neg (List.append_ne_nil_of_right_ne_nil _ (List.cons_ne_nil _ _))] at h
    exact absurd rfl h
  named h := by
    rw [if_neg (List.append_ne_nil_of_right_ne_nil _ (List.cons_ne_nil _ _))] at h
    exact absurd rfl h

/-- The names in a directory. -/
def list [DecidableEq ν] (t : Tree ν β) (place : Place ν) : List ν :=
  ((t.names place).filter fun name => (t.kind (place ++ [name])).isSome).dedup

theorem mem_list [DecidableEq ν] : name ∈ t.list place ↔ t.kind (place ++ [name]) ≠ none := by
  unfold list
  rw [List.mem_dedup, List.mem_filter, Option.isSome_iff_ne_none]
  exact ⟨fun h => h.2, fun h => ⟨t.named h, h⟩⟩

theorem nodup_list [DecidableEq ν] (t : Tree ν β) (place : Place ν) : (t.list place).Nodup :=
  List.nodup_dedup _

/-- **Above a place that exists** there are directories. -/
theorem kind_of_below {below : Place ν} (h : t.kind (place ++ below) ≠ none) (hne : below ≠ []) :
    t.kind place = some .dir := by
  induction below using List.reverseRecOn with
  | nil => exact absurd rfl hne
  | append_singleton below name ih =>
    rw [← List.append_assoc] at h
    have hdir := t.above h
    cases below with
    | nil => rwa [List.append_nil] at hdir
    | cons b below =>
      refine ih ?_ (List.cons_ne_nil _ _)
      rw [hdir]
      exact Option.some_ne_none _

theorem ne_none_of_prefix (h : t.kind q ≠ none) (hle : place <+: q) : t.kind place ≠ none := by
  obtain ⟨below, rfl⟩ := hle
  cases below with
  | nil => rwa [List.append_nil] at h
  | cons b below =>
    rw [kind_of_below h (List.cons_ne_nil _ _)]
    exact Option.some_ne_none _

/-! ## Changes -/

section Changes

variable [DecidableEq ν]

/-- Without a place and what is below it. -/
def remove (t : Tree ν β) (place : Place ν) : Tree ν β where
  kind q := if place <+: q then none else t.kind q
  names := t.names
  above := by
    intro q name h
    split_ifs at h with hbelow
    · exact absurd rfl h
    · rw [if_neg fun hq => hbelow (hq.trans (List.prefix_append _ _))]
      exact t.above h
  named := by
    intro q name h
    split_ifs at h with hbelow
    · exact absurd rfl h
    · exact t.named h

/-- With something new in a directory, or a directory again, or a leaf in the place of a leaf. -/
def put (t : Tree ν β) (place : Place ν) (name : ν) (k : Kind β) (hdir : t.kind place = some .dir)
    (hk : k = .dir ∨ t.kind (place ++ [name]) ≠ some .dir) : Tree ν β where
  kind q := if q = place ++ [name] then some k else t.kind q
  names q := if q = place then name :: t.names q else t.names q
  named := by
    intro q name' h
    split_ifs at h with hnew
    · obtain ⟨rfl, hname⟩ := List.append_inj' hnew rfl
      rw [if_pos rfl, List.singleton_inj.mp hname]
      exact List.mem_cons_self
    · split_ifs
      · exact List.mem_cons_of_mem _ (t.named h)
      · exact t.named h
  above := by
    intro q name' h
    have hplace : place ≠ place ++ [name] := fun heq => by
      have hlength := congrArg List.length heq
      rw [List.length_append, List.length_singleton] at hlength
      omega
    split_ifs at h with hnew
    · obtain ⟨rfl, -⟩ := List.append_inj' hnew rfl
      rw [if_neg hplace]
      exact hdir
    · have hq := t.above h
      split_ifs with hleaf
      · rw [hk.resolve_right fun hk => hk (hleaf ▸ hq)]
      · exact hq

/-- What was at one place, at another one. -/
def move (t : Tree ν β) (source place : Place ν) (name : ν) (hdir : t.kind place = some .dir)
    (hout : ¬ source <+: place ++ [name]) : Tree ν β where
  kind q :=
    if place ++ [name] <+: q then t.kind (source ++ q.drop (place.length + 1))
    else if source <+: q then none
    else t.kind q
  names q :=
    if place ++ [name] <+: q then t.names (source ++ q.drop (place.length + 1))
    else if q = place then name :: t.names q
    else t.names q
  named := by
    intro q name' h
    by_cases hq : place ++ [name] <+: q
    · have hlength := hq.length_le
      rw [List.length_append, List.length_singleton] at hlength
      rw [if_pos (hq.trans (List.prefix_append _ _)), List.drop_append_of_le_length hlength,
        ← List.append_assoc] at h
      rw [if_pos hq]
      exact t.named h
    · rw [if_neg hq]
      split_ifs at h with hnew hold
      · obtain ⟨rfl, hname⟩ :=
          List.append_inj' ((List.prefix_concat_iff.mp hnew).resolve_right hq) rfl
        rw [if_pos rfl, List.singleton_inj.mp hname]
        exact List.mem_cons_self
      · exact absurd rfl h
      · split_ifs
        · exact List.mem_cons_of_mem _ (t.named h)
        · exact t.named h
  above := by
    intro q name' h
    have hlong (r : Place ν) (hr : place ++ [name] <+: r) : place.length + 1 ≤ r.length := by
      have hle := hr.length_le
      rwa [List.length_append, List.length_singleton] at hle
    by_cases hq : place ++ [name] <+: q
    · rw [if_pos (hq.trans (List.prefix_append _ _)), List.drop_append_of_le_length (hlong q hq),
        ← List.append_assoc] at h
      rw [if_pos hq]
      exact t.above h
    · rw [if_neg hq]
      split_ifs at h with hnew hold
      · -- the new entry itself
        obtain ⟨rfl, -⟩ := List.append_inj' ((List.prefix_concat_iff.mp hnew).resolve_right hq) rfl
        rw [if_neg fun hsource => hout (hsource.trans (List.prefix_append _ _))]
        exact hdir
      · exact absurd rfl h
      · rw [if_neg fun hsource => hold (hsource.trans (List.prefix_append _ _))]
        exact t.above h

@[simp] theorem kind_remove :
    (t.remove place).kind q = if place <+: q then none else t.kind q := rfl

@[simp] theorem kind_put {hdir : t.kind place = some .dir}
    {hk : k = .dir ∨ t.kind (place ++ [name]) ≠ some .dir} :
    (t.put place name k hdir hk).kind q = if q = place ++ [name] then some k else t.kind q := rfl

/-- **A move** is complete: what was below the source is below the target, and nothing is left. -/
theorem move_moves {source : Place ν} {hdir : t.kind place = some .dir}
    {hout : ¬ source <+: place ++ [name]} (hsource : ¬ place ++ [name] <+: source) (below : Place ν) :
    (t.move source place name hdir hout).kind (place ++ [name] ++ below) =
        t.kind (source ++ below) ∧
      (t.move source place name hdir hout).kind (source ++ below) = none := by
  constructor
  · have hlength : (place ++ [name]).length = place.length + 1 := by
      rw [List.length_append, List.length_singleton]
    change (if _ then _ else _) = _
    rw [if_pos (List.prefix_append _ _), ← hlength, List.drop_left]
  · change (if _ then _ else _) = _
    rw [if_neg, if_pos (List.prefix_append _ _)]
    intro htarget
    rcases List.prefix_or_prefix_of_prefix htarget (List.prefix_append source below) with h | h
    · exact hsource h
    · exact hout h

end Changes

/-! ## What is kept -/

/-- Everything at the place and below it is there as it was. -/
def Intact (t t' : Tree ν β) (place : Place ν) : Prop :=
  ∀ below, t.kind (place ++ below) ≠ none → t'.kind (place ++ below) = t.kind (place ++ below)

/-- Nothing is lost or changed. -/
def Grows (t t' : Tree ν β) : Prop := ∀ q, t.kind q ≠ none → t'.kind q = t.kind q

theorem Grows.refl (t : Tree ν β) : t.Grows t := fun _ _ => rfl

theorem Grows.trans {t'' : Tree ν β} (h : t.Grows t') (h' : t'.Grows t'') : t.Grows t'' := by
  intro q hq
  rw [h' q (by rwa [h q hq]), h q hq]

theorem Grows.intact (h : t.Grows t') (place : Place ν) : t.Intact t' place :=
  fun below => h (place ++ below)

theorem Grows.put [DecidableEq ν] {hdir : t.kind place = some .dir}
    {hk : k = .dir ∨ t.kind (place ++ [name]) ≠ some .dir} (hnew : t.kind (place ++ [name]) = none) :
    t.Grows (t.put place name k hdir hk) := by
  intro q hq
  rw [kind_put, if_neg]
  rintro rfl
  exact hq hnew

/-! ## Removals -/

/-- What may be left where a removal stopped: outside nothing changed, below something is gone. -/
structure Partly (t : Tree ν β) (place : Place ν) where
  left : Tree ν β
  outside : ∀ q, ¬ place <+: q → left.kind q = t.kind q
  below : ∀ q, left.kind q ≠ none → left.kind q = t.kind q

/-- A removal is done, or it stops. -/
inductive Removal (t : Tree ν β) (place : Place ν)
  | done
  | stopped (rest : Partly t place)

/-- The tree that a removal leaves, and whether it was done. -/
def Removal.result [DecidableEq ν] {t : Tree ν β} {place : Place ν} :
    Removal t place → Bool × Tree ν β
  | .done => (true, t.remove place)
  | .stopped rest => (false, rest.left)

end Tree

/-! ## Contents -/

/-- With other contents, if that is a leaf. -/
def Kind.with_contents (b : β) : Kind β → Kind β
  | .dir => .dir
  | .leaf _ => .leaf b

def Kind.is_dir : Kind β → Bool
  | .dir => true
  | .leaf _ => false

theorem exists_leaf {k : Option (Kind β)} (hsome : k ≠ none) (hdir : k ≠ some .dir) :
    ∃ b, k = some (.leaf b) := by
  rcases k with _ | _ | b
  · exact absurd rfl hsome
  · exact absurd rfl hdir
  · exact ⟨b, rfl⟩

theorem Kind.is_dir_with_contents (b : β) (k : Kind β) : (k.with_contents b).is_dir = k.is_dir := by
  cases k <;> rfl

namespace Tree

variable {t t' t'' : Tree ν β} {place q : Place ν}

/-- The same directories and leaves, with whatever contents. -/
structure SameShape (t t' : Tree ν β) : Prop where
  names : t'.names = t.names
  kind : ∀ q, (t'.kind q).map Kind.is_dir = (t.kind q).map Kind.is_dir

namespace SameShape

theorem refl (t : Tree ν β) : t.SameShape t := ⟨rfl, fun _ => rfl⟩

theorem trans (h : t.SameShape t') (h' : t'.SameShape t'') : t.SameShape t'' :=
  ⟨h'.names.trans h.names, fun q => (h'.kind q).trans (h.kind q)⟩

theorem isSome (h : t.SameShape t') (q : Place ν) : (t'.kind q).isSome = (t.kind q).isSome := by
  rw [← Option.isSome_map, h.kind, Option.isSome_map]

theorem dir_iff (h : t.SameShape t') : t'.kind q = some .dir ↔ t.kind q = some .dir := by
  have hdir : ∀ k : Option (Kind β), k = some .dir ↔ k.map Kind.is_dir = some true := by
    rintro (_ | _ | _) <;> simp [Kind.is_dir]
  rw [hdir, h.kind, ← hdir]

theorem list [DecidableEq ν] (h : t.SameShape t') (place : Place ν) :
    t'.list place = t.list place := by
  unfold Tree.list
  simp only [h.names, h.isSome]

end SameShape

/-- With other contents in one leaf. -/
def write [DecidableEq ν] (t : Tree ν β) (place : Place ν) (b : β) : Tree ν β where
  kind q := if q = place then (t.kind q).map (Kind.with_contents b) else t.kind q
  names := t.names
  above {q name} h := by
    have hsome : t.kind (q ++ [name]) ≠ none := fun hnone => by
      rw [hnone, Option.map_none, ite_self] at h
      exact h rfl
    rw [t.above hsome, Option.map_some, Kind.with_contents, ite_self]
  named h := t.named fun hnone => by
    rw [hnone, Option.map_none, ite_self] at h
    exact h rfl

variable [DecidableEq ν] {b c : β}

theorem kind_write (t : Tree ν β) (place q : Place ν) (b : β) :
    (t.write place b).kind q =
      if q = place then (t.kind q).map (Kind.with_contents b) else t.kind q := rfl

theorem kind_write_of_ne (h : q ≠ place) : (t.write place b).kind q = t.kind q := if_neg h

theorem kind_write_of_leaf (h : t.kind place = some (.leaf c)) :
    (t.write place b).kind place = some (.leaf b) := by
  rw [kind_write, if_pos rfl, h]
  rfl

theorem SameShape.write (t : Tree ν β) (place : Place ν) (b : β) :
    t.SameShape (t.write place b) where
  names := rfl
  kind q := by
    rw [kind_write]
    split_ifs
    · rw [Option.map_map]
      congr 1
      exact funext fun k => Kind.is_dir_with_contents b k
    · rfl

end Tree

end FileTree
