import Mathlib.Data.List.Basic

/-!
# Maps as lists of entries

A map is the list of its entries; a lookup finds the first one of its key.

* `get`, `remove`, `insert`, `modify_or_default`;
* **`get_remove`**, **`get_insert`**, **`get_modify_or_default`**: what a lookup sees of each;
* `get_filter`: a lookup among the entries whose keys are kept;
* `same`, `same_iff`: equality of maps, whatever the order of their entries;
* `get_foldl_of_ne`: a loop over entries leaves the other keys alone;
* `get₂`, `insert₂`, `get₂_insert₂`: maps of maps, and **`get₂_foldl`**: a loop that fills one.
-/

namespace Assoc

variable {κ ν : Type*} [DecidableEq κ]

/-- A map, as the list of its entries. -/
abbrev Map (κ ν : Type*) := List (κ × ν)

def get (m : Map κ ν) (k : κ) : Option ν := (m.find? fun e => e.1 = k).map Prod.snd

def remove (m : Map κ ν) (k : κ) : Map κ ν := m.filter fun e => e.1 ≠ k

def insert (m : Map κ ν) (k : κ) (v : ν) : Map κ ν := remove m k ++ [(k, v)]

/-- `f(map.entry(k).or_default())`. -/
def modify_or_default [Inhabited ν] (m : Map κ ν) (k : κ) (f : ν → ν) : Map κ ν :=
  insert m k (f ((get m k).getD default))

variable {m : Map κ ν} {k k' : κ} {v : ν}

@[simp] theorem get_nil : get ([] : Map κ ν) k = none := rfl

@[simp] theorem get_cons (e : κ × ν) :
    get (e :: m) k = if e.1 = k then some e.2 else get m k := by
  unfold get
  by_cases h : e.1 = k
  · rw [List.find?_cons_of_pos (by simpa using h), if_pos h, Option.map_some]
  · rw [List.find?_cons_of_neg (by simpa using h), if_neg h]

theorem get_append (m' : Map κ ν) : get (m ++ m') k = (get m k).or (get m' k) := by
  induction m with
  | nil => rfl
  | cons e m ih =>
    rw [List.cons_append, get_cons, get_cons, ih]
    split <;> rfl

theorem mem_of_get (h : get m k = some v) : (k, v) ∈ m := by
  obtain ⟨⟨k', v'⟩, hfind, rfl⟩ := Option.map_eq_some_iff.mp h
  have hk : k' = k := by simpa using List.find?_some hfind
  exact hk ▸ List.mem_of_find?_eq_some hfind

/-- A lookup among the entries whose keys are kept. -/
theorem get_filter (p : κ → Bool) :
    get (m.filter fun e => p e.1) k = if p k then get m k else none := by
  induction m with
  | nil => simp
  | cons e m ih =>
    rw [List.filter_cons]
    by_cases hk : e.1 = k
    · subst hk
      split
      · next hp => simp
      · next hp => rw [ih, if_neg hp]
    · split
      · rw [get_cons, if_neg hk, ih, get_cons, if_neg hk]
      · rw [ih, get_cons, if_neg hk]

theorem get_remove : get (remove m k) k' = if k' = k then none else get m k' := by
  have h := get_filter (m := m) (k := k') fun x => x ≠ k
  rw [remove, h]
  by_cases hk : k' = k
  · simp [hk]
  · simp [hk]

theorem get_insert : get (insert m k v) k' = if k' = k then some v else get m k' := by
  rw [insert, get_append, get_remove]
  by_cases hk : k' = k
  · subst hk
    simp
  · simp [hk, Ne.symm hk]

theorem get_modify_or_default [Inhabited ν] (f : ν → ν) :
    get (modify_or_default m k f) k' =
      if k' = k then some (f ((get m k).getD default)) else get m k' := get_insert

theorem get_isSome_iff : (get m k).isSome ↔ k ∈ m.map Prod.fst := by
  induction m with
  | nil => simp
  | cons e m ih =>
    rw [get_cons, List.map_cons, List.mem_cons, ← ih]
    by_cases h : e.1 = k
    · simp [h]
    · simp [h, Ne.symm h]

/-! ## Equality -/

/-- The same values under the same keys. -/
def same [DecidableEq ν] (m m' : Map κ ν) : Bool :=
  (m ++ m').all fun e => get m e.1 = get m' e.1

theorem same_iff [DecidableEq ν] {m m' : Map κ ν} : same m m' ↔ ∀ k, get m k = get m' k := by
  rw [same, List.all_eq_true]
  constructor
  · intro h k
    by_cases hk : k ∈ (m ++ m').map Prod.fst
    · obtain ⟨e, he, rfl⟩ := List.mem_map.mp hk
      simpa using h e he
    · rw [List.map_append, List.mem_append, not_or] at hk
      rw [Option.not_isSome_iff_eq_none.mp (mt get_isSome_iff.mp hk.1),
        Option.not_isSome_iff_eq_none.mp (mt get_isSome_iff.mp hk.2)]
  · intro h e _
    simpa using h e.1

/-! ## Loops -/

/-- A loop that changes only the keys of its items leaves the others alone. -/
theorem get_foldl_of_ne {α : Type*} {f : Map κ ν → α → Map κ ν} {name : α → κ} {as : List α}
    (hf : ∀ m, ∀ a ∈ as, name a ≠ k → get (f m a) k = get m k) (hk : k ∉ as.map name)
    (m : Map κ ν) : get (as.foldl f m) k = get m k := by
  induction as generalizing m with
  | nil => rfl
  | cons a as ih =>
    rw [List.map_cons, List.mem_cons, not_or] at hk
    rw [List.foldl_cons, ih (fun m b hb => hf m b (List.mem_cons_of_mem a hb)) hk.2]
    exact hf m a List.mem_cons_self (Ne.symm hk.1)

/-! ## Maps of maps -/

section Nested

variable {μ : Type*} [DecidableEq μ]

def get₂ (m : Map κ (Map μ ν)) (a : κ) (b : μ) : Option ν :=
  (get m a).bind fun fields => get fields b

/-- `m.entry(a).or_default().insert(b, v)`. -/
def insert₂ (m : Map κ (Map μ ν)) (a : κ) (b : μ) (v : ν) : Map κ (Map μ ν) :=
  modify_or_default m a fun fields => insert fields b v

theorem get₂_insert₂ (m : Map κ (Map μ ν)) (a a' : κ) (b b' : μ) (v : ν) :
    get₂ (insert₂ m a b v) a' b' = if (a', b') = (a, b) then some v else get₂ m a' b' := by
  unfold get₂ insert₂
  rw [get_modify_or_default]
  by_cases ha : a' = a
  · subst ha
    rw [if_pos rfl, Option.bind_some, get_insert]
    by_cases hb : b' = b
    · rw [if_pos hb, if_pos (by rw [hb])]
    · rw [if_neg hb, if_neg fun h => hb (congrArg Prod.snd h)]
      rcases get m a' with _ | fields <;> rfl
  · rw [if_neg ha, if_neg fun h => ha (congrArg Prod.fst h)]

/-- **A loop that fills a map** with what each item has under its name, where the items of one name
agree. -/
theorem get₂_foldl {α : Type*} {name : α → κ × μ} {value : α → Option ν} {a : κ} {b : μ}
    {w : Option ν} {as : List α} (hw : ∀ x ∈ as, name x = (a, b) → value x = w)
    (m : Map κ (Map μ ν)) :
    get₂ (as.foldl (fun m x => (value x).elim m (insert₂ m (name x).1 (name x).2)) m) a b =
      if (a, b) ∈ as.map name then w.or (get₂ m a b) else get₂ m a b := by
  induction as generalizing m with
  | nil => rfl
  | cons x as ih =>
    rw [List.foldl_cons, ih fun y hy => hw y (List.mem_cons_of_mem x hy), List.map_cons]
    by_cases hx : name x = (a, b)
    · have hv := hw x List.mem_cons_self hx
      rw [if_pos (show (a, b) ∈ name x :: as.map name from hx ▸ List.mem_cons_self), hv]
      rcases w with _ | v
      · simp
      · rw [Option.elim_some, get₂_insert₂, if_pos hx.symm]
        split <;> rfl
    · have hkeep : get₂ ((value x).elim m (insert₂ m (name x).1 (name x).2)) a b = get₂ m a b := by
        rcases value x with _ | v
        · rfl
        · rw [Option.elim_some, get₂_insert₂, if_neg fun h => hx h.symm]
      have hmem : (a, b) ∈ name x :: as.map name ↔ (a, b) ∈ as.map name :=
        List.mem_cons.trans (or_iff_right fun h => hx h.symm)
      rw [hkeep, if_congr hmem rfl rfl]

end Nested

end Assoc
