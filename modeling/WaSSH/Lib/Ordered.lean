import WaSSH.Lib.Assoc
import Mathlib.Data.Char
import Mathlib.Data.List.Lex
import Mathlib.Tactic

/-!
# Maps in the order of their keys

The entries of a map, kept in the order of their keys, each key once.

* `Ordered`: a map that is in order; `get`, `keys`, `modify_or_default`;
* **`value_modify`**, `mem_keys_modify`: what a change of one entry does;
* `value_foldl_modify`: the same change of several entries;
* `exists_between`, `mem_between`: what stands between two keys.
-/

/-- A map, as its entries in the order of their keys. -/
structure Ordered (κ ν : Type) [LinearOrder κ] where
  entries : List (κ × ν)
  sorted : (entries.map Prod.fst).Pairwise (· < ·)

namespace Ordered

variable {κ ν : Type} [LinearOrder κ]

def keys (m : Ordered κ ν) : List κ := m.entries.map Prod.fst

def get (m : Ordered κ ν) (k : κ) : Option ν := Assoc.get m.entries k

/-- The value of a key, or the one an entry begins with. -/
def value [Inhabited ν] (m : Ordered κ ν) (k : κ) : ν := (m.get k).getD default

instance : Inhabited (Ordered κ ν) := ⟨⟨[], List.Pairwise.nil⟩⟩

/-- The entry is changed where it stands, or put where it belongs. -/
def change (k : κ) (f : Option ν → ν) : List (κ × ν) → List (κ × ν)
  | [] => [(k, f none)]
  | e :: rest =>
    if k = e.1 then (k, f (some e.2)) :: rest
    else if k < e.1 then (k, f none) :: e :: rest
    else e :: change k f rest

theorem mem_keys_change (k : κ) (f : Option ν → ν) (j : κ) : ∀ es : List (κ × ν),
    j ∈ (change k f es).map Prod.fst ↔ j = k ∨ j ∈ es.map Prod.fst
  | [] => by simp [change]
  | e :: rest => by
    unfold change
    split_ifs with heq hlt
    · rw [List.map_cons, List.map_cons, List.mem_cons, List.mem_cons, ← heq]
      exact ⟨fun h => h.elim .inl fun h' => .inr (.inr h'), fun h => h.elim .inl id⟩
    · rw [List.map_cons, List.mem_cons]
    · rw [List.map_cons, List.mem_cons, mem_keys_change k f j rest, List.map_cons, List.mem_cons]
      exact or_left_comm

theorem sorted_change (k : κ) (f : Option ν → ν) : ∀ {es : List (κ × ν)},
    (es.map Prod.fst).Pairwise (· < ·) → ((change k f es).map Prod.fst).Pairwise (· < ·)
  | [], _ => List.pairwise_singleton _ _
  | e :: rest, h => by
    rw [List.map_cons, List.pairwise_cons] at h
    unfold change
    split_ifs with heq hlt
    · rw [List.map_cons, List.pairwise_cons]
      exact ⟨fun j hj => heq ▸ h.1 j hj, h.2⟩
    · rw [List.map_cons, List.pairwise_cons, List.map_cons, List.pairwise_cons]
      refine ⟨fun j hj => ?_, h⟩
      rcases List.mem_cons.mp hj with rfl | hj
      · exact hlt
      · exact hlt.trans (h.1 j hj)
    · rw [List.map_cons, List.pairwise_cons]
      refine ⟨fun j hj => ?_, sorted_change k f h.2⟩
      rcases (mem_keys_change k f j rest).mp hj with rfl | hj
      · exact lt_of_le_of_ne (not_lt.mp hlt) fun hje => heq hje.symm
      · exact h.1 j hj

theorem get_eq_none_iff {es : List (κ × ν)} {k : κ} :
    Assoc.get es k = none ↔ k ∉ es.map Prod.fst := by
  induction es with
  | nil => simp
  | cons e rest ih =>
    rw [Assoc.get_cons, List.map_cons, List.mem_cons, not_or, ← ih]
    by_cases h : e.1 = k
    · rw [if_pos h]
      exact iff_of_false (Option.some_ne_none _) fun hk => hk.1 h.symm
    · rw [if_neg h]
      exact (and_iff_right (Ne.symm h)).symm

theorem get_change (k : κ) (f : Option ν → ν) (j : κ) : ∀ {es : List (κ × ν)},
    (es.map Prod.fst).Pairwise (· < ·) →
      Assoc.get (change k f es) j =
        if j = k then some (f (Assoc.get es k)) else Assoc.get es j
  | [], _ => by
    unfold change
    rw [Assoc.get_cons]
    by_cases h : j = k
    · rw [if_pos h, if_pos h.symm]
      rfl
    · rw [if_neg h, if_neg (Ne.symm h)]
  | e :: rest, h => by
    rw [List.map_cons, List.pairwise_cons] at h
    have ih := get_change k f j h.2
    unfold change
    by_cases heq : k = e.1
    · rw [if_pos heq, Assoc.get_cons, Assoc.get_cons, Assoc.get_cons, if_pos heq.symm]
      by_cases hj : j = k
      · rw [if_pos hj, if_pos hj.symm]
      · rw [if_neg hj, if_neg (Ne.symm hj), if_neg fun he => hj (he.symm.trans heq.symm)]
    · rw [if_neg heq]
      by_cases hlt : k < e.1
      · rw [if_pos hlt, Assoc.get_cons]
        by_cases hj : j = k
        · have hnone : Assoc.get (e :: rest) k = none := by
            rw [get_eq_none_iff, List.map_cons, List.mem_cons, not_or]
            exact ⟨heq, fun hmem => absurd (h.1 k hmem) (not_lt.mpr hlt.le)⟩
          rw [if_pos hj, if_pos hj.symm, hnone]
        · rw [if_neg hj, if_neg (Ne.symm hj)]
      · rw [if_neg hlt, Assoc.get_cons, ih, Assoc.get_cons, Assoc.get_cons]
        by_cases hj : j = k
        · rw [if_pos hj, if_pos hj, hj, if_neg (Ne.symm heq), if_neg (Ne.symm heq)]
        · rw [if_neg hj, if_neg hj]

/-- `f(map.entry(k).or_default())`. -/
def modify_or_default [Inhabited ν] (m : Ordered κ ν) (k : κ) (f : ν → ν) : Ordered κ ν :=
  ⟨change k (fun v => f (v.getD default)) m.entries, sorted_change k _ m.sorted⟩

variable [Inhabited ν] {m : Ordered κ ν}

theorem mem_keys_modify {k j : κ} {f : ν → ν} :
    j ∈ (m.modify_or_default k f).keys ↔ j = k ∨ j ∈ m.keys := mem_keys_change k _ j m.entries

/-- **The value of a key that is changed, and of every other key.** -/
theorem value_modify (k j : κ) (f : ν → ν) :
    (m.modify_or_default k f).value j = if j = k then f (m.value k) else m.value j := by
  unfold value get modify_or_default
  dsimp only
  rw [get_change k _ j m.sorted]
  split_ifs
  · rfl
  · rfl

theorem mem_keys_foldl_modify {f : ν → ν} {j : κ} : ∀ {ks : List κ} {m : Ordered κ ν},
    j ∈ (ks.foldl (fun m k => m.modify_or_default k f) m).keys ↔ j ∈ ks ∨ j ∈ m.keys
  | [], m => by simp
  | k :: ks, m => by
    rw [List.foldl_cons, mem_keys_foldl_modify, mem_keys_modify, List.mem_cons]
    exact or_left_comm.trans or_assoc.symm

/-- The same change of several entries, each once. -/
theorem value_foldl_modify {f : ν → ν} {j : κ} : ∀ {ks : List κ} {m : Ordered κ ν}, ks.Nodup →
    (ks.foldl (fun m k => m.modify_or_default k f) m).value j =
      if j ∈ ks then f (m.value j) else m.value j
  | [], m, _ => by simp
  | k :: ks, m, h => by
    rw [List.nodup_cons] at h
    rw [List.foldl_cons, value_foldl_modify h.2, value_modify]
    by_cases hj : j = k
    · rw [hj, if_neg h.1, if_pos rfl, if_pos List.mem_cons_self]
    · rw [if_neg hj]
      by_cases hmem : j ∈ ks
      · rw [if_pos hmem, if_pos (List.mem_cons_of_mem k hmem)]
      · rw [if_neg hmem, if_neg fun hcons => (List.mem_cons.mp hcons).elim hj hmem]

theorem value_of_not_mem {j : κ} (h : j ∉ m.keys) : m.value j = default := by
  unfold value get
  rw [get_eq_none_iff.mpr h]
  rfl

theorem value_of_mem {e : κ × ν} (h : e ∈ m.entries) : m.value e.1 = e.2 := by
  have hget : ∀ {es : List (κ × ν)}, (es.map Prod.fst).Pairwise (· < ·) → e ∈ es →
      Assoc.get es e.1 = some e.2 := by
    intro es hes hmem
    induction es with
    | nil => cases hmem
    | cons d es ih =>
      rw [List.map_cons, List.pairwise_cons] at hes
      rw [Assoc.get_cons]
      rcases List.mem_cons.mp hmem with rfl | hmem
      · exact if_pos rfl
      · have hlt := hes.1 e.1 (List.mem_map_of_mem hmem)
        rw [if_neg hlt.ne]
        exact ih hes.2 hmem
  unfold value get
  rw [hget m.sorted h]
  rfl

end Ordered

/-- What lies between two members of a list in order stands between them. -/
theorem List.Pairwise.mem_between {κ : Type} [LinearOrder κ] {before between after : List κ}
    {a b c : κ} (h : (before ++ a :: between ++ b :: after).Pairwise (· < ·))
    (hc : c ∈ before ++ a :: between ++ b :: after) (hac : a < c) (hcb : c < b) :
    c ∈ between := by
  rw [List.append_assoc, List.cons_append] at h hc
  rw [List.pairwise_append, List.pairwise_cons, List.pairwise_append, List.pairwise_cons] at h
  obtain ⟨-, ⟨-, -, ⟨hafter, -⟩, -⟩, hbefore⟩ := h
  rcases List.mem_append.mp hc with hc | hc
  · exact absurd (hbefore c hc a List.mem_cons_self) hac.not_gt
  · rcases List.mem_append.mp ((List.mem_cons.mp hc).resolve_left hac.ne') with hc | hc
    · exact hc
    · rcases List.mem_cons.mp hc with rfl | hc
      · exact absurd hcb (lt_irrefl c)
      · exact absurd (hafter c hc) hcb.not_gt

/-- Between two members of a list in order stand those between them. -/
theorem List.Pairwise.exists_between {κ : Type} [LinearOrder κ] {xs : List κ} {a b : κ}
    (h : xs.Pairwise (· < ·)) (ha : a ∈ xs) (hb : b ∈ xs) (hab : a < b) :
    ∃ before between after, xs = before ++ a :: between ++ b :: after ∧
      ∀ c, c ∈ between ↔ c ∈ xs ∧ a < c ∧ c < b := by
  obtain ⟨before, rest, rfl⟩ := List.append_of_mem ha
  have hxs := h
  rw [List.pairwise_append, List.pairwise_cons] at h
  obtain ⟨-, ⟨hafter, hrest⟩, hbefore⟩ := h
  have hmem : b ∈ rest := by
    rcases List.mem_append.mp hb with hb | hb
    · exact absurd (hbefore b hb a List.mem_cons_self) hab.not_gt
    · exact (List.mem_cons.mp hb).resolve_left hab.ne'
  obtain ⟨between, after, rfl⟩ := List.append_of_mem hmem
  have hassoc : before ++ a :: (between ++ b :: after) = before ++ a :: between ++ b :: after := by
    rw [List.append_assoc, List.cons_append]
  rw [List.pairwise_append] at hrest
  refine ⟨before, between, after, hassoc, fun c => ⟨fun hc => ?_, ?_⟩⟩
  · have hc' : c ∈ between ++ b :: after := List.mem_append_left _ hc
    exact ⟨List.mem_append_right _ (List.mem_cons_of_mem a hc'), hafter c hc',
      hrest.2.2 c hc b List.mem_cons_self⟩
  · rintro ⟨hc, hac, hcb⟩
    rw [hassoc] at hc hxs
    exact hxs.mem_between hc hac hcb
