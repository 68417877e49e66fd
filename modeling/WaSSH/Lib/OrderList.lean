import Mathlib.Data.List.Destutter
import Mathlib.Data.List.Nodup

/-!
# Order lists

A list of keys says in which order to show things that are kept elsewhere.

* `retain_first`, **`retain_first_eq_firsts`**: the first entry of each key;
* **`count_destutter_le_one_iff`**: dropping adjacent repeats leaves one of a key exactly when
  nothing else stood between its entries;
* `push_missing`: the keys that are not listed yet, at the end;
* `modify_findIdx`, `set_findIdx`, `eraseIdx_findIdx`: the entry of a key, where keys are distinct.
-/

namespace OrderList

open scoped List

variable {α κ : Type*} [DecidableEq κ]

/-! ## The first of each key -/

/-- `xs.retain(|x| keep(x) && seen.insert(key(x)))`. -/
def retain_first (key : α → κ) (keep : α → Bool) : List κ → List α → List α
  | _, [] => []
  | seen, a :: as =>
    if keep a ∧ key a ∉ seen then a :: retain_first key keep (key a :: seen) as
    else retain_first key keep seen as

variable {key : α → κ} {keep : α → Bool} {seen : List κ} {as : List α}

theorem mem_keys_retain_first {k : κ} :
    k ∈ (retain_first key keep seen as).map key ↔
      k ∉ seen ∧ ∃ a ∈ as, keep a ∧ key a = k := by
  induction as generalizing seen with
  | nil => simp [retain_first]
  | cons a as ih =>
    rw [retain_first]
    split
    · next h =>
      rw [List.map_cons, List.mem_cons, ih]
      by_cases hk : k = key a
      · subst hk
        simp [h]
      · simp [hk, Ne.symm hk]
    · next h =>
      rw [ih]
      refine and_congr_right fun hseen => ?_
      constructor
      · rintro ⟨b, hb, hlater⟩
        exact ⟨b, List.mem_cons_of_mem a hb, hlater⟩
      · rintro ⟨b, hb, hkeep, rfl⟩
        rcases List.mem_cons.mp hb with rfl | hb
        · exact absurd ⟨hkeep, hseen⟩ h
        · exact ⟨b, hb, hkeep, rfl⟩

theorem nodup_keys_retain_first : ((retain_first key keep seen as).map key).Nodup := by
  induction as generalizing seen with
  | nil => exact List.nodup_nil
  | cons a as ih =>
    rw [retain_first]
    split
    · rw [List.map_cons, List.nodup_cons, mem_keys_retain_first]
      exact ⟨fun h => h.1 List.mem_cons_self, ih⟩
    · exact ih

/-- The entry kept of a key is its first one. -/
theorem find?_retain_first {k : κ} (h : k ∉ seen) :
    (retain_first key keep seen as).find? (fun a => key a = k) =
      as.find? fun a => keep a ∧ key a = k := by
  induction as generalizing seen with
  | nil => rfl
  | cons a as ih =>
    rw [retain_first]
    by_cases hk : key a = k
    · subst hk
      by_cases hkeep : keep a
      · rw [if_pos ⟨hkeep, h⟩, List.find?_cons_of_pos (by simp),
          List.find?_cons_of_pos (by simp [hkeep])]
      · rw [if_neg fun h => hkeep h.1, List.find?_cons_of_neg (by simp [hkeep]), ih h]
    · rw [List.find?_cons_of_neg (by simp [hk])]
      split
      · rw [List.find?_cons_of_neg (by simp [hk]), ih]
        exact fun hmem => (List.mem_cons.mp hmem).elim (fun heq => hk heq.symm) h
      · exact ih h

/-- With distinct keys, an entry is found by its key. -/
theorem find?_key_eq_some_iff (hnodup : (as.map key).Nodup) {k : κ} {a : α} :
    as.find? (fun b => key b = k) = some a ↔ a ∈ as ∧ key a = k := by
  constructor
  · intro h
    exact ⟨List.mem_of_find?_eq_some h, by simpa using List.find?_some h⟩
  · rintro ⟨ha, rfl⟩
    induction as with
    | nil => cases ha
    | cons b as ih =>
      rw [List.map_cons, List.nodup_cons] at hnodup
      rcases List.mem_cons.mp ha with rfl | ha
      · exact List.find?_cons_of_pos (by simp)
      · have hne : key b ≠ key a := fun h => hnodup.1 (h ▸ List.mem_map_of_mem ha)
        rw [List.find?_cons_of_neg (by simp [hne]), ih hnodup.2 ha]

/-- Distinct keys are all kept. -/
theorem retain_first_eq_self (hkeep : ∀ a ∈ as, keep a) (hnodup : (as.map key).Nodup)
    (hseen : ∀ a ∈ as, key a ∉ seen) : retain_first key keep seen as = as := by
  induction as generalizing seen with
  | nil => rfl
  | cons a as ih =>
    obtain ⟨ha, has⟩ := List.forall_mem_cons.mp hkeep
    obtain ⟨hfirst, hrest⟩ := List.forall_mem_cons.mp hseen
    rw [List.map_cons, List.nodup_cons] at hnodup
    rw [retain_first, if_pos ⟨ha, hfirst⟩, ih has hnodup.2]
    intro b hb hmem
    rcases List.mem_cons.mp hmem with heq | hmem
    · exact hnodup.1 (heq ▸ List.mem_map_of_mem hb)
    · exact hrest b hb hmem

variable (key keep) in
/-- Entry `a` may be kept and is, at place `i`, the first such entry of its key. -/
def IsFirst (as : List α) : α × ℕ → Prop
  | (a, i) => keep a ∧ ∀ b ∈ as.take i, keep b → key b ≠ key a

instance (as : List α) : DecidablePred (IsFirst key keep as) :=
  fun _ => inferInstanceAs (Decidable (_ ∧ _))

variable (key keep) in
/-- The first entry of each key, in order. -/
def firsts (as : List α) : List α :=
  (as.zipIdx.filter fun p => decide (IsFirst key keep as p)).map Prod.fst

theorem retain_first_eq_filter {before : List α}
    (hseen : ∀ k, k ∈ seen ↔ ∃ b ∈ before, keep b ∧ key b = k) :
    retain_first key keep seen as =
      ((as.zipIdx before.length).filter fun p =>
        decide (IsFirst key keep (before ++ as) p)).map Prod.fst := by
  induction as generalizing seen before with
  | nil => rfl
  | cons a as ih =>
    have hlength : before.length + 1 = (before ++ [a]).length := by simp
    have hfirst : IsFirst key keep (before ++ a :: as) (a, before.length) ↔
        keep a ∧ key a ∉ seen := by
      rw [IsFirst, List.take_left, hseen]
      push Not
      rfl
    rw [retain_first, List.zipIdx_cons, List.filter_cons]
    simp only [hfirst, decide_eq_true_eq]
    rw [List.append_cons, hlength]
    split
    · next hkept =>
      refine congrArg (a :: ·) (ih fun k => ?_)
      rw [List.mem_cons, hseen]
      constructor
      · rintro (rfl | ⟨b, hb, hkeep⟩)
        · exact ⟨a, by simp, hkept.1, rfl⟩
        · exact ⟨b, List.mem_append_left _ hb, hkeep⟩
      · rintro ⟨b, hb, hkeep, rfl⟩
        rcases List.mem_append.mp hb with hb | hb
        · exact .inr ⟨b, hb, hkeep, rfl⟩
        · exact .inl (congrArg key (List.mem_singleton.mp hb))
    · next hdropped =>
      refine ih fun k => (hseen k).trans ?_
      constructor
      · rintro ⟨b, hb, hkeep⟩
        exact ⟨b, List.mem_append_left _ hb, hkeep⟩
      · rintro ⟨b, hb, hkeep, rfl⟩
        rcases List.mem_append.mp hb with hb | hb
        · exact ⟨b, hb, hkeep, rfl⟩
        · obtain rfl := List.mem_singleton.mp hb
          exact (hseen _).mp (by simpa [hkeep] using hdropped)

/-- **What is kept** is the first entry of each key. -/
theorem retain_first_eq_firsts : retain_first key keep [] as = firsts key keep as := by
  have hseen (k : κ) : k ∈ ([] : List κ) ↔ ∃ b ∈ ([] : List α), keep b ∧ key b = k := by simp
  exact retain_first_eq_filter hseen

theorem retain_first_map {β : Type*} (f : β → α) (bs : List β) :
    retain_first key keep seen (bs.map f) =
      (retain_first (key ∘ f) (keep ∘ f) seen bs).map f := by
  induction bs generalizing seen with
  | nil => rfl
  | cons b bs ih =>
    rw [List.map_cons, retain_first, retain_first]
    simp only [Function.comp_apply, ih]
    split <;> rfl

/-! ## The entry of a key -/

section Entry

variable (hnodup : (as.map key).Nodup) (k : κ)

include hnodup

/-- Changing the first entry of a key changes the only one. -/
theorem modify_findIdx (f : α → α) :
    as.modify (as.findIdx fun a => key a = k) f = as.map fun a => if key a = k then f a else a := by
  induction as with
  | nil => rfl
  | cons a as ih =>
    rw [List.map_cons, List.nodup_cons] at hnodup
    rw [List.findIdx_cons, List.map_cons]
    by_cases h : key a = k
    · have hrest : as.map (fun b => if key b = k then f b else b) = as := by
        refine (List.map_congr_left fun b hb => if_neg fun hbk => ?_).trans (List.map_id as)
        exact hnodup.1 (h.trans hbk.symm ▸ List.mem_map_of_mem hb)
      simp [h, hrest]
    · simp [h, ih hnodup.2]

theorem set_findIdx (b : α) :
    as.set (as.findIdx fun a => key a = k) b = as.map fun a => if key a = k then b else a := by
  rw [← modify_findIdx hnodup k fun _ => b, List.set_eq_modify]

theorem eraseIdx_findIdx :
    as.eraseIdx (as.findIdx fun a => key a = k) = as.filter fun a => key a ≠ k := by
  induction as with
  | nil => rfl
  | cons a as ih =>
    rw [List.map_cons, List.nodup_cons] at hnodup
    rw [List.findIdx_cons]
    by_cases h : key a = k
    · have hrest : as.filter (fun b => key b ≠ k) = as :=
        List.filter_eq_self.mpr fun b hb => by
          simpa using fun hbk : key b = k => hnodup.1 (h.trans hbk.symm ▸ List.mem_map_of_mem hb)
      rw [List.filter_cons_of_neg (by simp [h]), hrest]
      simp [h]
    · rw [List.filter_cons_of_pos (by simp [h]), ← ih hnodup.2]
      simp [h]

omit [DecidableEq κ] in
/-- Around the entry of a key. -/
theorem exists_split_key (h : k ∈ as.map key) :
    ∃ pre a post, as = pre ++ a :: post ∧ key a = k ∧ k ∉ pre.map key ∧ k ∉ post.map key := by
  obtain ⟨a, ha, rfl⟩ := List.mem_map.mp h
  obtain ⟨pre, post, rfl⟩ := List.append_of_mem ha
  refine ⟨pre, a, post, rfl, rfl, fun hpre => ?_, fun hpost => ?_⟩
  · rw [List.map_append, List.nodup_append] at hnodup
    exact hnodup.2.2 _ hpre (key a) (by simp) rfl
  · rw [List.map_append, List.map_cons] at hnodup
    exact (List.nodup_cons.mp (List.nodup_append.mp hnodup).2.1).1 hpost

end Entry

section Split

variable {pre post : List α} {a : α}

theorem findIdx?_split (h : key a ∉ pre.map key) :
    (pre ++ a :: post).findIdx? (fun x => key x = key a) = some pre.length := by
  induction pre with
  | nil => simp [List.findIdx?_cons]
  | cons b pre ih =>
    rw [List.map_cons, List.mem_cons, not_or] at h
    rw [List.cons_append, List.findIdx?_cons, ih h.2]
    simp [Ne.symm h.1]

omit [DecidableEq κ] in
theorem insertIdx_append (b : α) : (pre ++ post).insertIdx pre.length b = pre ++ b :: post := by
  induction pre with
  | nil => rfl
  | cons c pre ih => simpa using ih

omit [DecidableEq κ] in
theorem insertIdx_split (b : α) :
    (pre ++ a :: post).insertIdx (pre.length + 1) b = pre ++ a :: b :: post := by
  induction pre with
  | nil => rfl
  | cons c pre ih => simpa using ih

omit [DecidableEq κ] in
/-- The entry is the last one exactly when nothing stands after it. -/
theorem getLast?_split_iff (h : a ∉ post) : (pre ++ a :: post).getLast? = some a ↔ post = [] := by
  rw [List.getLast?_append, List.getLast?_cons]
  cases hpost : post.getLast? with
  | none => simp [List.getLast?_eq_none_iff.mp hpost]
  | some b =>
    have hb : b ∈ post := List.mem_of_getLast? hpost
    simp only [Option.getD_some, Option.some_or, Option.some.injEq]
    refine iff_of_false (fun heq => h (heq ▸ hb)) fun hnil => ?_
    rw [hnil] at hb
    cases hb

omit [DecidableEq κ] in
theorem perm_insert_after (b : α) : pre ++ a :: b :: post ~ b :: (pre ++ a :: post) := by
  have h : (pre ++ [a]) ++ b :: post ~ b :: ((pre ++ [a]) ++ post) := List.perm_middle
  simpa using h

end Split

/-! ## Adjacent repeats -/

/-- What has no adjacent repeats survives the dropping of adjacent repeats around it. -/
theorem sublist_destutter' {s l : List κ} {a : κ} (hs : s.IsChain (· ≠ ·)) (h : s <+ a :: l) :
    s <+ l.destutter' (· ≠ ·) a := by
  induction l generalizing s a with
  | nil => exact h
  | cons b l ih =>
    by_cases hab : a ≠ b
    · rw [List.destutter'_cons_pos (h := hab)]
      rcases List.sublist_cons_iff.mp h with hrest | ⟨s', rfl, hrest⟩
      · exact (ih hs hrest).cons a
      · exact (ih hs.tail hrest).cons_cons a
    · obtain rfl : a = b := not_not.mp hab
      rw [List.destutter'_cons_neg (h := hab)]
      rcases List.sublist_cons_iff.mp h with hrest | ⟨s', rfl, hrest⟩
      · exact ih hs hrest
      · refine ih hs (List.Sublist.cons_cons a ?_)
        rcases List.sublist_cons_iff.mp hrest with hrest | ⟨s'', rfl, -⟩
        · exact hrest
        · exact absurd rfl (List.isChain_cons_cons.mp hs).1

theorem sublist_destutter {s l : List κ} (hs : s.IsChain (· ≠ ·)) (h : s <+ l) :
    s <+ l.destutter (· ≠ ·) := by
  cases l with
  | nil => exact h
  | cons a l => exact sublist_destutter' hs h

theorem mem_destutter {l : List κ} {x : κ} : x ∈ l.destutter (· ≠ ·) ↔ x ∈ l := by
  refine ⟨(List.destutter_sublist _ l).mem, fun h => ?_⟩
  exact List.singleton_sublist.mp
    (sublist_destutter (List.isChain_singleton x) (List.singleton_sublist.mpr h))

theorem destutter_of_nodup {l : List κ} (h : l.Nodup) : l.destutter (· ≠ ·) = l :=
  List.destutter_of_isChain _ l (List.Pairwise.isChain h)

omit [DecidableEq κ] in
/-- Between two entries of a key, a list without adjacent repeats has another key. -/
theorem exists_between {l : List κ} {x : κ} (hl : l.IsChain (· ≠ ·)) (h : [x, x] <+ l) :
    ∃ y, y ≠ x ∧ [x, y, x] <+ l := by
  induction l with
  | nil => cases h
  | cons a l ih =>
    rcases List.sublist_cons_iff.mp h with h | ⟨s, hs, h⟩
    · obtain ⟨y, hy, hsub⟩ := ih hl.tail h
      exact ⟨y, hy, hsub.cons a⟩
    · obtain ⟨rfl, rfl⟩ := List.cons_eq_cons.mp hs
      cases l with
      | nil => cases h
      | cons b l =>
        have hb : b ≠ x := Ne.symm (List.isChain_cons_cons.mp hl).1
        refine ⟨b, hb, List.Sublist.cons_cons x ?_⟩
        rcases List.sublist_cons_iff.mp h with h | ⟨s, hs, -⟩
        · exact h.cons_cons b
        · exact absurd (List.cons_eq_cons.mp hs).1.symm hb

/-- **Dropping adjacent repeats** leaves at most one of a key exactly when no other key stands
between two of its entries. -/
theorem count_destutter_le_one_iff {l : List κ} {x : κ} :
    (l.destutter (· ≠ ·)).count x ≤ 1 ↔ ∀ y, [x, y, x] <+ l → y = x := by
  constructor
  · intro h y hsub
    by_contra hy
    have hchain : [x, y, x].IsChain (· ≠ ·) := by simp [hy, Ne.symm hy]
    have hcount := (sublist_destutter hchain hsub).count_le x
    rw [List.count_cons_self, List.count_cons_of_ne hy, List.count_cons_self] at hcount
    omega
  · intro h
    by_contra hcount
    have htwo : [x, x] <+ l.destutter (· ≠ ·) :=
      List.replicate_sublist_iff.mpr (by omega : 2 ≤ _)
    obtain ⟨y, hy, hsub⟩ := exists_between (List.isChain_destutter _ l) htwo
    exact hy (h y (hsub.trans (List.destutter_sublist _ l)))

omit [DecidableEq κ] in
theorem sublist_filter_iff_three {l : List κ} {p : κ → Bool} {x y : κ} :
    [x, y, x] <+ l.filter p ↔ [x, y, x] <+ l ∧ p x ∧ p y := by
  constructor
  · intro h
    have hmem (z : κ) (hz : z ∈ [x, y, x]) : p z := (List.mem_filter.mp (h.mem hz)).2
    exact ⟨h.trans List.filter_sublist, hmem x (by simp), hmem y (by simp)⟩
  · rintro ⟨h, hx, hy⟩
    have := h.filter p
    rwa [List.filter_eq_self.mpr (by simp [hx, hy])] at this

/-! ## The missing keys -/

/-- `for x in xs { if !order.contains(x) { order.push(x) } }`. -/
def push_missing (order xs : List κ) : List κ :=
  xs.foldl (fun order x => if x ∈ order then order else order ++ [x]) order

@[simp] theorem push_missing_nil (order : List κ) : push_missing order [] = order := rfl

@[simp] theorem push_missing_cons (order xs : List κ) (x : κ) :
    push_missing order (x :: xs) =
      push_missing (if x ∈ order then order else order ++ [x]) xs := rfl

theorem count_push_missing (order xs : List κ) (x : κ) :
    (push_missing order xs).count x =
      if x ∈ order then order.count x else if x ∈ xs then 1 else 0 := by
  induction xs generalizing order with
  | nil =>
    rw [push_missing_nil]
    split
    · rfl
    · next h => simpa using List.count_eq_zero_of_not_mem h
  | cons y xs ih =>
    rw [push_missing_cons, ih]
    by_cases hy : y ∈ order
    · simp only [if_pos hy, List.mem_cons]
      by_cases hx : x ∈ order
      · simp only [if_pos hx]
      · have hxy : x ≠ y := fun h => hx (h ▸ hy)
        simp [hx, hxy]
    · simp only [if_neg hy, List.mem_append, List.mem_cons]
      by_cases hx : x ∈ order
      · have hxy : y ≠ x := fun h => hy (h ▸ hx)
        simp [hx, List.count_append, hxy]
      · by_cases hxy : x = y
        · subst hxy
          simp [hx, List.count_append, List.count_eq_zero_of_not_mem hx]
        · simp [hx, hxy]

theorem mem_push_missing {order xs : List κ} {x : κ} :
    x ∈ push_missing order xs ↔ x ∈ order ∨ x ∈ xs := by
  rw [← List.count_pos_iff, count_push_missing]
  split
  · next h => simp [h]
  · next h => split <;> simp_all

/-- Nothing is pushed where nothing is missing. -/
theorem push_missing_of_subset {order xs : List κ} (h : ∀ x ∈ xs, x ∈ order) :
    push_missing order xs = order := by
  induction xs with
  | nil => rfl
  | cons x xs ih =>
    obtain ⟨hx, hxs⟩ := List.forall_mem_cons.mp h
    rw [push_missing_cons, if_pos hx, ih hxs]

theorem push_missing_concat (order xs : List κ) (x : κ) :
    push_missing order (xs ++ [x]) = push_missing (push_missing order xs) [x] := by
  simp only [push_missing, List.foldl_append]

theorem nodup_push_missing {order xs : List κ} (h : order.Nodup) :
    (push_missing order xs).Nodup := by
  rw [List.nodup_iff_count_le_one] at h ⊢
  intro x
  rw [count_push_missing]
  split
  · exact h x
  · split <;> omega

end OrderList
