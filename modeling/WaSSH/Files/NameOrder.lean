import WaSSH.Files.LocalList
import WaSSH.Lib.Lowercase

/-!
# The order of the table

The pane lists folders first, then names without regard to case, their numbers as numbers.

* `compare_names`, `sort_entries`: the comparison and the order;
* `keys`: a name as a list of numbers and characters; **`compare_loop_eq`**: the loop over two names
  compares their keys one by one;
* **`sort_entries_sorted`**: the order lists every entry once, folders first, by a comparison that
  is a total preorder and orders numbers by their value.
-/

namespace WaSSH.Files.NameOrder

open Digits Lowercase

/-! ## The comparison -/

/-- The loop over two names. -/
def compare_loop : List Char → List Char → Ordering
  | [], [] => .eq
  | [], _ :: _ => .lt
  | _ :: _, [] => .gt
  | a :: left, b :: right =>
    if a.isDigit ∧ b.isDigit then
      let left_number := (a :: left).takeWhile Char.isDigit
      let right_number := (b :: right).takeWhile Char.isDigit
      let ordering := compare_numbers left_number right_number
      if ordering ≠ .eq then ordering
      else compare_loop (left.dropWhile Char.isDigit) (right.dropWhile Char.isDigit)
    else
      let ordering := char_cmp a b
      if ordering ≠ .eq then ordering else compare_loop left right
termination_by left => left.length
decreasing_by
  · have := (List.dropWhile_sublist Char.isDigit (l := left)).length_le
    simp only [List.length_cons]
    omega
  · simp

/-- Case-insensitive, numeric-aware name comparison. -/
def compare_names (u : CaseTables) (left right : List Char) : Ordering :=
  compare_loop (to_lowercase u left) (to_lowercase u right)

/-- `bool::cmp`. -/
def bool_cmp (a b : Bool) : Ordering := compare a.toNat b.toNat

/-- Folders first, then by name. -/
def compare_entries (u : CaseTables) (left right : LocalList.SftpEntry) : Ordering :=
  let folders := bool_cmp right.is_dir left.is_dir
  if folders ≠ .eq then folders else compare_names u left.name right.name

/-- Indices of `entries` in table order. -/
def sort_entries (u : CaseTables) (entries : List LocalList.SftpEntry) :
    List (Fin entries.length) :=
  (List.finRange entries.length).mergeSort fun left right =>
    (compare_entries u entries[left] entries[right]).isLE

/-! ## Keys -/

/-- What a name is compared by: its characters that are no digits, and the numbers between them. -/
def keys : List Char → List (ℕ × ℕ)
  | [] => []
  | c :: t =>
    if c.isDigit then
      (48, value ((c :: t).takeWhile Char.isDigit)) :: keys (t.dropWhile Char.isDigit)
    else (c.toNat, 0) :: keys t
termination_by t => t.length
decreasing_by
  · have := (List.dropWhile_sublist Char.isDigit (l := t)).length_le
    simp only [List.length_cons]
    omega
  · simp

/-- Two keys: a number stands where the digits do. -/
def key_cmp : ℕ × ℕ → ℕ × ℕ → Ordering := compareLex (compareOn Prod.fst) (compareOn Prod.snd)

/-- Two lists of keys. -/
def keys_cmp : List (ℕ × ℕ) → List (ℕ × ℕ) → Ordering := List.compareLex key_cmp

instance transCmp_keys_cmp : Std.TransCmp keys_cmp :=
  inferInstanceAs (Std.TransCmp (List.compareLex
    (compareLex (compareOn Prod.fst) (compareOn Prod.snd))))

theorem keys_of_isDigit {c : Char} (h : c.isDigit) (t : List Char) :
    keys (c :: t) =
      (48, value ((c :: t).takeWhile Char.isDigit)) :: keys (t.dropWhile Char.isDigit) := by
  rw [keys, if_pos h]

theorem keys_of_not_isDigit {c : Char} (h : ¬ c.isDigit) (t : List Char) :
    keys (c :: t) = (c.toNat, 0) :: keys t := by
  rw [keys, if_neg h]

theorem digits_takeWhile (t : List Char) : ∀ c ∈ t.takeWhile Char.isDigit, c.isDigit :=
  fun _ hc => List.mem_takeWhile_imp hc

theorem key_cmp_eq (k m l n : ℕ) :
    key_cmp (k, m) (l, n) = (compare k l).then (compare m n) := rfl

/-- The place of the digits among the characters. -/
theorem compare_of_not_isDigit {c : Char} (h : ¬ c.isDigit) {k : ℕ} (hk : 48 ≤ k ∧ k ≤ 57) :
    compare k c.toNat = compare 48 c.toNat ∧ compare c.toNat k = compare c.toNat 48 ∧
      c.toNat ≠ 48 := by
  rw [isDigit_iff] at h
  rcases (show c.toNat < 48 ∨ 57 < c.toNat by omega) with hlt | hgt
  · rw [Nat.compare_eq_gt.mpr (by omega), Nat.compare_eq_gt.mpr (by omega),
      Nat.compare_eq_lt.mpr (by omega), Nat.compare_eq_lt.mpr (by omega)]
    exact ⟨rfl, rfl, by omega⟩
  · rw [Nat.compare_eq_lt.mpr (by omega), Nat.compare_eq_lt.mpr (by omega),
      Nat.compare_eq_gt.mpr (by omega), Nat.compare_eq_gt.mpr (by omega)]
    exact ⟨rfl, rfl, by omega⟩

theorem keys_cmp_cons (k l : ℕ × ℕ) (ks ls : List (ℕ × ℕ)) :
    keys_cmp (k :: ks) (l :: ls) = (key_cmp k l).then (keys_cmp ks ls) :=
  List.compareLex_cons_cons

/-- Where one of two characters is no digit, keys that differ there compare as they do. -/
theorem keys_cmp_of_not_digits {a b : Char} (h : ¬ (a.isDigit ∧ b.isDigit))
    (left right : List Char) :
    keys_cmp (keys (a :: left)) (keys (b :: right)) =
      if char_cmp a b ≠ .eq then char_cmp a b else keys_cmp (keys left) (keys right) := by
  unfold char_cmp
  by_cases ha : a.isDigit
  · have hb : ¬ b.isDigit := fun hb => h ⟨ha, hb⟩
    obtain ⟨hcmp, -, hne⟩ := compare_of_not_isDigit hb ((isDigit_iff a).mp ha)
    have hdiffer : compare 48 b.toNat ≠ .eq := fun heq => hne (Nat.compare_eq_eq.mp heq).symm
    rw [keys_of_isDigit ha, keys_of_not_isDigit hb, keys_cmp_cons, key_cmp_eq, hcmp,
      if_pos hdiffer]
    cases hc : compare 48 b.toNat
    · rfl
    · exact absurd hc hdiffer
    · rfl
  · by_cases hb : b.isDigit
    · obtain ⟨-, hcmp, hne⟩ := compare_of_not_isDigit ha ((isDigit_iff b).mp hb)
      have hdiffer : compare a.toNat 48 ≠ .eq := fun heq => hne (Nat.compare_eq_eq.mp heq)
      rw [keys_of_not_isDigit ha, keys_of_isDigit hb, keys_cmp_cons, key_cmp_eq, hcmp,
        if_pos hdiffer]
      cases hc : compare a.toNat 48
      · rfl
      · exact absurd hc hdiffer
      · rfl
    · rw [keys_of_not_isDigit ha, keys_of_not_isDigit hb, keys_cmp_cons, key_cmp_eq,
        Nat.compare_eq_eq.mpr rfl, Ordering.then_eq]
      cases hc : compare a.toNat b.toNat <;> rfl

/-- Two numbers, and what follows them. -/
theorem keys_cmp_of_digits {a b : Char} (ha : a.isDigit) (hb : b.isDigit)
    (left right : List Char) :
    keys_cmp (keys (a :: left)) (keys (b :: right)) =
      (compare_numbers ((a :: left).takeWhile Char.isDigit)
        ((b :: right).takeWhile Char.isDigit)).then
      (keys_cmp (keys (left.dropWhile Char.isDigit)) (keys (right.dropWhile Char.isDigit))) := by
  rw [keys_of_isDigit ha, keys_of_isDigit hb, keys_cmp_cons, key_cmp_eq, Nat.compare_eq_eq.mpr rfl,
    Ordering.eq_then, compare_numbers_eq (digits_takeWhile _) (digits_takeWhile _)]

/-- **The loop compares keys**, one by one. -/
theorem compare_loop_eq (left right : List Char) :
    compare_loop left right = keys_cmp (keys left) (keys right) := by
  have hsome : ∀ c t, ∃ k ks, keys (c :: t) = k :: ks := by
    intro c t
    by_cases hc : c.isDigit
    · exact ⟨_, _, keys_of_isDigit hc t⟩
    · exact ⟨_, _, keys_of_not_isDigit hc t⟩
  fun_induction compare_loop left right with
  | case1 => rw [keys]; rfl
  | case2 c t =>
    obtain ⟨k, ks, hkeys⟩ := hsome c t
    rw [keys, hkeys]
    rfl
  | case3 c t =>
    obtain ⟨k, ks, hkeys⟩ := hsome c t
    rw [hkeys, keys]
    rfl
  | case4 a left b right h left_number right_number ordering hne =>
    rw [keys_cmp_of_digits h.1 h.2]
    show ordering = ordering.then _
    cases hordering : ordering
    · rfl
    · exact absurd hordering hne
    · rfl
  | case5 a left b right h left_number right_number ordering heq ih =>
    have hordering : ordering = .eq := not_not.mp heq
    rw [keys_cmp_of_digits h.1 h.2, ih]
    show _ = ordering.then _
    rw [hordering, Ordering.eq_then]
  | case6 a left b right h ordering hne => rw [keys_cmp_of_not_digits h, if_pos hne]
  | case7 a left b right h ordering heq ih => rw [keys_cmp_of_not_digits h, if_neg heq, ih]

theorem compare_names_eq (u : CaseTables) (left right : List Char) :
    compare_names u left right =
      keys_cmp (keys (to_lowercase u left)) (keys (to_lowercase u right)) :=
  compare_loop_eq _ _

/-- What is compared by something that is compared. -/
theorem transCmp_on {α β : Type} {cmp : β → β → Ordering} [Std.TransCmp cmp] (f : α → β) :
    Std.TransCmp fun a b => cmp (f a) (f b) where
  eq_swap := Std.OrientedCmp.eq_swap
  isLE_trans hab hbc := Std.TransCmp.isLE_trans hab hbc

/-- **The comparison of names is a total preorder.** -/
instance transCmp_compare_names (u : CaseTables) : Std.TransCmp (compare_names u) := by
  have heq : compare_names u =
      fun left right => keys_cmp (keys (to_lowercase u left)) (keys (to_lowercase u right)) := by
    funext left right
    exact compare_names_eq u left right
  rw [heq]
  exact transCmp_on fun name => keys (to_lowercase u name)

/-! ## Numbers in names -/

/-- A text that a run of digits does not go on into. -/
def NoDigitFirst (t : List Char) : Prop := ∀ c, t.head? = some c → ¬ c.isDigit

/-- A text that no run of digits comes out of. -/
def NoDigitLast (t : List Char) : Prop := ∀ c, t.getLast? = some c → ¬ c.isDigit

theorem takeWhile_append_of_noDigitFirst {w t : List Char} (hw : ∀ c ∈ w, c.isDigit)
    (ht : NoDigitFirst t) :
    (w ++ t).takeWhile Char.isDigit = w ∧ (w ++ t).dropWhile Char.isDigit = t := by
  rw [List.takeWhile_append_of_pos hw, List.dropWhile_append_of_pos hw]
  cases t with
  | nil => exact ⟨List.append_nil w, rfl⟩
  | cons c t =>
    have hc := ht c rfl
    rw [List.takeWhile_cons_of_neg hc, List.dropWhile_cons_of_neg hc]
    exact ⟨List.append_nil w, rfl⟩

theorem NoDigitLast.of_append {s t : List Char} (h : NoDigitLast (s ++ t)) (ht : t ≠ []) :
    NoDigitLast t := fun c hc => h c (by rw [List.getLast?_append_of_ne_nil _ ht, hc])

/-- The keys of what a run of digits does not come out of, and of what follows. -/
theorem keys_append {t : List Char} (h : NoDigitLast t) (rest : List Char) :
    keys (t ++ rest) = keys t ++ keys rest := by
  induction hlen : t.length using Nat.strong_induction_on generalizing t with
  | _ n ih =>
    cases t with
    | nil => rw [keys]; rfl
    | cons c t =>
      rw [List.length_cons] at hlen
      by_cases hc : c.isDigit
      · -- the run ends inside the text
        have hsplit : t.takeWhile Char.isDigit ++ t.dropWhile Char.isDigit = t :=
          List.takeWhile_append_dropWhile
        have hrest : t.dropWhile Char.isDigit ≠ [] := by
          intro hnil
          have hall : ∀ d ∈ c :: t, d.isDigit :=
            List.forall_mem_cons.mpr ⟨hc, List.dropWhile_eq_nil_iff.mp hnil⟩
          have hlast := List.getLast?_eq_some_getLast (List.cons_ne_nil c t)
          exact h _ hlast (hall _ (List.getLast_mem _))
        have hfirst : NoDigitFirst (t.dropWhile Char.isDigit ++ rest) := by
          intro d hd hdigit
          rw [List.head?_append_of_ne_nil _ hrest] at hd
          have hnot := List.head?_dropWhile_not Char.isDigit t
          rw [hd] at hnot
          exact absurd hdigit (by simpa using hnot)
        have hrun : ∀ d ∈ c :: t.takeWhile Char.isDigit, d.isDigit :=
          List.forall_mem_cons.mpr ⟨hc, digits_takeWhile t⟩
        obtain ⟨htake, -⟩ := takeWhile_append_of_noDigitFirst hrun hfirst
        obtain ⟨-, hdrop⟩ := takeWhile_append_of_noDigitFirst (digits_takeWhile t) hfirst
        have hwhole : t ++ rest =
            t.takeWhile Char.isDigit ++ (t.dropWhile Char.isDigit ++ rest) := by
          rw [← List.append_assoc, hsplit]
        have hlast : NoDigitLast (t.dropWhile Char.isDigit) := by
          rw [← hsplit, ← List.cons_append] at h
          exact h.of_append hrest
        have hshort : (t.dropWhile Char.isDigit).length < n := by
          have := (List.dropWhile_sublist Char.isDigit (l := t)).length_le
          omega
        rw [List.cons_append, keys_of_isDigit hc, keys_of_isDigit hc, hwhole,
          ← List.cons_append, htake, hdrop, ih _ hshort hlast rfl,
          List.takeWhile_cons_of_pos hc, List.cons_append]
      · have hlast : NoDigitLast t := by
          cases t with
          | nil => exact fun d hd => nomatch hd
          | cons d t => exact NoDigitLast.of_append (s := [c]) h (List.cons_ne_nil d t)
        rw [List.cons_append, keys_of_not_isDigit hc, keys_of_not_isDigit hc,
          ih t.length (by omega) hlast rfl, List.cons_append]

/-- The keys of a run of digits and what follows it. -/
theorem keys_digits {w after : List Char} (hne : w ≠ []) (hw : ∀ c ∈ w, c.isDigit)
    (hafter : NoDigitFirst after) : keys (w ++ after) = (48, value w) :: keys after := by
  obtain ⟨c, w, rfl⟩ := List.exists_cons_of_ne_nil hne
  obtain ⟨hc, hrun⟩ := List.forall_mem_cons.mp hw
  obtain ⟨htake, -⟩ := takeWhile_append_of_noDigitFirst hw hafter
  obtain ⟨-, hdrop⟩ := takeWhile_append_of_noDigitFirst hrun hafter
  rw [List.cons_append, keys_of_isDigit hc, ← List.cons_append, htake, hdrop]

theorem keys_cmp_append (ks ls ms : List (ℕ × ℕ)) :
    keys_cmp (ks ++ ls) (ks ++ ms) = keys_cmp ls ms := by
  induction ks with
  | nil => rfl
  | cons k ks ih =>
    have hself : key_cmp k k = .eq := by
      obtain ⟨m, n⟩ := k
      rw [key_cmp_eq, Nat.compare_eq_eq.mpr rfl, Nat.compare_eq_eq.mpr rfl]
      rfl
    rw [List.cons_append, List.cons_append, keys_cmp_cons, hself, Ordering.eq_then, ih]

/-- **Numbers compare by their value**: names that differ in one run of digits only. -/
theorem compare_names_digits (u : CaseTables) {before after w v : List Char} (hw : w ≠ [])
    (hv : v ≠ []) (hwdigits : ∀ c ∈ w, c.isDigit) (hvdigits : ∀ c ∈ v, c.isDigit)
    (hbefore : NoDigitLast before) (hafter : NoDigitFirst after) :
    compare_names u (before ++ (w ++ after)) (before ++ (v ++ after)) =
      compare (value w) (value v) := by
  have hlast : NoDigitLast (to_lowercase u before) := fun d hd hdigit => by
    obtain ⟨c, hc, hcdigit⟩ := digit_of_getLast? hd hdigit
    exact hbefore c hc hcdigit
  have hfirst : NoDigitFirst (to_lowercase u after) := fun d hd hdigit => by
    obtain ⟨c, hc, hcdigit⟩ := digit_of_head? hd hdigit
    exact hafter c hc hcdigit
  have hself : keys_cmp (keys (to_lowercase u after)) (keys (to_lowercase u after)) = .eq :=
    Std.ReflCmp.compare_self
  rw [compare_names_eq, to_lowercase_append_digits hw hwdigits,
    to_lowercase_append_digits hv hvdigits, keys_append hlast, keys_append hlast,
    keys_digits hw hwdigits hfirst, keys_digits hv hvdigits hfirst, keys_cmp_append,
    keys_cmp_cons, hself, Ordering.then_eq, key_cmp_eq, Nat.compare_eq_eq.mpr rfl,
    Ordering.eq_then]

/-! ## The order -/

theorem bool_cmp_eq (a b : Bool) : bool_cmp b a = compare (!a).toNat (!b).toNat := by
  cases a <;> cases b <;> rfl

theorem compare_entries_eq (u : CaseTables) (left right : LocalList.SftpEntry) :
    compare_entries u left right =
      (compare (!left.is_dir).toNat (!right.is_dir).toNat).then
        (compare_names u left.name right.name) := by
  unfold compare_entries
  rw [bool_cmp_eq]
  cases hc : compare (!left.is_dir).toNat (!right.is_dir).toNat <;> rfl

/-- The comparison of entries is a total preorder, too. -/
instance transCmp_compare_entries (u : CaseTables) : Std.TransCmp (compare_entries u) := by
  have hfolders : Std.TransCmp fun left right : LocalList.SftpEntry =>
      compare (!left.is_dir).toNat (!right.is_dir).toNat :=
    transCmp_on fun e : LocalList.SftpEntry => (!e.is_dir).toNat
  have hnames : Std.TransCmp fun left right : LocalList.SftpEntry =>
      compare_names u left.name right.name := transCmp_on LocalList.SftpEntry.name
  have heq : compare_entries u =
      compareLex (fun left right => compare (!left.is_dir).toNat (!right.is_dir).toNat)
        fun left right => compare_names u left.name right.name := by
    funext left right
    exact compare_entries_eq u left right
  rw [heq]
  infer_instance

/-- One entry is listed in front of another: folders first, then by name. -/
def InOrder (u : CaseTables) (left right : LocalList.SftpEntry) : Prop :=
  (right.is_dir → left.is_dir) ∧
    (left.is_dir = right.is_dir → (compare_names u left.name right.name).isLE)

theorem inOrder_of_isLE {u : CaseTables} {left right : LocalList.SftpEntry}
    (h : (compare_entries u left right).isLE) : InOrder u left right := by
  rw [compare_entries_eq, Ordering.isLE_then_iff_and] at h
  obtain ⟨hfolders, hnames⟩ := h
  constructor
  · intro hright
    rw [hright] at hfolders
    cases hleft : left.is_dir
    · rw [hleft] at hfolders
      exact absurd hfolders (by decide)
    · rfl
  · intro hsame
    rw [hsame] at hnames
    rcases hnames with hlt | hnames
    · rw [Nat.compare_eq_lt] at hlt
      exact absurd hlt (Nat.lt_irrefl _)
    · exact hnames

/-- **The order of the table**: every index once, folders first and then by name; the comparison of
names is a total preorder; and names that differ in one number are ordered by its value. -/
theorem sort_entries_sorted (u : CaseTables) :
    (∀ entries : List LocalList.SftpEntry,
      ((sort_entries u entries).map Fin.val).Perm (List.range entries.length) ∧
      (sort_entries u entries).Pairwise fun i j => InOrder u entries[i] entries[j]) ∧
    (∀ a b, compare_names u a b = (compare_names u b a).swap) ∧
    (∀ a b c, (compare_names u a b).isLE → (compare_names u b c).isLE →
      (compare_names u a c).isLE) ∧
    ∀ before after w v : List Char, w ≠ [] → v ≠ [] → (∀ c ∈ w, c.isDigit) →
      (∀ c ∈ v, c.isDigit) → NoDigitLast before → NoDigitFirst after →
      compare_names u (before ++ (w ++ after)) (before ++ (v ++ after)) =
        compare (value w) (value v) := by
  refine ⟨fun entries => ⟨?_, ?_⟩, fun a b => Std.OrientedCmp.eq_swap,
    fun a b c => Std.TransCmp.isLE_trans, fun before after w v hw hv hwdigits hvdigits =>
      compare_names_digits u hw hv hwdigits hvdigits⟩
  · rw [← List.map_coe_finRange_eq_range]
    exact (List.mergeSort_perm _ _).map _
  · refine (List.pairwise_mergeSort (fun i j k => ?_) (fun i j => ?_) _).imp inOrder_of_isLE
    · exact Std.TransCmp.isLE_trans
    · have hswap : compare_entries u entries[j] entries[i] =
          (compare_entries u entries[i] entries[j]).swap := Std.OrientedCmp.eq_swap
      rw [hswap]
      cases compare_entries u entries[i] entries[j] <;> rfl

/-- Names that differ in their number, which is not ordered by its first digit. -/
theorem sort_entries_sorted_files :
    compare_names ascii_tables ['f', '9', 'x'] ['f', '0', '1', '0', 'x'] = .lt ∧
      (compare_names ascii_tables ['f', '9', 'x'] ['f', '1', '1', 'x']).isLE := by
  obtain ⟨-, -, htrans, hdigits⟩ := sort_entries_sorted ascii_tables
  have hbefore : NoDigitLast ['f'] := fun c hc => by
    obtain rfl := Option.some.inj hc
    decide
  have hafter : NoDigitFirst ['x'] := fun c hc => by
    obtain rfl := Option.some.inj hc
    decide
  have hfirst : compare_names ascii_tables ['f', '9', 'x'] ['f', '0', '1', '0', 'x'] = .lt :=
    (hdigits ['f'] ['x'] ['9'] ['0', '1', '0'] (by decide) (by decide) (by simp) (by simp) hbefore
      hafter).trans (by decide)
  have hsecond : compare_names ascii_tables ['f', '0', '1', '0', 'x'] ['f', '1', '1', 'x'] = .lt :=
    (hdigits ['f'] ['x'] ['0', '1', '0'] ['1', '1'] (by decide) (by decide) (by simp) (by simp)
      hbefore hafter).trans (by decide)
  refine ⟨hfirst, htrans _ ['f', '0', '1', '0', 'x'] _ ?_ ?_⟩
  · rw [hfirst]
    rfl
  · rw [hsecond]
    rfl

end WaSSH.Files.NameOrder
