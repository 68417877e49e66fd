import WaSSH.Agent.Rules

/-!
# Globs

A rule that is neither a comment nor a regular expression is a glob: `*` stands for some text, every
other character for itself.

* `Filled`, `Instance`: the texts a glob stands for, with what may stand for a `*`;
* `count_of_filled`, `filled_iff_count`: line ends in an instance;
* `glob_items`, `matches_glob_items`: the pattern of a glob, and what it matches;
* **`glob_iff`**: the commands for which a glob matches what it stands for.
-/

namespace WaSSH.Agent

open Anchored

/-! ## Instances -/

/-- The text is the glob with each `*` replaced by a text of the characters `p`. -/
inductive Filled (p : Char → Prop) : List Char → List Char → Prop
  | nil : Filled p [] []
  | char {c : Char} {line s : List Char} (hc : c ≠ '*') (h : Filled p line s) :
    Filled p (c :: line) (c :: s)
  | star {line s : List Char} (text : List Char) (htext : ∀ c ∈ text, p c) (h : Filled p line s) :
    Filled p ('*' :: line) (text ++ s)

/-- The text is the glob with each `*` replaced by some text. -/
def Instance : List Char → List Char → Prop := Filled fun _ => True

variable {line s : List Char}

theorem Filled.mono {p q : Char → Prop} (hpq : ∀ c, p c → q c) (h : Filled p line s) :
    Filled q line s := by
  induction h with
  | nil => exact .nil
  | char hc _ ih => exact .char hc ih
  | star text htext _ ih => exact .star text (fun c hc => hpq c (htext c hc)) ih

/-- Characters that do not stand for a `*` are those of the glob. -/
theorem count_of_filled {d : Char} (hd : d ≠ '*') (h : Filled (· ≠ d) line s) :
    s.count d = line.count d := by
  induction h with
  | nil => rfl
  | char _ _ ih => rw [List.count_cons, List.count_cons, ih]
  | star text htext _ ih =>
    have hnone : text.count d = 0 := List.count_eq_zero.mpr fun hmem => htext d hmem rfl
    rw [List.count_append, hnone, ih, List.count_cons_of_ne hd.symm, Nat.zero_add]

/-- An instance has at least the characters of the glob. -/
theorem count_le_of_instance {d : Char} (hd : d ≠ '*') (h : Instance line s) :
    line.count d ≤ s.count d := by
  induction h with
  | nil => exact Nat.le_refl _
  | char _ _ ih =>
    rw [List.count_cons, List.count_cons]
    exact Nat.add_le_add_right ih _
  | star text _ _ ih =>
    rw [List.count_append, List.count_cons_of_ne hd.symm]
    omega

/-- **Line ends.** No `*` stands for one exactly if there are as many as in the glob. -/
theorem filled_iff_count {d : Char} (hd : d ≠ '*') :
    Filled (· ≠ d) line s ↔ Instance line s ∧ s.count d = line.count d := by
  constructor
  · intro h
    exact ⟨h.mono fun _ _ => trivial, count_of_filled hd h⟩
  · rintro ⟨h, hcount⟩
    induction h with
    | nil => exact .nil
    | @char c line s hc h ih =>
      rw [List.count_cons, List.count_cons] at hcount
      exact .char hc (ih (Nat.add_right_cancel hcount))
    | @star line s text _ h ih =>
      have hle := count_le_of_instance hd h
      rw [List.count_append, List.count_cons_of_ne hd.symm] at hcount
      have hnone : text.count d = 0 := by omega
      refine .star text ?_ (ih (by omega))
      rintro c hmem rfl
      exact List.count_eq_zero.mp hnone hmem

/-! ## The pattern of a glob -/

def glob_item (c : Char) : Item := if c = '*' then .any_star else .char c

def glob_pattern (line : List Char) : Pattern := ⟨line.map glob_item, .fin⟩

theorem glob_item_text (c : Char) : (glob_item c).text = glob_char c := by
  unfold glob_item glob_char
  by_cases hc : c = '*'
  · rw [if_pos hc, if_pos hc]
    decide +kernel
  · have hmeta : is_meta c = ".+?^${}()|[]\\".toList.contains c := by
      simp [is_meta, hc]
    rw [if_neg hc, if_neg hc, Item.text, hmeta]

theorem glob_pattern_text (line : List Char) :
    (glob_pattern line).text = '^' :: (line.flatMap glob_char ++ ['$']) := by
  rw [Pattern.text, glob_pattern, List.flatMap_map]
  simp only [glob_item_text]
  rfl

theorem matches_glob_items (line s : List Char) :
    (glob_pattern line).matches_text s ↔ Filled (· ≠ '\n') line s := by
  show matches_items .fin (line.map glob_item) s ↔ _
  induction line generalizing s with
  | nil =>
    rw [List.map_nil, matches_items, End.matches_text, List.isEmpty_iff]
    constructor
    · rintro rfl
      exact .nil
    · intro h
      cases h
      rfl
  | cons c line ih =>
    rw [List.map_cons]
    by_cases hc : c = '*'
    · subst hc
      rw [glob_item, if_pos rfl, matches_items, star_iff]
      constructor
      · rintro ⟨skipped, rest, rfl, hskipped, hrest⟩
        refine .star skipped ?_ ((ih rest).mp hrest)
        rintro d hd rfl
        exact hskipped hd
      · intro h
        cases h with
        | char hc => exact absurd rfl hc
        | @star _ rest text htext h =>
          exact ⟨text, rest, rfl, fun hmem => htext _ hmem rfl, (ih rest).mpr h⟩
    · rw [glob_item, if_neg hc]
      cases s with
      | nil =>
        rw [matches_items]
        refine iff_of_false Bool.false_ne_true ?_
        generalize hs : ([] : List Char) = s
        intro h
        cases h with
        | char => cases hs
        | star => exact hc rfl
      | cons d s =>
        rw [matches_items, Bool.and_eq_true, decide_eq_true_eq, ih]
        constructor
        · rintro ⟨rfl, h⟩
          exact .char hc h
        · generalize hs : d :: s = t
          intro h
          cases h with
          | char _ h =>
            obtain ⟨rfl, rfl⟩ := List.cons.inj hs
            exact ⟨rfl, h⟩
          | star => exact absurd rfl hc

/-! ## Main result -/

/-- The line is a glob. -/
def IsGlob (line : List Char) : Prop :=
  is_comment_line line = false ∧ ¬ RULE_REGEX_PREFIX <+: line

instance (line : List Char) : Decidable (IsGlob line) := inferInstanceAs (Decidable (_ ∧ _))

theorem rule_to_regexp_glob (engine : Engine) {raw : List Char} (h : IsGlob (Text.trim raw)) :
    rule_to_regexp engine raw = engine.compile (glob_pattern (Text.trim raw)).text := by
  have hstrip : Text.strip_prefix RULE_REGEX_PREFIX (Text.trim raw) = none := by
    unfold Text.strip_prefix Text.starts_with
    exact if_neg fun hpre => h.2 (List.isPrefixOf_iff_prefix.mp hpre)
  unfold rule_to_regexp
  dsimp only
  rw [if_neg (by rw [h.1]; exact Bool.false_ne_true), hstrip, glob_pattern_text]

theorem glob_matches_iff {engine : Engine} (hdoc : Documented engine) {raw : List Char}
    (h : IsGlob (Text.trim raw))
    (haccepts : (engine.compile (glob_pattern (Text.trim raw)).text).isSome)
    (command : List Char) :
    (rule_to_regexp engine raw).any (engine.is_match · command) ↔
      Filled (· ≠ '\n') (Text.trim raw) command := by
  obtain ⟨r, hr⟩ := Option.isSome_iff_exists.mp haccepts
  rw [rule_to_regexp_glob engine h, hr, Option.any_some, hdoc _ r hr]
  exact matches_glob_items _ command

/-- **A glob matches what it stands for** unless the command has more line ends than the glob. -/
theorem glob_iff {engine : Engine} (hdoc : Documented engine) {raw : List Char}
    (h : IsGlob (Text.trim raw))
    (haccepts : (engine.compile (glob_pattern (Text.trim raw)).text).isSome)
    (command : List Char) :
    ((rule_to_regexp engine raw).any (engine.is_match · command) ↔
        Instance (Text.trim raw) command) ↔
      (command.count '\n' = (Text.trim raw).count '\n' ∨ ¬ Instance (Text.trim raw) command) := by
  rw [glob_matches_iff hdoc h haccepts, filled_iff_count (by decide)]
  constructor
  · intro hsame
    by_cases hinst : Instance (Text.trim raw) command
    · exact .inl (hsame.mpr hinst).2
    · exact .inr hinst
  · rintro (hcount | hnot)
    · exact and_iff_left hcount
    · exact iff_of_false (fun hboth => hnot hboth.1) hnot

/-- `ls -l` under the rule `ls*`. -/
theorem glob_iff_ls :
    (rule_to_regexp anchored "ls*".toList).any (anchored.is_match · "ls -l".toList) ↔
      Instance "ls*".toList "ls -l".toList :=
  (@glob_iff anchored documented_anchored "ls*".toList (by decide +kernel) (by decide +kernel)
    "ls -l".toList).mpr (.inl (by decide +kernel))

/-- The rule that allows everything does not match a command of two lines. -/
theorem two_lines_not_matched : Documented anchored ∧ IsGlob (Text.trim ALLOW_ALL_PATTERN) ∧
    ¬ ((rule_to_regexp anchored ALLOW_ALL_PATTERN).any (anchored.is_match · "cd /\nls".toList) ↔
      Instance (Text.trim ALLOW_ALL_PATTERN) "cd /\nls".toList) := by
  refine ⟨documented_anchored, by decide +kernel, fun h => ?_⟩
  have hinst : Instance ['*'] ("cd /\nls".toList ++ []) := .star _ (fun _ _ => trivial) .nil
  have hmatch := h.mpr hinst
  revert hmatch
  decide +kernel

end WaSSH.Agent
