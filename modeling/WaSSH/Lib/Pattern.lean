import Mathlib.Data.List.Basic
import Mathlib.Data.List.Infix
import Mathlib.Tactic

/-!
# Anchored patterns

The regular expressions built from literal text and `.*` between anchors: their texts, what they
match, and an engine that reads them back.

* `Pattern`, `Pattern.text`, `Pattern.matches_text`;
* `matches_literal`, **`matches_glob`**, **`matches_words`**: what the common shapes match;
* `Engine`, `Documented`: an engine that matches these patterns as documented;
* `anchored`, **`documented_anchored`**: one such engine.
-/

namespace Anchored

inductive Item
  | char (c : Char)
  /-- `.*` -/
  | any_star

/-- How a pattern ends: `$`, or `( |$)`. -/
inductive End
  | fin
  | space_or_fin

/-- `^`, the items, the end. -/
structure Pattern where
  items : List Item
  tail : End

/-- A character that stands for itself only when escaped. -/
def is_meta (c : Char) : Bool := ".*+?^${}()|[]\\".toList.contains c

def Item.text : Item → List Char
  | char c => if is_meta c then ['\\', c] else [c]
  | any_star => ['.', '*']

def End.text : End → List Char
  | fin => ['$']
  | space_or_fin => ['(', ' ', '|', '$', ')']

def Pattern.text (p : Pattern) : List Char := '^' :: (p.items.flatMap Item.text ++ p.tail.text)

/-! ## Matching -/

def End.matches_text : End → List Char → Bool
  | fin, s => s.isEmpty
  | space_or_fin, s => s.isEmpty || s.head? = some ' '

/-- Characters other than a line end, then what `k` accepts. -/
def star (k : List Char → Bool) : List Char → Bool
  | [] => k []
  | d :: s => k (d :: s) || (d ≠ '\n' && star k s)

def matches_items (e : End) : List Item → List Char → Bool
  | [], s => e.matches_text s
  | .char _ :: _, [] => false
  | .char c :: items, d :: s => c = d && matches_items e items s
  | .any_star :: items, s => star (matches_items e items) s

def Pattern.matches_text (p : Pattern) (s : List Char) : Bool := matches_items p.tail p.items s

theorem star_iff (k : List Char → Bool) (s : List Char) :
    star k s ↔ ∃ skipped rest, s = skipped ++ rest ∧ '\n' ∉ skipped ∧ k rest := by
  induction s with
  | nil =>
    constructor
    · intro h
      exact ⟨[], [], rfl, List.not_mem_nil, h⟩
    · rintro ⟨skipped, rest, h, -, hk⟩
      obtain ⟨-, rfl⟩ := List.append_eq_nil_iff.mp h.symm
      exact hk
  | cons d s ih =>
    rw [star, Bool.or_eq_true, Bool.and_eq_true, decide_eq_true_eq, ih]
    constructor
    · rintro (hk | ⟨hd, skipped, rest, rfl, hskipped, hk⟩)
      · exact ⟨[], d :: s, rfl, List.not_mem_nil, hk⟩
      · refine ⟨d :: skipped, rest, rfl, ?_, hk⟩
        intro hmem
        rcases List.mem_cons.mp hmem with h | h
        · exact hd h.symm
        · exact hskipped h
    · rintro ⟨skipped, rest, h, hskipped, hk⟩
      rcases skipped with _ | ⟨x, skipped⟩
      · left
        rw [h]
        exact hk
      · right
        obtain ⟨rfl, rfl⟩ := List.cons.inj h
        refine ⟨fun hd => hskipped (hd ▸ List.mem_cons_self), skipped, rest, rfl, ?_, hk⟩
        exact fun hmem => hskipped (List.mem_cons_of_mem _ hmem)

/-- Literal text in front is matched as it stands. -/
theorem matches_literal (e : End) (w : List Char) (items : List Item) (s : List Char) :
    matches_items e (w.map .char ++ items) s ↔ ∃ rest, s = w ++ rest ∧ matches_items e items rest := by
  induction w generalizing s with
  | nil => exact ⟨fun h => ⟨s, rfl, h⟩, fun ⟨_, hs, h⟩ => hs ▸ h⟩
  | cons c w ih =>
    rcases s with _ | ⟨d, s⟩
    · constructor
      · intro h
        exact nomatch h
      · rintro ⟨rest, h, -⟩
        exact nomatch h
    · rw [List.map_cons, List.cons_append, matches_items, Bool.and_eq_true, decide_eq_true_eq, ih]
      constructor
      · rintro ⟨rfl, rest, rfl, h⟩
        exact ⟨rest, rfl, h⟩
      · rintro ⟨rest, hs, h⟩
        obtain ⟨rfl, rfl⟩ := List.cons.inj hs
        exact ⟨rfl, rest, rfl, h⟩

/-- **Text followed by anything** matches what begins with the text and stays on one line after
it. -/
theorem matches_glob (w s : List Char) :
    (Pattern.mk (w.map .char ++ [.any_star]) .fin).matches_text s ↔
      ∃ rest, s = w ++ rest ∧ '\n' ∉ rest := by
  rw [Pattern.matches_text, matches_literal]
  have hstar : ∀ rest, matches_items .fin [.any_star] rest ↔ '\n' ∉ rest := by
    intro rest
    rw [matches_items, star_iff]
    constructor
    · rintro ⟨skipped, left, rfl, hskipped, hleft⟩
      have : left = [] := List.isEmpty_iff.mp hleft
      rwa [this, List.append_nil]
    · intro h
      exact ⟨rest, [], (List.append_nil _).symm, h, rfl⟩
  simp only [hstar]

/-- **Words** match a text that ends after them or goes on with a space. -/
theorem matches_words (w s : List Char) :
    (Pattern.mk (w.map .char) .space_or_fin).matches_text s ↔ s = w ∨ w ++ [' '] <+: s := by
  have hitems : w.map Item.char = w.map .char ++ [] := (List.append_nil _).symm
  rw [Pattern.matches_text, hitems, matches_literal]
  constructor
  · rintro ⟨rest, rfl, h⟩
    rcases rest with _ | ⟨c, rest⟩
    · exact .inl (List.append_nil _)
    · right
      have hc : c = ' ' := by simpa [matches_items, End.matches_text] using h
      rw [hc]
      exact ⟨rest, by simp⟩
  · rintro (rfl | ⟨rest, rfl⟩)
    · exact ⟨[], (List.append_nil _).symm, rfl⟩
    · exact ⟨' ' :: rest, by simp, rfl⟩

/-! ## Engines -/

/-- A regular expression engine: `Regex::new` and `Regex::is_match`. -/
structure Engine where
  R : Type
  compile : List Char → Option R
  is_match : R → List Char → Bool

/-- The engine matches anchored patterns as documented, where it accepts them. -/
def Documented (engine : Engine) : Prop :=
  ∀ (p : Pattern) (r : engine.R), engine.compile p.text = some r →
    ∀ s, engine.is_match r s = p.matches_text s

/-! ### Reading patterns back -/

def read_items : List Char → Option (List Item × End)
  | ['$'] => some ([], .fin)
  | ['(', ' ', '|', '$', ')'] => some ([], .space_or_fin)
  | '\\' :: c :: rest =>
    if is_meta c then (read_items rest).map fun (items, e) => (.char c :: items, e) else none
  | '.' :: '*' :: rest => (read_items rest).map fun (items, e) => (.any_star :: items, e)
  | c :: rest =>
    if is_meta c then none else (read_items rest).map fun (items, e) => (.char c :: items, e)
  | [] => none

def read : List Char → Option Pattern
  | '^' :: rest => (read_items rest).map fun (items, e) => ⟨items, e⟩
  | _ => none

theorem read_items_text (items : List Item) (e : End) :
    read_items (items.flatMap Item.text ++ e.text) = some (items, e) := by
  induction items with
  | nil => cases e <;> rfl
  | cons item items ih =>
    rw [List.flatMap_cons, List.append_assoc]
    cases item with
    | any_star =>
      change read_items ('.' :: '*' :: (items.flatMap Item.text ++ e.text)) = _
      rw [read_items, ih]
      rfl
    | char c =>
      cases hc : is_meta c with
      | true =>
        rw [Item.text, hc, if_pos rfl]
        change read_items ('\\' :: c :: (items.flatMap Item.text ++ e.text)) = _
        rw [read_items, hc, ih]
        rfl
      | false =>
        rw [Item.text, hc, if_neg Bool.false_ne_true]
        change read_items (c :: (items.flatMap Item.text ++ e.text)) = _
        have hne : ∀ m, is_meta m = true → c ≠ m := by
          rintro m hm rfl
          rw [hm] at hc
          exact nomatch hc
        rw [read_items, hc, ih]
        · rfl
        -- the patterns read first begin with characters that are never left unescaped
        · intro h _
          exact absurd h (hne '$' rfl)
        · intro h _
          exact absurd h (hne '(' rfl)
        · intro _ _ h
          exact absurd h (hne '\\' rfl)
        · intro _ h
          exact absurd h (hne '.' rfl)

/-- An engine for anchored patterns and nothing else. -/
def anchored : Engine := ⟨Pattern, read, Pattern.matches_text⟩

/-- **The engine for anchored patterns** matches them as documented. -/
theorem documented_anchored : Documented anchored := by
  intro p r h s
  have hread : read p.text = some p := by
    rw [Pattern.text, read, read_items_text]
    rfl
  have hr : some p = some r := hread.symm.trans h
  rw [Option.some.inj hr]
  rfl

end Anchored
