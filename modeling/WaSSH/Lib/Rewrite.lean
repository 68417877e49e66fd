import Mathlib.Data.List.Infix
import WaSSH.Lib.Text

/-!
# Global replacements

Texts rewritten by regular expressions and by `str::replace`.

* `Item`, `run`, `replace_all`: sequences of repeated classes, matched with backtracking, the first
  way that works;
* `run_consumes`, **`filter_replace_all`**: what a pattern never matches is never lost;
* **`replace_all_of_forall_not`**: a text without a character to begin with stays;
* `replace_append_needle`, `replace_cons_of_not_starts`: one step of `str::replace`;
  `matches_induction`: all of them;
* **`countP_replace`**: how many characters of a kind a replacement takes away.
-/

namespace Rewrite

/-- A property of every character of a word, computed. -/
theorem forall_mem_of_all {p : Char → Prop} [DecidablePred p] {l : List Char}
    (h : (l.all fun c => decide (p c)) = true) : ∀ c ∈ l, p c :=
  fun c hc => of_decide_eq_true (List.all_eq_true.mp h c hc)

/-! ## Patterns -/

/-- A piece of a pattern, over classes of characters. -/
inductive Item
  | one (p : Char → Bool)
  /-- `p*` -/
  | star (p : Char → Bool)
  /-- `p*?` -/
  | lazy (p : Char → Bool)
  /-- `p?` -/
  | optional (p : Char → Bool)
  /-- `\b` -/
  | boundary
  /-- `(v|w|..)` -/
  | choice (words : List (List (Char → Bool)))

/-- What matches from a place on, given the character before it; the result is what is left. -/
abbrev Matcher := Option Char → List Char → Option (List Char)

/-- One character, then the rest. -/
def one (p : Char → Bool) (k : Matcher) : Matcher
  | _, [] => none
  | _, c :: t => if p c then k (some c) t else none

/-- As many characters as the rest allows. -/
def star (p : Char → Bool) (k : Matcher) : Matcher
  | prev, [] => k prev []
  | prev, c :: t => if p c then (star p k (some c) t).or (k prev (c :: t)) else k prev (c :: t)

/-- As few characters as the rest allows. -/
def lazy (p : Char → Bool) (k : Matcher) : Matcher
  | prev, [] => k prev []
  | prev, c :: t => (k prev (c :: t)).or (if p c then lazy p k (some c) t else none)

/-- A piece, then the rest; `is_word` is the class `\w`. -/
def Item.run (is_word : Char → Bool) : Item → Matcher → Matcher
  | .one p, k => Rewrite.one p k
  | .star p, k => Rewrite.star p k
  | .lazy p, k => Rewrite.lazy p k
  | .optional p, k => fun prev t => (Rewrite.one p k prev t).or (k prev t)
  | .boundary, k => fun prev t => if prev.any is_word = t.head?.any is_word then none else k prev t
  | .choice words, k => fun prev t => words.findSome? fun w => w.foldr Rewrite.one k prev t

/-- The match of a pattern at a place. -/
def run (is_word : Char → Bool) (items : List Item) : Matcher :=
  items.foldr (Item.run is_word) fun _ t => some t

/-- `Regex::replace_all` with a fixed text, once `skip` more characters of a match are passed; an
empty match is passed over. -/
def replace_all (is_word : Char → Bool) (items : List Item) (new : List Char) :
    Option Char → ℕ → List Char → List Char
  | _, _, [] => []
  | _, skip + 1, c :: t => replace_all is_word items new (some c) skip t
  | prev, 0, c :: t =>
    match run is_word items prev (c :: t) with
    | some rest =>
      if rest.length ≤ t.length then
        new ++ replace_all is_word items new (some c) (t.length - rest.length) t
      else c :: replace_all is_word items new (some c) 0 t
    | none => c :: replace_all is_word items new (some c) 0 t

/-! ### What a pattern matches -/

/-- Whatever `k` matches has only characters of `q`. -/
def Consumes (q : Char → Bool) (k : Matcher) : Prop :=
  ∀ prev t rest, k prev t = some rest → ∃ w, t = w ++ rest ∧ ∀ c ∈ w, q c

/-- A piece that has only characters of `q`. -/
def Item.Within (q : Char → Bool) : Item → Prop
  | .one p | .star p | .lazy p | .optional p => ∀ c, p c → q c
  | .boundary => True
  | .choice words => ∀ w ∈ words, ∀ p ∈ w, ∀ c, p c → q c

variable {q p : Char → Bool} {k : Matcher}

theorem consumes_cons (h : Consumes q k) {prev : Option Char} {c : Char} (hc : q c)
    {t rest : List Char} (hk : k prev t = some rest) :
    ∃ w, c :: t = w ++ rest ∧ ∀ d ∈ w, q d := by
  obtain ⟨w, rfl, hw⟩ := h _ _ _ hk
  exact ⟨c :: w, rfl, List.forall_mem_cons.mpr ⟨hc, hw⟩⟩

theorem consumes_one (h : Consumes q k) (hp : ∀ c, p c → q c) : Consumes q (one p k) := by
  intro prev t rest hk
  cases t with
  | nil => cases hk
  | cons c t =>
    rw [one] at hk
    split at hk
    · next hc => exact consumes_cons h (hp c hc) hk
    · cases hk

theorem consumes_star (h : Consumes q k) (hp : ∀ c, p c → q c) : Consumes q (star p k) := by
  intro prev t rest hk
  induction t generalizing prev with
  | nil => exact h _ _ _ hk
  | cons c t ih =>
    rw [star] at hk
    split at hk
    · next hc =>
      rcases Option.or_eq_some_iff.mp hk with hmore | ⟨-, hk⟩
      · obtain ⟨w, rfl, hw⟩ := ih _ hmore
        exact ⟨c :: w, rfl, List.forall_mem_cons.mpr ⟨hp c hc, hw⟩⟩
      · exact h _ _ _ hk
    · exact h _ _ _ hk

theorem consumes_lazy (h : Consumes q k) (hp : ∀ c, p c → q c) : Consumes q (lazy p k) := by
  intro prev t rest hk
  induction t generalizing prev with
  | nil => exact h _ _ _ hk
  | cons c t ih =>
    rw [lazy] at hk
    rcases Option.or_eq_some_iff.mp hk with hk | ⟨-, hk⟩
    · exact h _ _ _ hk
    · split at hk
      · next hc =>
        obtain ⟨w, rfl, hw⟩ := ih _ hk
        exact ⟨c :: w, rfl, List.forall_mem_cons.mpr ⟨hp c hc, hw⟩⟩
      · cases hk

theorem consumes_word (h : Consumes q k) {w : List (Char → Bool)}
    (hw : ∀ p ∈ w, ∀ c, p c → q c) : Consumes q (w.foldr one k) := by
  induction w with
  | nil => exact h
  | cons p w ih =>
    obtain ⟨hp, hw⟩ := List.forall_mem_cons.mp hw
    exact consumes_one (ih hw) hp

theorem consumes_item (is_word : Char → Bool) (h : Consumes q k) {item : Item}
    (hitem : item.Within q) : Consumes q (item.run is_word k) := by
  cases item with
  | one p => exact consumes_one h hitem
  | star p => exact consumes_star h hitem
  | lazy p => exact consumes_lazy h hitem
  | optional p =>
    intro prev t rest hk
    rcases Option.or_eq_some_iff.mp hk with hk | ⟨-, hk⟩
    · exact consumes_one h hitem _ _ _ hk
    · exact h _ _ _ hk
  | boundary =>
    intro prev t rest hk
    simp only [Item.run] at hk
    split at hk
    · cases hk
    · exact h _ _ _ hk
  | choice words =>
    intro prev t rest hk
    obtain ⟨w, hw, hk⟩ := List.exists_of_findSome?_eq_some hk
    exact consumes_word h (hitem w hw) _ _ _ hk

/-- **What a pattern matches** has only characters of its classes. -/
theorem run_consumes (is_word : Char → Bool) {items : List Item}
    (h : ∀ item ∈ items, item.Within q) : Consumes q (run is_word items) := by
  induction items with
  | nil => exact fun prev t rest hk => ⟨[], Option.some.inj hk, fun c hc => nomatch hc⟩
  | cons item items ih =>
    obtain ⟨hitem, hitems⟩ := List.forall_mem_cons.mp h
    exact consumes_item is_word (ih hitems) hitem

/-- **What a pattern never matches is never lost**, nor does a replacement add to it. -/
theorem filter_replace_all (is_word : Char → Bool) {items : List Item} {new : List Char}
    (h : ∀ item ∈ items, item.Within q) (hnew : ∀ c ∈ new, q c) (t : List Char) :
    ∀ (prev : Option Char) (skip : ℕ), (∀ c ∈ t.take skip, q c) →
      (replace_all is_word items new prev skip t).filter (!q ·) = t.filter (!q ·) := by
  have hnone : ∀ w : List Char, (∀ c ∈ w, q c) → w.filter (!q ·) = [] := fun w hw =>
    List.filter_eq_nil_iff.mpr fun c hc => by simp [hw c hc]
  induction t with
  | nil => exact fun prev skip _ => by simp [replace_all]
  | cons c t ih =>
    intro prev skip hskip
    cases skip with
    | succ skip =>
      obtain ⟨hc, hskip⟩ := List.forall_mem_cons.mp hskip
      rw [replace_all, ih _ _ hskip, List.filter_cons_of_neg (by simp [hc])]
    | zero =>
      rw [replace_all]
      split
      · next rest hrun =>
        obtain ⟨w, hw, hq⟩ := run_consumes is_word h _ _ _ hrun
        split_ifs with hlen
        · cases w with
          | nil =>
            have hwhole := congrArg List.length hw
            rw [List.nil_append, List.length_cons] at hwhole
            omega
          | cons d w =>
            obtain ⟨rfl, rfl⟩ : c = d ∧ t = w ++ rest := List.cons.inj hw
            obtain ⟨hc, hq⟩ := List.forall_mem_cons.mp hq
            have htake : (w ++ rest).take ((w ++ rest).length - rest.length) = w := by
              rw [List.length_append, Nat.add_sub_cancel, List.take_left]
            rw [List.filter_append, hnone new hnew, List.nil_append,
              ih _ _ (by rw [htake]; exact hq), List.filter_cons_of_neg (by simp [hc])]
        · rw [List.filter_cons, List.filter_cons, ih _ 0 (by simp)]
      · rw [List.filter_cons, List.filter_cons, ih _ 0 (by simp)]

/-- **A text without a character to begin with** stays as it is. -/
theorem replace_all_of_forall_not (is_word p : Char → Bool) (items : List Item) (new : List Char)
    {t : List Char} (h : ∀ c ∈ t, ¬ p c) (prev : Option Char) :
    replace_all is_word (.one p :: items) new prev 0 t = t := by
  induction t generalizing prev with
  | nil => rfl
  | cons c t ih =>
    obtain ⟨hc, ht⟩ := List.forall_mem_cons.mp h
    have hrun : run is_word (.one p :: items) prev (c :: t) = none := if_neg hc
    rw [replace_all, hrun]
    exact congrArg (c :: ·) (ih ht _)

/-! ## Fixed texts -/

open Text

variable {needle : List Char}

/-- **A match is replaced**, and what follows it is searched. -/
theorem replace_append_needle (hne : needle ≠ []) (new rest : List Char) :
    replace needle new (needle ++ rest) = new ++ replace needle new rest := by
  have hskip : ∀ (w : List Char), pieces needle w.length (w ++ rest) = pieces needle 0 rest := by
    intro w
    induction w with
    | nil => rfl
    | cons c w ih => exact ih
  obtain ⟨c, w, rfl⟩ := List.exists_cons_of_ne_nil hne
  have hpieces : pieces (c :: w) 0 (c :: w ++ rest) = [] :: pieces (c :: w) 0 rest := by
    have hbegins : (c :: w).isPrefixOf (c :: (w ++ rest)) :=
      List.isPrefixOf_iff_prefix.mpr (List.prefix_append _ _)
    rw [List.cons_append, pieces, if_pos hbegins]
    exact congrArg ([] :: ·) (hskip w)
  rw [replace, hpieces, List.intercalate_cons_of_ne_nil (pieces_ne_nil _ _ _), List.nil_append]
  rfl

/-- **A character where no match begins** stays. -/
theorem replace_cons_of_not_starts (new : List Char) {c : Char} {t : List Char}
    (h : ¬ needle <+: c :: t) : replace needle new (c :: t) = c :: replace needle new t := by
  have hbegins : ¬ needle.isPrefixOf (c :: t) := fun hp => h (List.isPrefixOf_iff_prefix.mp hp)
  rw [replace, pieces, if_neg hbegins, intercalate_modifyHead_cons _ _ (pieces_ne_nil _ _ _)]
  rfl

/-- A text without a match stays. -/
theorem replace_of_absent (new : List Char) {t : List Char} (h : ¬ needle <:+: t) :
    replace needle new t = t := by
  induction t with
  | nil => rfl
  | cons c t ih =>
    rw [List.infix_cons_iff, not_or] at h
    rw [replace_cons_of_not_starts new h.1, ih h.2]

/-- **Induction along the matches** of a text. -/
theorem matches_induction {P : List Char → Prop} (hne : needle ≠ []) (hnil : P [])
    (hmatch : ∀ rest, P rest → P (needle ++ rest))
    (hcons : ∀ c t, ¬ needle <+: c :: t → P t → P (c :: t)) (t : List Char) : P t := by
  induction hlen : t.length using Nat.strong_induction_on generalizing t with
  | _ n ih =>
    cases t with
    | nil => exact hnil
    | cons c t =>
      by_cases hbegins : needle <+: c :: t
      · obtain ⟨rest, hrest⟩ := hbegins
        rw [← hrest]
        refine hmatch rest (ih rest.length ?_ rest rfl)
        have hsum := congrArg List.length hrest
        have hpos := List.length_pos_of_ne_nil hne
        rw [List.length_append, hlen] at hsum
        omega
      · refine hcons c t hbegins (ih t.length ?_ t rfl)
        rw [List.length_cons] at hlen
        omega

/-- **A replacement takes characters away**, unless there is no match: where a match has more
characters of a kind than what it becomes, a text keeps their number only if it stays. -/
theorem countP_replace {q : Char → Bool} {new : List Char} (h : new.countP q < needle.countP q)
    (t : List Char) :
    (replace needle new t).countP q ≤ t.countP q ∧
      ((replace needle new t).countP q = t.countP q → ¬ needle <:+: t) := by
  have hne : needle ≠ [] := by
    rintro rfl
    exact absurd h (Nat.not_lt_zero _)
  induction t using matches_induction hne with
  | hnil => exact ⟨le_refl _, fun _ hin => hne (List.infix_nil.mp hin)⟩
  | hmatch rest ih =>
    rw [replace_append_needle hne, List.countP_append, List.countP_append]
    exact ⟨by omega, fun heq => by omega⟩
  | hcons c t hbegins ih =>
    rw [replace_cons_of_not_starts new hbegins, List.countP_cons, List.countP_cons]
    refine ⟨by omega, fun heq hin => ?_⟩
    rcases List.infix_cons_iff.mp hin with hp | hin
    · exact hbegins hp
    · exact ih.2 (by omega) hin

end Rewrite
