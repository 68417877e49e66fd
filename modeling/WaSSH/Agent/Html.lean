import WaSSH.Lib.Rewrite

/-!
# Readable text of a page

The agent reads pages as text: tags are stripped, entities decoded, blanks and empty lines folded.

* `html_to_text`: a page as text, by patterns and replacements in a fixed order;
* `escape`: a text as a page spells it; `normalise`: a text with its blanks and empty lines folded;
* **`decode_entities_escape`**: `&` is decoded before the entities it begins, so they are decoded
  once more;
* **`html_to_text_escape_iff`**: a text comes back exactly when it spells none of them.
-/

namespace WaSSH.Agent.Html

open Rewrite Text

/-! ## Patterns -/

/-- A character as `(?i)` reads it: the long s and the sign of the kelvin are letters in lower
case, too. -/
def folded (c d : Char) : Bool :=
  d = c ∨ d = c.toUpper ∨ (c = 's' ∧ d.toNat = 0x17F) ∨ (c = 'k' ∧ d.toNat = 0x212A)

def literal (c : Char) : Item := .one (· = c)

/-- The pattern `(?is)<name\b.*?</name>`. -/
def element (name : List Char) : List Item :=
  literal '<' :: name.map (.one ∘ folded) ++ [.boundary, .lazy fun _ => true, literal '<',
    literal '/'] ++ name.map (.one ∘ folded) ++ [literal '>']

/-- The names in `(p|div|h[1-6]|li|tr|blockquote|article|section|pre)`. -/
def blocks : List (List (Char → Bool)) :=
  [[folded 'p'], ['d', 'i', 'v'].map folded, [folded 'h', fun d => '1' ≤ d ∧ d ≤ '6'],
    ['l', 'i'].map folded, ['t', 'r'].map folded,
    ['b', 'l', 'o', 'c', 'k', 'q', 'u', 'o', 't', 'e'].map folded,
    ['a', 'r', 't', 'i', 'c', 'l', 'e'].map folded, ['s', 'e', 'c', 't', 'i', 'o', 'n'].map folded,
    ['p', 'r', 'e'].map folded]

/-- The pattern `(?i)</(..)>`. -/
def block_end : List Item := [literal '<', literal '/', .choice blocks, literal '>']

/-- The pattern `(?i)<br\s*/?>`. -/
def line_break : List Item :=
  [literal '<', .one (folded 'b'), .one (folded 'r'), .star is_whitespace, .optional (· = '/'),
    literal '>']

/-- The pattern `<[^>]+>`. -/
def tag : List Item := [literal '<', .one (· ≠ '>'), .star (· ≠ '>'), literal '>']

def is_blank (c : Char) : Bool := c = ' ' ∨ c = '\t'

/-- The pattern `[ \t]+`. -/
def blanks : List Item := [.one is_blank, .star is_blank]

/-- The pattern `\n\s*\n\s*\n+`. -/
def empty_lines : List Item :=
  [literal '\n', .star is_whitespace, literal '\n', .star is_whitespace, literal '\n',
    .star (· = '\n')]

/-! ## Pages -/

/-- An entity and what it stands for. -/
abbrev Entity := List Char × List Char

/-- The entities that are decoded after `&amp;`. -/
def late_entities : List Entity :=
  [(['&', 'l', 't', ';'], ['<']), (['&', 'g', 't', ';'], ['>']),
    (['&', 'q', 'u', 'o', 't', ';'], ['"']), (['&', '#', '3', '9', ';'], ['\'']),
    (['&', '#', 'x', '2', '7', ';'], ['\'']), (['&', '#', 'x', '2', 'F', ';'], ['/']),
    (['&', 'm', 'd', 'a', 's', 'h', ';'], ['—']), (['&', 'n', 'd', 'a', 's', 'h', ';'], ['–'])]

/-- All entities, in the order in which they are decoded. -/
def entities : List Entity :=
  (['&', 'n', 'b', 's', 'p', ';'], [' ']) :: (['&', 'a', 'm', 'p', ';'], ['&']) :: late_entities

/-- Replace one entity after the other. -/
def decode_entities (entities : List Entity) (text : List Char) : List Char :=
  entities.foldl (fun text (start, replacement) => replace start replacement text) text

-- the class `\w` of the expressions
variable (is_word : Char → Bool)

/-- Replace all matches of a pattern. -/
def strip (pattern : List Item) (replacement text : List Char) : List Char :=
  replace_all is_word pattern replacement none 0 text

/-- The tags of a page taken out. -/
def strip_tags (html : List Char) : List Char :=
  let text := strip is_word (element ['s', 'c', 'r', 'i', 'p', 't']) [' '] html
  let text := strip is_word (element ['s', 't', 'y', 'l', 'e']) [' '] text
  let text := strip is_word (element ['n', 'o', 's', 'c', 'r', 'i', 'p', 't']) [' '] text
  let text := strip is_word block_end ['\n'] text
  let text := strip is_word line_break ['\n'] text
  strip is_word tag [' '] text

/-- Fold the blanks and the empty lines of a text. -/
def normalise (text : List Char) : List Char :=
  let text := strip is_word blanks [' '] text
  let text := strip is_word empty_lines ['\n', '\n'] text
  trim text

/-- Turn HTML into readable text. -/
def html_to_text (html : List Char) : List Char :=
  normalise is_word (decode_entities entities (strip_tags is_word html))

/-! ## Escaped texts -/

/-- What follows the `&` of the entity of a character that has one. -/
def body (c : Char) : List Char :=
  if c = '&' then ['a', 'm', 'p', ';']
  else if c = '<' then ['l', 't', ';']
  else if c = '>' then ['g', 't', ';']
  else if c = '"' then ['q', 'u', 'o', 't', ';']
  else ['#', '3', '9', ';']

/-- The characters that are escaped. -/
def specials : List Char := ['&', '<', '>', '"', '\'']

/-- A text with some of its characters escaped. -/
def escape_in (S : List Char) (t : List Char) : List Char :=
  t.flatMap fun c => if c ∈ S then '&' :: body c else [c]

/-- A text as a page spells it. -/
def escape (t : List Char) : List Char := escape_in specials t

variable {S : List Char}

theorem escape_in_cons (c : Char) (t : List Char) :
    escape_in S (c :: t) = (if c ∈ S then '&' :: body c else [c]) ++ escape_in S t := rfl

theorem escape_in_cons_of_mem {c : Char} (h : c ∈ S) (t : List Char) :
    escape_in S (c :: t) = '&' :: body c ++ escape_in S t := by
  rw [escape_in_cons, if_pos h]

theorem escape_in_cons_of_not_mem {c : Char} (h : c ∉ S) (t : List Char) :
    escape_in S (c :: t) = c :: escape_in S t := by
  rw [escape_in_cons, if_neg h]
  rfl

theorem escape_in_append_of_not_mem {w : List Char} (h : ∀ c ∈ w, c ∉ S) (t : List Char) :
    escape_in S (w ++ t) = w ++ escape_in S t := by
  induction w with
  | nil => rfl
  | cons c w ih =>
    obtain ⟨hc, hw⟩ := List.forall_mem_cons.mp h
    rw [List.cons_append, escape_in_cons_of_not_mem hc, ih hw, List.cons_append]

theorem escape_in_nil (t : List Char) : escape_in [] t = t := by
  induction t with
  | nil => rfl
  | cons c t ih => rw [escape_in_cons_of_not_mem List.not_mem_nil, ih]

/-- Nothing is escaped by characters that are escaped. -/
theorem body_plain : ∀ c ∈ specials, ∀ a ∈ body c, a ∉ specials := by
  have h : (specials.all fun c => (body c).all fun a => decide (a ∉ specials)) = true := by decide
  intro c hc
  exact forall_mem_of_all (List.all_eq_true.mp h c hc)

/-- A word of characters that are not escaped begins an escaped text as it begins the text. -/
theorem prefix_escape_in_iff (hS : S ⊆ specials) :
    ∀ {w : List Char}, (∀ a ∈ w, a ∉ specials) → ∀ t : List Char, w <+: escape_in S t ↔ w <+: t
  | [], _, t => by simp
  | a :: w, hw, [] => Iff.rfl
  | a :: w, hw, c :: t => by
    obtain ⟨ha, hw⟩ := List.forall_mem_cons.mp hw
    by_cases hc : c ∈ S
    · rw [escape_in_cons_of_mem hc]
      have hamp : a ≠ '&' := fun h => ha (h ▸ by decide)
      have hne : a ≠ c := fun h => ha (h ▸ hS hc)
      simp [List.cons_prefix_cons, hamp, hne]
    · rw [escape_in_cons_of_not_mem hc, List.cons_prefix_cons, List.cons_prefix_cons,
        prefix_escape_in_iff hS hw t]

/-- Neither of two words begins the other. -/
def Apart (v w : List Char) : Prop := ¬ v <+: w ∧ ¬ w <+: v

instance decidableApart (v w : List Char) : Decidable (Apart v w) :=
  inferInstanceAs (Decidable (_ ∧ _))

/-- An entity that is not the one looked for stays. -/
theorem replace_entity {w : List Char} (new : List Char) {c : Char} (hc : c ∈ specials)
    (h : Apart w (body c)) (rest : List Char) :
    replace ('&' :: w) new ('&' :: body c ++ rest) =
      '&' :: body c ++ replace ('&' :: w) new rest := by
  have hbody : ∀ v : List Char, (∀ a ∈ v, a ∉ specials) →
      replace ('&' :: w) new (v ++ rest) = v ++ replace ('&' :: w) new rest := by
    intro v hv
    induction v with
    | nil => rfl
    | cons a v ih =>
      obtain ⟨ha, hv⟩ := List.forall_mem_cons.mp hv
      have hamp : ¬ '&' :: w <+: a :: (v ++ rest) := fun hp =>
        ha ((List.cons_prefix_cons.mp hp).1 ▸ by decide)
      rw [List.cons_append, replace_cons_of_not_starts new hamp, ih hv, List.cons_append]
  have hfirst : ¬ '&' :: w <+: '&' :: (body c ++ rest) := fun hp => by
    rcases List.prefix_or_prefix_of_prefix (List.cons_prefix_cons.mp hp).2
      (List.prefix_append _ rest) with hw | hw
    · exact h.1 hw
    · exact h.2 hw
  rw [List.cons_append, replace_cons_of_not_starts new hfirst, hbody _ (body_plain c hc),
    List.cons_append]

/-- **Decoding an entity** of an escaped text is decoding what the text spells and escaping one
character less. -/
theorem replace_escape_in {d : Char} (hS : d :: S ⊆ specials) (hamp : '&' ∉ d :: S) (hd : d ∉ S)
    (hapart : ∀ c ∈ S, Apart (body d) (body c)) (t : List Char) :
    replace ('&' :: body d) [d] (escape_in (d :: S) t) =
      escape_in S (replace ('&' :: body d) [d] t) := by
  have hne : '&' :: body d ≠ [] := List.cons_ne_nil _ _
  have hdspecial : d ∈ specials := hS List.mem_cons_self
  have hentity : ∀ a ∈ '&' :: body d, a ∉ d :: S := List.forall_mem_cons.mpr
    ⟨hamp, fun a ha hin => body_plain d hdspecial a ha (hS hin)⟩
  induction t using matches_induction hne with
  | hnil => rfl
  | hmatch rest ih =>
    rw [escape_in_append_of_not_mem hentity, replace_append_needle hne, replace_append_needle hne,
      ih, List.singleton_append, List.singleton_append, escape_in_cons_of_not_mem hd]
  | hcons c t hbegins ih =>
    rw [replace_cons_of_not_starts [d] hbegins]
    by_cases hc : c ∈ S
    · rw [escape_in_cons_of_mem (List.mem_cons_of_mem d hc), escape_in_cons_of_mem hc,
        replace_entity [d] (hS (List.mem_cons_of_mem d hc)) (hapart c hc), ih]
    rw [escape_in_cons_of_not_mem hc]
    by_cases hcd : c = d
    · rw [hcd, escape_in_cons_of_mem List.mem_cons_self, replace_append_needle hne, ih]
      rfl
    · have hnot : c ∉ d :: S := List.not_mem_cons_of_ne_of_not_mem hcd hc
      have hstay : ¬ '&' :: body d <+: c :: escape_in (d :: S) t := fun hp => by
        obtain ⟨hc, hp⟩ := List.cons_prefix_cons.mp hp
        exact hbegins (List.cons_prefix_cons.mpr
          ⟨hc, (prefix_escape_in_iff hS (body_plain d hdspecial) t).mp hp⟩)
      rw [escape_in_cons_of_not_mem hnot, replace_cons_of_not_starts [d] hstay, ih]

/-- Where `&` is escaped, decoding it only leaves the other characters escaped. -/
theorem replace_amp_escape_in (hS : S ⊆ specials)
    (hapart : ∀ c ∈ S, Apart (body '&') (body c)) (t : List Char) :
    replace ('&' :: body '&') ['&'] (escape_in ('&' :: S) t) = escape_in S t := by
  have hne : '&' :: body '&' ≠ [] := List.cons_ne_nil _ _
  induction t with
  | nil => rfl
  | cons c t ih =>
    by_cases hc : c ∈ S
    · rw [escape_in_cons_of_mem (List.mem_cons_of_mem _ hc), escape_in_cons_of_mem hc,
        replace_entity _ (hS hc) (hapart c hc), ih]
    rw [escape_in_cons_of_not_mem hc]
    by_cases hcamp : c = '&'
    · rw [hcamp, escape_in_cons_of_mem List.mem_cons_self, replace_append_needle hne, ih]
      rfl
    · have hnot : c ∉ '&' :: S := List.not_mem_cons_of_ne_of_not_mem hcamp hc
      have hstay : ¬ '&' :: body '&' <+: c :: escape_in ('&' :: S) t := fun hp =>
        hcamp (List.cons_prefix_cons.mp hp).1.symm
      rw [escape_in_cons_of_not_mem hnot, replace_cons_of_not_starts _ hstay, ih]

/-- An entity of no character that is escaped is not in an escaped text. -/
theorem replace_escape (w new : List Char) (hapart : ∀ c ∈ specials, Apart w (body c))
    (t : List Char) : replace ('&' :: w) new (escape t) = escape t := by
  unfold escape
  induction t with
  | nil => rfl
  | cons c t ih =>
    by_cases hc : c ∈ specials
    · rw [escape_in_cons_of_mem hc, replace_entity new hc (hapart c hc), ih]
    · have hstay : ¬ '&' :: w <+: c :: escape_in specials t := fun hp =>
        hc ((List.cons_prefix_cons.mp hp).1 ▸ by decide)
      rw [escape_in_cons_of_not_mem hc, replace_cons_of_not_starts new hstay, ih]

/-- **Decoding an escaped text** decodes what it spells, too: of the entities it spells, all but
the first two. -/
theorem decode_entities_escape (t : List Char) :
    decode_entities entities (escape t) = decode_entities late_entities t := by
  have hnbsp : replace ['&', 'n', 'b', 's', 'p', ';'] [' '] (escape t) = escape t :=
    replace_escape ['n', 'b', 's', 'p', ';'] [' '] (forall_mem_of_all (by decide)) t
  have hamp : replace ['&', 'a', 'm', 'p', ';'] ['&'] (escape t) =
      escape_in ['<', '>', '"', '\''] t :=
    replace_amp_escape_in (by decide) (forall_mem_of_all (by decide)) t
  have hlt : ∀ t, replace ['&', 'l', 't', ';'] ['<'] (escape_in ['<', '>', '"', '\''] t) =
      escape_in ['>', '"', '\''] (replace ['&', 'l', 't', ';'] ['<'] t) :=
    replace_escape_in (by decide) (by decide) (by decide) (forall_mem_of_all (by decide))
  have hgt : ∀ t, replace ['&', 'g', 't', ';'] ['>'] (escape_in ['>', '"', '\''] t) =
      escape_in ['"', '\''] (replace ['&', 'g', 't', ';'] ['>'] t) :=
    replace_escape_in (by decide) (by decide) (by decide) (forall_mem_of_all (by decide))
  have hquot : ∀ t, replace ['&', 'q', 'u', 'o', 't', ';'] ['"'] (escape_in ['"', '\''] t) =
      escape_in ['\''] (replace ['&', 'q', 'u', 'o', 't', ';'] ['"'] t) :=
    replace_escape_in (by decide) (by decide) (by decide) (forall_mem_of_all (by decide))
  have hquote : ∀ t, replace ['&', '#', '3', '9', ';'] ['\''] (escape_in ['\''] t) =
      escape_in [] (replace ['&', '#', '3', '9', ';'] ['\''] t) :=
    replace_escape_in (by decide) (by decide) (by decide) (forall_mem_of_all (by decide))
  unfold decode_entities entities late_entities
  simp only [List.foldl_cons, List.foldl_nil]
  rw [hnbsp, hamp, hlt, hgt, hquot, hquote, escape_in_nil]

/-- No tag begins in an escaped text. -/
theorem strip_tags_escape (t : List Char) : strip_tags is_word (escape t) = escape t := by
  have hopen : ∀ c ∈ escape t, ¬ decide (c = '<') = true := by
    intro c hc
    obtain ⟨d, -, hd⟩ := List.mem_flatMap.mp hc
    rw [decide_eq_true_eq]
    rintro rfl
    split_ifs at hd with hspecial
    · rcases List.mem_cons.mp hd with hamp | hbody
      · exact absurd hamp (by decide)
      · exact body_plain d hspecial _ hbody (by decide)
    · rw [← List.mem_singleton.mp hd] at hspecial
      exact hspecial (by decide)
  have hstrip : ∀ items new, strip is_word (literal '<' :: items) new (escape t) = escape t :=
    fun items new => replace_all_of_forall_not is_word _ items new hopen none
  unfold strip_tags element block_end line_break tag
  simp only [List.cons_append, hstrip]

/-! ## Characters that show -/

/-- The characters that are not white space. -/
def shown (t : List Char) : List Char := t.filter (!is_whitespace ·)

theorem shown_strip {pattern : List Item} {replacement : List Char}
    (hpattern : ∀ item ∈ pattern, item.Within is_whitespace)
    (hreplacement : ∀ c ∈ replacement, is_whitespace c) (t : List Char) :
    shown (strip is_word pattern replacement t) = shown t :=
  filter_replace_all is_word hpattern hreplacement t none 0 (by simp)

theorem filter_dropWhile_not {p : Char → Bool} (t : List Char) :
    (t.dropWhile p).filter (!p ·) = t.filter (!p ·) := by
  induction t with
  | nil => rfl
  | cons c t ih =>
    by_cases hc : p c
    · rw [List.dropWhile_cons_of_pos hc, ih, List.filter_cons_of_neg (by simp [hc])]
    · rw [List.dropWhile_cons_of_neg hc]

theorem shown_trim (t : List Char) : shown (trim t) = shown t := by
  unfold shown trim trim_end trim_start List.rdropWhile
  rw [List.filter_reverse, filter_dropWhile_not, List.filter_reverse, filter_dropWhile_not,
    List.reverse_reverse]

/-- **Folding loses nothing that shows.** -/
theorem shown_normalise (t : List Char) : shown (normalise is_word t) = shown t := by
  have hspace : ∀ c ∈ [' '], is_whitespace c := forall_mem_of_all (by decide)
  have hlines : ∀ c ∈ ['\n', '\n'], is_whitespace c := forall_mem_of_all (by decide)
  have hblank : ∀ c, is_blank c → is_whitespace c := by
    intro c hc
    rcases of_decide_eq_true hc with rfl | rfl <;> decide
  have hline : ∀ c, decide (c = '\n') = true → is_whitespace c := by
    intro c hc
    rw [of_decide_eq_true hc]
    decide
  have hblanks : ∀ item ∈ blanks, item.Within is_whitespace :=
    List.forall_mem_cons.mpr ⟨hblank, List.forall_mem_singleton.mpr hblank⟩
  have hempty : ∀ item ∈ empty_lines, item.Within is_whitespace := by
    intro item hitem
    simp only [empty_lines, List.mem_cons, List.not_mem_nil, or_false] at hitem
    rcases hitem with rfl | rfl | rfl | rfl | rfl | rfl
    · exact hline
    · exact fun _ h => h
    · exact hline
    · exact fun _ h => h
    · exact hline
    · exact hline
  unfold normalise
  rw [shown_trim, shown_strip is_word hempty hlines, shown_strip is_word hblanks hspace]

/-- **Decoding shortens** what shows, unless there is nothing to decode. -/
theorem countP_decode_entities {es : List Entity} {q : Char → Bool}
    (h : ∀ e ∈ es, e.2.countP q < e.1.countP q) (t : List Char) :
    (decode_entities es t).countP q ≤ t.countP q ∧
      ((decode_entities es t).countP q = t.countP q → ∀ e ∈ es, ¬ e.1 <:+: t) := by
  induction es generalizing t with
  | nil => exact ⟨le_refl _, fun _ e he => absurd he List.not_mem_nil⟩
  | cons e es ih =>
    obtain ⟨he, hes⟩ := List.forall_mem_cons.mp h
    obtain ⟨hle, hnone⟩ := countP_replace he t
    obtain ⟨hrest, hothers⟩ := ih hes (replace e.1 e.2 t)
    have hstep : decode_entities (e :: es) t = decode_entities es (replace e.1 e.2 t) := rfl
    rw [hstep]
    refine ⟨by omega, fun heq => ?_⟩
    have hfirst : ¬ e.1 <:+: t := hnone (by omega)
    rw [replace_of_absent e.2 hfirst] at hothers heq
    exact List.forall_mem_cons.mpr ⟨hfirst, hothers heq⟩

theorem decode_entities_of_absent {es : List Entity} {t : List Char}
    (h : ∀ e ∈ es, ¬ e.1 <:+: t) : decode_entities es t = t := by
  induction es with
  | nil => rfl
  | cons e es ih =>
    obtain ⟨he, hes⟩ := List.forall_mem_cons.mp h
    show decode_entities es (replace e.1 e.2 t) = t
    rw [replace_of_absent e.2 he, ih hes]

/-- **Entities are decoded once** exactly when the text spells none that is decoded after `&amp;`:
then what comes back is the text with its blanks and empty lines folded. -/
theorem html_to_text_escape_iff (t : List Char) :
    html_to_text is_word (escape t) = normalise is_word t ↔
      ∀ e ∈ late_entities, ¬ e.1 <:+: t := by
  rw [html_to_text, strip_tags_escape, decode_entities_escape]
  constructor
  · intro h
    have hshown := congrArg (fun t => (shown t).length) h
    simp only [shown_normalise] at hshown
    simp only [shown, ← List.countP_eq_length_filter] at hshown
    exact (countP_decode_entities (by decide) t).2 hshown
  · intro h
    rw [decode_entities_of_absent h]

/-- A text that spells an entity, which is decoded twice. -/
theorem entity_is_decoded_twice :
    html_to_text Char.isAlphanum (escape ['&', 'l', 't', ';']) = ['<'] ∧
      normalise Char.isAlphanum ['&', 'l', 't', ';'] = ['&', 'l', 't', ';'] := by
  decide +kernel

/-- A page with a script, two paragraphs and an entity. -/
example : html_to_text Char.isAlphanum
    "<SCRIPT>x<y</script><p>a&nbsp;&amp; b</p>\n\n <br/><i>c</i>".toList =
      "a & b\n\n c".toList := by
  decide +kernel

end WaSSH.Agent.Html
