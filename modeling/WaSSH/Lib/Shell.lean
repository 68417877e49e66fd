import WaSSH.Lib.Text
import Mathlib.Data.List.Count

/-!
# The words of a shell command

How a POSIX shell splits a command into words: blanks separate, quotes and backslashes keep what is
quoted and are removed. A command in which something is expanded, or that has another command behind
it, is not one list of words.

* `Lexer`, `words`: the splitting;
* `quote`, `run_quote`: a quoted text is read as it is;
* `Spells`, `spells_append`, **`words_append`**: a text that goes on with words of its own;
* `leading`, `leading_append`: the words a text begins with;
* `PlainWord`, **`words_join_iff`**: the words that may be written side by side as they are.
-/

namespace Shell

/-! ## Splitting -/

inductive Mode
  | plain
  | single
  | double
  | escaped
  | escaped_double
  deriving DecidableEq

/-- The words read, the word under way, and how the next character is quoted. -/
structure Lexer where
  words : List (List Char)
  word : Option (List Char)
  mode : Mode

/-- A character that means something to a shell wherever it is not quoted. -/
def is_special (c : Char) : Bool := "|&;<>()$`*?[\n".toList.contains c

/-- A character that means something at the beginning of a word. -/
def is_special_first (c : Char) : Bool := c = '#' ∨ c = '~'

def is_quoting (c : Char) : Bool := c = '\'' ∨ c = '"' ∨ c = '\\'

def is_blank (c : Char) : Bool := c = ' ' ∨ c = '\t'

namespace Lexer

variable (l : Lexer)

/-- The character is in the word. -/
def push (c : Char) : Lexer := { l with word := some (l.word.getD [] ++ [c]), mode := .plain }

/-- The word is over, if there is one. -/
def cut : Lexer := { l with words := l.words ++ l.word.toList, word := none }

/-- A quoted part of the word begins or ends. -/
def turn (mode : Mode) : Lexer := { l with word := some (l.word.getD []), mode }

def read_plain (c : Char) : Option Lexer :=
  if is_blank c then some l.cut
  else if c = '\'' then some (l.turn .single)
  else if c = '"' then some (l.turn .double)
  else if c = '\\' then some { l with mode := .escaped }
  else if is_special c ∨ (l.word = none ∧ is_special_first c) then none
  else some (l.push c)

/-- One character. -/
def read (c : Char) : Option Lexer :=
  match l.mode with
  | .plain => l.read_plain c
  | .single => if c = '\'' then some (l.turn .plain) else some { l.push c with mode := .single }
  | .double =>
    if c = '"' then some (l.turn .plain)
    else if c = '\\' then some { l with mode := .escaped_double }
    else if c = '$' ∨ c = '`' then none
    else some { l.push c with mode := .double }
  | .escaped => if c = '\n' then some { l with mode := .plain } else some (l.push c)
  | .escaped_double =>
    if c = '\n' then some { l with mode := .double }
    else if c = '$' ∨ c = '`' ∨ c = '"' ∨ c = '\\' then some { l.push c with mode := .double }
    else some { (l.push '\\').push c with mode := .double }

def run : Lexer → List Char → Option Lexer
  | l, [] => some l
  | l, c :: t => (l.read c).bind (run · t)

/-- All words, if nothing is left open. -/
def finish : Option (List (List Char)) :=
  if l.mode = .plain then some (l.words ++ l.word.toList) else none

end Lexer

open Lexer

/-- **The words of a command.** -/
def words (t : List Char) : Option (List (List Char)) := (run ⟨[], none, .plain⟩ t).bind finish

theorem run_cons (l : Lexer) (c : Char) (t : List Char) :
    run l (c :: t) = (l.read c).bind (run · t) := rfl

theorem run_append (l : Lexer) (t u : List Char) : run l (t ++ u) = (run l t).bind (run · u) := by
  induction t generalizing l with
  | nil => rfl
  | cons c t ih =>
    rw [List.cons_append, run_cons, run_cons, Option.bind_assoc]
    exact Option.bind_congr fun l' _ => ih l'

/-! ## Quoting -/

/-- A text in single quotes. -/
def quote (t : List Char) : List Char := ['\''] ++ Text.replace ['\''] "'\\''".toList t ++ ['\'']

theorem replace_cons (c d : Char) (new t : List Char) :
    Text.replace [c] new (d :: t) = (if d = c then new else [d]) ++ Text.replace [c] new t := by
  have hne := Text.pieces_ne_nil [c] t 0
  unfold Text.replace
  rw [Text.pieces]
  have hstart : [c].isPrefixOf (d :: t) = decide (d = c) := by
    show (c == d && true) = _
    rw [Bool.and_true, Bool.eq_iff_iff, beq_iff_eq, decide_eq_true_eq]
    exact eq_comm
  rw [hstart]
  by_cases hc : d = c
  · rw [if_pos (decide_eq_true hc), if_pos hc]
    show new.intercalate ([] :: Text.pieces [c] 0 t) = _
    rw [List.intercalate_cons_of_ne_nil hne, List.nil_append]
  · rw [if_neg (by rw [decide_eq_false hc]; exact Bool.false_ne_true), if_neg hc,
      Text.intercalate_modifyHead_cons _ _ hne]
    rfl

/-- What is between the quotes is put to the word. -/
theorem run_quoted (ws : List (List Char)) (rest : List Char) : ∀ (w t : List Char),
    run ⟨ws, some w, .single⟩ (Text.replace ['\''] "'\\''".toList t ++ '\'' :: rest) =
      run ⟨ws, some (w ++ t), .plain⟩ rest
  | w, [] => by
    rw [List.append_nil]
    rfl
  | w, c :: t => by
    have ih := run_quoted ws rest (w ++ [c]) t
    rw [List.append_assoc, List.singleton_append] at ih
    rw [replace_cons, List.append_assoc, ← ih]
    by_cases hc : c = '\''
    · rw [if_pos hc, hc]
      rfl
    · rw [if_neg hc, List.singleton_append, run_cons]
      show (if c = '\'' then _ else _ : Option Lexer).bind _ = _
      rw [if_neg hc]
      rfl

/-- **A quoted text is put to the word as it is.** -/
theorem run_quote (ws : List (List Char)) (w : Option (List Char)) (t rest : List Char) :
    run ⟨ws, w, .plain⟩ (quote t ++ rest) = run ⟨ws, some (w.getD [] ++ t), .plain⟩ rest := by
  unfold quote
  rw [List.append_assoc, List.append_assoc, List.singleton_append, run_cons]
  exact run_quoted ws rest (w.getD []) t

/-! ## Words that follow -/

/-- Behind a word that is read, the text goes on with these words. -/
def Spells (t : List Char) (more : List (List Char)) : Prop :=
  ∀ (ws : List (List Char)) (w rest : List Char), ∃ ws' w',
    run ⟨ws, some w, .plain⟩ (t ++ rest) = run ⟨ws', some w', .plain⟩ rest ∧
      ws' ++ [w'] = ws ++ [w] ++ more

theorem spells_nil : Spells [] [] := fun ws w _ => ⟨ws, w, rfl, (List.append_nil _).symm⟩

theorem spells_append {t u : List Char} {more others : List (List Char)} (h : Spells t more)
    (h' : Spells u others) : Spells (t ++ u) (more ++ others) := by
  intro ws w rest
  obtain ⟨ws', w', hrun, heq⟩ := h ws w (u ++ rest)
  obtain ⟨ws'', w'', hrun', heq'⟩ := h' ws' w' rest
  refine ⟨ws'', w'', ?_, ?_⟩
  · rw [List.append_assoc, hrun, hrun']
  · rw [heq', heq, List.append_assoc, List.append_assoc]

theorem spells_quote (t : List Char) : Spells (' ' :: quote t) [t] := by
  intro ws w rest
  refine ⟨ws ++ [w], t, ?_, rfl⟩
  rw [List.cons_append, run_cons]
  exact run_quote (ws ++ [w]) none t rest

/-- A character that is put to the word as it is. -/
def is_plain (c : Char) : Bool := !is_blank c && !is_quoting c && !is_special c

/-- A word that a shell leaves as it is. -/
structure PlainWord (w : List Char) : Prop where
  ne_nil : w ≠ []
  chars : ∀ c ∈ w, is_plain c = true
  first : ∀ c, w.head? = some c → is_special_first c = false

/-- `PlainWord`, computed. -/
def is_plain_word (w : List Char) : Bool :=
  !w.isEmpty && w.all is_plain && w.head?.all fun c => !is_special_first c

theorem is_plain_word_iff (w : List Char) : is_plain_word w = true ↔ PlainWord w := by
  unfold is_plain_word
  rw [Bool.and_eq_true, Bool.and_eq_true, Bool.not_eq_true', List.isEmpty_eq_false_iff,
    List.all_eq_true, Option.all_eq_true]
  constructor
  · rintro ⟨⟨hne, hchars⟩, hfirst⟩
    refine ⟨hne, hchars, fun c hc => ?_⟩
    have hc' := hfirst c hc
    rwa [Bool.not_eq_true'] at hc'
  · intro h
    refine ⟨⟨h.ne_nil, h.chars⟩, fun c hc => ?_⟩
    rw [Bool.not_eq_true']
    exact h.first c hc

instance (w : List Char) : Decidable (PlainWord w) := decidable_of_iff _ (is_plain_word_iff w)

theorem read_plain_char {l : Lexer} {c : Char} (h : is_plain c = true) (hmode : l.mode = .plain)
    (hfirst : l.word ≠ none ∨ is_special_first c = false) : l.read c = some (l.push c) := by
  unfold is_plain at h
  rw [Bool.and_eq_true, Bool.and_eq_true, Bool.not_eq_true', Bool.not_eq_true',
    Bool.not_eq_true'] at h
  obtain ⟨⟨hblank, hquoting⟩, hspecial⟩ := h
  have hq : ¬ (c = '\'' ∨ c = '"' ∨ c = '\\') := of_decide_eq_false hquoting
  rw [not_or, not_or] at hq
  unfold Lexer.read read_plain
  rw [hmode]
  dsimp only
  rw [if_neg (by rw [hblank]; exact Bool.false_ne_true), if_neg hq.1, if_neg hq.2.1, if_neg hq.2.2,
    if_neg]
  rintro (hs | ⟨hword, hs⟩)
  · rw [hspecial] at hs
    cases hs
  · rcases hfirst with hfirst | hfirst
    · exact hfirst hword
    · rw [hfirst] at hs
      cases hs

theorem run_plain (ws : List (List Char)) (rest : List Char) : ∀ (w t : List Char),
    (∀ c ∈ t, is_plain c = true) →
      run ⟨ws, some w, .plain⟩ (t ++ rest) = run ⟨ws, some (w ++ t), .plain⟩ rest
  | w, [], _ => by rw [List.append_nil, List.nil_append]
  | w, c :: t, h => by
    have hread : Lexer.read ⟨ws, some w, .plain⟩ c = some ⟨ws, some (w ++ [c]), .plain⟩ :=
      read_plain_char (h c List.mem_cons_self) rfl (.inl nofun)
    rw [List.cons_append, run_cons, hread, Option.bind_some,
      run_plain ws rest (w ++ [c]) t fun d hd => h d (List.mem_cons_of_mem c hd), List.append_assoc,
      List.singleton_append]

/-- From between words, a plain word is read. -/
theorem run_plain_word {w : List Char} (h : PlainWord w) (ws : List (List Char))
    (rest : List Char) :
    run ⟨ws, none, .plain⟩ (w ++ rest) = run ⟨ws, some w, .plain⟩ rest := by
  rcases w with _ | ⟨c, w⟩
  · exact absurd rfl h.ne_nil
  · have hread : Lexer.read ⟨ws, none, .plain⟩ c = some ⟨ws, some [c], .plain⟩ :=
      read_plain_char (h.chars c List.mem_cons_self) rfl (.inr (h.first c rfl))
    rw [List.cons_append, run_cons, hread, Option.bind_some,
      run_plain ws rest [c] w fun d hd => h.chars d (List.mem_cons_of_mem c hd),
      List.singleton_append]

theorem spells_plain {w : List Char} (h : PlainWord w) : Spells (' ' :: w) [w] := by
  intro ws v rest
  refine ⟨ws ++ [v], w, ?_, rfl⟩
  rw [List.cons_append, run_cons]
  exact run_plain_word h (ws ++ [v]) rest

/-! ## A text behind words -/

/-- The words read so far come behind these. -/
def Lexer.behind (pre : List (List Char)) (l : Lexer) : Lexer := { l with words := pre ++ l.words }

theorem read_behind (pre : List (List Char)) (l : Lexer) (c : Char) :
    (l.behind pre).read c = (l.read c).map (behind pre) := by
  obtain ⟨ws, w, mode⟩ := l
  cases mode <;> unfold Lexer.read <;> dsimp only [behind]
  case plain =>
    unfold read_plain
    split_ifs
    · show some (Lexer.mk ((pre ++ ws) ++ w.toList) none .plain) =
        some (.mk (pre ++ (ws ++ w.toList)) _ _)
      rw [List.append_assoc]
      rfl
    all_goals rfl
  all_goals split_ifs <;> rfl

theorem run_behind (pre : List (List Char)) : ∀ (t : List Char) (l : Lexer),
    run (l.behind pre) t = (run l t).map (behind pre)
  | [], _ => rfl
  | c :: t, l => by
    rw [run_cons, run_cons, read_behind, Option.bind_map, Option.map_bind]
    exact Option.bind_congr fun l' _ => run_behind pre t l'

theorem finish_behind (pre : List (List Char)) (l : Lexer) :
    finish (l.behind pre) = (finish l).map (pre ++ ·) := by
  obtain ⟨ws, w, mode⟩ := l
  cases mode with
  | plain =>
    show some (pre ++ ws ++ w.toList) = some (pre ++ (ws ++ w.toList))
    rw [List.append_assoc]
  | single => rfl
  | double => rfl
  | escaped => rfl
  | escaped_double => rfl

/-- **Behind a command's words come those of the text behind it.** -/
theorem words_append {w t : List Char} {more : List (List Char)} (hw : PlainWord w)
    (h : Spells t more) (u : List Char) :
    words (w ++ t ++ ' ' :: u) = (words u).map (w :: more ++ ·) := by
  obtain ⟨ws', w', hrun, heq⟩ := h [] w (' ' :: u)
  unfold words
  rw [List.append_assoc, run_plain_word hw, hrun, run_cons]
  show (run ⟨ws' ++ [w'], none, .plain⟩ u).bind finish = _
  rw [show ws' ++ [w'] = w :: more ++ [] by rw [heq, List.append_nil]; rfl]
  show (run (behind (w :: more) ⟨[], none, .plain⟩) u).bind finish = _
  rw [run_behind, Option.bind_map, Option.map_bind]
  exact Option.bind_congr fun l _ => finish_behind (w :: more) l

theorem words_of_spells {w t : List Char} {more : List (List Char)} (hw : PlainWord w)
    (h : Spells t more) : words (w ++ t) = some (w :: more) := by
  obtain ⟨ws', w', hrun, heq⟩ := h [] w []
  unfold words
  rw [List.append_nil] at hrun
  rw [run_plain_word hw, hrun]
  show some (ws' ++ [w']) = _
  rw [heq]
  rfl

/-! ## The first words -/

/-- The words up to where the text stops being words. -/
def Lexer.lead : Lexer → List Char → List (List Char)
  | l, [] => (finish l).getD l.words
  | l, c :: t =>
    match l.read c with
    | none => l.words
    | some l' => l'.lead t

/-- The words a command begins with, whatever comes behind them. -/
def leading (t : List Char) : List (List Char) := Lexer.lead ⟨[], none, .plain⟩ t

theorem lead_of_run {u : List Char} : ∀ {t : List Char} {l l' : Lexer}, run l t = some l' →
    Lexer.lead l (t ++ u) = Lexer.lead l' u
  | [], l, l', h => by
    cases h
    rfl
  | c :: t, l, l', h => by
    rw [run_cons] at h
    obtain ⟨next, hnext, h⟩ := Option.bind_eq_some_iff.mp h
    rw [List.cons_append, Lexer.lead, hnext]
    exact lead_of_run h

theorem lead_behind (pre : List (List Char)) : ∀ (t : List Char) (l : Lexer),
    Lexer.lead (behind pre l) t = pre ++ Lexer.lead l t
  | [], l => by
    rw [Lexer.lead, Lexer.lead, finish_behind]
    cases finish l <;> rfl
  | c :: t, l => by
    rw [Lexer.lead, Lexer.lead, read_behind]
    cases l.read c with
    | none => rfl
    | some l' => exact lead_behind pre t l'

theorem leading_append {w t : List Char} {more : List (List Char)} (hw : PlainWord w)
    (h : Spells t more) (u : List Char) :
    leading (w ++ t ++ ' ' :: u) = w :: more ++ leading u := by
  obtain ⟨ws', w', hrun, heq⟩ := h [] w []
  have hfront : run ⟨[], none, .plain⟩ (w ++ t) = some ⟨ws', some w', .plain⟩ := by
    rw [run_plain_word hw]
    rw [List.append_nil] at hrun
    exact hrun
  unfold leading
  rw [lead_of_run hfront]
  show Lexer.lead ⟨ws' ++ [w'], none, .plain⟩ u = _
  rw [show ws' ++ [w'] = w :: more ++ [] by rw [heq, List.append_nil]; rfl]
  exact lead_behind (w :: more) u ⟨[], none, .plain⟩

theorem leading_of_spells {w t : List Char} {more : List (List Char)} (hw : PlainWord w)
    (h : Spells t more) : leading (w ++ t) = w :: more := by
  obtain ⟨ws', w', hrun, heq⟩ := h [] w []
  have hfront : run ⟨[], none, .plain⟩ (w ++ t) = some ⟨ws', some w', .plain⟩ := by
    rw [run_plain_word hw]
    rw [List.append_nil] at hrun
    exact hrun
  have hlead := @lead_of_run [] _ _ _ hfront
  rw [List.append_nil] at hlead
  rw [leading, hlead]
  exact heq

/-! ## Words side by side -/

/-- The words, with a blank between each two. -/
def join (ws : List (List Char)) : List Char := [' '].intercalate ws

theorem join_cons (w : List Char) (ws : List (List Char)) :
    join (w :: ws) = w ++ ws.flatMap (' ' :: ·) := by
  unfold join
  induction ws generalizing w with
  | nil => rw [List.intercalate_singleton, List.flatMap_nil, List.append_nil]
  | cons v ws ih =>
    rw [List.intercalate_cons_cons, ih v, List.flatMap_cons, List.append_assoc]
    rfl

theorem spells_flatMap {α : Type} {f : α → List Char} {g : α → List (List Char)} :
    ∀ {xs : List α}, (∀ x ∈ xs, Spells (f x) (g x)) → Spells (xs.flatMap f) (xs.flatMap g)
  | [], _ => spells_nil
  | x :: xs, h => by
    rw [List.flatMap_cons, List.flatMap_cons]
    exact spells_append (h x List.mem_cons_self)
      (spells_flatMap fun y hy => h y (List.mem_cons_of_mem x hy))

theorem spells_plains {ws : List (List Char)} (h : ∀ w ∈ ws, PlainWord w) :
    Spells (ws.flatMap (' ' :: ·)) ws := by
  have hspells : Spells (ws.flatMap (' ' :: ·)) (ws.flatMap fun w => [w]) :=
    spells_flatMap fun w hw => spells_plain (h w hw)
  rwa [List.flatMap_singleton'] at hspells

theorem words_join_of_plain {ws : List (List Char)} (h : ∀ w ∈ ws, PlainWord w) :
    words (join ws) = some ws := by
  rcases ws with _ | ⟨w, ws⟩
  · rfl
  · rw [join_cons]
    exact words_of_spells (h w List.mem_cons_self)
      (spells_plains fun v hv => h v (List.mem_cons_of_mem w hv))

/-- The characters that quote in a text. -/
def quotes (t : List Char) : ℕ := t.countP is_quoting

/-- The characters that quote in what is read. -/
def Lexer.quotes_read (l : Lexer) : ℕ := quotes (l.words ++ l.word.toList).flatten

theorem quotes_read_push (l : Lexer) (c : Char) :
    (l.push c).quotes_read = l.quotes_read + quotes [c] := by
  obtain ⟨ws, w, mode⟩ := l
  unfold quotes_read push quotes
  rw [List.flatten_append, List.flatten_append, List.countP_append, List.countP_append]
  cases w with
  | none => simp
  | some w => simp [Nat.add_assoc]

theorem quotes_read_turn (l : Lexer) (mode : Mode) :
    (l.turn mode).quotes_read = l.quotes_read := by
  obtain ⟨ws, w, mode'⟩ := l
  unfold quotes_read turn
  cases w with
  | none => simp
  | some w => rfl

theorem quotes_read_cut (l : Lexer) : l.cut.quotes_read = l.quotes_read := by
  unfold quotes_read cut
  rw [Option.toList_none, List.append_nil]

/-- A backslash in double quotes may still have to be put to the word. -/
def Lexer.pending (l : Lexer) : ℕ := if l.mode = .escaped_double then 1 else 0

theorem quotes_singleton (c : Char) : quotes [c] = if is_quoting c then 1 else 0 := by
  unfold quotes
  rw [List.countP_singleton]

/-- In plain text a character that quotes is not put to the word. -/
theorem quotes_read_plain {l l' : Lexer} {c : Char} (h : l.read_plain c = some l') :
    l'.quotes_read = l.quotes_read := by
  unfold read_plain at h
  split_ifs at h with hblank hsingle hdouble hback
  · cases h
    exact quotes_read_cut l
  · cases h
    exact quotes_read_turn l .single
  · cases h
    exact quotes_read_turn l .double
  · cases h
    rfl
  · cases h
    have hc : is_quoting c = false := decide_eq_false fun hq => by
      rcases hq with hq | hq | hq
      · exact hsingle hq
      · exact hdouble hq
      · exact hback hq
    rw [quotes_read_push, quotes_singleton, hc]
    rfl

theorem pending_read_plain {l l' : Lexer} {c : Char} (hmode : l.mode = .plain)
    (h : l.read_plain c = some l') : l'.pending = 0 := by
  unfold read_plain at h
  split_ifs at h <;> cases h
  · exact if_neg fun hm => by cases hmode.symm.trans hm
  all_goals rfl

theorem quotes_quoting {c : Char} (h : c = '\'' ∨ c = '"' ∨ c = '\\') : quotes [c] = 1 := by
  rw [quotes_singleton]
  exact if_pos (decide_eq_true h)

/-- No more characters that quote are read than there are. -/
theorem quotes_read_le {l l' : Lexer} {c : Char} (h : l.read c = some l') :
    l'.quotes_read + l'.pending ≤ l.quotes_read + l.pending + quotes [c] := by
  unfold Lexer.read at h
  cases hmode : l.mode with
  | plain =>
    rw [hmode] at h
    have hq := quotes_read_plain h
    have hl' := pending_read_plain hmode h
    omega
  | single =>
    rw [hmode] at h
    dsimp only at h
    split_ifs at h <;> cases h
    · have := quotes_read_turn l .plain
      have hp : (l.turn .plain).pending = 0 := rfl
      omega
    · have := quotes_read_push l c
      show (l.push c).quotes_read + 0 ≤ _
      omega
  | double =>
    rw [hmode] at h
    dsimp only at h
    split_ifs at h with hquote hback <;> cases h
    · have := quotes_read_turn l .plain
      have hp : (l.turn .plain).pending = 0 := rfl
      omega
    · have := quotes_quoting (.inr (.inr hback))
      show l.quotes_read + 1 ≤ _
      omega
    · have := quotes_read_push l c
      show (l.push c).quotes_read + 0 ≤ _
      omega
  | escaped =>
    rw [hmode] at h
    dsimp only at h
    split_ifs at h <;> cases h
    · show l.quotes_read + 0 ≤ _
      omega
    · have := quotes_read_push l c
      show (l.push c).quotes_read + 0 ≤ _
      omega
  | escaped_double =>
    rw [hmode] at h
    dsimp only at h
    have hp : l.pending = 1 := if_pos hmode
    split_ifs at h <;> cases h
    · show l.quotes_read + 0 ≤ _
      omega
    · have := quotes_read_push l c
      show (l.push c).quotes_read + 0 ≤ _
      omega
    · have hpush := quotes_read_push l '\\'
      have hpush' := quotes_read_push (l.push '\\') c
      have hone : quotes ['\\'] = 1 := rfl
      show ((l.push '\\').push c).quotes_read + 0 ≤ _
      omega

theorem quotes_cons (c : Char) (t : List Char) : quotes (c :: t) = quotes [c] + quotes t := by
  unfold quotes
  rw [← List.countP_append]
  rfl

theorem quotes_run_le : ∀ {t : List Char} {l l' : Lexer}, run l t = some l' →
    l'.quotes_read + l'.pending ≤ l.quotes_read + l.pending + quotes t
  | [], l, l', h => by
    cases h
    exact Nat.le_add_right _ _
  | c :: t, l, l', h => by
    rw [run_cons, Option.bind_eq_some_iff] at h
    obtain ⟨l₁, hread, hrun⟩ := h
    have hle := quotes_read_le hread
    have hrest := quotes_run_le hrun
    have hcons := quotes_cons c t
    omega

/-- What has been read so far are plain words. -/
structure Plain (l : Lexer) : Prop where
  mode : l.mode = .plain
  words : ∀ w ∈ l.words ++ l.word.toList, PlainWord w

theorem Plain.read {l l' : Lexer} {c : Char} (h : Plain l) (hc : is_quoting c = false)
    (hread : l.read c = some l') : Plain l' := by
  obtain ⟨ws, w, mode⟩ := l
  obtain ⟨hmode, hwords⟩ := h
  dsimp only at hmode hwords
  subst hmode
  have hq : ¬ (c = '\'' ∨ c = '"' ∨ c = '\\') := of_decide_eq_false hc
  rw [not_or, not_or] at hq
  unfold Lexer.read read_plain at hread
  dsimp only at hread
  rw [if_neg hq.1, if_neg hq.2.1, if_neg hq.2.2] at hread
  split_ifs at hread with hblank hspecial
  · cases hread
    refine ⟨rfl, fun v hv => hwords v ?_⟩
    rwa [show (Lexer.cut ⟨ws, w, .plain⟩).word = none from rfl, Option.toList_none,
      List.append_nil] at hv
  · cases hread
    rw [not_or, not_and] at hspecial
    have hplain : is_plain c = true := by
      unfold is_plain
      rw [Bool.eq_false_of_not_eq_true hblank, hc, Bool.eq_false_of_not_eq_true hspecial.1]
      rfl
    refine ⟨rfl, fun v hv => ?_⟩
    rcases List.mem_append.mp hv with hv | hv
    · exact hwords v (List.mem_append_left _ hv)
    · have hv' : v = w.getD [] ++ [c] := List.mem_singleton.mp hv
      rw [hv']
      cases w with
      | none =>
        exact ⟨List.cons_ne_nil _ _, fun d hd => List.mem_singleton.mp hd ▸ hplain, fun d hd => by
          cases hd
          exact Bool.eq_false_of_not_eq_true (hspecial.2 rfl)⟩
      | some w =>
        have hw := hwords w (List.mem_append_right _ (List.mem_singleton_self w))
        refine ⟨List.append_ne_nil_of_right_ne_nil _ (List.cons_ne_nil _ _), fun d hd => ?_,
          fun d hd => hw.first d ?_⟩
        · rcases List.mem_append.mp hd with hd | hd
          · exact hw.chars d hd
          · exact List.mem_singleton.mp hd ▸ hplain
        · rw [Option.getD_some, List.head?_append_of_ne_nil _ hw.ne_nil] at hd
          exact hd

/-- **Words in which as many characters quote as in the text are plain ones.** -/
theorem Plain.run : ∀ {t : List Char} {l l' : Lexer}, Plain l → run l t = some l' →
    l.quotes_read + quotes t ≤ l'.quotes_read → Plain l'
  | [], l, l', h, hrun, _ => by
    cases hrun
    exact h
  | c :: t, l, l', h, hrun, hle => by
    rw [run_cons, Option.bind_eq_some_iff] at hrun
    obtain ⟨l₁, hread, hrun⟩ := hrun
    have hread' := hread
    unfold Lexer.read at hread'
    rw [h.mode] at hread'
    have hq := quotes_read_plain hread'
    have hp := pending_read_plain h.mode hread'
    have hrest := quotes_run_le hrun
    have hcons := quotes_cons c t
    have hsingle := quotes_singleton c
    cases hc : is_quoting c with
    | true =>
      rw [hc, if_pos rfl] at hsingle
      omega
    | false =>
      rw [hc, if_neg Bool.false_ne_true] at hsingle
      exact Plain.run (h.read hc hread) hrun (by omega)

theorem quotes_join : ∀ ws, quotes (join ws) = quotes ws.flatten
  | [] => rfl
  | w :: ws => by
    rw [join_cons, List.flatten_cons]
    unfold quotes
    rw [List.countP_append, List.countP_append]
    congr 1
    induction ws with
    | nil => rfl
    | cons v ws ih =>
      rw [List.flatMap_cons, List.countP_append, ih, List.flatten_cons, List.countP_append,
        List.countP_cons_of_neg (by decide)]

/-- **The words that may be put side by side as they are.** -/
theorem words_join_iff (ws : List (List Char)) :
    words (join ws) = some ws ↔ ∀ w ∈ ws, PlainWord w := by
  refine ⟨fun h => ?_, words_join_of_plain⟩
  unfold words at h
  rw [Option.bind_eq_some_iff] at h
  obtain ⟨l, hrun, hfinish⟩ := h
  unfold finish at hfinish
  split_ifs at hfinish with hmode
  have hws := Option.some_inj.mp hfinish
  have hstart : Plain ⟨[], none, .plain⟩ := ⟨rfl, nofun⟩
  rw [← hws]
  refine (hstart.run hrun ?_).words
  show 0 + quotes (join ws) ≤ quotes (l.words ++ l.word.toList).flatten
  rw [hws, quotes_join, Nat.zero_add]

end Shell
