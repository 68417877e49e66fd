import WaSSH.Lib.Text

/-!
# The options of a command line

How a program reads its words: options of one letter or with a name, values behind them or in the
next word, `--`, and operands. A program either takes options between its operands or stops at the
first one.

* `Table`, `read`: the options a program knows, and what it reads;
* `Given`, `read_given`: options as they are written, read again; `Table.of`: a program of some;
* `operands`, `values`: what is read, by kind;
* **`read_operand_iff`**: the words that stay operands.
-/

namespace Flags

/-! ## Reading -/

/-- Whether an option has a value. -/
inductive Takes
  | nothing
  | value
  deriving DecidableEq

/-- The options of a program. -/
structure Table where
  letter : Char → Option Takes
  name : List Char → Option Takes

/-- What a program is told. -/
inductive Item
  | flag (name : List Char)
  | option (name value : List Char)
  | operand (word : List Char)
  deriving DecidableEq

/-- What one word says; the last option of `wants` has its value in the next word. -/
inductive Reading
  | operand
  | unknown
  | items (found : List Item)
  | wants (found : List Item) (name : List Char)

def Reading.after (item : Item) : Reading → Reading
  | .items found => .items (item :: found)
  | .wants found name => .wants (item :: found) name
  | .operand => .operand
  | .unknown => .unknown

variable (table : Table)

/-- Options of one letter side by side. -/
def read_letters : List Char → Reading
  | [] => .items []
  | c :: rest =>
    match table.letter c with
    | none => .unknown
    | some .nothing => (read_letters rest).after (.flag [c])
    | some .value =>
      if rest = [] then .wants [] [c]
      else .items [.option [c] ((Text.strip_prefix ['='] rest).getD rest)]

/-- An option with a name. -/
def read_name (t : List Char) : Reading :=
  match Text.split_once '=' t with
  | some (name, value) =>
    if (table.name name).isSome then .items [.option name value] else .unknown
  | none =>
    match table.name t with
    | none => .unknown
    | some .nothing => .items [.flag t]
    | some .value => .wants [] t

/-- A word that begins with a dash and goes on. -/
def option_like : List Char → Bool
  | '-' :: _ :: _ => true
  | _ => false

def read_word : List Char → Reading
  | '-' :: '-' :: t => read_name table t
  | '-' :: c :: t => read_letters table (c :: t)
  | _ => .operand

/-- The words of a program that goes on behind an operand, or stops there. -/
def read (stops : Bool) : List (List Char) → Option (List Item)
  | [] => some []
  | w :: ws =>
    if w = ['-', '-'] then some (ws.map .operand)
    else match read_word table w with
      | .operand =>
        if stops then some ((w :: ws).map .operand) else (read stops ws).map (.operand w :: ·)
      | .unknown => none
      | .items found => (read stops ws).map (found ++ ·)
      | .wants found name =>
        match ws with
        | [] => none
        | v :: ws => (read stops ws).map (found ++ .option name v :: ·)

/-! ## Written options -/

/-- An option as it is written. -/
inductive Given
  | letter (c : Char)
  | name (option : List Char)
  | letter_value (c : Char) (value : List Char)
  | name_value (option value : List Char)

def Given.words : Given → List (List Char)
  | .letter c => [['-', c]]
  | .name option => ['-' :: '-' :: option]
  | .letter_value c value => [['-', c], value]
  | .name_value option value => ['-' :: '-' :: option, value]

def Given.item : Given → Item
  | .letter c => .flag [c]
  | .name option => .flag option
  | .letter_value c value => .option [c] value
  | .name_value option value => .option option value

/-- The program knows the option, and whether it has a value. -/
def Given.Known (table : Table) : Given → Prop
  | .letter c => c ≠ '-' ∧ table.letter c = some .nothing
  | .name option => option ≠ [] ∧ '=' ∉ option ∧ table.name option = some .nothing
  | .letter_value c _ => c ≠ '-' ∧ table.letter c = some .value
  | .name_value option _ => option ≠ [] ∧ '=' ∉ option ∧ table.name option = some .value

/-- Whether an option of one letter has a value. -/
def Given.of_letter (c : Char) : Given → Option Takes
  | .letter d => if d = c then some .nothing else none
  | .letter_value d _ => if d = c then some .value else none
  | _ => none

/-- Whether an option with a name has a value. -/
def Given.of_name (t : List Char) : Given → Option Takes
  | .name option => if option = t then some .nothing else none
  | .name_value option _ => if option = t then some .value else none
  | _ => none

/-- The options of a list, whatever values stand there. -/
def Table.of (gs : List Given) : Table where
  letter c := gs.findSome? (Given.of_letter c)
  name t := gs.findSome? (Given.of_name t)

variable {table}

theorem split_once_of_not_mem {t : List Char} (h : '=' ∉ t) : Text.split_once '=' t = none := by
  have hdrop : t.dropWhile (· ≠ '=') = [] := by
    rw [List.dropWhile_eq_nil_iff]
    intro c hc
    exact decide_eq_true fun heq => h (heq ▸ hc)
  unfold Text.split_once
  rw [hdrop]

theorem read_word_letter {c : Char} (hc : c ≠ '-') (t : List Char) :
    read_word table ('-' :: c :: t) = read_letters table (c :: t) := by
  unfold read_word
  split
  · rename_i h
    exact absurd (List.cons.inj (List.cons.inj h).2).1 hc
  · rename_i h
    have h := (List.cons.inj h).2
    rw [h]
  · rename_i h
    exact absurd rfl (h c t)

/-- A written option is read again. -/
theorem read_given {g : Given} (h : g.Known table) (stops : Bool) (ws : List (List Char)) :
    read table stops (g.words ++ ws) = (read table stops ws).map (g.item :: ·) := by
  cases g with
  | letter c =>
    obtain ⟨hc, htable⟩ := h
    have hword : read_word table ['-', c] = .items [.flag [c]] := by
      rw [read_word_letter hc, read_letters, htable]
      rfl
    have hne : ['-', c] ≠ ['-', '-'] := fun h => hc (List.cons.inj (List.cons.inj h).2).1
    change read table stops (['-', c] :: ws) = _
    rw [read, if_neg hne, hword]
    rfl
  | name option =>
    obtain ⟨hname, heq, htable⟩ := h
    have hword : read_word table ('-' :: '-' :: option) = .items [.flag option] := by
      change read_name table option = _
      rw [read_name, split_once_of_not_mem heq]
      dsimp only
      rw [htable]
    have hne : '-' :: '-' :: option ≠ ['-', '-'] := fun h =>
      hname (List.cons.inj (List.cons.inj h).2).2
    change read table stops (('-' :: '-' :: option) :: ws) = _
    rw [read, if_neg hne, hword]
    rfl
  | letter_value c value =>
    obtain ⟨hc, htable⟩ := h
    have hword : read_word table ['-', c] = .wants [] [c] := by
      rw [read_word_letter hc, read_letters, htable]
      rfl
    have hne : ['-', c] ≠ ['-', '-'] := fun h => hc (List.cons.inj (List.cons.inj h).2).1
    change read table stops (['-', c] :: value :: ws) = _
    rw [read, if_neg hne, hword]
    rfl
  | name_value option value =>
    obtain ⟨hname, heq, htable⟩ := h
    have hword : read_word table ('-' :: '-' :: option) = .wants [] option := by
      change read_name table option = _
      rw [read_name, split_once_of_not_mem heq]
      dsimp only
      rw [htable]
    have hne : '-' :: '-' :: option ≠ ['-', '-'] := fun h =>
      hname (List.cons.inj (List.cons.inj h).2).2
    change read table stops (('-' :: '-' :: option) :: value :: ws) = _
    rw [read, if_neg hne, hword]
    rfl

theorem read_givens (stops : Bool) (ws : List (List Char)) : ∀ {gs : List Given},
    (∀ g ∈ gs, g.Known table) →
      read table stops (gs.flatMap Given.words ++ ws) =
        (read table stops ws).map (gs.map Given.item ++ ·)
  | [], _ => by
    rw [List.flatMap_nil, List.nil_append, List.map_nil]
    exact Option.map_id'.symm
  | g :: gs, h => by
    obtain ⟨hg, hgs⟩ := List.forall_mem_cons.mp h
    rw [List.flatMap_cons, List.append_assoc, read_given hg, read_givens stops ws hgs,
      Option.map_map]
    rfl

/-! ## Operands -/

def Item.word : Item → Option (List Char)
  | .operand word => some word
  | .flag _ => none
  | .option _ _ => none

def operands (items : List Item) : List (List Char) := items.filterMap Item.word

theorem operands_append (items others : List Item) :
    operands (items ++ others) = operands items ++ operands others := List.filterMap_append

theorem operands_words (ws : List (List Char)) : operands (ws.map .operand) = ws := by
  unfold operands
  rw [List.filterMap_map]
  exact List.filterMap_some

theorem operands_givens (gs : List Given) : operands (gs.map Given.item) = [] := by
  unfold operands
  rw [List.filterMap_map, List.filterMap_eq_nil_iff]
  intro g _
  cases g <;> rfl

/-! ## Values -/

def Item.value_of (name : List Char) : Item → Option (List Char)
  | .option n value => if n = name then some value else none
  | .flag _ => none
  | .operand _ => none

/-- The values an option has, in order. -/
def values (name : List Char) (items : List Item) : List (List Char) :=
  items.filterMap (Item.value_of name)

theorem values_append (name : List Char) (items others : List Item) :
    values name (items ++ others) = values name items ++ values name others :=
  List.filterMap_append

theorem values_option (name n value : List Char) :
    values name [.option n value] = if n = name then [value] else [] := by
  by_cases h : n = name
  · simp [values, Item.value_of, h]
  · simp [values, Item.value_of, h]

theorem values_words (name : List Char) (ws : List (List Char)) :
    values name (ws.map .operand) = [] := by
  unfold values
  rw [List.filterMap_map, List.filterMap_eq_nil_iff]
  exact fun _ _ => rfl

theorem flag_not_mem_words (name : List Char) (ws : List (List Char)) :
    Item.flag name ∉ ws.map .operand := by
  intro h
  obtain ⟨w, -, hw⟩ := List.mem_map.mp h
  cases hw

/-! ## Words that stay operands -/

/-- Only options are read. -/
def Reading.OnlyOptions : Reading → Prop
  | .operand => False
  | .unknown => True
  | .items found => operands found = []
  | .wants found _ => operands found = []

theorem only_options_letters : ∀ t : List Char, (read_letters table t).OnlyOptions
  | [] => rfl
  | c :: rest => by
    have ih := only_options_letters rest
    rw [read_letters]
    cases table.letter c with
    | none => trivial
    | some takes =>
      cases takes with
      | nothing =>
        dsimp only
        cases hrest : read_letters table rest with
        | operand =>
          rw [hrest] at ih
          exact ih
        | unknown => trivial
        | items found =>
          rw [hrest] at ih
          exact ih
        | wants found name =>
          rw [hrest] at ih
          exact ih
      | value =>
        dsimp only
        split_ifs
        · rfl
        · rfl

theorem only_options_name (t : List Char) : (read_name table t).OnlyOptions := by
  unfold read_name
  split
  · split_ifs
    · rfl
    · trivial
  · split
    · trivial
    · rfl
    · rfl

/-- A word that looks like an option is not read as an operand. -/
theorem only_options_word {w : List Char} (h : option_like w = true) :
    (read_word table w).OnlyOptions := by
  rcases w with _ | ⟨c, _ | ⟨d, t⟩⟩
  · cases h
  · unfold option_like at h
    simp at h
  · by_cases hc : c = '-'
    · subst hc
      by_cases hd : d = '-'
      · subst hd
        exact only_options_name t
      · rw [read_word_letter hd]
        exact only_options_letters _
    · unfold option_like at h
      simp [hc] at h

theorem read_word_operand {w : List Char} (h : option_like w = false) :
    read_word table w = .operand ∧ w ≠ ['-', '-'] := by
  constructor
  · unfold read_word
    split
    · cases h
    · cases h
    · rfl
  · rintro rfl
    cases h

/-- No program reads more operands than words, and none from an option. -/
theorem length_operands_read {stops : Bool} : ∀ {ws : List (List Char)} {items : List Item},
    read table stops ws = some items → (operands items).length ≤ ws.length ∧
      (ws.head?.any option_like → (operands items).length ≤ ws.length - 1)
  | [], items, h => by
    cases h
    exact ⟨le_rfl, fun _ => le_rfl⟩
  | w :: ws, items, h => by
    rw [List.length_cons, Nat.add_sub_cancel]
    change _ ∧ (option_like w = true → _)
    rw [read] at h
    by_cases hdashes : w = ['-', '-']
    · rw [if_pos hdashes] at h
      cases h
      rw [operands_words]
      exact ⟨Nat.le_succ _, fun _ => le_rfl⟩
    · rw [if_neg hdashes] at h
      by_cases hlike : option_like w = true
      · have hshort : (operands items).length ≤ ws.length := by
          have hoptions := @only_options_word table _ hlike
          cases hword : read_word table w with
          | operand =>
            rw [hword] at hoptions
            exact hoptions.elim
          | unknown =>
            rw [hword] at h
            cases h
          | items found =>
            rw [hword] at h hoptions
            obtain ⟨rest, hrest, rfl⟩ := Option.map_eq_some_iff.mp h
            rw [operands_append, show operands found = [] from hoptions, List.nil_append]
            exact (length_operands_read hrest).1
          | wants found name =>
            rw [hword] at h hoptions
            rcases ws with _ | ⟨v, ws⟩
            · cases h
            · obtain ⟨rest, hrest, rfl⟩ := Option.map_eq_some_iff.mp h
              rw [operands_append, show operands found = [] from hoptions, List.nil_append]
              exact (length_operands_read hrest).1.trans (Nat.le_succ _)
        exact ⟨hshort.trans (Nat.le_succ _), fun _ => hshort⟩
      · obtain ⟨hword, -⟩ := @read_word_operand table _ (Bool.eq_false_iff.mpr hlike)
        rw [hword] at h
        refine ⟨?_, fun hl => absurd hl hlike⟩
        cases stops with
        | true =>
          cases h
          rw [operands_words]
          exact le_rfl
        | false =>
          obtain ⟨rest, hrest, rfl⟩ := Option.map_eq_some_iff.mp h
          exact Nat.succ_le_succ (length_operands_read hrest).1

/-- A program that stops at an operand reads nothing else behind it. -/
theorem read_stops {w : List Char} (h : option_like w = false) (ws : List (List Char)) :
    read table true (w :: ws) = some ((w :: ws).map .operand) := by
  obtain ⟨hword, hdashes⟩ := @read_word_operand table _ h
  rw [read, if_neg hdashes, hword]
  rfl

/-- **A word stays an operand where it does not look like an option.** -/
theorem read_operand_iff {stops : Bool} {v : List Char} {more : List (List Char)}
    (h : more = [] ∨ stops = true) :
    read table stops (v :: more) = some ((v :: more).map .operand) ↔ option_like v = false := by
  constructor
  · intro hread
    rw [← Bool.not_eq_true]
    intro hlike
    have hlength := (length_operands_read hread).2 hlike
    rw [operands_words, List.length_cons, Nat.add_sub_cancel] at hlength
    exact absurd hlength (Nat.not_succ_le_self _)
  · intro hlike
    rcases h with rfl | rfl
    · obtain ⟨hword, hdashes⟩ := @read_word_operand table _ hlike
      rw [read, if_neg hdashes, hword]
      cases stops <;> rfl
    · exact read_stops hlike more

end Flags
