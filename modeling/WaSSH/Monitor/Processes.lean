import WaSSH.Lib.Columns
import WaSSH.Monitor.Report

/-!
# The process table

A row of `ps` has seven columns and the command, which may hold anything. `parse_processes` finds
the command by its first word.

* `PsLine`: a row as `ps` writes it;
* `find_from_append`: what is found, where the word stands nowhere before;
* **`parse_processes_lines`**: the table that is read.
-/

namespace WaSSH.Monitor

open Text

/-- A row of `ps`: the seven columns, the command's first word and what follows it. -/
structure PsLine where
  lead : Blank
  pid : Word
  user : Column
  state : Column
  nice : Column
  threads : Column
  cpu : Column
  mem : Column
  command : Column
  rest : Rest

namespace PsLine

variable (l : PsLine)

def columns : List Column := [l.user, l.state, l.nice, l.threads, l.cpu, l.mem]

/-- The row up to the command. -/
def front : List Char :=
  l.lead.1 ++ (l.pid.1 ++ (l.columns.flatMap Column.text ++ l.command.gap.1))

/-- The remainder of the row, from where the command starts. -/
def command_text : List Char := l.command.word.1 ++ l.rest.1

def text : List Char := l.front ++ l.command_text

/-- The command's first word does not stand anywhere before the command. -/
def CommandFirst : Prop := ∀ i < l.front.length, ¬ l.command.word.1 <+: l.text.drop i

instance : Decidable l.CommandFirst :=
  inferInstanceAs (Decidable (∀ i < l.front.length, ¬ l.command.word.1 <+: l.text.drop i))

/-- What the row says. -/
def process {F : Type} (floats : Floats F) : Option (Process F) :=
  (parse_u32 l.pid.1).map fun pid =>
    { pid := pid
      user := l.user.word.1
      state := l.state.word.1.take 1
      nice := (parse_i32 l.nice.word.1).getD 0
      threads := (parse_u32 l.threads.word.1).getD 0
      cpu := (floats.parse l.cpu.word.1).getD floats.zero
      mem := (floats.parse l.mem.word.1).getD floats.zero
      command := (trim l.command_text).take COMMAND_CHARS }

/-- The words of the row. -/
theorem split_text : split_whitespace l.text = l.pid.1 :: l.user.word.1 :: l.state.word.1 ::
    l.nice.word.1 :: l.threads.word.1 :: l.cpu.word.1 :: l.mem.word.1 :: l.command.word.1 ::
      split_whitespace l.rest.1 := by
  have htext : l.text =
      l.lead.1 ++ (l.pid.1 ++ ((l.columns ++ [l.command]).flatMap Column.text ++ l.rest.1)) := by
    simp only [text, front, command_text, List.flatMap_append, List.flatMap_cons,
      List.flatMap_nil, Column.text, List.append_assoc, List.append_nil]
  have hpid := split_whitespace_word l.pid ⟨_, rest_columns (l.columns ++ [l.command]) l.rest⟩
  dsimp only at hpid
  rw [htext, split_whitespace_blank l.lead.2, hpid, split_whitespace_columns]
  rfl

end PsLine

/-- What is found is the first place. -/
theorem find_from_append {needle rest : List Char} (hrest : needle <+: rest) :
    ∀ {before : List Char}, (∀ i < before.length, ¬ needle <+: (before ++ rest).drop i) →
      find_from needle (before ++ rest) = rest
  | [], _ => by
    have hfind : rest.tails.find? (needle.isPrefixOf ·) = some rest := by
      rcases rest with _ | ⟨c, rest⟩
      · rw [List.tails, List.find?_cons_of_pos (List.isPrefixOf_iff_prefix.mpr hrest)]
      · rw [List.tails, List.find?_cons_of_pos (List.isPrefixOf_iff_prefix.mpr hrest)]
    rw [List.nil_append, find_from, hfind, Option.getD_some]
  | c :: before, h => by
    have hfirst : ¬ needle <+: c :: (before ++ rest) := h 0 (Nat.succ_pos _)
    have hlater : find_from needle (before ++ rest) = rest :=
      find_from_append hrest fun i hi => h (i + 1) (Nat.succ_lt_succ hi)
    obtain ⟨found, hfound⟩ : ∃ found,
        (before ++ rest).tails.find? (needle.isPrefixOf ·) = some found := by
      rw [← Option.isSome_iff_exists, List.find?_isSome]
      exact ⟨rest, (List.mem_tails ..).mpr ⟨before, rfl⟩, List.isPrefixOf_iff_prefix.mpr hrest⟩
    rw [find_from, hfound, Option.getD_some] at hlater
    rw [List.cons_append, find_from, List.tails,
      List.find?_cons_of_neg (by rwa [List.isPrefixOf_iff_prefix]), hfound, Option.getD_some,
      hlater]

theorem process_row_text {F : Type} (floats : Floats F) {l : PsLine} (h : l.CommandFirst) :
    process_row floats l.text = l.process floats := by
  have hfound : find_from l.command.word.1 l.text = l.command_text :=
    find_from_append ⟨l.rest.1, rfl⟩ h
  unfold process_row
  rw [l.split_text]
  dsimp only
  rw [hfound]
  rfl

/-- **The table that is read**: for each row the columns, and the command without the white space
around it, cut to the characters a table may show. -/
theorem parse_processes_lines {F : Type} (floats : Floats F) {text : List Char} {ls : List PsLine}
    (htext : lines text = ls.map PsLine.text) (hfirst : ∀ l ∈ ls, l.CommandFirst) :
    parse_processes floats text = ls.filterMap (PsLine.process · floats) := by
  unfold parse_processes
  rw [htext, List.filterMap_map]
  exact List.filterMap_congr fun l hl => process_row_text floats (hfirst l hl)

theorem space_is_gap : " ".toList ≠ [] ∧ " ".toList.all Text.is_whitespace := by decide

theorem zero_is_word : "0".toList ≠ [] ∧ "0".toList.all (!Text.is_whitespace ·) := by decide

/-- A row with the command of a terminal. -/
def kitty (command : Word) : PsLine where
  lead := ⟨"  ".toList, by decide⟩
  pid := ⟨"420".toList, by decide⟩
  user := ⟨⟨" ".toList, space_is_gap⟩, "root".toList, by decide⟩
  state := ⟨⟨" ".toList, space_is_gap⟩, "Sl".toList, by decide⟩
  nice := ⟨⟨"   ".toList, by decide⟩, "0".toList, zero_is_word⟩
  threads := ⟨⟨" ".toList, space_is_gap⟩, "12".toList, by decide⟩
  cpu := ⟨⟨"  ".toList, by decide⟩, "2.4".toList, by decide⟩
  mem := ⟨⟨"  ".toList, by decide⟩, "1.2".toList, by decide⟩
  command := ⟨⟨" ".toList, space_is_gap⟩, command⟩
  rest := ⟨" --single-instance".toList, by decide⟩

theorem parse_processes_kitty : parse_processes coarse
      "  420 root Sl   0 12  2.4  1.2 kitty --single-instance\n".toList =
    [kitty ⟨"kitty".toList, by decide⟩].filterMap (PsLine.process · coarse) :=
  parse_processes_lines coarse (by decide +kernel) (by decide +kernel)

/-- A long command is cut. -/
theorem long_command_is_cut : ¬ ∀ (l : PsLine) (row : Process Unit),
    process_row coarse l.text = some row → row.command = l.command_text := by
  intro h
  let long : Word := ⟨List.replicate 201 'x', by decide +kernel⟩
  have hrow : (process_row coarse (kitty long).text).map Process.command =
      some (List.replicate 200 'x') := by
    decide +kernel
  obtain ⟨row, hsome, hcommand⟩ := Option.map_eq_some_iff.mp hrow
  have hlength := congrArg List.length (hcommand.symm.trans (h (kitty long) row hsome))
  revert hlength
  decide +kernel

end WaSSH.Monitor
