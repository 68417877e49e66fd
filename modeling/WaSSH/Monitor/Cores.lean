import WaSSH.Lib.Columns
import WaSSH.Monitor.Report
import Mathlib.Data.List.ReduceOption

/-!
# The cores

Cores come and go. `core_percents` compares two samples position by position, so the counters of a
core meet those of another one as soon as a core before it is missing in one sample.

* `StatLine`, `parse_cores_lines`: what `/proc/stat` says about the cores;
* `own_percents`: the percentages of the cores that both samples have;
* `same_of_zip`: lists that agree at each position both have;
* **`core_percents_iff`**: the samples whose cores are compared with themselves.
-/

namespace WaSSH.Monitor

open Text Checked

/-! ## The lines -/

/-- A number behind a gap. -/
structure Count where
  gap : Gap
  number : Fin (2 ^ 64)

def Count.column (count : Count) : Column := ⟨count.gap, counter count.number⟩

/-- A line `cpuN` of `/proc/stat`. -/
structure StatLine where
  core : ℕ
  user : Count
  nice : Count
  system : Count
  idle : Count
  iowait : Count
  more : List Count

namespace StatLine

variable (l : StatLine)

def counts : List Count := [l.user, l.nice, l.system, l.idle, l.iowait] ++ l.more

theorem core_name_is_word : ("cpu".toList ++ in_decimal l.core) ≠ [] ∧
    ("cpu".toList ++ in_decimal l.core).all (!is_whitespace ·) :=
  ⟨List.cons_ne_nil _ _, all_word_append rfl (all_word_in_decimal l.core)⟩

def text : List Char :=
  "cpu".toList ++ in_decimal l.core ++ (l.counts.map Count.column).flatMap Column.text

/-- The counters of the line. -/
def times : CpuTimes where
  total := ((l.counts.map (·.number.1)).take 8).sum
  idle := l.idle.number + l.iowait.number

theorem values_text : values l.text = l.counts.map (·.number.1) := by
  have hname := split_whitespace_word ⟨_, l.core_name_is_word⟩
    ⟨_, rest_columns (l.counts.map Count.column) ⟨[], rfl⟩⟩
  have hcolumns := split_whitespace_columns ⟨[], rfl⟩ (l.counts.map Count.column)
  dsimp only at hname hcolumns
  rw [List.append_nil] at hname hcolumns
  rw [split_whitespace_nil, List.append_nil] at hcolumns
  rw [values, text, hname, hcolumns, List.drop_one, List.tail_cons, List.map_map,
    List.filterMap_map]
  calc l.counts.filterMap (parse_u64 ∘ (fun column : Column => column.word.1) ∘ Count.column)
      = l.counts.filterMap (fun count => some count.number.1) :=
        List.filterMap_congr fun count _ => parse_counter count.number
    _ = l.counts.map (·.number.1) := congrFun List.filterMap_eq_map' _

theorem cpu_line_text (h : l.times.total < 2 ^ 64) : cpu_line l.text = .ok (some l.times) := by
  unfold cpu_line
  rw [l.values_text]
  have hidle : l.times.idle < 2 ^ 64 := by
    refine lt_of_le_of_lt ?_ h
    simp only [times, counts, List.map_append, List.map_cons, List.map_nil, List.cons_append,
      List.take_succ_cons, List.sum_cons]
    omega
  change (add 64 l.idle.number l.iowait.number >>= fun idle =>
    sum 64 ((l.counts.map fun count => count.number.1).take 8) >>= fun total =>
      Except.ok (some (CpuTimes.mk total idle))) = _
  rw [add_eq_ok_iff.mpr ⟨rfl, hidle⟩, sum_eq_ok_iff.mpr ⟨rfl, h⟩]
  rfl

end StatLine

/-- The counters of the cores, in the order of the lines. -/
theorem parse_cores_lines {text : List Char} {ls : List StatLine}
    (htext : core_lines text = ls.map StatLine.text)
    (hfits : ∀ l ∈ ls, l.times.total < 2 ^ 64) :
    parse_cores text = .ok (ls.map StatLine.times) := by
  have hmap : (ls.map StatLine.text).mapM cpu_line = .ok (ls.map fun l => some l.times) := by
    clear htext
    induction ls with
    | nil => rfl
    | cons l ls ih =>
      rw [List.forall_mem_cons] at hfits
      rw [List.map_cons, List.mapM_cons, l.cpu_line_text hfits.1, ih hfits.2]
      rfl
  unfold parse_cores
  rw [htext, hmap]
  change Except.ok (ls.map fun l => some l.times).reduceOption = _
  rw [List.reduceOption, List.filterMap_map]
  exact congrArg Except.ok (congrFun List.filterMap_eq_map' ls)

/-! ## Two samples -/

/-- The cores of a sample, in the order in which the kernel lists them. -/
abbrev Cores := {cores : List ℕ // cores.Pairwise (· < ·)}

/-- The percentages of the cores that both samples have, each from its own two lines. -/
def own_percents {F : Type} (floats : Floats F) (before after : ℕ → CpuTimes)
    (previous current : Cores) : List F :=
  ((previous.1.filter (· ∈ current.1)).map fun core =>
    cpu_percent floats (before core) (after core)).reduceOption

/-- Lists that agree at each position both have. -/
theorem same_of_zip {α : Type} : ∀ {xs ys : List α}, (∀ p ∈ xs.zip ys, p.1 = p.2) →
    xs <+: ys ∨ ys <+: xs
  | [], ys, _ => .inl (List.nil_prefix ..)
  | x :: xs, [], _ => .inr (List.nil_prefix ..)
  | x :: xs, y :: ys, h => by
    rw [List.zip_cons_cons, List.forall_mem_cons] at h
    have hxy : x = y := h.1
    subst hxy
    simpa [List.cons_prefix_cons] using same_of_zip h.2

/-- The positions of a list and of a longer one. -/
theorem zip_append_right {α : Type} (xs rest : List α) :
    xs.zip (xs ++ rest) = xs.map fun x => (x, x) := by
  induction xs with
  | nil => rfl
  | cons x xs ih => rw [List.cons_append, List.zip_cons_cons, ih, List.map_cons]

theorem zip_append_left {α : Type} (xs rest : List α) :
    (xs ++ rest).zip xs = xs.map fun x => (x, x) := by
  induction xs with
  | nil => simp
  | cons x xs ih => rw [List.cons_append, List.zip_cons_cons, ih, List.map_cons]

/-- The pairs that `core_percents` makes, by their cores. -/
theorem core_percents_map {F : Type} (floats : Floats F) (before after : ℕ → CpuTimes)
    (xs ys : List ℕ) : core_percents floats (xs.map before) (ys.map after) =
      ((xs.zip ys).map fun p => cpu_percent floats (before p.1) (after p.2)).reduceOption := by
  rw [core_percents, List.zip_map, List.map_map]
  rfl

/-- Percentages that show what they were computed from. -/
def shown : Floats (ℕ × ℕ) where
  parse _ := none
  zero := (0, 0)
  seconds := parse_u64
  percentage part whole _ := (part, whole)
  per_second delta ms _ := delta * 1000 / ms

/-- Counters that tell whether the first line is of core `c` and the second one of core `d`. -/
theorem cpu_percent_marked (c d x y : ℕ) :
    cpu_percent shown ⟨4, if x = c then 0 else 1⟩ ⟨if y = d then 9 else 8, 1⟩ =
      some (if x = c then (if y = d then 4 else 3) else (if y = d then 5 else 4),
        if y = d then 5 else 4) := by
  split_ifs <;> rfl

/-- **Each percentage is computed from the lines of one core where the cores of one sample are the
first cores of the other**, whatever the counters are. -/
theorem core_percents_iff (previous current : Cores) :
    (∀ (F : Type) (floats : Floats F) (before after : ℕ → CpuTimes),
      core_percents floats (previous.1.map before) (current.1.map after) =
        own_percents floats before after previous current) ↔
      previous.1 <+: current.1 ∨ current.1 <+: previous.1 := by
  constructor
  · intro h
    apply same_of_zip
    rintro ⟨c, d⟩ hpair
    by_contra hne
    have hequal := h _ shown (fun x => ⟨4, if x = c then 0 else 1⟩)
      (fun y => ⟨if y = d then 9 else 8, 1⟩)
    rw [core_percents_map, own_percents] at hequal
    simp only [cpu_percent_marked] at hequal
    have hmem : (4, 5) ∈ ((previous.1.filter (· ∈ current.1)).map fun core =>
        some (if core = c then (if core = d then 4 else 3) else (if core = d then 5 else 4),
          if core = d then 5 else 4)).reduceOption := by
      rw [← hequal, List.reduceOption_mem_iff, List.mem_map]
      exact ⟨(c, d), hpair, by simp⟩
    rw [List.reduceOption_mem_iff, List.mem_map] at hmem
    obtain ⟨core, -, hcore⟩ := hmem
    rw [Option.some.injEq, Prod.mk.injEq] at hcore
    -- no core is `c` and `d`
    split_ifs at hcore <;> omega
  · intro h F floats before after
    rw [core_percents_map, own_percents]
    congr 1
    rcases h with ⟨rest, hrest⟩ | ⟨rest, hrest⟩
    · have hall : previous.1.filter (· ∈ current.1) = previous.1 := by
        rw [List.filter_eq_self]
        intro core hcore
        rw [← hrest, decide_eq_true_eq]
        exact List.mem_append_left _ hcore
      rw [hall, ← hrest, zip_append_right, List.map_map]
      rfl
    · have hsorted : (current.1 ++ rest).Pairwise (· < ·) := hrest ▸ previous.2
      have hall : previous.1.filter (· ∈ current.1) = current.1 := by
        rw [← hrest, List.filter_append, List.filter_eq_self.mpr (by simp),
          List.filter_eq_nil_iff.mpr, List.append_nil]
        intro core hcore hmem
        rw [decide_eq_true_eq] at hmem
        exact lt_irrefl _ ((List.pairwise_append.mp hsorted).2.2 core hmem core hcore)
      rw [hall, ← hrest, zip_append_left, List.map_map]
      rfl

/-- Without core 1, core 2 is compared with it. -/
theorem missing_core_shifts : ¬ ∀ (previous current : Cores) (F : Type) (floats : Floats F)
    (before after : ℕ → CpuTimes),
      core_percents floats (previous.1.map before) (current.1.map after) =
        own_percents floats before after previous current := by
  intro h
  have hshift := h ⟨[0, 1, 2], by decide⟩ ⟨[0, 2], by decide⟩ _ shown
    (fun core => ⟨100 * core, 0⟩) (fun core => ⟨100 * core + 10, 5⟩)
  revert hshift
  decide +kernel

end WaSSH.Monitor
