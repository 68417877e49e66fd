import WaSSH.Lib.Ordered
import Mathlib.Data.List.DropRight

/-!
# The topic tree

The topics a client has heard are shown as an indented list. The rows come in the order of the
paths as texts, and that is the order of the tree only where nothing sorts between a node and its
children.

* `parent_of`, `ancestors`: the nodes above a topic;
* `tree_lines`: the rows;
* `DepthFirst`, `Totals`: what the list has to look like;
* `mem_lines_iff`, `totals_value`: the rows and their numbers;
* **`tree_lines_iff`**: the topics whose list is in order.
-/

namespace WaSSH.Mqtt

/-! ## Paths -/

theorem lawful_path : LawfulBEq (List Char) := inferInstance

attribute [local instance] lawful_path


/-- The text before the last `/`. -/
def parent_of (path : List Char) : Option (List Char) :=
  match path.reverse.dropWhile (· ≠ '/') with
  | [] => none
  | _ :: parent => some parent.reverse

/-- The paths above a path that is read from its end. -/
def above : List Char → List (List Char)
  | [] => []
  | c :: rest => if c = '/' then rest.reverse :: above rest else above rest

/-- `while let Some(parent) = parent_of(node) { node = parent }`. -/
def ancestors (path : List Char) : List (List Char) := above path.reverse

theorem above_eq (path : List Char) : above path =
    match path.dropWhile (· ≠ '/') with
    | [] => []
    | _ :: parent => parent.reverse :: above parent := by
  induction path with
  | nil => rfl
  | cons c rest ih =>
    by_cases hc : c = '/'
    · rw [above, if_pos hc, List.dropWhile_cons_of_neg (by simpa using hc)]
    · rw [above, if_neg hc, List.dropWhile_cons_of_pos (by simpa using hc)]
      exact ih

/-- The loop over the parents. -/
theorem ancestors_eq (path : List Char) : ancestors path =
    match parent_of path with
    | none => []
    | some parent => parent :: ancestors parent := by
  unfold ancestors parent_of
  rw [above_eq]
  split
  · rfl
  · dsimp only
    rw [List.reverse_reverse]

theorem mem_above {p : List Char} : ∀ {path : List Char},
    p ∈ above path ↔ ∃ last, path = last ++ '/' :: p.reverse
  | [] => by simp [above]
  | c :: rest => by
    have ih : p ∈ above rest ↔ _ := mem_above
    have hlater : (∃ last, c :: rest = c :: last ++ '/' :: p.reverse) ↔ p ∈ above rest := by
      rw [ih]
      simp
    rw [above]
    by_cases hc : c = '/'
    · rw [if_pos hc, List.mem_cons, ← hlater]
      constructor
      · rintro (rfl | ⟨last, h⟩)
        · exact ⟨[], by rw [hc, List.reverse_reverse]; rfl⟩
        · exact ⟨c :: last, h⟩
      · rintro ⟨last, h⟩
        rcases last with _ | ⟨d, last⟩
        · have hrest := (List.cons.inj h).2
          exact .inl (by rw [hrest, List.reverse_reverse])
        · exact .inr ⟨last, by rw [h, (List.cons.inj h).1]⟩
    · rw [if_neg hc, ← hlater]
      constructor
      · rintro ⟨last, h⟩
        exact ⟨c :: last, h⟩
      · rintro ⟨last, h⟩
        rcases last with _ | ⟨d, last⟩
        · exact absurd (List.cons.inj h).1 hc
        · exact ⟨last, by rw [h, (List.cons.inj h).1]⟩

/-- **A node is above a path** when the path goes on behind it with a `/`. -/
theorem mem_ancestors {p path : List Char} :
    p ∈ ancestors path ↔ ∃ rest, path = p ++ '/' :: rest := by
  unfold ancestors
  rw [mem_above]
  constructor
  · rintro ⟨last, h⟩
    refine ⟨last.reverse, ?_⟩
    rw [← List.reverse_reverse path, h]
    simp
  · rintro ⟨rest, rfl⟩
    exact ⟨rest.reverse, by simp⟩

theorem mem_ancestors_trans {p q r : List Char} (h : p ∈ ancestors q) (h' : q ∈ ancestors r) :
    p ∈ ancestors r := by
  obtain ⟨rest, rfl⟩ := mem_ancestors.mp h
  obtain ⟨rest', rfl⟩ := mem_ancestors.mp h'
  exact mem_ancestors.mpr ⟨rest ++ '/' :: rest', by rw [List.append_assoc, List.cons_append]⟩

theorem not_mem_ancestors_self (p : List Char) : p ∉ ancestors p := by
  intro h
  obtain ⟨rest, hrest⟩ := mem_ancestors.mp h
  have hlength := congrArg List.length hrest
  rw [List.length_append, List.length_cons] at hlength
  omega

theorem nodup_above : ∀ path : List Char, (above path).Nodup
  | [] => List.nodup_nil
  | c :: rest => by
    rw [above]
    split_ifs
    · refine List.nodup_cons.mpr ⟨fun h => ?_, nodup_above rest⟩
      have hself := not_mem_ancestors_self rest.reverse
      unfold ancestors at hself
      rw [List.reverse_reverse] at hself
      exact hself h
    · exact nodup_above rest

theorem nodup_ancestors (path : List Char) : (ancestors path).Nodup := nodup_above _

theorem parent_of_eq_some {p path : List Char} (h : parent_of path = some p) :
    p ∈ ancestors path := by
  rw [ancestors_eq, h]
  exact List.mem_cons_self

/-- Under a node that is above a path there is a child of it on the way. -/
theorem exists_child {p path : List Char} (h : p ∈ ancestors path) :
    ∃ child, parent_of child = some p ∧ (child = path ∨ child ∈ ancestors path) := by
  induction hn : path.length using Nat.strong_induction_on generalizing path with
  | _ n ih =>
  rw [ancestors_eq] at h
  cases hparent : parent_of path with
  | none =>
    rw [hparent] at h
    cases h
  | some parent =>
    rw [hparent] at h
    rcases List.mem_cons.mp h with rfl | h
    · exact ⟨path, hparent, .inl rfl⟩
    · have hmem := parent_of_eq_some hparent
      obtain ⟨rest, hrest⟩ := mem_ancestors.mp hmem
      have hlength : parent.length < n := by
        rw [← hn, hrest, List.length_append, List.length_cons]
        omega
      obtain ⟨child, hchild, hwhere⟩ := ih parent.length hlength h rfl
      refine ⟨child, hchild, .inr ?_⟩
      rcases hwhere with rfl | hwhere
      · exact hmem
      · exact mem_ancestors_trans hwhere hmem

/-! ## The rows -/

/-- Running totals for one tree node. -/
structure NodeTotals where
  under : ℕ := 0
  own : ℕ := 0
  sub_topics : ℕ := 0
  has_children : Bool := false

instance : Inhabited NodeTotals := ⟨{}⟩

/-- One row of the topic tree. -/
structure TreeLine where
  path : List Char
  label : List Char
  depth : ℕ
  expandable : Bool
  expanded : Bool
  count : ℕ
  received : ℕ
  sub_topics : ℕ
  caption : Option (List Char)

/-- `u64` addition, as a release build does it. -/
def add_u64 (a b : ℕ) : ℕ := (a + b) % 2 ^ 64

/-- The messages heard on each topic. -/
abbrev Topics := Ordered (List Char) ℕ

/-- Every topic and every node above one. -/
def register (topics : Topics) : Ordered (List Char) NodeTotals :=
  topics.keys.foldl (fun totals topic =>
    (ancestors topic).foldl (fun totals parent =>
        totals.modify_or_default parent fun node => { node with has_children := true })
      (totals.modify_or_default topic id)) default

/-- What a topic has heard is put to its own node and to those above it. -/
def roll_up (totals : Ordered (List Char) NodeTotals) (topic : List Char) (heard : ℕ) :
    Ordered (List Char) NodeTotals :=
  let totals := totals.modify_or_default topic fun node =>
    { node with own := add_u64 node.own heard, under := add_u64 node.under heard }
  if heard = 0 then totals
  else (ancestors topic).foldl (fun totals parent =>
    totals.modify_or_default parent fun node =>
      { node with under := add_u64 node.under heard, sub_topics := add_u64 node.sub_topics 1 })
    totals

def node_totals (topics : Topics) : Ordered (List Char) NodeTotals :=
  topics.entries.foldl (fun totals entry => roll_up totals entry.1 entry.2) (register topics)

/-- Whether every node above is open. -/
def visible (expanded : List (List Char)) (path : List Char) : Bool :=
  (ancestors path).all (· ∈ expanded)

/-- The row's trailing badge. -/
def row_meta (collapsed_branch : Bool) (sub_topics under own : ℕ) : Option (List Char) :=
  if collapsed_branch then
    some (Nat.toDigits 10 sub_topics ++ " topic".toList ++ (if sub_topics = 1 then [] else ['s']) ++
      ", ".toList ++ Nat.toDigits 10 under ++ " msg".toList ++ if under = 1 then [] else ['s'])
  else if 0 < own then some (Nat.toDigits 10 own)
  else none

def tree_line (expanded : List (List Char)) (path : List Char) (total : NodeTotals) : TreeLine where
  label := path.rtakeWhile (· ≠ '/')
  depth := path.count '/' % 2 ^ 16
  expandable := total.has_children
  expanded := path ∈ expanded
  count := total.under
  received := total.own
  sub_topics := total.sub_topics
  caption := row_meta (total.has_children && !decide (path ∈ expanded)) total.sub_topics total.under
    total.own
  path

/-- Flatten the topic tree into rows, honouring which nodes are open. -/
def tree_lines (topics : Topics) (expanded : List (List Char)) : List TreeLine :=
  ((node_totals topics).entries.filter fun e => visible expanded e.1).map fun e =>
    tree_line expanded e.1 e.2

/-! ## What the list has to look like -/

/-- A topic, or a node above one. -/
def Node (topics : Topics) (p : List Char) : Prop := ∃ t ∈ topics.keys, p = t ∨ p ∈ ancestors t

/-- A node under open ones only. -/
def Shown (topics : Topics) (expanded : List (List Char)) (p : List Char) : Prop :=
  Node topics p ∧ ∀ q ∈ ancestors p, q ∈ expanded

/-- **Depth first**: the parent of a row comes before it, and only what is below the parent comes
between them. -/
def DepthFirst (paths : List (List Char)) : Prop :=
  ∀ child ∈ paths, ∀ p, parent_of child = some p →
    ∃ before between after, paths = before ++ p :: between ++ child :: after ∧
      ∀ s ∈ between, p ∈ ancestors s

/-- The messages heard on the node. -/
def own_sum (entries : List (List Char × ℕ)) (p : List Char) : ℕ :=
  (entries.map fun e => if p = e.1 then e.2 else 0).sum

/-- The messages heard at or below the node. -/
def under_sum (entries : List (List Char × ℕ)) (p : List Char) : ℕ :=
  (entries.map fun e => if p = e.1 ∨ p ∈ ancestors e.1 then e.2 else 0).sum

/-- The topics below the node that heard something. -/
def below_count (entries : List (List Char × ℕ)) (p : List Char) : ℕ :=
  (entries.map fun e => if p ∈ ancestors e.1 ∧ 0 < e.2 then 1 else 0).sum

/-- The numbers of a row. -/
structure Totals (topics : Topics) (line : TreeLine) : Prop where
  received : line.received = own_sum topics.entries line.path
  count : line.count = under_sum topics.entries line.path
  sub_topics : line.sub_topics = below_count topics.entries line.path

/-- **The list shows the topics.** -/
structure Shows (topics : Topics) (expanded : List (List Char)) (lines : List TreeLine) :
    Prop where
  rows : ∀ p, p ∈ lines.map TreeLine.path ↔ Shown topics expanded p
  once : (lines.map TreeLine.path).Nodup
  depth_first : DepthFirst (lines.map TreeLine.path)
  totals : ∀ line ∈ lines, Totals topics line

/-! ## The numbers -/

section Totals

variable {p : List Char}

/-- What one topic does to the totals of a node. -/
def heard_at (p : List Char) (node : NodeTotals) (e : List Char × ℕ) : NodeTotals :=
  let node := if p = e.1 then
      { node with own := add_u64 node.own e.2, under := add_u64 node.under e.2 }
    else node
  if p ∈ ancestors e.1 ∧ 0 < e.2 then
    { node with under := add_u64 node.under e.2, sub_topics := add_u64 node.sub_topics 1 }
  else node

theorem value_roll_up (totals : Ordered (List Char) NodeTotals) (e : List Char × ℕ) :
    (roll_up totals e.1 e.2).value p = heard_at p (totals.value p) e := by
  unfold roll_up heard_at
  dsimp only
  by_cases hzero : e.2 = 0
  · rw [if_pos hzero, if_neg fun h => h.2.ne' hzero, Ordered.value_modify]
    split_ifs with hp
    · rw [hp]
    · rfl
  · rw [if_neg hzero, Ordered.value_foldl_modify (nodup_ancestors e.1), Ordered.value_modify]
    by_cases hp : p = e.1
    · have hnot : p ∉ ancestors e.1 := hp ▸ not_mem_ancestors_self p
      rw [if_neg hnot, if_pos hp, if_pos hp, if_neg (c := p ∈ _ ∧ _) fun h => hnot h.1, hp]
    · rw [if_neg hp, if_neg hp]
      by_cases hmem : p ∈ ancestors e.1
      · rw [if_pos hmem, if_pos ⟨hmem, Nat.pos_of_ne_zero hzero⟩]
      · rw [if_neg hmem, if_neg fun h => hmem h.1]

theorem value_foldl_roll_up : ∀ (es : List (List Char × ℕ)) (totals : Ordered _ NodeTotals),
    (es.foldl (fun totals e => roll_up totals e.1 e.2) totals).value p =
      es.foldl (heard_at p) (totals.value p)
  | [], _ => rfl
  | e :: es, totals => by
    rw [List.foldl_cons, List.foldl_cons, value_foldl_roll_up es, value_roll_up]

theorem value_foldl_register : ∀ (keys : List (List Char)) (totals : Ordered _ NodeTotals),
    (keys.foldl (fun totals topic =>
      (ancestors topic).foldl (fun totals parent =>
          totals.modify_or_default parent fun node => { node with has_children := true })
        (totals.modify_or_default topic id)) totals).value p =
      { totals.value p with
        has_children := (totals.value p).has_children || keys.any (p ∈ ancestors ·) }
  | [], totals => by
    rw [List.foldl_nil, List.any_nil, Bool.or_false]
  | k :: keys, totals => by
    have hid : (totals.modify_or_default k id).value p = totals.value p := by
      rw [Ordered.value_modify]
      split_ifs with hp
      · rw [hp]
        rfl
      · rfl
    rw [List.foldl_cons, value_foldl_register keys,
      Ordered.value_foldl_modify (nodup_ancestors k), hid, List.any_cons]
    by_cases hp : p ∈ ancestors k
    · simp [hp]
    · simp [hp]

/-- The totals are those of the topics, if they do not overflow. -/
theorem foldl_heard_at : ∀ (es : List (List Char × ℕ)) (node : NodeTotals),
    node.own + own_sum es p < 2 ^ 64 → node.under + under_sum es p < 2 ^ 64 →
      node.sub_topics + below_count es p < 2 ^ 64 →
        es.foldl (heard_at p) node =
          { node with
            own := node.own + own_sum es p
            under := node.under + under_sum es p
            sub_topics := node.sub_topics + below_count es p }
  | [], node, _, _, _ => rfl
  | e :: es, node, hown, hunder, hbelow => by
    unfold own_sum at hown
    unfold under_sum at hunder
    unfold below_count at hbelow
    rw [List.map_cons, List.sum_cons] at hown hunder hbelow
    have hstep : heard_at p node e =
        { node with
          own := node.own + if p = e.1 then e.2 else 0
          under := node.under + if p = e.1 ∨ p ∈ ancestors e.1 then e.2 else 0
          sub_topics := node.sub_topics + if p ∈ ancestors e.1 ∧ 0 < e.2 then 1 else 0 } := by
      have hadd {a b c : ℕ} (h : a + (b + c) < 2 ^ 64) : add_u64 a b = a + b :=
        Nat.mod_eq_of_lt (by omega)
      unfold heard_at
      by_cases hp : p = e.1
      · have hnot : p ∉ ancestors e.1 := hp ▸ not_mem_ancestors_self p
        rw [if_pos hp] at hown
        rw [if_pos (.inl hp)] at hunder
        simp only [if_pos hp, hnot, false_and, or_false, if_false, hadd hown, hadd hunder,
          Nat.add_zero]
      · by_cases hmem : p ∈ ancestors e.1
        · rw [if_pos (.inr hmem)] at hunder
          by_cases hheard : 0 < e.2
          · rw [if_pos ⟨hmem, hheard⟩] at hbelow
            simp only [hp, hmem, hheard, and_self, or_true, if_true, if_false, hadd hunder,
              hadd hbelow, Nat.add_zero]
          · have hzero : e.2 = 0 := Nat.eq_zero_of_not_pos hheard
            simp only [hp, hmem, hzero, lt_irrefl, and_false, or_true, if_true, if_false,
              Nat.add_zero]
        · simp only [hp, hmem, false_and, or_self, if_false, Nat.add_zero]
    rw [List.foldl_cons, hstep, foldl_heard_at es]
    · unfold own_sum under_sum below_count
      rw [List.map_cons, List.sum_cons, List.map_cons, List.sum_cons, List.map_cons,
        List.sum_cons, Nat.add_assoc, Nat.add_assoc, Nat.add_assoc]
    · rw [← Nat.add_assoc] at hown
      exact hown
    · rw [← Nat.add_assoc] at hunder
      exact hunder
    · rw [← Nat.add_assoc] at hbelow
      exact hbelow

theorem under_heard_at {node : NodeTotals} (h : node.under < 2 ^ 64) (e : List Char × ℕ) :
    (heard_at p node e).under < 2 ^ 64 := by
  have hadd (a b : ℕ) : add_u64 a b < 2 ^ 64 := Nat.mod_lt _ (by decide)
  unfold heard_at
  dsimp only
  split_ifs
  · exact hadd _ _
  · exact hadd _ _
  · exact hadd _ _
  · exact h

theorem under_foldl_heard_at : ∀ (es : List (List Char × ℕ)) {node : NodeTotals},
    node.under < 2 ^ 64 → (es.foldl (heard_at p) node).under < 2 ^ 64
  | [], _, h => h
  | e :: es, _, h => under_foldl_heard_at es (under_heard_at h e)

theorem own_sum_le : ∀ es : List (List Char × ℕ), own_sum es p ≤ under_sum es p
  | [] => le_refl _
  | e :: es => by
    have ih := own_sum_le es
    unfold own_sum under_sum at ih ⊢
    rw [List.map_cons, List.sum_cons, List.map_cons, List.sum_cons]
    refine Nat.add_le_add ?_ ih
    by_cases hp : p = e.1
    · rw [if_pos hp, if_pos (.inl hp)]
    · rw [if_neg hp]
      exact Nat.zero_le _

theorem below_count_le : ∀ es : List (List Char × ℕ), below_count es p ≤ under_sum es p
  | [] => le_refl _
  | e :: es => by
    have ih := below_count_le es
    unfold below_count under_sum at ih ⊢
    rw [List.map_cons, List.sum_cons, List.map_cons, List.sum_cons]
    refine Nat.add_le_add ?_ ih
    by_cases hp : p ∈ ancestors e.1 ∧ 0 < e.2
    · rw [if_pos hp, if_pos (.inr hp.1)]
      exact hp.2
    · rw [if_neg hp]
      exact Nat.zero_le _

theorem value_register (topics : Topics) : (register topics).value p =
    { has_children := topics.keys.any (p ∈ ancestors ·) } := by
  unfold register
  rw [value_foldl_register, Ordered.value_of_not_mem List.not_mem_nil]
  rfl

theorem value_node_totals (topics : Topics) : (node_totals topics).value p =
    topics.entries.foldl (heard_at p) ((register topics).value p) :=
  value_foldl_roll_up topics.entries _

/-- **The totals of a node**, if the messages at or below it can be counted. -/
theorem totals_value {topics : Topics} (h : under_sum topics.entries p < 2 ^ 64) :
    (node_totals topics).value p =
      { own := own_sum topics.entries p
        under := under_sum topics.entries p
        sub_topics := below_count topics.entries p
        has_children := topics.keys.any (p ∈ ancestors ·) } := by
  have hown := (own_sum_le (p := p) topics.entries).trans_lt h
  have hbelow := (below_count_le (p := p) topics.entries).trans_lt h
  rw [value_node_totals, value_register, foldl_heard_at]
  · simp only [Nat.zero_add]
  · rwa [Nat.zero_add]
  · rwa [Nat.zero_add]
  · rwa [Nat.zero_add]

theorem under_lt (topics : Topics) (p : List Char) :
    ((node_totals topics).value p).under < 2 ^ 64 := by
  rw [value_node_totals, value_register]
  exact under_foldl_heard_at topics.entries (Nat.two_pow_pos 64)

end Totals

/-! ## The rows -/

section Rows

variable {topics : Topics} {expanded : List (List Char)} {p : List Char}

theorem mem_keys_register : ∀ (keys : List (List Char)) (totals : Ordered _ NodeTotals),
    p ∈ (keys.foldl (fun totals topic =>
      (ancestors topic).foldl (fun totals parent =>
          totals.modify_or_default parent fun node => { node with has_children := true })
        (totals.modify_or_default topic id)) totals).keys ↔
      (∃ t ∈ keys, p = t ∨ p ∈ ancestors t) ∨ p ∈ totals.keys
  | [], totals => by simp
  | k :: keys, totals => by
    rw [List.foldl_cons, mem_keys_register keys, Ordered.mem_keys_foldl_modify,
      Ordered.mem_keys_modify]
    simp only [List.mem_cons, exists_eq_or_imp]
    constructor
    · rintro (h | h | h | h)
      · exact .inl (.inr h)
      · exact .inl (.inl (.inr h))
      · exact .inl (.inl (.inl h))
      · exact .inr h
    · rintro (((h | h) | h) | h)
      · exact .inr (.inr (.inl h))
      · exact .inr (.inl h)
      · exact .inl h
      · exact .inr (.inr (.inr h))

theorem mem_keys_roll_up {totals : Ordered (List Char) NodeTotals} {t : List Char} (heard : ℕ)
    (ht : t ∈ totals.keys) (habove : ∀ q ∈ ancestors t, q ∈ totals.keys) :
    p ∈ (roll_up totals t heard).keys ↔ p ∈ totals.keys := by
  unfold roll_up
  dsimp only
  split_ifs
  · rw [Ordered.mem_keys_modify]
    exact or_iff_right_of_imp fun hp => hp ▸ ht
  · rw [Ordered.mem_keys_foldl_modify, Ordered.mem_keys_modify]
    exact ⟨fun h => h.elim (habove p) fun h => h.elim (fun hp => hp ▸ ht) id,
      fun h => .inr (.inr h)⟩

theorem mem_keys_foldl_roll_up : ∀ {es : List (List Char × ℕ)} {totals : Ordered _ NodeTotals},
    (∀ e ∈ es, e.1 ∈ totals.keys ∧ ∀ q ∈ ancestors e.1, q ∈ totals.keys) →
      (p ∈ (es.foldl (fun totals e => roll_up totals e.1 e.2) totals).keys ↔ p ∈ totals.keys)
  | [], _, _ => Iff.rfl
  | e :: es, totals, h => by
    have he := h e List.mem_cons_self
    have hkeys {q : List Char} : q ∈ (roll_up totals e.1 e.2).keys ↔ q ∈ totals.keys :=
      mem_keys_roll_up e.2 he.1 he.2
    rw [List.foldl_cons, mem_keys_foldl_roll_up, hkeys]
    intro d hd
    have hd' := h d (List.mem_cons_of_mem e hd)
    exact ⟨hkeys.mpr hd'.1, fun q hq => hkeys.mpr (hd'.2 q hq)⟩

/-- Every node has its totals. -/
theorem mem_keys_node_totals : p ∈ (node_totals topics).keys ↔ Node topics p := by
  have hregister {q : List Char} : q ∈ (register topics).keys ↔ Node topics q := by
    unfold register
    rw [mem_keys_register]
    exact or_iff_left List.not_mem_nil
  unfold node_totals
  rw [mem_keys_foldl_roll_up, hregister]
  intro e he
  have hkey : e.1 ∈ topics.keys := List.mem_map_of_mem he
  exact ⟨hregister.mpr ⟨e.1, hkey, .inl rfl⟩, fun q hq => hregister.mpr ⟨e.1, hkey, .inr hq⟩⟩

theorem visible_iff : visible expanded p = true ↔ ∀ q ∈ ancestors p, q ∈ expanded := by
  unfold visible
  simp only [List.all_eq_true, decide_eq_true_eq]

theorem paths_eq : (tree_lines topics expanded).map TreeLine.path =
    (node_totals topics).keys.filter (visible expanded) := by
  unfold tree_lines Ordered.keys
  rw [List.map_map, List.filter_map]
  rfl

/-- **The nodes that are shown.** -/
theorem mem_lines_iff :
    p ∈ (tree_lines topics expanded).map TreeLine.path ↔ Shown topics expanded p := by
  rw [paths_eq, List.mem_filter, mem_keys_node_totals, visible_iff]
  rfl

theorem sorted_lines :
    ((tree_lines topics expanded).map TreeLine.path).Pairwise (· < ·) := by
  rw [paths_eq]
  exact (node_totals topics).sorted.filter _

theorem line_eq {line : TreeLine} (h : line ∈ tree_lines topics expanded) :
    line = tree_line expanded line.path ((node_totals topics).value line.path) := by
  unfold tree_lines at h
  obtain ⟨e, he, rfl⟩ := List.mem_map.mp h
  show tree_line expanded e.1 e.2 = tree_line expanded e.1 ((node_totals topics).value e.1)
  rw [Ordered.value_of_mem (List.mem_filter.mp he).1]

/-- The numbers of every row are right when the messages of each can be counted. -/
theorem totals_iff : (∀ line ∈ tree_lines topics expanded, Totals topics line) ↔
    ∀ p, Shown topics expanded p → under_sum topics.entries p < 2 ^ 64 := by
  constructor
  · intro h p hp
    obtain ⟨line, hline, rfl⟩ := List.mem_map.mp (mem_lines_iff.mpr hp)
    rw [← (h line hline).count, line_eq hline]
    exact under_lt topics line.path
  · intro h line hline
    have hvalue := totals_value (h line.path (mem_lines_iff.mp (List.mem_map_of_mem hline)))
    have heq := line_eq hline
    rw [hvalue] at heq
    exact ⟨congrArg TreeLine.received heq, congrArg TreeLine.count heq,
      congrArg TreeLine.sub_topics heq⟩

end Rows

/-! ## The order of the rows -/

section Order

variable {topics : Topics} {expanded : List (List Char)} {p s : List Char}

theorem lt_append_cons (p : List Char) (c : Char) (rest : List Char) : p < p ++ c :: rest := by
  induction p with
  | nil => exact List.nil_lt_cons c rest
  | cons a p ih =>
    rw [List.cons_append, List.cons_lt_cons_iff]
    exact .inr ⟨rfl, ih⟩

theorem append_cons_lt {c d : Char} (h : c < d) (rest rest' : List Char) :
    p ++ c :: rest < p ++ d :: rest' := by
  induction p with
  | nil =>
    rw [List.nil_append, List.nil_append, List.cons_lt_cons_iff]
    exact .inl h
  | cons a p ih =>
    rw [List.cons_append, List.cons_append, List.cons_lt_cons_iff]
    exact .inr ⟨rfl, ih⟩

/-- What sorts between a text and one that goes on behind it, goes on behind it too. -/
theorem between_append {p s : List Char} {d : Char} {rest : List Char} (h : p < s)
    (h' : s < p ++ d :: rest) : ∃ c rest', s = p ++ c :: rest' ∧ c ≤ d := by
  induction p generalizing s with
  | nil =>
    cases s with
    | nil => exact absurd h (lt_irrefl _)
    | cons c s =>
      rw [List.nil_append, List.cons_lt_cons_iff] at h'
      exact ⟨c, s, rfl, h'.elim le_of_lt fun h => h.1.le⟩
  | cons a p ih =>
    cases s with
    | nil => exact absurd h (List.not_lt_nil _)
    | cons b s =>
      rw [List.cons_lt_cons_iff] at h
      rw [List.cons_append, List.cons_lt_cons_iff] at h'
      rcases h with h | ⟨rfl, h⟩
      · rcases h' with h' | ⟨rfl, -⟩
        · exact absurd h h'.not_gt
        · exact absurd h (lt_irrefl _)
      · rcases h' with h' | ⟨-, h'⟩
        · exact absurd h' (lt_irrefl _)
        · obtain ⟨c, rest', rfl, hc⟩ := ih h h'
          exact ⟨c, rest', rfl, hc⟩

theorem Shown.ancestor (h : Shown topics expanded s) (hp : p ∈ ancestors s) :
    Shown topics expanded p := by
  obtain ⟨⟨t, ht, hwhere⟩, hopen⟩ := h
  refine ⟨⟨t, ht, .inr ?_⟩, fun q hq => hopen q (mem_ancestors_trans hq hp)⟩
  rcases hwhere with rfl | hwhere
  · exact hp
  · exact mem_ancestors_trans hp hwhere

/-- An open node that is shown shows a child, if there is something below it. -/
theorem exists_shown_child (h : Shown topics expanded p) (hopen : p ∈ expanded)
    {t : List Char} (ht : t ∈ topics.keys) (hp : p ∈ ancestors t) :
    ∃ child, parent_of child = some p ∧ Shown topics expanded child := by
  obtain ⟨child, hchild, hwhere⟩ := exists_child hp
  refine ⟨child, hchild, ⟨t, ht, hwhere⟩, fun q hq => ?_⟩
  rw [ancestors_eq, hchild] at hq
  rcases List.mem_cons.mp hq with rfl | hq
  · exact hopen
  · exact h.2 q hq

/-- Nothing that is shown sorts between an open node and what is below it, without being below
it. -/
def Clear (topics : Topics) (expanded : List (List Char)) : Prop :=
  ∀ p s, Shown topics expanded p → Shown topics expanded s → p ∈ expanded →
    (∃ c rest, s = p ++ c :: rest ∧ c < '/') → ∀ t ∈ topics.keys, p ∉ ancestors t

/-- **The list is in depth-first order** where nothing sorts between a node and its children. -/
theorem depth_first_iff :
    DepthFirst ((tree_lines topics expanded).map TreeLine.path) ↔ Clear topics expanded := by
  constructor
  · rintro h p s hp hs hopen ⟨c, rest, rfl, hc⟩ t ht hbelow
    obtain ⟨child, hchild, hshown⟩ := exists_shown_child hp hopen ht hbelow
    obtain ⟨rest', rfl⟩ := mem_ancestors.mp (parent_of_eq_some hchild)
    obtain ⟨before, between, after, hpaths, hbetween⟩ :=
      h _ (mem_lines_iff.mpr hshown) p hchild
    -- The row that sorts between the two stands between them, so it would have to be below.
    have hsorted := @sorted_lines topics expanded
    have hmem := mem_lines_iff.mpr hs
    rw [hpaths] at hsorted hmem
    have hin := hsorted.mem_between hmem (lt_append_cons p c rest) (append_cons_lt hc rest rest')
    obtain ⟨rest'', heq⟩ := mem_ancestors.mp (hbetween _ hin)
    have hcs := (List.cons.inj (List.append_cancel_left heq)).1
    exact absurd hc (hcs ▸ lt_irrefl _)
  · intro h child hchild p hp
    have hshown := mem_lines_iff.mp hchild
    have hmem := parent_of_eq_some hp
    obtain ⟨rest, hrest⟩ := mem_ancestors.mp hmem
    have hparent := hshown.ancestor hmem
    obtain ⟨before, between, after, hpaths, hbetween⟩ :=
      sorted_lines.exists_between (mem_lines_iff.mpr hparent) hchild
        (hrest ▸ lt_append_cons p '/' rest)
    refine ⟨before, between, after, hpaths, fun s hs => ?_⟩
    obtain ⟨hs, hps, hschild⟩ := (hbetween s).mp hs
    rw [hrest] at hschild
    obtain ⟨c, rest', rfl, hc⟩ := between_append hps hschild
    rcases hc.lt_or_eq with hc | rfl
    · obtain ⟨⟨t, ht, hwhere⟩, hopen⟩ := hshown
      have hbelow : p ∈ ancestors t := by
        rcases hwhere with rfl | hwhere
        · exact hmem
        · exact mem_ancestors_trans hmem hwhere
      exact absurd hbelow (h p _ hparent (mem_lines_iff.mp hs) (hopen p hmem)
        ⟨c, rest', rfl, hc⟩ t ht)
    · exact mem_ancestors.mpr ⟨rest', rfl⟩

end Order

/-- **The topics whose list is right.** -/
theorem tree_lines_iff (topics : Topics) (expanded : List (List Char)) :
    Shows topics expanded (tree_lines topics expanded) ↔ Clear topics expanded ∧
      ∀ p, Shown topics expanded p → under_sum topics.entries p < 2 ^ 64 :=
  ⟨fun h => ⟨depth_first_iff.mp h.depth_first, totals_iff.mp h.totals⟩, fun h =>
    { rows := fun _ => mem_lines_iff
      once := sorted_lines.imp fun hlt => hlt.ne
      depth_first := depth_first_iff.mpr h.1
      totals := totals_iff.mpr h.2 }⟩

/-- A topic and two that begin with its name. -/
def dashed_topics : Topics :=
  ((default : Topics).modify_or_default "a/b".toList fun _ => 1).modify_or_default "a-c".toList
    fun _ => 1

/-- `a-c` is listed between `a` and `a/b`. -/
theorem dashed_not_shown :
    ¬ Shows dashed_topics ["a".toList] (tree_lines dashed_topics ["a".toList]) := by
  intro h
  have hpaths : (tree_lines dashed_topics ["a".toList]).map TreeLine.path =
      ["a".toList, "a-c".toList, "a/b".toList] := by decide +kernel
  have hclear := depth_first_iff.mp h.depth_first
  have hshown {p : List Char} (hp : p ∈ ["a".toList, "a-c".toList, "a/b".toList]) :
      Shown dashed_topics ["a".toList] p := mem_lines_iff.mp (hpaths ▸ hp)
  exact hclear "a".toList "a-c".toList (hshown (by decide)) (hshown (by decide)) (by decide)
    ⟨'-', ['c'], rfl, by decide⟩ "a/b".toList (by decide +kernel) (by decide)

end WaSSH.Mqtt
