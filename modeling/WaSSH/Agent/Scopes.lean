import WaSSH.Agent.Decisions
import WaSSH.Agent.Globs
import WaSSH.Lib.Lines

/-!
# The scopes of an approval

Saved as a rule, a scope has to match the command it was offered for: a scope of words the commands
that begin with these words, the last one this command only.

* `run_command_approving`: the commands scopes are offered for;
* `scope_matches_iff`, `words_of_begins`: what a scope of words matches;
* `exact_matches_iff`, `exact_only_iff`: what the last scope matches;
* `decide_add_allow_iff`: one more rule that allows, where nothing denies;
* **`scopes_iff`**: the commands for which the scopes do what they have to.
-/

namespace WaSSH.Agent

open Anchored

/-- Scopes are offered for commands without blanks around them. -/
theorem run_command_approving {env : Env} {a : Agent} {call call' : ApiToolCall} {turn : ℕ}
    {engine : Engine} {command : List Char} {scopes : List ApprovalScope}
    (h : (run_command env a call turn engine).outcome = .park (.approving call' command scopes)) :
    (∃ text, command = Text.trim text) ∧ command ≠ [] ∧ scopes = approval_scopes command := by
  unfold run_command at h
  split at h
  · cases h
  · rename_i given hgiven
    obtain ⟨hsome, hne⟩ := Option.filter_eq_some_iff.mp hgiven
    obtain ⟨text, -, htext⟩ := Option.map_eq_some_iff.mp hsome
    dsimp only at h
    split at h
    · unfold exec_command at h
      split at h
      · cases h
      · split at h <;> cases h
    · cases h
    · cases h
      exact ⟨⟨_, htext.symm⟩, of_decide_eq_true hne, rfl⟩

/-- The rule of the scope matches. -/
def scope_matches (engine : Engine) (s : ApprovalScope) (t : List Char) : Prop :=
  (rule_to_regexp engine s.pattern).any (engine.is_match · t)

variable {engine : Engine} {command : List Char} {s : ApprovalScope}

/-! ## Words -/

/-- The text begins with the words, one space between them and none or one behind. -/
def Begins (text t : List Char) : Prop := t = text ∨ text ++ [' '] <+: t

theorem scope_matches_iff (hdoc : Documented engine) (hs : s ∈ approval_scopes command)
    (hwords : 0 < s.word_count)
    (haccepts : (engine.compile (Pattern.mk (s.text.map .char) .space_or_fin).text).isSome)
    (t : List Char) : scope_matches engine s t ↔ Begins s.text t := by
  obtain ⟨r, hr⟩ := Option.isSome_iff_exists.mp haccepts
  rw [scope_matches, rule_to_regexp_scope engine hs hwords, hr, Option.any_some, hdoc _ r hr]
  exact matches_words s.text t

theorem mem_split_whitespace {t word : List Char} (h : word ∈ Text.split_whitespace t) :
    word ≠ [] ∧ ∀ c ∈ word, Text.is_whitespace c = false := by
  obtain ⟨hmem, hne⟩ := List.mem_filter.mp h
  exact ⟨of_decide_eq_true hne, Lines.not_of_mem_splitOnP hmem⟩

/-- Joined words are the words of the text they begin. -/
theorem words_of_begins {words : List (List Char)} (hne : words ≠ [])
    (hwords : ∀ word ∈ words, word ≠ [] ∧ ∀ c ∈ word, Text.is_whitespace c = false)
    {t : List Char} (h : Begins ([' '].intercalate words) t) :
    ∃ rest, Text.split_whitespace t = words ++ rest := by
  have hsplit : ([' '].intercalate words).splitOnP Text.is_whitespace = words :=
    Lines.splitOnP_intercalate rfl hne fun word hword => (hwords word hword).2
  have hkeep : words.filter (fun word => decide (word ≠ [])) = words :=
    List.filter_eq_self.mpr fun word hword => decide_eq_true (hwords word hword).1
  rcases h with rfl | ⟨rest, rfl⟩
  · refine ⟨[], ?_⟩
    rw [Text.split_whitespace, hsplit, hkeep, List.append_nil]
  · refine ⟨Text.split_whitespace rest, ?_⟩
    rw [Text.split_whitespace, List.append_assoc, List.singleton_append,
      List.splitOnP_append_cons _ _ rfl, hsplit, List.filter_append, hkeep]
    rfl

/-- The scopes of words, one for each number of them. -/
theorem mem_word_scopes (hs : s ∈ approval_scopes command) (hwords : 0 < s.word_count) :
    s.word_count ≤ (Text.split_whitespace command).length ∧
      s.text = [' '].intercalate ((Text.split_whitespace command).take s.word_count) := by
  rcases List.mem_append.mp hs with hs | hs
  · obtain ⟨count, hcount, rfl⟩ := List.mem_map.mp hs
    obtain ⟨-, hlt⟩ := List.mem_range'_1.mp hcount
    refine ⟨?_, rfl⟩
    show count ≤ _
    omega
  · rw [List.mem_singleton.mp hs] at hwords
    exact absurd hwords (Nat.lt_irrefl 0)

/-- What begins with the words of a scope has them as its first words. -/
theorem first_words_of_begins (hs : s ∈ approval_scopes command) (hwords : 0 < s.word_count)
    {t : List Char} (h : Begins s.text t) : (Text.split_whitespace t).take s.word_count =
      (Text.split_whitespace command).take s.word_count := by
  obtain ⟨hle, htext⟩ := mem_word_scopes hs hwords
  have hlength : ((Text.split_whitespace command).take s.word_count).length = s.word_count := by
    rw [List.length_take, Nat.min_eq_left hle]
  rw [htext] at h
  obtain ⟨rest, hrest⟩ := words_of_begins (List.ne_nil_of_length_pos (hwords.trans_eq hlength.symm))
    (fun word hword => mem_split_whitespace (List.mem_of_mem_take hword)) h
  rw [hrest]
  exact List.take_left' hlength

/-! ## The exact command -/

theorem Filled.refl {p : Char → Prop} (hp : p '*') (line : List Char) : Filled p line line := by
  induction line with
  | nil => exact .nil
  | cons c line ih =>
    by_cases hc : c = '*'
    · subst hc
      exact .star ['*'] (fun c hc => List.mem_singleton.mp hc ▸ hp) ih
    · exact .char hc ih

theorem Filled.append {p : Char → Prop} {line line' t t' : List Char} (h : Filled p line t)
    (h' : Filled p line' t') : Filled p (line ++ line') (t ++ t') := by
  induction h with
  | nil => exact h'
  | char hc _ ih => exact .char hc ih
  | star text htext _ ih =>
    rw [List.append_assoc]
    exact .star text htext ih

/-- Without `*` a glob stands for itself only. -/
theorem filled_only_iff {p : Char → Prop} (hp : p '*') {line : List Char} :
    (∀ t, Filled p line t ↔ t = line) ↔ '*' ∉ line := by
  constructor
  · intro honly hmem
    obtain ⟨before, after, rfl⟩ := List.append_of_mem hmem
    have htwo : Filled p ('*' :: after) (['*', '*'] ++ after) := by
      refine .star _ (fun c hc => ?_) (.refl hp after)
      rcases List.mem_cons.mp hc with rfl | hc
      · exact hp
      · exact List.mem_singleton.mp hc ▸ hp
    have hlength := congrArg List.length ((honly _).mp ((Filled.refl hp before).append htwo))
    simp only [List.length_append, List.length_cons] at hlength
    omega
  · intro hnone t
    constructor
    · intro h
      induction h with
      | nil => rfl
      | char _ _ ih => rw [ih fun hmem => hnone (List.mem_cons_of_mem _ hmem)]
      | star => exact absurd List.mem_cons_self hnone
    · rintro rfl
      exact .refl hp t

/-- What the rule matches that is the command itself. -/
def ExactMatches (engine : Engine) (command t : List Char) : Prop :=
  is_comment_line command = false ∧
    match Text.strip_prefix RULE_REGEX_PREFIX command with
    | some source =>
      Text.trim source ≠ [] ∧ (engine.compile (Text.trim source)).any (engine.is_match · t)
    | none => Filled (· ≠ '\n') command t

theorem strip_prefix_of_glob (h : IsGlob command) :
    Text.strip_prefix RULE_REGEX_PREFIX command = none := by
  unfold Text.strip_prefix Text.starts_with
  exact if_neg fun hpre => h.2 (List.isPrefixOf_iff_prefix.mp hpre)

theorem exact_matches_iff (hdoc : Documented engine) (htrim : Text.trim command = command)
    (haccepts : IsGlob command → (engine.compile (glob_pattern command).text).isSome)
    (t : List Char) :
    scope_matches engine ⟨0, command, command⟩ t ↔ ExactMatches engine command t := by
  unfold scope_matches ExactMatches
  by_cases hcomment : is_comment_line command = true
  · have hnone : rule_to_regexp engine command = none := by
      unfold rule_to_regexp
      dsimp only
      rw [htrim, if_pos hcomment]
    show (rule_to_regexp engine command).any _ = true ↔ _
    rw [hnone, hcomment]
    exact iff_of_false Bool.false_ne_true fun h => Bool.noConfusion h.1
  have hfalse := Bool.eq_false_iff.mpr hcomment
  rw [and_iff_right hfalse]
  by_cases hpre : RULE_REGEX_PREFIX <+: command
  · obtain ⟨source, rfl⟩ := hpre
    rw [Text.strip_prefix_append]
    dsimp only
    unfold rule_to_regexp
    dsimp only
    rw [htrim, if_neg hcomment, Text.strip_prefix_append]
    dsimp only
    by_cases hsource : Text.trim source = []
    · rw [if_pos hsource]
      exact iff_of_false Bool.false_ne_true fun h => h.1 hsource
    · rw [if_neg hsource, and_iff_right hsource]
  · have hglob : IsGlob command := ⟨hfalse, hpre⟩
    rw [strip_prefix_of_glob hglob]
    have hmatch := @glob_matches_iff _ hdoc command (by rwa [htrim])
      (by rw [htrim]; exact haccepts hglob) t
    rw [htrim] at hmatch
    exact hmatch

/-- The exact command is not taken for a comment; where it is taken for a regular expression, that
one matches just the command; and else it has no `*`. -/
def ExactOnly (engine : Engine) (command : List Char) : Prop :=
  is_comment_line command = false ∧
    match Text.strip_prefix RULE_REGEX_PREFIX command with
    | some source => Text.trim source ≠ [] ∧
      ∀ t, (engine.compile (Text.trim source)).any (engine.is_match · t) ↔ t = command
    | none => '*' ∉ command

theorem exact_only_iff : (∀ t, ExactMatches engine command t ↔ t = command) ↔
    ExactOnly engine command := by
  unfold ExactMatches ExactOnly
  cases is_comment_line command with
  | true => exact iff_of_false (fun h => Bool.noConfusion ((h command).mpr rfl).1) nofun
  | false =>
    simp only [true_and]
    cases Text.strip_prefix RULE_REGEX_PREFIX command with
    | none => exact filled_only_iff (by decide)
    | some source =>
      dsimp only
      constructor
      · intro h
        have hsource := ((h command).mpr rfl).1
        exact ⟨hsource, fun t => by rw [← h t, and_iff_right hsource]⟩
      · rintro ⟨hsource, h⟩ t
        rw [and_iff_right hsource, h t]

/-- The exact command is not taken for a comment, and where it is taken for a regular expression,
that one matches it. -/
def ExactSelf (engine : Engine) (command : List Char) : Prop :=
  is_comment_line command = false ∧ ∀ source,
    Text.strip_prefix RULE_REGEX_PREFIX command = some source →
      Text.trim source ≠ [] ∧ (engine.compile (Text.trim source)).any (engine.is_match · command)

theorem exact_self_iff : ExactMatches engine command command ↔ ExactSelf engine command := by
  unfold ExactMatches ExactSelf
  cases Text.strip_prefix RULE_REGEX_PREFIX command with
  | none => exact and_congr_right fun _ => iff_of_true (.refl (by decide) command) nofun
  | some source =>
    refine and_congr_right fun _ => ⟨fun h source' heq => ?_, fun h => h source rfl⟩
    rwa [← Option.some.inj heq]

/-! ## One more rule -/

/-- No rule that denies matches. -/
def RuleLists.NoDeny (engine : Engine) (lists : RuleLists) (command : List Char) : Prop :=
  ¬ matches_any engine (some (lists.extra_deny ++ lists.host_deny.getD [])) command ∧
    ¬ matches_any engine lists.app_deny command

theorem matches_any_append (rules rules' : List (List Char)) :
    matches_any engine (some (rules ++ rules')) command ↔
      matches_any engine (some rules) command ∨ matches_any engine (some rules') command := by
  show (rules ++ rules').any _ = true ↔ _
  rw [List.any_append, Bool.or_eq_true]
  rfl

theorem matches_any_with_rule (n : ℕ) (rule : List Char) (rules : List (List Char)) :
    matches_any engine (some (with_rule n rule rules)) command ↔
      matches_any engine (some rules) command ∨
        (rule_to_regexp engine rule).any (engine.is_match · command) := by
  have hcons : matches_any engine (some (rule :: rules.drop n)) command ↔
      (rule_to_regexp engine rule).any (engine.is_match · command) ∨
        matches_any engine (some (rules.drop n)) command := by
    unfold matches_any
    dsimp only
    rw [List.any_cons, Bool.or_eq_true]
  rw [with_rule, matches_any_append, hcons]
  conv_rhs => rw [← List.take_append_drop n rules, matches_any_append]
  tauto

/-- Where nothing denies, a command is allowed if a rule of any list allows it. -/
theorem decide_eq_allow_iff {lists : RuleLists} (h : lists.NoDeny engine command) :
    lists.decide engine command = .allow ↔
      matches_any engine (some (lists.extra_allow ++ lists.host_allow.getD [])) command ∨
        matches_any engine lists.app_allow command := by
  unfold RuleLists.decide decide_command
  rw [if_neg h.1]
  by_cases hfirst :
      matches_any engine (some (lists.extra_allow ++ lists.host_allow.getD [])) command
  · rw [if_pos hfirst]
    exact iff_of_true rfl (.inl hfirst)
  rw [if_neg hfirst, if_neg h.2]
  by_cases happ : matches_any engine lists.app_allow command
  · rw [if_pos happ]
    exact iff_of_true rfl (.inr happ)
  · rw [if_neg happ]
    exact iff_of_false nofun fun hor => hor.elim hfirst happ

theorem decide_add_allow_iff {lists : RuleLists} (h : lists.NoDeny engine command)
    (place : RuleLayer) (n : ℕ) (rule : List Char) :
    (lists.add_allow place n rule).decide engine command = .allow ↔
      lists.decide engine command = .allow ∨
        (rule_to_regexp engine rule).any (engine.is_match · command) := by
  have hadd : (lists.add_allow place n rule).NoDeny engine command := by
    cases place <;> exact h
  rw [decide_eq_allow_iff hadd, decide_eq_allow_iff h, matches_any_append, matches_any_append]
  cases place with
  | host =>
    show (_ ∨ matches_any engine (some (with_rule _ _ _)) command) ∨ _ ↔ _
    rw [matches_any_with_rule]
    tauto
  | app =>
    show _ ∨ matches_any engine (some (with_rule _ _ _)) command ↔ _
    rw [matches_any_with_rule, matches_any_getD lists.app_allow]
    tauto
  | extra =>
    show (matches_any engine (some (with_rule _ _ _)) command ∨ _) ∨ _ ↔ _
    rw [matches_any_with_rule]
    tauto

/-! ## Main result -/

/-- The engine takes the rules of the scopes. -/
def AcceptsScopes (engine : Engine) (command : List Char) : Prop :=
  (∀ s ∈ approval_scopes command, 0 < s.word_count →
      (engine.compile (Pattern.mk (s.text.map .char) .space_or_fin).text).isSome) ∧
    (IsGlob command → (engine.compile (glob_pattern command).text).isSome)

/-- The first words of the text are those the scope is for. -/
def SameWords (command : List Char) (s : ApprovalScope) (t : List Char) : Prop :=
  (Text.split_whitespace t).take s.word_count =
    (Text.split_whitespace command).take s.word_count

theorem exact_scope (hs : s ∈ approval_scopes command) (hwords : s.word_count = 0) :
    s = ⟨0, command, command⟩ := by
  rcases List.mem_append.mp hs with hs | hs
  · obtain ⟨count, hcount, rfl⟩ := List.mem_map.mp hs
    obtain ⟨hle, -⟩ := List.mem_range'_1.mp hcount
    have hzero : count = 0 := hwords
    omega
  · exact List.mem_singleton.mp hs

/-- **The scopes** do what they have to exactly where the words stand apart by single spaces, and
where the command is no comment, no regular expression and has no `*`. -/
theorem scopes_iff (hdoc : Documented engine) (htrim : Text.trim command = command)
    (haccepts : AcceptsScopes engine command) :
    (∀ s ∈ approval_scopes command, 0 < s.word_count → ∀ t,
      (scope_matches engine s t ↔ SameWords command s t) ↔
        (SameWords command s t → Begins s.text t)) ∧
    (∀ s ∈ approval_scopes command, s.word_count = 0 →
      ((∀ t, scope_matches engine s t ↔ t = command) ↔ ExactOnly engine command)) ∧
    ∀ lists : RuleLists, lists.NoDeny engine command →
      ∀ (place : RuleLayer) (n : ℕ), ∀ s ∈ approval_scopes command,
        (lists.add_allow place n s.pattern).decide engine command = .allow ↔
          lists.decide engine command = .allow ∨
            if 0 < s.word_count then Begins s.text command else ExactSelf engine command := by
  refine ⟨fun s hs hwords t => ?_, fun s hs hzero => ?_, fun lists hdeny place n s hs => ?_⟩
  · rw [scope_matches_iff hdoc hs hwords (haccepts.1 s hs hwords)]
    exact ⟨fun hsame => hsame.mpr, fun h => ⟨first_words_of_begins hs hwords, h⟩⟩
  · rw [exact_scope hs hzero, ← exact_only_iff]
    exact forall_congr' fun t => by rw [exact_matches_iff hdoc htrim haccepts.2]
  · rw [decide_add_allow_iff hdeny]
    refine or_congr_right ?_
    show scope_matches engine s command ↔ _
    by_cases hwords : 0 < s.word_count
    · rw [if_pos hwords]
      exact scope_matches_iff hdoc hs hwords (haccepts.1 s hs hwords) command
    · rw [if_neg hwords, exact_scope hs (by omega), exact_matches_iff hdoc htrim haccepts.2]
      exact exact_self_iff

/-- `git push` is allowed by the scope of its first word. -/
theorem scopes_iff_git :
    (RuleLists.add_allow {} .extra 0 (word_scope ["git".toList, "push".toList] 1).pattern).decide
      anchored "git push".toList = .allow :=
  ((@scopes_iff anchored "git push".toList documented_anchored (by decide +kernel)
      ⟨by decide +kernel, by decide +kernel⟩).2.2 {} ⟨by decide, by decide⟩ .extra 0 _
    (List.mem_append_left _ (List.mem_map.mpr ⟨1, by decide +kernel, rfl⟩))).mpr
    (.inr (.inr ⟨"push".toList, by decide +kernel⟩))

/-- With two spaces the scope of two words does not match the command it is offered for. -/
theorem two_spaces : Text.trim "git  push".toList = "git  push".toList ∧
    RuleLists.NoDeny anchored {} "git  push".toList ∧ ∃ s ∈ approval_scopes "git  push".toList,
      (RuleLists.add_allow {} .extra 0 s.pattern).decide anchored "git  push".toList ≠ .allow :=
  ⟨by decide +kernel, ⟨by decide, by decide⟩, word_scope ["git".toList, "push".toList] 2,
    List.mem_append_left _ (List.mem_map.mpr ⟨2, by decide +kernel, rfl⟩), by decide +kernel⟩

end WaSSH.Agent
