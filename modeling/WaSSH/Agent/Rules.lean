import WaSSH.Lib.Pattern
import WaSSH.Lib.Text

/-!
# The command approval rules

A rule is matched against the whole command as one text; the session's and the host's rules come
before the application's, and deny before allow.

* `rule_to_regexp`, `matches_any`: one rule, a list of rules;
* `approval_scopes`: the rules an answer to the approval prompt can save;
* `decide_command`;
* **`allow_begins`**: a command allowed by rules that name its beginning does begin so;
* `simple_commands`: the commands a shell makes of a line, which the rules do not see.
-/

namespace WaSSH.Agent

open Anchored

/-! ## Rules -/

inductive RuleDecision
  | allow
  | deny
  | ask
  deriving DecidableEq

def RULE_REGEX_PREFIX : List Char := "regex:".toList

/-- Pattern matching every command. -/
def ALLOW_ALL_PATTERN : List Char := ['*']

/-- How many leading command words are offered as "starts with" scopes. -/
def APPROVAL_PREFIX_WORD_MAX : ℕ := 4

/-- Comment and empty lines are skipped. -/
def is_comment_line (line : List Char) : Bool := line.isEmpty || Text.starts_with line ['#']

/-- One character of a glob: everything is literal except `*`. -/
def glob_char (c : Char) : List Char :=
  if c = '*' then ".*".toList
  else if ".+?^${}()|[]\\".toList.contains c then ['\\', c]
  else [c]

section Engine

variable (engine : Engine)

/-- Regex for one rule list entry, if it is neither blank nor invalid. -/
def rule_to_regexp (raw : List Char) : Option engine.R :=
  let line := Text.trim raw
  if is_comment_line line then none
  else
    match Text.strip_prefix RULE_REGEX_PREFIX line with
    | some source =>
      let source := Text.trim source
      if source = [] then none else engine.compile source
    | none => engine.compile ('^' :: (line.flatMap glob_char ++ ['$']))

/-- Any entry in `rules` matches `command`. -/
def matches_any (rules : Option (List (List Char))) (command : List Char) : Bool :=
  match rules with
  | none => false
  | some rules => rules.any fun rule => (rule_to_regexp engine rule).any (engine.is_match · command)

/-- Permission decision for one command. -/
def decide_command (command : List Char) (host_allow host_deny app_allow app_deny :
    Option (List (List Char))) (extra_allow extra_deny : List (List Char)) : RuleDecision :=
  if matches_any engine (some (extra_deny ++ host_deny.getD [])) command then .deny
  else if matches_any engine (some (extra_allow ++ host_allow.getD [])) command then .allow
  else if matches_any engine app_deny command then .deny
  else if matches_any engine app_allow command then .allow
  else .ask

end Engine

/-! ## Scopes -/

/-- One "always allow/deny" choice: the leading words its rule would cover, `0` of them for the exact
command, the text shown and the rule saved. -/
structure ApprovalScope where
  word_count : ℕ
  text : List Char
  pattern : List Char

/-- Escape every regex metacharacter, `*` included. -/
def escape_meta (text : List Char) : List Char :=
  text.flatMap fun c => if ".*+?^${}()|[]\\".toList.contains c then ['\\', c] else [c]

/-- The rule that covers the first `count` of the words. -/
def word_scope (words : List (List Char)) (count : ℕ) : ApprovalScope :=
  let text := [' '].intercalate (words.take count)
  ⟨count, text, RULE_REGEX_PREFIX ++ '^' :: (escape_meta text ++ "( |$)".toList)⟩

/-- Rule list entries an "always allow/deny" choice can add for one command. -/
def approval_scopes (command : List Char) : List ApprovalScope :=
  let words := Text.split_whitespace command
  (List.range' 1 (min APPROVAL_PREFIX_WORD_MAX words.length)).map (word_scope words) ++
    [⟨0, command, command⟩]

/-! ## What a rule names -/

/-- A rule that names the beginning of a command: a "starts with" scope of some command, or a glob
that ends in its only `*`. -/
inductive StartRule : List Char → Prop
  | scope {command : List Char} {s : ApprovalScope} (hs : s ∈ approval_scopes command)
    (hwords : 0 < s.word_count) : StartRule s.pattern
  | glob {word : List Char} (hstar : '*' ∉ word)
    (hregex : ¬ RULE_REGEX_PREFIX <+: Text.trim_start word) : StartRule (word ++ ['*'])

/-- The command as a whole begins with the text the rule names: with the words of a scope, up to the
end or a space, or with the literal part of a glob, what follows being on the same line. -/
inductive BeginsBy (line : List Char) : List Char → Prop
  | scope {command : List Char} {s : ApprovalScope} (hs : s ∈ approval_scopes command)
    (hwords : 0 < s.word_count) (h : line = s.text ∨ s.text ++ [' '] <+: line) :
    BeginsBy line s.pattern
  | glob {word rest : List Char} (hstar : '*' ∉ word)
    (h : line = Text.trim_start word ++ rest) (hrest : '\n' ∉ rest) : BeginsBy line (word ++ ['*'])

section Begins

variable {engine : Engine} {rule command : List Char}

theorem trim_eq_self {c d : Char} {t : List Char} (hc : Text.is_whitespace c = false)
    (hd : Text.is_whitespace d = false) : Text.trim (c :: (t ++ [d])) = c :: (t ++ [d]) := by
  have hstart : Text.trim_start (c :: (t ++ [d])) = c :: (t ++ [d]) :=
    List.dropWhile_cons_of_neg (by rw [hc]; exact Bool.false_ne_true)
  rw [Text.trim, hstart, Text.trim_end, ← List.cons_append,
    List.rdropWhile_concat_neg _ _ _ (by rw [hd]; exact Bool.false_ne_true)]

theorem trim_append_star (word : List Char) :
    Text.trim (word ++ ['*']) = Text.trim_start word ++ ['*'] := by
  have hstar : Text.is_whitespace '*' = false := rfl
  have hstart : Text.trim_start (word ++ ['*']) = Text.trim_start word ++ ['*'] := by
    unfold Text.trim_start
    induction word with
    | nil => rfl
    | cons c word ih =>
      rw [List.cons_append, List.dropWhile_cons, List.dropWhile_cons]
      split
      · exact ih
      · rfl
  rw [Text.trim, hstart, Text.trim_end,
    List.rdropWhile_concat_neg _ _ _ (by rw [hstar]; exact Bool.false_ne_true)]

theorem escape_meta_eq (text : List Char) :
    escape_meta text = (text.map Item.char).flatMap Item.text := by
  rw [List.flatMap_map]
  rfl

theorem glob_chars (word : List Char) (h : '*' ∉ word) :
    word.flatMap glob_char = (word.map Item.char).flatMap Item.text := by
  induction word with
  | nil => rfl
  | cons c word ih =>
    rw [List.flatMap_cons, List.map_cons, List.flatMap_cons,
      ih fun hmem => h (List.mem_cons_of_mem _ hmem)]
    have hc : c ≠ '*' := fun hc => h (hc ▸ List.mem_cons_self)
    have hmeta : is_meta c = ".+?^${}()|[]\\".toList.contains c := by
      simp [is_meta, hc]
    rw [glob_char, if_neg hc, Item.text, hmeta]

theorem scope_pattern {s : ApprovalScope} {shown : List Char} (hs : s ∈ approval_scopes shown)
    (hwords : 0 < s.word_count) :
    s.pattern = RULE_REGEX_PREFIX ++ '^' :: (escape_meta s.text ++ "( |$)".toList) := by
  rcases List.mem_append.mp hs with hs | hs
  · obtain ⟨count, -, rfl⟩ := List.mem_map.mp hs
    rfl
  · rw [List.mem_singleton.mp hs] at hwords
    exact absurd hwords (Nat.lt_irrefl 0)

theorem regex_prefix_eq : RULE_REGEX_PREFIX = ['r', 'e', 'g', 'e', 'x', ':'] := by
  decide +kernel

/-- The pattern of a scope of words. -/
theorem rule_to_regexp_scope (engine : Engine) {s : ApprovalScope} {shown : List Char}
    (hs : s ∈ approval_scopes shown) (hwords : 0 < s.word_count) :
    rule_to_regexp engine s.pattern =
      engine.compile (Pattern.mk (s.text.map .char) .space_or_fin).text := by
  have hpattern := scope_pattern hs hwords
  set source := '^' :: (escape_meta s.text ++ "( |$)".toList) with hsource
  have htrim : Text.trim s.pattern = RULE_REGEX_PREFIX ++ source := by
    have hshape : s.pattern = 'r' :: ((['e', 'g', 'e', 'x', ':'] ++
        '^' :: (escape_meta s.text ++ "( |$".toList)) ++ [')']) := by
      rw [hpattern, hsource, regex_prefix_eq]
      simp
    rw [hshape, trim_eq_self rfl rfl, ← hshape, hpattern]
  have hsourcetrim : Text.trim source = source := by
    have hshape : source = '^' :: ((escape_meta s.text ++ "( |$".toList) ++ [')']) := by
      rw [hsource]
      simp
    rw [hshape, trim_eq_self rfl rfl]
  have hcompile : rule_to_regexp engine s.pattern = engine.compile source := by
    unfold rule_to_regexp
    dsimp only
    have hcomment : is_comment_line (RULE_REGEX_PREFIX ++ source) = false := rfl
    rw [htrim, hcomment, if_neg Bool.false_ne_true, Text.strip_prefix_append]
    dsimp only
    rw [hsourcetrim, if_neg (List.cons_ne_nil _ _)]
  have hpat : source = (Pattern.mk (s.text.map .char) .space_or_fin).text := by
    rw [hsource, escape_meta_eq]
    rfl
  rw [hcompile, hpat]

/-- A scope's rule matches what begins with its words. -/
theorem scope_begins (hdoc : Documented engine) {s : ApprovalScope} {shown : List Char}
    (hs : s ∈ approval_scopes shown) (hwords : 0 < s.word_count)
    (h : (rule_to_regexp engine s.pattern).any (engine.is_match · command)) :
    BeginsBy command s.pattern := by
  refine .scope hs hwords ?_
  rw [rule_to_regexp_scope engine hs hwords] at h
  obtain ⟨r, hr, hmatch⟩ := (Option.any_eq_true _ _).mp h
  rwa [hdoc _ r hr, matches_words] at hmatch

/-- A glob matches what begins with its literal part. -/
theorem glob_begins (hdoc : Documented engine) {word : List Char} (hstar : '*' ∉ word)
    (hregex : ¬ RULE_REGEX_PREFIX <+: Text.trim_start word)
    (h : (rule_to_regexp engine (word ++ ['*'])).any (engine.is_match · command)) :
    BeginsBy command (word ++ ['*']) := by
  set start := Text.trim_start word with hstart
  have hnotin : '*' ∉ start := fun hmem => hstar (List.dropWhile_sublist _ |>.mem hmem)
  unfold rule_to_regexp at h
  dsimp only at h
  rw [trim_append_star, ← hstart] at h
  split at h
  · exact nomatch h
  have hstrip : Text.strip_prefix RULE_REGEX_PREFIX (start ++ ['*']) = none := by
    unfold Text.strip_prefix Text.starts_with
    rw [if_neg]
    rw [List.isPrefixOf_iff_prefix]
    intro hpre
    rcases List.prefix_concat_iff.mp hpre with heq | hpre
    · have := congrArg List.getLast? heq
      rw [List.getLast?_concat] at this
      exact absurd this (by decide)
    · exact hregex hpre
  rw [hstrip] at h
  dsimp only at h
  have hpat : '^' :: ((start ++ ['*']).flatMap glob_char ++ ['$']) =
      (Pattern.mk (start.map .char ++ [.any_star]) .fin).text := by
    rw [List.flatMap_append, glob_chars start hnotin, Pattern.text, List.flatMap_append]
    rfl
  rw [hpat] at h
  obtain ⟨r, hr, hmatch⟩ := (Option.any_eq_true _ _).mp h
  rw [hdoc _ r hr, matches_glob] at hmatch
  obtain ⟨rest, hrest, hline⟩ := hmatch
  exact .glob hstar hrest hline

/-- **Some rule of a list that matches names the beginning of the command.** -/
theorem matches_begins (hdoc : Documented engine) {rules : List (List Char)}
    (hrules : ∀ rule ∈ rules, StartRule rule) (h : matches_any engine (some rules) command) :
    ∃ rule ∈ rules, BeginsBy command rule := by
  obtain ⟨rule, hmem, hmatch⟩ := List.any_eq_true.mp h
  refine ⟨rule, hmem, ?_⟩
  cases hrules rule hmem with
  | scope hs hwords => exact scope_begins hdoc hs hwords hmatch
  | glob hstar hregex => exact glob_begins hdoc hstar hregex hmatch

/-- **A command allowed by rules that name its beginning** begins, as a whole, by what one of them
names, and no rule that refuses first matches it. -/
theorem allow_begins (engine : Engine) (hdoc : Documented engine) (command : List Char)
    (host_allow host_deny app_allow app_deny : Option (List (List Char)))
    (extra_allow extra_deny : List (List Char))
    (hrules : ∀ rule ∈ extra_allow ++ host_allow.getD [] ++ app_allow.getD [], StartRule rule)
    (h : decide_command engine command host_allow host_deny app_allow app_deny extra_allow
      extra_deny = .allow) :
    (∃ rule ∈ extra_allow ++ host_allow.getD [] ++ app_allow.getD [], BeginsBy command rule) ∧
      matches_any engine (some (extra_deny ++ host_deny.getD [])) command = false := by
  unfold decide_command at h
  split at h
  · exact nomatch h
  rename_i hdeny
  refine ⟨?_, Bool.eq_false_iff.mpr hdeny⟩
  split at h
  · rename_i hallow
    obtain ⟨rule, hmem, hbegins⟩ :=
      matches_begins hdoc (fun rule hmem => hrules rule (List.mem_append_left _ hmem)) hallow
    exact ⟨rule, List.mem_append_left _ hmem, hbegins⟩
  split at h
  · exact nomatch h
  split at h
  · rename_i hallow
    rcases app_allow with _ | rules
    · exact nomatch hallow
    obtain ⟨rule, hmem, hbegins⟩ :=
      matches_begins hdoc (fun rule hmem => hrules rule (List.mem_append_right _ hmem)) hallow
    exact ⟨rule, List.mem_append_right _ hmem, hbegins⟩
  · exact nomatch h

/-- `ls -la` under the rule `ls*`. -/
theorem allow_begins_ls :
    (∃ rule ∈ ["ls*".toList], BeginsBy "ls -la".toList rule) ∧
      matches_any anchored (some []) "ls -la".toList = false :=
  allow_begins anchored documented_anchored "ls -la".toList none none (some ["ls*".toList]) none
    [] [] (fun rule hmem => by
      have hls : StartRule ("ls".toList ++ ['*']) := .glob (by decide) (by decide)
      rw [List.mem_singleton.mp hmem]
      exact hls) (by decide)

theorem exists_of_begins_glob {line word : List Char} (h : BeginsBy line (word ++ ['*'])) :
    ∃ rest, line = Text.trim_start word ++ rest := by
  generalize hrule : word ++ ['*'] = rule at h
  cases h with
  | @scope shown s hs hwords h =>
    have hshape : s.pattern =
        (RULE_REGEX_PREFIX ++ '^' :: (escape_meta s.text ++ "( |$".toList)) ++ [')'] := by
      rw [scope_pattern hs hwords]
      simp
    rw [hshape] at hrule
    exact absurd (List.append_inj_right' hrule rfl) (by decide)
  | @glob word' rest hstar h hrest =>
    rw [(List.append_inj_left' hrule rfl : word = word')]
    exact ⟨rest, h⟩

end Begins

/-! ## What a shell runs -/

/-- The simple commands of a line: what stands between separators, the marks of a command
substitution being separators too. -/
def simple_commands (line : List Char) : List (List Char) :=
  ((line.splitOnP fun c => ";&|\n`()".toList.contains c).map Text.trim).filter (· ≠ [])

/-- A rule for one program lets another run: `ls; rm -rf /` begins with `ls`. -/
theorem allow_runs_another_program :
    decide_command anchored "ls; rm -rf /".toList none none (some ["ls*".toList]) none [] [] =
        .allow ∧
      ∃ c ∈ simple_commands "ls; rm -rf /".toList, ¬ ∃ rule ∈ ["ls*".toList], BeginsBy c rule := by
  refine ⟨by decide, "rm -rf /".toList, by decide, ?_⟩
  rintro ⟨rule, hmem, hbegins⟩
  rw [List.mem_singleton.mp hmem] at hbegins
  have hglob : BeginsBy "rm -rf /".toList ("ls".toList ++ ['*']) := hbegins
  obtain ⟨rest, hrest⟩ := exists_of_begins_glob hglob
  exact absurd (List.cons.inj hrest).1 (by decide)

end WaSSH.Agent
