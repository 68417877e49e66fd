import WaSSH.Agent.Machine
import WaSSH.Lib.Layers

/-!
# The layers of the rules

The session's rules and the host's are one layer, the application's the next.

* `RuleLists`, `RuleLists.decide`, `RuleLists.add`: the six lists as one value, and one more rule in
  one of them;
* `RuleLists.layers`, `decide_eq_answer`: the decision is that of the first layer with an answer;
* `decide_add_deny`, `decide_add_allow`: one more rule;
* `advance_rules`, `allow_everything_rules`: running a tool changes no list;
* **`decide_by_layers`**: the precedence of the six lists.
-/

set_option linter.dupNamespace false

namespace WaSSH.Agent

open Layers

/-! ## The six lists -/

/-- The rule lists a command is decided by. -/
structure RuleLists where
  host_allow : Option (List (List Char)) := none
  host_deny : Option (List (List Char)) := none
  app_allow : Option (List (List Char)) := none
  app_deny : Option (List (List Char)) := none
  extra_allow : List (List Char) := []
  extra_deny : List (List Char) := []

/-- One more rule in a list, behind the first `n` of it. -/
def with_rule (n : ℕ) (rule : List Char) (rules : List (List Char)) : List (List Char) :=
  rules.take n ++ rule :: rules.drop n

/-- Whose rules they are. -/
inductive RuleLayer
  | host
  | app
  | extra

namespace RuleLists

variable (engine : Anchored.Engine) (lists : RuleLists)

def decide (command : List Char) : RuleDecision :=
  decide_command engine command lists.host_allow lists.host_deny lists.app_allow lists.app_deny
    lists.extra_allow lists.extra_deny

def add_deny (place : RuleLayer) (n : ℕ) (rule : List Char) : RuleLists :=
  match place with
  | .host => { lists with host_deny := some (with_rule n rule (lists.host_deny.getD [])) }
  | .app => { lists with app_deny := some (with_rule n rule (lists.app_deny.getD [])) }
  | .extra => { lists with extra_deny := with_rule n rule lists.extra_deny }

def add_allow (place : RuleLayer) (n : ℕ) (rule : List Char) : RuleLists :=
  match place with
  | .host => { lists with host_allow := some (with_rule n rule (lists.host_allow.getD [])) }
  | .app => { lists with app_allow := some (with_rule n rule (lists.app_allow.getD [])) }
  | .extra => { lists with extra_allow := with_rule n rule lists.extra_allow }

/-! ## Layers -/

/-- The layer of some lists of rules: a rule of any of them that matches answers. -/
def layer (deny allow : List (List Char)) : Layer (List Char) :=
  ⟨matches_any engine (some deny), matches_any engine (some allow)⟩

/-- The session's and the host's rules, then the application's. -/
def layers : List (Layer (List Char)) :=
  [layer engine (lists.extra_deny ++ lists.host_deny.getD [])
      (lists.extra_allow ++ lists.host_allow.getD []),
    layer engine (lists.app_deny.getD []) (lists.app_allow.getD [])]

end RuleLists

/-- The decision an answer stands for. -/
def RuleDecision.of_answer : Option Bool → RuleDecision
  | some true => .allow
  | some false => .deny
  | none => .ask

variable {engine : Anchored.Engine} {command rule : List Char}

theorem matches_any_getD (rules : Option (List (List Char))) :
    matches_any engine rules command = matches_any engine (some (rules.getD [])) command := by
  cases rules <;> rfl

/-- **The first layer with an answer** decides. -/
theorem decide_eq_answer (lists : RuleLists) (command : List Char) :
    lists.decide engine command = .of_answer (answer (lists.layers engine) command) := by
  unfold RuleLists.decide decide_command RuleLists.layers
  rw [matches_any_getD lists.app_deny, matches_any_getD lists.app_allow]
  rw [answer_cons, answer_cons]
  unfold Layer.answer RuleLists.layer
  dsimp only
  by_cases hdeny : matches_any engine (some (lists.extra_deny ++ lists.host_deny.getD [])) command
  · rw [if_pos hdeny, if_pos hdeny]
    rfl
  rw [if_neg hdeny, if_neg hdeny]
  by_cases hallow : matches_any engine (some (lists.extra_allow ++ lists.host_allow.getD [])) command
  · rw [if_pos hallow, if_pos hallow]
    rfl
  rw [if_neg hallow, if_neg hallow, Option.none_or]
  by_cases happ : matches_any engine (some (lists.app_deny.getD [])) command
  · rw [if_pos happ, if_pos happ]
    rfl
  rw [if_neg happ, if_neg happ]
  by_cases happ : matches_any engine (some (lists.app_allow.getD [])) command
  · rw [if_pos happ, if_pos happ]
    rfl
  · rw [if_neg happ, if_neg happ]
    rfl

/-! ## One more rule -/

/-- What some rules match they match with one more among them. -/
theorem matches_any_mono {rules rules' : List (List Char)} (h : ∀ r ∈ rules, r ∈ rules')
    (hmatch : matches_any engine (some rules) command = true) :
    matches_any engine (some rules') command = true := by
  obtain ⟨r, hr, hcommand⟩ := List.any_eq_true.mp hmatch
  exact List.any_eq_true.mpr ⟨r, h r hr, hcommand⟩

theorem mem_with_rule {n : ℕ} {r : List Char} {rules : List (List Char)} (h : r ∈ rules) :
    r ∈ with_rule n rule rules := by
  rw [← List.take_append_drop n rules] at h
  rcases List.mem_append.mp h with h | h
  · exact List.mem_append_left _ h
  · exact List.mem_append_right _ (List.mem_cons_of_mem _ h)

theorem more_deny (lists : RuleLists) (place : RuleLayer) (n : ℕ) (rule command : List Char) :
    List.Forall₂ (MoreDeny command) (lists.layers engine)
      ((lists.add_deny place n rule).layers engine) := by
  have hsame (l : Layer (List Char)) : MoreDeny command l l := ⟨id, rfl⟩
  cases place with
  | host =>
    refine .cons ⟨matches_any_mono fun r hr => ?_, rfl⟩ (.cons (hsame _) .nil)
    rcases List.mem_append.mp hr with hr | hr
    · exact List.mem_append_left _ hr
    · exact List.mem_append_right _ (mem_with_rule hr)
  | app => exact .cons (hsame _) (.cons ⟨matches_any_mono fun r hr => mem_with_rule hr, rfl⟩ .nil)
  | extra =>
    refine .cons ⟨matches_any_mono fun r hr => ?_, rfl⟩ (.cons (hsame _) .nil)
    rcases List.mem_append.mp hr with hr | hr
    · exact List.mem_append_left _ (mem_with_rule hr)
    · exact List.mem_append_right _ hr

theorem more_allow (lists : RuleLists) (place : RuleLayer) (n : ℕ) (rule command : List Char) :
    List.Forall₂ (MoreAllow command) (lists.layers engine)
      ((lists.add_allow place n rule).layers engine) := by
  have hsame (l : Layer (List Char)) : MoreAllow command l l := ⟨rfl, id⟩
  cases place with
  | host =>
    refine .cons ⟨rfl, matches_any_mono fun r hr => ?_⟩ (.cons (hsame _) .nil)
    rcases List.mem_append.mp hr with hr | hr
    · exact List.mem_append_left _ hr
    · exact List.mem_append_right _ (mem_with_rule hr)
  | app => exact .cons (hsame _) (.cons ⟨rfl, matches_any_mono fun r hr => mem_with_rule hr⟩ .nil)
  | extra =>
    refine .cons ⟨rfl, matches_any_mono fun r hr => ?_⟩ (.cons (hsame _) .nil)
    rcases List.mem_append.mp hr with hr | hr
    · exact List.mem_append_left _ (mem_with_rule hr)
    · exact List.mem_append_right _ hr

/-- With one more rule that denies the decision stays or becomes a refusal. -/
theorem decide_add_deny (lists : RuleLists) (place : RuleLayer) (n : ℕ) (rule command : List Char) :
    (lists.add_deny place n rule).decide engine command = lists.decide engine command ∨
      (lists.add_deny place n rule).decide engine command = .deny := by
  rw [decide_eq_answer, decide_eq_answer]
  rcases answer_more_deny (more_deny lists place n rule command) with h | h
  · exact .inl (by rw [h])
  · exact .inr (by rw [h]; rfl)

/-- With one more rule that allows the decision stays or becomes a permission. -/
theorem decide_add_allow (lists : RuleLists) (place : RuleLayer) (n : ℕ) (rule command : List Char) :
    (lists.add_allow place n rule).decide engine command = lists.decide engine command ∨
      (lists.add_allow place n rule).decide engine command = .allow := by
  rw [decide_eq_answer, decide_eq_answer]
  rcases answer_more_allow (more_allow lists place n rule command) with h | h
  · exact .inl (by rw [h])
  · exact .inr (by rw [h]; rfl)

/-! ## The agent's lists -/

namespace Agent

/-- The lists as the agent has them. -/
def rules (a : Agent) : RuleLists :=
  ⟨some a.host_allow, some a.host_deny, some a.app_allow, some a.app_deny, a.session_allow,
    a.session_deny⟩

theorem decide_rules (a : Agent) (command : List Char) :
    a.decide engine command = a.rules.decide engine command := rfl

variable (env : Env)

/-- **Running calls** changes no list. -/
theorem advance_rules (a : Agent) (queue : List ApiToolCall) :
    (advance env engine a queue).rules = a.rules := by
  induction queue generalizing a with
  | nil => rfl
  | cons call queue ih =>
    unfold advance
    dsimp only
    split
    · rw [ih]
      rfl
    · rfl

theorem settle_rules (a : Agent) (call : ApiToolCall) (turn : ℕ) (label output : List Char)
    (failed : Bool) : (a.settle env engine call turn label output failed).rules = a.rules :=
  advance_rules env (a.record call turn label output failed) a.queue

theorem follow_rules (a : Agent) (call : ApiToolCall) (turn : ℕ) (ran : Ran) :
    (a.follow env engine call turn ran).rules = a.rules := by
  unfold follow
  dsimp only
  split
  · rw [settle_rules]
    rfl
  · rfl

theorem answer_permission_rules (a : Agent) (allow : Bool) :
    (a.answer_permission env engine allow).rules = a.rules := by
  unfold answer_permission
  split
  · dsimp only
    split_ifs
    · rw [follow_rules]
      rfl
    · rw [settle_rules]
      rfl
  · rfl

theorem allow_everything_rules (a : Agent) :
    (a.allow_everything env engine).rules =
      a.rules.add_allow .extra a.session_allow.length ALLOW_ALL_PATTERN := by
  unfold allow_everything
  rw [answer_permission_rules]
  unfold rules RuleLists.add_allow with_rule
  dsimp only
  rw [List.take_length, List.drop_length]

end Agent

/-! ## Main result -/

/-- **The precedence of the lists.** The first layer with an answer decides; what the session or the
host refuses is refused whatever is allowed, also once everything was allowed; one more rule that
denies allows nothing, and one more that allows takes no permission away. -/
theorem decide_by_layers (engine : Anchored.Engine) (command : List Char) :
    (∀ lists : RuleLists, lists.decide engine command =
      .of_answer (answer (lists.layers engine) command)) ∧
    (∀ lists : RuleLists,
      matches_any engine (some (lists.extra_deny ++ lists.host_deny.getD [])) command = true →
        lists.decide engine command = .deny) ∧
    (∀ (env : Env) (a : Agent),
      matches_any engine (some (a.session_deny ++ a.host_deny)) command = true →
        (a.allow_everything env engine).decide engine command = .deny) ∧
    (∀ (lists : RuleLists) (place : RuleLayer) (n : ℕ) (rule : List Char),
      (lists.add_deny place n rule).decide engine command = .allow →
        lists.decide engine command = .allow) ∧
    ∀ (lists : RuleLists) (place : RuleLayer) (n : ℕ) (rule : List Char),
      lists.decide engine command = .allow →
        (lists.add_allow place n rule).decide engine command = .allow := by
  have hdeny (lists : RuleLists)
      (h : matches_any engine (some (lists.extra_deny ++ lists.host_deny.getD [])) command = true) :
      lists.decide engine command = .deny := by
    rw [decide_eq_answer, RuleLists.layers, answer_of_deny h]
    rfl
  refine ⟨fun lists => decide_eq_answer lists command, hdeny, fun env a h => ?_,
    fun lists place n rule h => ?_, fun lists place n rule h => ?_⟩
  · rw [Agent.decide_rules, Agent.allow_everything_rules]
    exact hdeny _ h
  · rcases decide_add_deny lists place n rule command with hsame | hnew
    · exact hsame.symm.trans h
    · rw [hnew] at h
      cases h
  · rcases decide_add_allow lists place n rule command with hsame | hnew
    · exact hsame.trans h
    · exact hnew

end WaSSH.Agent
