import WaSSH.Lib.Text
import Mathlib.Logic.Function.Basic

/-!
# Recreating a container

The script that replaces a container by a fresh one: pull the image, stop the old container and set
its name aside, create and start the replacement, and put the old one back where that fails.

* `Daemon`: the containers by id and by name, and `invoke`;
* `Script`, `exec`, `recreate_script`: the script and what a shell makes of it;
* **`recreate_safe_iff`**: when a replacement runs or the original is back at the end.
-/

namespace WaSSH.Docker

/-! ## The daemon -/

structure Container where
  name : List Char
  running : Bool
  /-- Created with `--rm`: gone when it stops. -/
  auto_remove : Bool
  deriving DecidableEq

/-- What was asked of a container. -/
inductive Ask
  | stop
  | start
  deriving DecidableEq

/-- The containers by id, their ids by name, and what was asked of them. -/
structure Daemon where
  by_id : List Char → Option Container
  by_name : List Char → Option (List Char)
  asked : List (Ask × List Char) := []

/-- The names are those of the containers, and an id has no dash and is no name. -/
structure Daemon.Consistent (d : Daemon) : Prop where
  named : ∀ {i c}, d.by_id i = some c → d.by_name c.name = some i
  names : ∀ {n i}, d.by_name n = some i → ∃ c, d.by_id i = some c ∧ c.name = n
  apart : ∀ {i c}, d.by_id i = some c → d.by_name i = none
  no_dash : ∀ {i c}, d.by_id i = some c → '-' ∉ i

/-- A docker command of the script. A container is given by its id or its name. -/
inductive Command
  | pull (image : List Char)
  | stop (ref : List Char)
  | rename (ref name : List Char)
  | create (name : List Char) (auto_remove : Bool)
  | start (ref : List Char)
  | rm_force (ref : List Char)

namespace Daemon

variable (d : Daemon)

/-- The container a reference denotes. -/
def resolve (ref : List Char) : Option (List Char) :=
  if (d.by_id ref).isSome then some ref else d.by_name ref

def set (i : List Char) (c : Container) : Daemon :=
  { d with by_id := Function.update d.by_id i (some c) }

def remove (i : List Char) (c : Container) : Daemon :=
  { d with
    by_id := Function.update d.by_id i none
    by_name := Function.update d.by_name c.name none }

/-- Add a container under a free name. -/
def add (i : List Char) (c : Container) : Daemon :=
  { d.set i c with by_name := Function.update d.by_name c.name (some i) }

/-- Give a container a free name. -/
def set_name (i : List Char) (c : Container) (name : List Char) : Daemon :=
  { d.set i { c with name } with
    by_name := Function.update (Function.update d.by_name c.name none) name (some i) }

/-- What a command does, with the id a new container gets; `none` if the daemon refuses it. -/
def invoke (fresh : List Char) : Command → Option Daemon
  | .pull _ => some d
  | .stop ref => do
    let i ← d.resolve ref
    let c ← d.by_id i
    if !c.running then some d
    else if c.auto_remove then some (d.remove i c)
    else some (d.set i { c with running := false })
  | .rename ref name => do
    let i ← d.resolve ref
    let c ← d.by_id i
    if (d.by_name name).isSome then none else some (d.set_name i c name)
  | .create name auto_remove =>
    if (d.by_name name).isSome then none else some (d.add fresh ⟨name, false, auto_remove⟩)
  | .start ref => do
    let i ← d.resolve ref
    let c ← d.by_id i
    some (d.set i { c with running := true })
  | .rm_force ref => do
    let i ← d.resolve ref
    let c ← d.by_id i
    some (d.remove i c)

/-- Write down what a command asks of the container it denotes. -/
def ask : Command → Daemon
  | .stop ref => { d with asked := d.asked ++ ((d.resolve ref).map (Ask.stop, ·)).toList }
  | .start ref => { d with asked := d.asked ++ ((d.resolve ref).map (Ask.start, ·)).toList }
  | _ => d

end Daemon

/-! ## The script -/

/-- The invocations of the script. -/
inductive Step
  | pull
  | stop
  | set_aside
  | create
  | start
  | drop_old
  | drop_new
  | put_back
  | restart
  deriving DecidableEq

/-- A shell script of docker invocations. -/
inductive Script
  | exit (status : ℕ)
  /-- A command whose failure ends the script. -/
  | must (step : Step) (command : Command) (rest : Script)
  /-- A command whose failure is ignored. -/
  | ignore (step : Step) (command : Command) (rest : Script)
  /-- `if first && second; then yes; else no; fi`. -/
  | if_both (step : Step) (first : Command) (step' : Step) (second : Command) (yes no : Script)

section Exec

variable (fresh : List Char) (fails : Step → Bool)

/-- One invocation: whether it succeeds, and the daemon after it. -/
def attempt (step : Step) (command : Command) (d : Daemon) : Bool × Daemon :=
  let d := d.ask command
  if fails step then (false, d)
  else match d.invoke fresh command with
    | some d => (true, d)
    | none => (false, d)

/-- What a shell makes of a script: the exit status, and the daemon after it. -/
def exec : Script → Daemon → ℕ × Daemon
  | .exit status, d => (status, d)
  | .must step command rest, d =>
    let (succeeded, d) := attempt fresh fails step command d
    if succeeded then exec rest d else (1, d)
  | .ignore step command rest, d => exec rest (attempt fresh fails step command d).2
  | .if_both step first step' second yes no, d =>
    let (succeeded, d) := attempt fresh fails step first d
    if succeeded then
      let (succeeded, d) := attempt fresh fails step' second d
      if succeeded then exec yes d else exec no d
    else exec no d

end Exec

/-- The fields of a container's inspect output the script depends on. -/
structure Inspect where
  name : List Char
  id : List Char
  image : List Char
  auto_remove : Bool

/-- `Name` without the slash docker puts before it. -/
def Inspect.container_name (document : Inspect) : List Char :=
  Text.trim_start_matches '/' document.name

/-- The name the old container is set aside under. -/
def old_name (name : List Char) : List Char := name ++ "-wassh-old".toList

/-- Start the replacement, or put the old container back. -/
def replace_script (name : List Char) (auto_remove : Bool) : Script :=
  .if_both .create (.create name auto_remove) .start (.start name)
    (.ignore .drop_old (.rm_force (old_name name)) (.exit 0))
    (.ignore .drop_new (.rm_force name)
      (.ignore .put_back (.rename (old_name name) name)
        (.ignore .restart (.start name) (.exit 1))))

/-- The script that replaces a container with a fresh one built from the same configuration. -/
def recreate_script (document : Inspect) : Option Script :=
  let name := document.container_name
  let id := document.id
  if document.image = [] ∨ name = [] ∨ id = [] then none
  else some <|
    .must .pull (.pull document.image) <|
      .ignore .stop (.stop id) <|
        .ignore .set_aside (.rename id (old_name name)) <|
          replace_script name document.auto_remove

/-! ## What has to hold at the end -/

/-- A replacement was created and started. -/
def Replaced (fresh name : List Char) (d : Daemon) : Prop :=
  ∃ c, d.by_id fresh = some c ∧ c.name = name ∧ c.running = true

/-- The last thing asked of a container. -/
def Daemon.last_asked (d : Daemon) (i : List Char) : Option Ask :=
  ((d.asked.filter (·.2 = i)).getLast?).map Prod.fst

/-- The original exists under its name, and if it was asked to stop it was asked to start again. -/
def Restored (id name : List Char) (d : Daemon) : Prop :=
  (∃ c, d.by_id id = some c ∧ c.name = name) ∧ d.last_asked id ≠ some .stop

/-- A replacement runs or the original is back, and it is not removed without one. -/
def Safe (fresh id name : List Char) (d : Daemon) : Prop :=
  (Replaced fresh name d ∨ Restored id name d) ∧ (d.by_id id = none → Replaced fresh name d)

section Condition

variable (fails : Step → Bool)

/-- The replacement is created and starts: at once, or, left in place, at the last command. -/
def Succeeds : Prop :=
  fails .create = false ∧
    (fails .start = false ∨ (fails .drop_new = true ∧ fails .restart = false))

/-- Stopping the original removes it. -/
def StopRemoves (c : Container) : Prop :=
  fails .stop = false ∧ c.running = true ∧ c.auto_remove = true

/-- The original gets out of the way of the replacement's name. -/
def SetsAside (d : Daemon) (name : List Char) : Prop :=
  fails .set_aside = false ∧ d.by_name (old_name name) = none

/-- When the script ends well: it never got past the pull; or stopping removed the original and the
replacement starts; or the original was set aside, and the replacement starts or the original gets
its name back; or it kept its name and was not removed in place of the replacement. -/
def EndsWell (d : Daemon) (c : Container) (name : List Char) : Prop :=
  fails .pull = true ∨
    (StopRemoves fails c ∧ Succeeds fails) ∨
    (¬ StopRemoves fails c ∧ SetsAside fails d name ∧
      (Succeeds fails ∨
        (fails .put_back = false ∧ (fails .create = true ∨ fails .drop_new = false)))) ∨
    (¬ StopRemoves fails c ∧ ¬ SetsAside fails d name ∧ fails .drop_new = true)

end Condition

/-! ## Invocations -/

section Attempt

variable {fresh : List Char} {fails : Step → Bool} {step : Step} {command : Command} {d d' : Daemon}

@[simp] theorem ask_by_id : (d.ask command).by_id = d.by_id := by
  cases command <;> rfl

@[simp] theorem ask_by_name : (d.ask command).by_name = d.by_name := by
  cases command <;> rfl

@[simp] theorem ask_resolve {ref : List Char} : (d.ask command).resolve ref = d.resolve ref := by
  cases command <;> rfl

/-- Only `create` makes a container. -/
theorem invoke_by_id_none {i : List Char} (hi : d.by_id i = none)
    (hcreate : ∀ name auto_remove, command = .create name auto_remove → fresh ≠ i)
    (h : d.invoke fresh command = some d') : d'.by_id i = none := by
  have hne : ∀ {j c}, d.by_id j = some c → i ≠ j := by
    rintro j c hj rfl
    exact nomatch hi.symm.trans hj
  cases command with
  | pull image =>
    cases h
    exact hi
  | stop ref =>
    simp only [Daemon.invoke, Option.bind_eq_bind, Option.bind_eq_some_iff] at h
    obtain ⟨j, -, c, hc, h⟩ := h
    split at h
    · cases h
      exact hi
    · split at h
      · cases h
        simp [Daemon.remove, Function.update_of_ne (hne hc), hi]
      · cases h
        simp [Daemon.set, Function.update_of_ne (hne hc), hi]
  | rename ref name =>
    simp only [Daemon.invoke, Option.bind_eq_bind, Option.bind_eq_some_iff] at h
    obtain ⟨j, -, c, hc, h⟩ := h
    split at h
    · exact nomatch h
    · cases h
      simp [Daemon.set_name, Daemon.set, Function.update_of_ne (hne hc), hi]
  | create name auto_remove =>
    simp only [Daemon.invoke] at h
    split at h
    · exact nomatch h
    · cases h
      simp [Daemon.add, Daemon.set, Function.update_of_ne (hcreate name auto_remove rfl).symm, hi]
  | start ref =>
    simp only [Daemon.invoke, Option.bind_eq_bind, Option.bind_eq_some_iff] at h
    obtain ⟨j, -, c, hc, h⟩ := h
    cases h
    simp [Daemon.set, Function.update_of_ne (hne hc), hi]
  | rm_force ref =>
    simp only [Daemon.invoke, Option.bind_eq_bind, Option.bind_eq_some_iff] at h
    obtain ⟨j, -, c, hc, h⟩ := h
    cases h
    simp [Daemon.remove, Function.update_of_ne (hne hc), hi]

theorem attempt_failed (h : fails step = true) :
    attempt fresh fails step command d = (false, d.ask command) := by
  simp [attempt, h]

theorem attempt_refused (h : (d.ask command).invoke fresh command = none) :
    attempt fresh fails step command d = (false, d.ask command) := by
  simp [attempt, h]

theorem attempt_done (hfails : fails step = false)
    (h : (d.ask command).invoke fresh command = some d') :
    attempt fresh fails step command d = (true, d') := by
  simp [attempt, hfails, h]

theorem attempt_by_id_none {i : List Char} (hi : d.by_id i = none)
    (hcreate : ∀ name auto_remove, command = .create name auto_remove → fresh ≠ i) :
    (attempt fresh fails step command d).2.by_id i = none := by
  cases hfails : fails step with
  | true => simpa [attempt_failed hfails] using hi
  | false =>
    cases h : (d.ask command).invoke fresh command with
    | none => simpa [attempt_refused h] using hi
    | some d' =>
      rw [attempt_done hfails h]
      exact invoke_by_id_none (by simpa using hi) hcreate h

/-- A container started by its name counts as put back, whether or not it starts. -/
theorem attempt_start_restored {i name : List Char} {c : Container} (hi : d.resolve name = some i)
    (hc : d.by_id i = some c) (hname : c.name = name) :
    Restored i name (attempt fresh fails step (.start name) d).2 := by
  have hasked : (d.ask (.start name)).last_asked i = some .start := by
    simp [Daemon.ask, Daemon.last_asked, hi]
  cases hfails : fails step with
  | true =>
    rw [attempt_failed hfails]
    refine ⟨⟨c, by simpa using hc, hname⟩, ?_⟩
    simp [hasked]
  | false =>
    have hstart : (d.ask (.start name)).invoke fresh (.start name) =
        some ((d.ask (.start name)).set i { c with running := true }) := by
      simp [Daemon.invoke, hi, hc]
    rw [attempt_done hfails hstart]
    refine ⟨⟨{ c with running := true }, by simp [Daemon.set], hname⟩, ?_⟩
    change (d.ask (.start name)).last_asked i ≠ some .stop
    simp [hasked]

theorem exec_by_id_none {i : List Char} (hne : fresh ≠ i) {script : Script} {d : Daemon}
    (hi : d.by_id i = none) : (exec fresh fails script d).2.by_id i = none := by
  have hstep : ∀ {step command d}, d.by_id i = none →
      (attempt fresh fails step command d).2.by_id i = none :=
    fun h => attempt_by_id_none h fun _ _ _ => hne
  induction script generalizing d with
  | exit status => exact hi
  | must step command rest ih =>
    simp only [exec]
    split
    · exact ih (hstep hi)
    · exact hstep hi
  | ignore step command rest ih => exact ih (hstep hi)
  | if_both step first step' second yes no ih_yes ih_no =>
    simp only [exec]
    split
    · split
      · exact ih_yes (hstep (hstep hi))
      · exact ih_no (hstep (hstep hi))
    · exact ih_no (hstep hi)

/-- Forcing one container out leaves the others. -/
theorem attempt_rm_by_id {ref i : List Char} (h : d.resolve ref ≠ some i) :
    (attempt fresh fails step (.rm_force ref) d).2.by_id i = d.by_id i := by
  cases hfails : fails step with
  | true => simp [attempt_failed hfails]
  | false =>
    cases hinvoke : (d.ask (.rm_force ref)).invoke fresh (.rm_force ref) with
    | none => simp [attempt_refused hinvoke]
    | some d' =>
      rw [attempt_done hfails hinvoke]
      simp only [Daemon.ask, Daemon.invoke, Option.bind_eq_bind, Option.bind_eq_some_iff] at hinvoke
      obtain ⟨j, hj, c, -, h'⟩ := hinvoke
      cases h'
      have hne : i ≠ j := by
        rintro rfl
        exact h hj
      simp [Daemon.remove, Function.update_of_ne hne]

end Attempt

/-! ## The three ways the original can stand -/

theorem old_name_ne (name : List Char) : old_name name ≠ name := by
  intro h
  have := congrArg List.length h
  simp [old_name] at this

/-- The facts about the names that hold throughout: the replacement's id is new, and neither name is an
id. -/
structure Apart (d : Daemon) (fresh id name : List Char) : Prop where
  fresh_new : d.by_id fresh = none
  fresh_ne_id : fresh ≠ id
  fresh_ne_name : fresh ≠ name
  fresh_ne_old : fresh ≠ old_name name
  id_ne_name : id ≠ name
  id_ne_old : id ≠ old_name name
  name_no_id : d.by_id name = none
  old_no_id : d.by_id (old_name name) = none

theorem not_safe_of_gone {fresh id name : List Char} {d : Daemon} (hid : d.by_id id = none)
    (hfresh : d.by_id fresh = none) : ¬ Safe fresh id name d := by
  rintro ⟨-, hsafe⟩
  obtain ⟨c, hc, -⟩ := hsafe hid
  exact nomatch hfresh.symm.trans hc

theorem safe_of_restored {fresh id name : List Char} {d : Daemon} (h : Restored id name d) :
    Safe fresh id name d := by
  refine ⟨.inr h, fun hnone => ?_⟩
  obtain ⟨⟨c, hc, -⟩, -⟩ := h
  exact nomatch hc.symm.trans hnone

section Tail

variable {fresh id name : List Char} {fails : Step → Bool} {d : Daemon} {auto_remove : Bool}

/-- The original has kept its name. -/
theorem in_place_iff {c : Container} (h : Apart d fresh id name) (hc : d.by_id id = some c)
    (hname : c.name = name) (hid : d.by_name name = some id) :
    Safe fresh id name (exec fresh fails (replace_script name auto_remove) d).2 ↔
      fails .drop_new = true := by
  obtain ⟨h1, h2, h3, h4, h5, h6, h7, h8⟩ := h
  have hold := old_name_ne name
  -- the name is taken, so there is no replacement and `name` denotes the original
  have hcreate : attempt fresh fails .create (.create name auto_remove) d = (false, d) := by
    simp [attempt, Daemon.ask, Daemon.invoke, hid]
  simp only [replace_script, exec, hcreate, Bool.false_eq_true, if_false]
  cases hdrop : fails .drop_new with
  | true =>
    have hdrop' : attempt fresh fails .drop_new (.rm_force name) d = (false, d) := by
      simp [attempt, Daemon.ask, hdrop]
    have hput : attempt fresh fails .put_back (.rename (old_name name) name) d = (false, d) := by
      simp [attempt, Daemon.ask, Daemon.invoke, hid]
    simp only [hdrop', hput, iff_true]
    have hrestored : Restored id name (attempt fresh fails .restart (.start name) d).2 :=
      attempt_start_restored (by simp [Daemon.resolve, h7, hid]) hc hname
    exact safe_of_restored hrestored
  | false =>
    -- `rm -f name` removes the original, and nothing is created after it
    have hdrop' : attempt fresh fails .drop_new (.rm_force name) d = (true, d.remove id c) := by
      simp [attempt, Daemon.ask, Daemon.invoke, Daemon.resolve, h7, hid, hdrop, hc]
    simp only [hdrop']
    have hgone : ∀ i, i = id ∨ i = fresh → (attempt fresh fails .restart (.start name)
        (attempt fresh fails .put_back (.rename (old_name name) name)
          (d.remove id c)).2).2.by_id i = none := by
      intro i hi
      refine attempt_by_id_none (attempt_by_id_none ?_ (by simp)) (by simp)
      rcases hi with rfl | rfl
      · simp [Daemon.remove]
      · simp [Daemon.remove, h1, h2]
    exact iff_of_false (not_safe_of_gone (hgone id (.inl rfl)) (hgone fresh (.inr rfl))) (by simp)

theorem attempt_create (hfree : d.by_name name = none) (hcreate : fails .create = false) :
    attempt fresh fails .create (.create name auto_remove) d =
      (true, d.add fresh ⟨name, false, auto_remove⟩) :=
  attempt_done hcreate (by simp [Daemon.ask, Daemon.invoke, hfree])

/-- The replacement, once created and started, runs at the end. -/
theorem replaced_of_succeeds (h : Apart d fresh id name) (hfree : d.by_name name = none)
    (hold : d.by_name (old_name name) ≠ some fresh) (hs : Succeeds fails) :
    Replaced fresh name (exec fresh fails (replace_script name auto_remove) d).2 := by
  obtain ⟨hcreate, hs⟩ := hs
  obtain ⟨h1, h2, h3, h4, h5, h6, h7, h8⟩ := h
  have hne := old_name_ne name
  simp only [replace_script, exec, attempt_create hfree hcreate, if_true]
  cases hstart : fails .start with
  | false =>
    -- the old container, whichever it is, is not the replacement
    have hstarted : attempt fresh fails .start (.start name)
        (d.add fresh ⟨name, false, auto_remove⟩) =
          (true, ((d.add fresh ⟨name, false, auto_remove⟩).ask (.start name)).set fresh
            ⟨name, true, auto_remove⟩) := by
      refine attempt_done hstart ?_
      simp [Daemon.invoke, Daemon.resolve, Daemon.add, Daemon.set, Function.update_apply, h3.symm,
        h7, Daemon.ask]
    simp only [hstarted, if_true]
    refine ⟨⟨name, true, auto_remove⟩, ?_, rfl, rfl⟩
    rw [attempt_rm_by_id]
    · simp [Daemon.set]
    · simp [Daemon.resolve, Daemon.set, Daemon.add, h4.symm, h8, hne, hold]
  | true =>
    -- the name is not given up, and the last command starts the replacement
    obtain ⟨hdrop, hrestart⟩ := hs.resolve_left (by simp [hstart])
    simp [attempt, Daemon.ask, hstart, hdrop, hrestart, Daemon.invoke, Daemon.resolve, Daemon.add,
      Daemon.set, Function.update_apply, h3.symm, h7, Replaced]

/-- Otherwise no replacement runs at the end. -/
theorem succeeds_of_replaced (h : Apart d fresh id name) (hfree : d.by_name name = none)
    (hr : Replaced fresh name (exec fresh fails (replace_script name auto_remove) d).2) :
    Succeeds fails := by
  obtain ⟨h1, h2, h3, h4, h5, h6, h7, h8⟩ := h
  have hne := old_name_ne name
  obtain ⟨c, hc, -, hrunning⟩ := hr
  by_contra hs
  simp only [replace_script, exec] at hc
  cases hcreate : fails .create with
  | true =>
    -- nothing is created
    simp only [attempt_failed hcreate, Daemon.ask, Bool.false_eq_true, if_false] at hc
    rw [attempt_by_id_none (attempt_by_id_none (attempt_by_id_none h1 (by simp)) (by simp))
      (by simp)] at hc
    exact nomatch hc
  | false =>
    simp only [attempt_create hfree hcreate, if_true] at hc
    cases hstart : fails .start with
    | false => exact hs ⟨hcreate, .inl hstart⟩
    | true =>
      simp only [attempt_failed hstart, Bool.false_eq_true, if_false] at hc
      cases hdrop : fails .drop_new with
      | false =>
        -- the replacement is removed again
        rw [attempt_by_id_none (attempt_by_id_none ?_ (by simp)) (by simp)] at hc
        · exact nomatch hc
        · simp [attempt, hdrop, Daemon.ask, Daemon.invoke, Daemon.resolve, Daemon.add, Daemon.set,
            Daemon.remove, Function.update_apply, h3.symm, h7]
      | true =>
        cases hrestart : fails .restart with
        | false => exact hs ⟨hcreate, .inr ⟨hdrop, hrestart⟩⟩
        | true =>
          -- the replacement is left as it was created
          have hput : (((d.add fresh ⟨name, false, auto_remove⟩).ask (.start name)).ask
              (.rm_force name)).invoke fresh (.rename (old_name name) name) = none := by
            simp [Daemon.ask, Daemon.invoke, Daemon.add]
          rw [attempt_failed hrestart, attempt_failed hdrop,
            attempt_refused (by simpa [Daemon.ask] using hput)] at hc
          simp only [ask_by_id, Daemon.add, Daemon.set, Function.update_self,
            Option.some.injEq] at hc
          subst hc
          exact nomatch hrunning

/-- The original has been removed. -/
theorem gone_iff (h : Apart d fresh id name) (hid : d.by_id id = none)
    (hfree : d.by_name name = none) (hold : d.by_name (old_name name) ≠ some fresh) :
    Safe fresh id name (exec fresh fails (replace_script name auto_remove) d).2 ↔
      Succeeds fails := by
  refine ⟨fun hsafe => ?_, fun hs => ?_⟩
  · exact succeeds_of_replaced h hfree (hsafe.2 (exec_by_id_none h.fresh_ne_id hid))
  · refine ⟨.inl ?_, fun _ => ?_⟩ <;> exact replaced_of_succeeds h hfree hold hs

variable (fails) in
/-- The last two commands put an original that was set aside back, if the rename goes through. -/
theorem put_back_iff {c : Container} (h : Apart d fresh id name) (hid : d.by_id id = some c)
    (hname : c.name = old_name name) (hfree : d.by_name name = none)
    (hold : d.by_name (old_name name) = some id) :
    Safe fresh id name (exec fresh fails (.ignore .put_back (.rename (old_name name) name)
        (.ignore .restart (.start name) (.exit 1))) d).2 ↔ fails .put_back = false := by
  obtain ⟨h1, h2, h3, h4, h5, h6, h7, h8⟩ := h
  have hne := old_name_ne name
  cases hput : fails .put_back with
  | false =>
    have hput' : attempt fresh fails .put_back (.rename (old_name name) name) d =
        (true, d.set_name id c name) := by
      refine attempt_done hput ?_
      simp [Daemon.ask, Daemon.invoke, Daemon.resolve, h8, hold, hid, hfree]
    have hresolve : (d.set_name id c name).resolve name = some id := by
      simp [Daemon.resolve, Daemon.set_name, Daemon.set, h5.symm, h7]
    simp only [exec, hput', iff_true]
    have hrestored : Restored id name
        (attempt fresh fails .restart (.start name) (d.set_name id c name)).2 :=
      attempt_start_restored (c := { c with name }) hresolve
        (by simp [Daemon.set_name, Daemon.set]) rfl
    exact safe_of_restored hrestored
  | true =>
    -- it keeps the name it was set aside under
    have hstart : (d.ask (.start name)).invoke fresh (.start name) = none := by
      simp [Daemon.ask, Daemon.invoke, Daemon.resolve, h7, hfree]
    simp only [exec, attempt_failed hput, Daemon.ask, attempt_refused hstart]
    refine iff_of_false ?_ (by simp)
    rintro ⟨⟨c', hc', -⟩ | ⟨⟨c', hc', hname'⟩, -⟩, -⟩
    · exact nomatch h1.symm.trans hc'
    · obtain rfl := Option.some.inj (hid.symm.trans hc')
      exact hne (hname.symm.trans hname')

variable (fails) in
/-- A replacement that was created and not started is removed, and then the original put back; one
that cannot be removed keeps the name. -/
theorem roll_back_iff {c : Container} (h : Apart d fresh id name)
    (hid : d.by_id id = some c) (hname : c.name = old_name name)
    (hold : d.by_name (old_name name) = some id) (new : Container)
    (hnew : new.running = false ∧ new.name = name) (d₁ : Daemon)
    (hid₁ : d₁.by_id = Function.update d.by_id fresh (some new))
    (hname₁ : d₁.by_name = Function.update d.by_name name (some fresh))
    (hrestart : fails .drop_new = true → fails .restart = true) :
    Safe fresh id name (exec fresh fails (.ignore .drop_new (.rm_force name)
        (.ignore .put_back (.rename (old_name name) name)
          (.ignore .restart (.start name) (.exit 1)))) d₁).2 ↔
      fails .put_back = false ∧ fails .drop_new = false := by
  obtain ⟨h1, h2, h3, h4, h5, h6, h7, h8⟩ := h
  obtain ⟨hstopped, hnewname⟩ := hnew
  have hne := old_name_ne name
  cases hdrop : fails .drop_new with
  | false =>
    -- the replacement is removed again, and its name is free
    have hdrop' : attempt fresh fails .drop_new (.rm_force name) d₁ =
        (true, d₁.remove fresh new) := by
      refine attempt_done hdrop ?_
      simp [Daemon.ask, Daemon.invoke, Daemon.resolve, hid₁, hname₁, h3.symm, h7]
    have hapart : Apart (d₁.remove fresh new) fresh id name :=
      ⟨by simp [Daemon.remove], h2, h3, h4, h5, h6,
        by simp [Daemon.remove, hid₁, h3.symm, h7], by simp [Daemon.remove, hid₁, h4.symm, h8]⟩
    have hput := put_back_iff fails (c := c) hapart
      (by simp [Daemon.remove, hid₁, h2.symm, hid]) hname (by simp [Daemon.remove, hnewname])
      (by simp [Daemon.remove, hname₁, hne, hold, hnewname])
    rw [exec, hdrop', hput]
    simp
  | true =>
    -- the replacement keeps the name, and the original the one it was set aside under
    have hput : ((d₁.ask (.rm_force name)).ask (.rename (old_name name) name)).invoke fresh
        (.rename (old_name name) name) = none := by
      simp [Daemon.invoke, hname₁]
    simp only [exec]
    rw [attempt_failed hdrop, attempt_refused hput, attempt_failed (hrestart hdrop)]
    refine iff_of_false ?_ (by simp)
    rintro ⟨⟨c', hc', -, hrunning⟩ | ⟨⟨c', hc', hname'⟩, -⟩, -⟩
    · simp only [ask_by_id, hid₁, Function.update_self, Option.some.injEq] at hc'
      subst hc'
      exact nomatch hstopped.symm.trans hrunning
    · simp only [ask_by_id, hid₁, Function.update_of_ne h2.symm, hid, Option.some.injEq] at hc'
      subst hc'
      exact hne (hname.symm.trans hname')

/-- The original has been set aside. -/
theorem set_aside_iff {c : Container} (h : Apart d fresh id name) (hid : d.by_id id = some c)
    (hname : c.name = old_name name) (hfree : d.by_name name = none)
    (hold : d.by_name (old_name name) = some id) :
    Safe fresh id name (exec fresh fails (replace_script name auto_remove) d).2 ↔
      Succeeds fails ∨
        (fails .put_back = false ∧ (fails .create = true ∨ fails .drop_new = false)) := by
  have hfresh : d.by_name (old_name name) ≠ some fresh := by
    simp [hold, h.fresh_ne_id.symm]
  by_cases hs : Succeeds fails
  · refine iff_of_true ⟨.inl ?_, fun _ => ?_⟩ (.inl hs) <;>
      exact replaced_of_succeeds h hfree hfresh hs
  cases hcreate : fails .create with
  | true =>
    have hdrop : attempt fresh fails .drop_new (.rm_force name) d = (false, d) := by
      refine attempt_refused ?_
      simp [Daemon.ask, Daemon.invoke, Daemon.resolve, h.name_no_id, hfree]
    simp only [replace_script, exec, attempt_failed hcreate, Daemon.ask, Bool.false_eq_true,
      if_false, hdrop]
    have hput := put_back_iff fails h hid hname hfree hold
    simp only [exec] at hput
    simpa [hs] using hput
  | false =>
    have hstart : fails .start = true := by
      by_contra hstart
      exact hs ⟨hcreate, .inl (by simpa using hstart)⟩
    have hrestart (hdrop : fails .drop_new = true) : fails .restart = true := by
      by_contra hrestart
      exact hs ⟨hcreate, .inr ⟨hdrop, by simpa using hrestart⟩⟩
    have hback := roll_back_iff fails h hid hname hold ⟨name, false, auto_remove⟩ ⟨rfl, rfl⟩
      ((d.add fresh ⟨name, false, auto_remove⟩).ask (.start name))
      (by simp [Daemon.add, Daemon.set]) (by simp [Daemon.add]) hrestart
    simp only [exec] at hback
    simp only [replace_script, exec, attempt_create hfree hcreate, attempt_failed hstart,
      Bool.false_eq_true, if_false, if_true]
    simpa [hs] using hback

end Tail

/-! ## The whole script -/

section Whole

variable {fresh id name : List Char} {fails : Step → Bool} {d : Daemon} {c : Container}

theorem Daemon.Consistent.apart_of (hd : d.Consistent) (hid : d.by_id id = some c)
    (hname : d.by_name name = some id) (hfresh : d.by_id fresh = none)
    (hfresh_name : d.by_name fresh = none) (hfresh_dash : '-' ∉ fresh) : Apart d fresh id name := by
  have hdash : '-' ∈ old_name name := by simp [old_name]
  refine ⟨hfresh, ?_, ?_, ?_, ?_, ?_, ?_, ?_⟩
  · rintro rfl
    exact nomatch hfresh.symm.trans hid
  · rintro rfl
    exact nomatch hfresh_name.symm.trans hname
  · rintro rfl
    exact hfresh_dash hdash
  · rintro rfl
    exact nomatch (hd.apart hid).symm.trans hname
  · rintro rfl
    exact hd.no_dash hid hdash
  · by_contra hne
    obtain ⟨c', hc'⟩ := Option.ne_none_iff_exists'.mp hne
    exact nomatch (hd.apart hc').symm.trans hname
  · by_contra hne
    obtain ⟨c', hc'⟩ := Option.ne_none_iff_exists'.mp hne
    exact hd.no_dash hc' hdash

variable (fresh fails) in
/-- Stopping keeps the container, stopped or not, or removes it. -/
theorem stop_cases (hid : d.by_id id = some c) :
    (¬ StopRemoves fails c ∧ ∃ c₁, c₁.name = c.name ∧
      (attempt fresh fails .stop (.stop id) d).2.by_id = Function.update d.by_id id (some c₁) ∧
      (attempt fresh fails .stop (.stop id) d).2.by_name = d.by_name) ∨
    (StopRemoves fails c ∧
      (attempt fresh fails .stop (.stop id) d).2.by_id = Function.update d.by_id id none ∧
      (attempt fresh fails .stop (.stop id) d).2.by_name = Function.update d.by_name c.name none) := by
  have hkeep : Function.update d.by_id id (some c) = d.by_id := by
    rw [← hid, Function.update_eq_self]
  have hinvoke : (d.ask (.stop id)).invoke fresh (.stop id) =
      if !c.running then some (d.ask (.stop id))
      else if c.auto_remove then some ((d.ask (.stop id)).remove id c)
      else some ((d.ask (.stop id)).set id { c with running := false }) := by
    simp [Daemon.invoke, Daemon.resolve, hid]
  cases hfails : fails .stop with
  | true =>
    rw [attempt_failed hfails]
    exact .inl ⟨by simp [StopRemoves, hfails], c, rfl, by simp [hkeep], by simp⟩
  | false =>
    cases hrunning : c.running with
    | false =>
      rw [attempt_done hfails (by simpa [hrunning] using hinvoke)]
      exact .inl ⟨by simp [StopRemoves, hrunning], c, rfl, by simp [hkeep], by simp⟩
    | true =>
      cases hremove : c.auto_remove with
      | false =>
        rw [attempt_done hfails (by simpa [hrunning, hremove] using hinvoke)]
        exact .inl ⟨by simp [StopRemoves, hremove], { c with running := false }, rfl,
          by simp [Daemon.set, hremove], by simp [Daemon.set]⟩
      | true =>
        rw [attempt_done hfails (by simpa [hrunning, hremove] using hinvoke)]
        exact .inr ⟨⟨hfails, hrunning, hremove⟩, by simp [Daemon.remove], by simp [Daemon.remove]⟩

theorem Apart.update (h : Apart d fresh id name) {d' : Daemon} {o : Option Container}
    (hby_id : d'.by_id = Function.update d.by_id id o) : Apart d' fresh id name := by
  obtain ⟨h1, h2, h3, h4, h5, h6, h7, h8⟩ := h
  exact ⟨by simp [hby_id, h2, h1], h2, h3, h4, h5, h6, by simp [hby_id, h5.symm, h7],
    by simp [hby_id, h6.symm, h8]⟩

/-- The rest of the script, where stopping kept the original. -/
theorem kept_iff {auto_remove : Bool} (h : Apart d fresh id name) (hid : d.by_id id = some c)
    (hname : c.name = name) (hby_name : d.by_name name = some id) :
    Safe fresh id name (exec fresh fails (.ignore .set_aside (.rename id (old_name name))
        (replace_script name auto_remove)) d).2 ↔
      (SetsAside fails d name ∧ (Succeeds fails ∨
        (fails .put_back = false ∧ (fails .create = true ∨ fails .drop_new = false)))) ∨
      (¬ SetsAside fails d name ∧ fails .drop_new = true) := by
  have hne := old_name_ne name
  have hinvoke : (d.ask (.rename id (old_name name))).invoke fresh (.rename id (old_name name)) =
      if (d.by_name (old_name name)).isSome then none
      else some (d.set_name id c (old_name name)) := by
    simp [Daemon.ask, Daemon.invoke, Daemon.resolve, hid]
    rfl
  simp only [exec]
  by_cases hs : SetsAside fails d name
  · have hs' := hs
    obtain ⟨hfails, hfree⟩ := hs'
    rw [attempt_done hfails (by simpa [hfree] using hinvoke)]
    have hapart : Apart (d.set_name id c (old_name name)) fresh id name := h.update rfl
    rw [set_aside_iff (c := { c with name := old_name name }) hapart
      (by simp [Daemon.set_name, Daemon.set]) rfl
      (by simp [Daemon.set_name, hname, hne.symm]) (by simp [Daemon.set_name])]
    simp [hs]
  · have hkept : attempt fresh fails .set_aside (.rename id (old_name name)) d = (false, d) := by
      cases hfails : fails .set_aside with
      | true => exact attempt_failed hfails
      | false =>
        have htaken : d.by_name (old_name name) ≠ none := fun hfree => hs ⟨hfails, hfree⟩
        exact attempt_refused (by simpa [Option.isSome_iff_ne_none, htaken] using hinvoke)
    rw [hkept, in_place_iff h hid hname hby_name]
    simp [hs]

/-- The rest of the script, where stopping removed the original. -/
theorem removed_iff {auto_remove : Bool} (h : Apart d fresh id name) (hid : d.by_id id = none)
    (hid_name : d.by_name id = none) (hfree : d.by_name name = none)
    (hold : d.by_name (old_name name) ≠ some fresh) :
    Safe fresh id name (exec fresh fails (.ignore .set_aside (.rename id (old_name name))
        (replace_script name auto_remove)) d).2 ↔ Succeeds fails := by
  have hrename : attempt fresh fails .set_aside (.rename id (old_name name)) d = (false, d) :=
    attempt_refused (by simp [Daemon.ask, Daemon.invoke, Daemon.resolve, hid, hid_name])
  simp only [exec, hrename]
  exact gone_iff h hid hfree hold

end Whole

/-- **A replacement runs or the original is back exactly when the original gets out of the way of
the replacement's name and the rollback gets it back.** A pull that fails touches nothing. -/
theorem recreate_safe_iff {document : Inspect} {script : Script} {d : Daemon} {c : Container}
    {fresh : List Char} (fails : Step → Bool) (hscript : recreate_script document = some script)
    (hd : d.Consistent) (hasked : d.asked = []) (hid : d.by_id document.id = some c)
    (hname : c.name = document.container_name) (hfresh : d.by_id fresh = none)
    (hfresh_name : d.by_name fresh = none) (hfresh_dash : '-' ∉ fresh) :
    (Safe fresh document.id document.container_name (exec fresh fails script d).2 ↔
      EndsWell fails d c document.container_name) ∧
    (fails .pull = true → (exec fresh fails script d).2 = d) := by
  have hby_name : d.by_name document.container_name = some document.id := hname ▸ hd.named hid
  have hapart := hd.apart_of hid hby_name hfresh hfresh_name hfresh_dash
  have hne := old_name_ne document.container_name
  simp only [recreate_script] at hscript
  split at hscript
  · exact nomatch hscript
  · obtain rfl := Option.some.inj hscript
    rw [exec]
    cases hpull : fails .pull with
    | true =>
      simp only [attempt_failed hpull, Daemon.ask, Bool.false_eq_true, if_false, EndsWell, hpull,
        true_or, iff_true, forall_const, and_true]
      exact safe_of_restored ⟨⟨c, hid, hname⟩, by simp [Daemon.last_asked, hasked]⟩
    | false =>
      have hpulled : attempt fresh fails .pull (.pull document.image) d = (true, d) :=
        attempt_done hpull rfl
      refine ⟨?_, by simp⟩
      simp only [hpulled, if_true]
      rw [exec]
      obtain ⟨hkept, c₁, hname₁, hby_id₁, hby_name₁⟩ | ⟨hremoved, hby_id₁, hby_name₁⟩ :=
        stop_cases fresh fails hid
      · rw [kept_iff (c := c₁) (hapart.update hby_id₁) (by simp [hby_id₁]) (hname₁.trans hname)
          (by rw [hby_name₁, hby_name])]
        simp [EndsWell, hpull, hkept, SetsAside, hby_name₁]
      · have hold : d.by_name (old_name document.container_name) ≠ some fresh := by
          intro hold
          obtain ⟨c', hc', -⟩ := hd.names hold
          exact nomatch hfresh.symm.trans hc'
        rw [removed_iff (hapart.update hby_id₁) (by simp [hby_id₁])
          (by simp [hby_name₁, hname, hapart.id_ne_name, hd.apart hid])
          (by simp [hby_name₁, hname]) (by simpa [hby_name₁, hname, hne] using hold)]
        simp [EndsWell, hpull, hremoved]

/-- A running container `web`, and one an earlier attempt left set aside. -/
def web_and_leftover : Daemon where
  by_id i :=
    if i = "a1".toList then some ⟨"web".toList, true, false⟩
    else if i = "b2".toList then some ⟨"web-wassh-old".toList, false, false⟩
    else none
  by_name name :=
    if name = "web".toList then some "a1".toList
    else if name = "web-wassh-old".toList then some "b2".toList
    else none

theorem web_and_leftover_consistent : web_and_leftover.Consistent := by
  constructor
  · intro i c h
    simp only [web_and_leftover] at h ⊢
    split_ifs at h with ha hb
    · cases h
      rw [ha]
      rfl
    · cases h
      rw [hb]
      rfl
  · intro name i h
    simp only [web_and_leftover] at h ⊢
    split_ifs at h with hweb hold
    · cases h
      exact ⟨_, rfl, hweb.symm⟩
    · cases h
      exact ⟨_, rfl, hold.symm⟩
  · intro i c h
    simp only [web_and_leftover] at h ⊢
    split_ifs at h with ha hb
    · rw [ha]
      rfl
    · rw [hb]
      rfl
  · intro i c h
    simp only [web_and_leftover] at h
    split_ifs at h with ha hb
    · rw [ha]
      decide
    · rw [hb]
      decide

def web_document : Inspect := ⟨"/web".toList, "a1".toList, "nginx".toList, false⟩

theorem recreate_safe_leftover :
    web_and_leftover.by_id web_document.id = some ⟨"web".toList, true, false⟩ ∧
    ∀ script, recreate_script web_document = some script →
      (Safe "c3".toList "a1".toList "web".toList
        (exec "c3".toList (fun step => step = .drop_new) script web_and_leftover).2 ↔
      EndsWell (fun step => step = .drop_new) web_and_leftover ⟨"web".toList, true, false⟩
        "web".toList) :=
  ⟨rfl, fun _ hscript =>
    (recreate_safe_iff _ hscript web_and_leftover_consistent rfl rfl rfl rfl rfl (by decide)).1⟩

/-- With a leftover of an earlier attempt and no invocation failing by itself, the original is
removed and nothing replaces it: its name is taken, so `create` fails and `rm -f` hits the original. -/
theorem leftover_loses_original :
    ∃ (document : Inspect) (script : Script) (d : Daemon) (c : Container) (fresh : List Char),
      recreate_script document = some script ∧ d.Consistent ∧ d.asked = [] ∧
      d.by_id document.id = some c ∧ c.name = document.container_name ∧ c.running = true ∧
      d.by_id fresh = none ∧ d.by_name fresh = none ∧ '-' ∉ fresh ∧
      (exec fresh (fun _ => false) script d).2.by_id document.id = none ∧
      ¬ Safe fresh document.id document.container_name (exec fresh (fun _ => false) script d).2 :=
  ⟨web_document, _, web_and_leftover, _, "c3".toList, rfl, web_and_leftover_consistent, rfl, rfl,
    rfl, rfl, rfl, rfl, by decide, by decide, not_safe_of_gone (by decide) (by decide)⟩

end WaSSH.Docker
