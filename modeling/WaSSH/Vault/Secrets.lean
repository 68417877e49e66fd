import WaSSH.Lib.Run
import WaSSH.Store.Json
import WaSSH.Vault.Store

/-!
# `secrets.json`

The whole encrypted storage, of which `WaSSH.Vault.Store` is the plugins' part: the passwords and
passphrases of hosts as well, and the file that every change is written to.

* `SecretFile`, `password`, `passphrase`, `plugin_secret`, and the same with `has_`;
* `set_password`, `set_passphrase`, `set_plugin_secret`, `forget_scope`: memory changes first, then
  the file is written;
* `Key`, `Ledger`, `Op.effect`: what the calls that succeed say is stored;
* **`answers_change`**: one change of the memory is one change of the ledger;
* **`faithful_iff_keeps`**: memory and file answer like the ledger in every state of a run exactly
  while every write that fails would have changed no answer and leaves the file.
-/

namespace WaSSH.Vault.Secrets

open Assoc FileMap StepRun
open Store (Path Serde Write JsonError TargetOs write_json)

/-- Sealed secrets for one host. -/
structure SealedEntry where
  password : Option String := none
  passphrase : Option String := none
  deriving DecidableEq, Inhabited

/-- On-disk shape of `secrets.json`. -/
structure SecretFile where
  version : ℕ
  entries : Map String SealedEntry
  plugin_secrets : Map String (Map String (Map String String))
  deriving DecidableEq

/-- The file where there is none. -/
def SecretFile.default : SecretFile := ⟨0, [], []⟩

/-- How the file is written and read: what is written is read back, the newline behind it
included. -/
structure FileSerde extends Serde SecretFile where
  from_to {file : SecretFile} {json : Bytes} :
    to_vec_pretty file = some json → from_slice (json ++ [10]) = some file

/-- The key of the machine, and where the file is. -/
structure Setup where
  cipher : Cipher
  serde : FileSerde
  dir : Path
  os : TargetOs
  pid : ℕ

/-- `secrets_file`. -/
def Setup.path (c : Setup) : Path := c.dir ++ ["secrets.json"]

variable (c : Setup)

/-! ## Lookups -/

section Lookups

variable (file : SecretFile)

/-- The plugins' part of the store. -/
def plugins : SecretsStore := ⟨c.cipher, file.plugin_secrets⟩

def entry (host_id : String) : Option SealedEntry := get file.entries host_id

def password (host_id : String) : Option String := do
  (← entry file host_id).password.bind c.cipher.unseal_text

def passphrase (host_id : String) : Option String := do
  (← entry file host_id).passphrase.bind c.cipher.unseal_text

def has_password (host_id : String) : Bool :=
  (entry file host_id).any fun entry => entry.password.isSome

def has_passphrase (host_id : String) : Bool :=
  (entry file host_id).any fun entry => entry.passphrase.isSome

def plugin_secret (scope plugin field : String) : Option String :=
  (plugins c file).plugin_secret scope plugin field

def has_plugin_secret (scope plugin field : String) : Bool :=
  ((get file.plugin_secrets scope).bind fun plugins => get plugins plugin).any
    fun fields => (get fields field).isSome

end Lookups

/-! ## Changes -/

/-- Why a call fails. -/
inductive SaveError
  | seal (error : StoreError)
  | write (error : JsonError)

/-- What one call meets: the random bytes it is given, and how the file is written. -/
structure Attempt where
  random : Option Nonce
  write : Write

/-- The store: what is in memory, and the files. -/
structure World where
  file : SecretFile
  fs : Fs Path

/-- The sealed value, if there is something to seal. -/
def seal_value (random : Option Nonce) (value : Option String) :
    Except StoreError (Option String) :=
  match value.filter fun value => value ≠ "" with
  | some value => (c.cipher.seal_text random value).map some
  | none => .ok none

/-- `edit`, in memory. -/
def edit (file : SecretFile) (host_id : String) (change : SealedEntry → SealedEntry) : SecretFile :=
  let entry := change ((get file.entries host_id).getD {})
  { file with
    entries :=
      if entry.password.isNone && entry.passphrase.isNone then remove file.entries host_id
      else insert file.entries host_id entry }

/-- The fields of one plugin in one scope, in memory. -/
def edit_plugin (file : SecretFile) (scope plugin field : String) (sealed : Option String) :
    SecretFile :=
  let change (fields : Map String String) :=
    match sealed with
    | some sealed => insert fields field sealed
    | none => remove fields field
  { file with plugin_secrets := ((plugins c file).edit_fields scope plugin change).plugin_secrets }

/-- Memory becomes `file`, which is then written. -/
def save (w : World) (attempt : Attempt) (file : SecretFile) : Except SaveError Unit × World :=
  match (write_json c.serde.toSerde c.os c.pid attempt.write c.path file).run w.fs with
  | (.ok (), fs) => (.ok (), ⟨file, fs⟩)
  | (.error error, fs) => (.error (.write error), ⟨file, fs⟩)

/-- A value is sealed, memory changed and the file written. -/
def seal_and_save (w : World) (attempt : Attempt) (value : Option String)
    (change : Option String → SecretFile) : Except SaveError Unit × World :=
  match seal_value c attempt.random value with
  | .error error => (.error (.seal error), w)
  | .ok sealed => save c w attempt (change sealed)

def set_password (w : World) (attempt : Attempt) (host_id : String) (password : Option String) :
    Except SaveError Unit × World :=
  seal_and_save c w attempt password fun sealed =>
    edit w.file host_id fun entry => { entry with password := sealed }

def set_passphrase (w : World) (attempt : Attempt) (host_id : String)
    (passphrase : Option String) : Except SaveError Unit × World :=
  seal_and_save c w attempt passphrase fun sealed =>
    edit w.file host_id fun entry => { entry with passphrase := sealed }

def set_plugin_secret (w : World) (attempt : Attempt) (scope plugin field : String)
    (value : Option String) : Except SaveError Unit × World :=
  seal_and_save c w attempt value fun sealed => edit_plugin c w.file scope plugin field sealed

/-- Forget everything stored for `scope`: its host secrets and its plugins'. -/
def forget_scope (w : World) (attempt : Attempt) (scope : String) :
    Except SaveError Unit × World :=
  save c w attempt
    { w.file with
      entries := remove w.file.entries scope
      plugin_secrets := remove w.file.plugin_secrets scope }

/-! ## What is stored -/

/-- What a secret is stored under. -/
inductive Key
  | password (host_id : String)
  | passphrase (host_id : String)
  | plugin (scope plugin field : String)
  deriving DecidableEq

/-- The scope that is forgotten with the key. -/
def Key.scope : Key → String
  | password host_id => host_id
  | passphrase host_id => host_id
  | plugin scope _ _ => scope

/-- What is stored, as the calls that succeeded say. -/
abbrev Ledger := Key → Option String

/-- What the store answers. -/
def look_up (file : SecretFile) : Ledger
  | .password host_id => password c file host_id
  | .passphrase host_id => passphrase c file host_id
  | .plugin scope plugin field => plugin_secret c file scope plugin field

/-- What the store says it has. -/
def has (file : SecretFile) : Key → Bool
  | .password host_id => has_password file host_id
  | .passphrase host_id => has_passphrase file host_id
  | .plugin scope plugin field => has_plugin_secret file scope plugin field

/-- A call. -/
inductive Op
  | set_password (host_id : String) (password : Option String)
  | set_passphrase (host_id : String) (passphrase : Option String)
  | set_plugin_secret (scope plugin field : String) (value : Option String)
  | forget_scope (scope : String)

namespace Op

/-- The value that is sealed for the call. -/
def value : Op → Option String
  | set_password _ password => password
  | set_passphrase _ passphrase => passphrase
  | set_plugin_secret _ _ _ value => value
  | forget_scope _ => none

/-- What the call makes of a ledger, where `value` goes under its key. -/
def put (ledger : Ledger) (value : Option String) : Op → Ledger
  | set_password host_id _ => Function.update ledger (.password host_id) value
  | set_passphrase host_id _ => Function.update ledger (.passphrase host_id) value
  | set_plugin_secret scope plugin field _ =>
    Function.update ledger (.plugin scope plugin field) value
  | forget_scope scope => fun key => if key.scope = scope then none else ledger key

/-- What the call asks for: an empty value deletes. -/
def effect (op : Op) (ledger : Ledger) : Ledger :=
  op.put ledger (op.value.filter fun value => value ≠ "")

/-- What the call makes of the memory. -/
def change (file : SecretFile) (sealed : Option String) : Op → SecretFile
  | set_password host_id _ => edit file host_id fun entry => { entry with password := sealed }
  | set_passphrase host_id _ => edit file host_id fun entry => { entry with passphrase := sealed }
  | set_plugin_secret scope plugin field _ => edit_plugin c file scope plugin field sealed
  | forget_scope scope =>
    { file with
      entries := remove file.entries scope
      plugin_secrets := remove file.plugin_secrets scope }

end Op

def call (w : World) (attempt : Attempt) : Op → Except SaveError Unit × World
  | .set_password host_id password => set_password c w attempt host_id password
  | .set_passphrase host_id passphrase => set_passphrase c w attempt host_id passphrase
  | .set_plugin_secret scope plugin field value =>
    set_plugin_secret c w attempt scope plugin field value
  | .forget_scope scope => forget_scope c w attempt scope

/-- No host without a secret, no plugin without a field, no scope without a plugin. -/
structure SecretFile.Tidy (file : SecretFile) : Prop where
  entries : ∀ e ∈ file.entries, e.2.password.isSome ∨ e.2.passphrase.isSome
  scopes : ∀ e ∈ file.plugin_secrets, e.2 ≠ []
  plugins : ∀ e ∈ file.plugin_secrets, ∀ e' ∈ e.2, e'.2 ≠ []

/-- The store answers every lookup like the ledger. -/
def Answers (file : SecretFile) (ledger : Ledger) : Prop :=
  ∀ key, look_up c file key = ledger key ∧ has file key = (ledger key).isSome

/-- What is read from the disk. -/
def on_disk (fs : Fs Path) : Option SecretFile :=
  match fs c.path with
  | none => some .default
  | some bytes => c.serde.from_slice bytes

/-- The store, and what the calls so far that succeeded say. -/
structure State extends World where
  ledger : Ledger

def step (s : State) (x : Attempt × Op) : State :=
  match call c s.toWorld x.1 x.2 with
  | (.ok (), w) => { toWorld := w, ledger := x.2.effect s.ledger }
  | (.error _, w) => { toWorld := w, ledger := s.ledger }

/-- Memory and file answer like the ledger, and hold nothing empty. -/
structure Faithful (s : State) : Prop where
  memory : Answers c s.file s.ledger
  memory_tidy : s.file.Tidy
  disk : ∃ file, on_disk c s.fs = some file ∧ Answers c file s.ledger ∧ file.Tidy

/-- A call that fails before anything changes, a file that is written, or a call that would have
changed no answer and does not lose the file, unless nothing is stored. -/
def Keeps (s : State) (x : Attempt × Op) : Prop :=
  ∀ sealed, seal_value c x.1.random x.2.value = .ok sealed →
    Store.Writes c.serde.toSerde c.os x.1.write c.path (x.2.change c s.file sealed) s.fs ∨
      x.2.effect (look_up c s.file) = look_up c s.file ∧
        (Store.Loses c.serde.toSerde c.os x.1.write c.path (x.2.change c s.file sealed) s.fs →
          ∀ key, look_up c s.file key = none)

/-! ## One change -/

/-- The sealed text under a key. -/
def SecretFile.sealed (file : SecretFile) : Ledger
  | .password host_id => (get file.entries host_id).bind SealedEntry.password
  | .passphrase host_id => (get file.entries host_id).bind SealedEntry.passphrase
  | .plugin scope plugin field => (plugins c file).sealed scope plugin field

variable {c} {file : SecretFile}

theorem look_up_eq (key : Key) :
    look_up c file key = (file.sealed c key).bind c.cipher.unseal_text := by
  cases key with
  | password host_id =>
    change password c file host_id = ((get file.entries host_id).bind _).bind _
    unfold password entry
    cases get file.entries host_id <;> rfl
  | passphrase host_id =>
    change passphrase c file host_id = ((get file.entries host_id).bind _).bind _
    unfold passphrase entry
    cases get file.entries host_id <;> rfl
  | plugin scope plugin field => rfl

variable (c) in
theorem has_eq (key : Key) : has file key = (file.sealed c key).isSome := by
  cases key with
  | password host_id =>
    change has_password file host_id = ((get file.entries host_id).bind _).isSome
    unfold has_password entry
    cases get file.entries host_id <;> rfl
  | passphrase host_id =>
    change has_passphrase file host_id = ((get file.entries host_id).bind _).isSome
    unfold has_passphrase entry
    cases get file.entries host_id <;> rfl
  | plugin scope plugin field =>
    change has_plugin_secret file scope plugin field =
      ((get file.plugin_secrets scope).bind fun plugins => (get plugins plugin).bind _).isSome
    unfold has_plugin_secret
    cases get file.plugin_secrets scope with
    | none => rfl
    | some fields =>
      rw [Option.bind_some, Option.bind_some]
      cases get fields plugin <;> rfl

/-- A sealed text of a host, after an edit of some host. -/
theorem get_edit {field : SealedEntry → Option String} (hfield : field {} = none)
    (host_id : String) (change : SealedEntry → SealedEntry) (h : String) :
    (get (edit file host_id change).entries h).bind field =
      if h = host_id then field (change ((get file.entries host_id).getD {}))
      else (get file.entries h).bind field := by
  unfold edit
  generalize change ((get file.entries host_id).getD {}) = entry
  obtain ⟨password, passphrase⟩ := entry
  dsimp only
  by_cases hempty : password.isNone && passphrase.isNone
  · obtain ⟨hpassword, hpassphrase⟩ := Bool.and_eq_true_iff.mp hempty
    obtain rfl := Option.isNone_iff_eq_none.mp hpassword
    obtain rfl := Option.isNone_iff_eq_none.mp hpassphrase
    rw [if_pos hempty, get_remove, hfield]
    split <;> rfl
  · rw [if_neg hempty, get_insert]
    split <;> rfl

variable (file) in
/-- The other sealed texts of a host stay. -/
theorem get_edit_of_same (field : SealedEntry → Option String) (hfield : field {} = none)
    (host_id : String) (change : SealedEntry → SealedEntry)
    (hsame : ∀ entry, field (change entry) = field entry) (h : String) :
    (get (edit file host_id change).entries h).bind field = (get file.entries h).bind field := by
  rw [get_edit hfield, hsame]
  split
  next hh =>
    subst hh
    cases get file.entries h with
    | none => exact hfield
    | some entry => rfl
  · rfl

theorem sealed_edit_plugin (scope plugin field : String) (value : Option String)
    (s p f : String) :
    (plugins c (edit_plugin c file scope plugin field value)).sealed s p f =
      if s = scope ∧ p = plugin ∧ f = field then value else (plugins c file).sealed s p f := by
  have hedit : plugins c (edit_plugin c file scope plugin field value) =
      (plugins c file).edit_fields scope plugin fun fields =>
        match value with
        | some value => insert fields field value
        | none => remove fields field := rfl
  rw [hedit, SecretsStore.sealed_edit_fields]
  by_cases hsp : s = scope ∧ p = plugin
  · obtain ⟨rfl, rfl⟩ := hsp
    rw [if_pos ⟨rfl, rfl⟩, SecretsStore.sealed_eq]
    cases value with
    | none =>
      dsimp only
      rw [get_remove]
      by_cases hf : f = field
      · rw [if_pos hf, if_pos ⟨rfl, rfl, hf⟩]
      · rw [if_neg hf, if_neg fun h => hf h.2.2]
    | some value =>
      dsimp only
      rw [get_insert]
      by_cases hf : f = field
      · rw [if_pos hf, if_pos ⟨rfl, rfl, hf⟩]
      · rw [if_neg hf, if_neg fun h => hf h.2.2]
  · rw [if_neg hsp, if_neg fun h => hsp ⟨h.1, h.2.1⟩]

/-- **One change of the memory** is one change of what is sealed under each key. -/
theorem sealed_change (op : Op) (value : Option String) :
    (op.change c file value).sealed c = op.put (file.sealed c) value := by
  funext key
  cases op with
  | set_password host_id password =>
    cases key with
    | password h =>
      change (get (edit file host_id _).entries h).bind SealedEntry.password = _
      rw [get_edit rfl, Op.put, Function.update_apply]
      simp only [Key.password.injEq]
      rfl
    | passphrase h =>
      have hne : Key.passphrase h ≠ .password host_id := Key.noConfusion
      have hkept := get_edit_of_same file SealedEntry.passphrase rfl host_id
        (fun entry => { entry with password := value }) (fun _ => rfl) h
      rw [Op.put, Function.update_of_ne hne]
      exact hkept
    | plugin s p f => rfl
  | set_passphrase host_id passphrase =>
    cases key with
    | password h =>
      have hne : Key.password h ≠ .passphrase host_id := Key.noConfusion
      have hkept := get_edit_of_same file SealedEntry.password rfl host_id
        (fun entry => { entry with passphrase := value }) (fun _ => rfl) h
      rw [Op.put, Function.update_of_ne hne]
      exact hkept
    | passphrase h =>
      change (get (edit file host_id _).entries h).bind SealedEntry.passphrase = _
      rw [get_edit rfl, Op.put, Function.update_apply]
      simp only [Key.passphrase.injEq]
      rfl
    | plugin s p f => rfl
  | set_plugin_secret scope plugin field plain =>
    cases key with
    | password h => rfl
    | passphrase h => rfl
    | plugin s p f =>
      change (plugins c (edit_plugin c file scope plugin field value)).sealed s p f = _
      rw [sealed_edit_plugin, Op.put, Function.update_apply]
      simp only [Key.plugin.injEq]
      rfl
  | forget_scope scope =>
    cases key with
    | password h =>
      change (get (remove file.entries scope) h).bind SealedEntry.password =
        if h = scope then none else (get file.entries h).bind SealedEntry.password
      rw [get_remove]
      split <;> rfl
    | passphrase h =>
      change (get (remove file.entries scope) h).bind SealedEntry.passphrase =
        if h = scope then none else (get file.entries h).bind SealedEntry.passphrase
      rw [get_remove]
      split <;> rfl
    | plugin s p f =>
      change ((get (remove file.plugin_secrets scope) s).bind fun plugins => _) =
        if s = scope then none else (get file.plugin_secrets s).bind fun plugins => _
      rw [get_remove]
      split <;> rfl

theorem seal_value_spec {random : Option Nonce} {value sealed : Option String}
    (h : seal_value c random value = .ok sealed) :
    sealed.bind c.cipher.unseal_text = (value.filter fun value => value ≠ "") ∧
      sealed.isSome = (value.filter fun value => value ≠ "").isSome := by
  unfold seal_value at h
  cases hvalue : value.filter fun value => value ≠ "" with
  | none =>
    rw [hvalue] at h
    obtain rfl := Except.ok.inj h
    exact ⟨rfl, rfl⟩
  | some plain =>
    rw [hvalue] at h
    dsimp only at h
    cases hseal : c.cipher.seal_text random plain with
    | error error =>
      rw [hseal] at h
      cases h
    | ok text =>
      rw [hseal] at h
      obtain rfl := Except.ok.inj h
      exact ⟨Cipher.unseal_seal_text hseal, rfl⟩

/-- What holds of both values and of two missing ones holds under every key. -/
theorem put_rel {R : Option String → Option String → Prop} {left right : Ledger}
    {value value' : Option String} (hvalue : R value value') (hnone : R none none)
    (hkey : ∀ key, R (left key) (right key)) (op : Op) (key : Key) :
    R (op.put left value key) (op.put right value' key) := by
  cases op <;> simp only [Op.put, Function.update_apply]
  all_goals
    split
    · assumption
    · exact hkey key

/-- **A change of the memory** answers like the changed ledger. -/
theorem answers_change {ledger : Ledger} (h : Answers c file ledger) {op : Op}
    {random : Option Nonce} {sealed : Option String}
    (hseal : seal_value c random op.value = .ok sealed) :
    Answers c (op.change c file sealed) (op.effect ledger) := by
  intro key
  rw [look_up_eq, has_eq c, sealed_change]
  refine put_rel (R := fun sealed plain =>
    sealed.bind c.cipher.unseal_text = plain ∧ sealed.isSome = plain.isSome)
    (seal_value_spec hseal) ⟨rfl, rfl⟩ (fun key => ?_) op key
  rw [← look_up_eq, ← has_eq c]
  exact h key

theorem file_save (w : World) (attempt : Attempt) (file : SecretFile) :
    (save c w attempt file).2.file = file := by
  unfold save
  split <;> rfl

/-- In memory, the plugins' part of the store changes as `WaSSH.Vault.Store` has it. -/
theorem plugins_set_plugin_secret (w : World) (attempt : Attempt) (written : Bool)
    (scope plugin field : String) (value : Option String) :
    plugins c (set_plugin_secret c w attempt scope plugin field value).2.file =
      ((plugins c w.file).set_plugin_secret ⟨attempt.random, written⟩ scope plugin field value).1 := by
  unfold set_plugin_secret seal_and_save seal_value SecretsStore.set_plugin_secret
  cases value.filter fun value => value ≠ "" with
  | none =>
    dsimp only
    rw [file_save]
    rfl
  | some plain =>
    change plugins c (match (c.cipher.seal_text attempt.random plain).map some with
      | .error error => _ | .ok sealed => _ : Except SaveError Unit × World).2.file = _
    cases hseal : c.cipher.seal_text attempt.random plain with
    | error error => simp only [plugins, hseal, Except.map]
    | ok sealed =>
      simp only [Except.map, file_save]
      simp only [plugins, hseal]
      rfl

/-! ## Nothing empty -/

theorem mem_of_mem_remove {κ ν : Type} [DecidableEq κ] {m : Map κ ν} {k : κ} {e : κ × ν}
    (h : e ∈ remove m k) : e ∈ m := List.mem_of_mem_filter h

theorem mem_insert {κ ν : Type} [DecidableEq κ] {m : Map κ ν} {k : κ} {v : ν} {e : κ × ν}
    (h : e ∈ insert m k v) : e ∈ m ∨ e = (k, v) :=
  (List.mem_append.mp h).imp mem_of_mem_remove List.mem_singleton.mp

/-- A map whose values have a property, with one value put in or taken out. -/
theorem forall_mem_edit {κ ν : Type} [DecidableEq κ] {P : ν → Prop} {m : Map κ ν} {k : κ} {v : ν}
    {drops : Prop} [Decidable drops] (hm : ∀ e ∈ m, P e.2) (hv : ¬ drops → P v) :
    ∀ e ∈ (if drops then remove m k else insert m k v), P e.2 := by
  intro e he
  split at he
  · exact hm e (mem_of_mem_remove he)
  next hkept =>
    obtain hold | rfl := mem_insert he
    · exact hm e hold
    · exact hv hkept

theorem tidy_edit (h : file.Tidy) (host_id : String) (change : SealedEntry → SealedEntry) :
    (edit file host_id change).Tidy := by
  let P (entry : SealedEntry) : Prop := entry.password.isSome ∨ entry.passphrase.isSome
  refine ⟨forall_mem_edit (P := P) h.entries fun hkept => ?_, h.scopes, h.plugins⟩
  rw [Bool.and_eq_true_iff, not_and_or, Option.isNone_iff_eq_none, Option.isNone_iff_eq_none] at hkept
  exact hkept.imp Option.isSome_iff_ne_none.mpr Option.isSome_iff_ne_none.mpr

theorem tidy_edit_plugin (h : file.Tidy) (scope plugin field : String) (value : Option String) :
    (edit_plugin c file scope plugin field value).Tidy := by
  have hempty {α : Type} {xs : List α} (hxs : ¬ xs.isEmpty) : xs ≠ [] :=
    fun hnil => hxs (List.isEmpty_iff.mpr hnil)
  refine ⟨h.entries, ?_, ?_⟩
  · exact forall_mem_edit (P := fun plugins => plugins ≠ []) h.scopes hempty
  · let P (plugins : Map String (Map String String)) : Prop := ∀ e ∈ plugins, e.2 ≠ []
    refine forall_mem_edit (P := P) h.plugins fun _ => ?_
    refine forall_mem_edit (P := fun fields => fields ≠ []) ?_ hempty
    change P ((get file.plugin_secrets scope).getD [])
    cases hscope : get file.plugin_secrets scope with
    | none => exact fun e he => absurd he List.not_mem_nil
    | some plugins => exact h.plugins _ (mem_of_get hscope)

theorem tidy_change (h : file.Tidy) (op : Op) (value : Option String) :
    (op.change c file value).Tidy := by
  cases op with
  | set_password host_id password =>
    exact tidy_edit h host_id fun entry => { entry with password := value }
  | set_passphrase host_id passphrase =>
    exact tidy_edit h host_id fun entry => { entry with passphrase := value }
  | set_plugin_secret scope plugin field plain => exact tidy_edit_plugin h scope plugin field value
  | forget_scope scope =>
    exact ⟨fun e he => h.entries e (mem_of_mem_remove he),
      fun e he => h.scopes e (mem_of_mem_remove he),
      fun e he => h.plugins e (mem_of_mem_remove he)⟩

/-! ## Runs -/

theorem call_eq (w : World) (attempt : Attempt) (op : Op) :
    call c w attempt op = seal_and_save c w attempt op.value (op.change c w.file) := by
  cases op <;> rfl

theorem Answers.congr_iff {ledger ledger' : Ledger} (h : Answers c file ledger) :
    Answers c file ledger' ↔ ledger = ledger' := by
  constructor
  · intro h'
    funext key
    exact (h key).1.symm.trans (h' key).1
  · rintro rfl
    exact h

theorem Answers.look_up {ledger : Ledger} (h : Answers c file ledger) :
    look_up c file = ledger := funext fun key => (h key).1

theorem answers_default : Answers c .default fun _ => none := fun key => by
  cases key <;> exact ⟨rfl, rfl⟩

theorem tidy_default : SecretFile.default.Tidy := ⟨nofun, nofun, nofun⟩

theorem on_disk_congr {fs fs' : Fs Path} (h : fs' c.path = fs c.path) :
    on_disk c fs' = on_disk c fs := by
  unfold on_disk
  rw [h]

/-- After a file that was written. -/
theorem faithful_written {s : State} (h : Faithful c s) {op : Op} {random : Option Nonce}
    {sealed : Option String} (hseal : seal_value c random op.value = .ok sealed) {json : Bytes}
    (hjson : c.serde.to_vec_pretty (op.change c s.file sealed) = some json) {fs : Fs Path}
    (hfile : fs c.path = some (json ++ [10])) :
    Faithful c ⟨⟨op.change c s.file sealed, fs⟩, op.effect s.ledger⟩ := by
  have hmemory := answers_change h.memory hseal
  have htidy := tidy_change (c := c) h.memory_tidy op sealed
  have hdisk : on_disk c fs = some (op.change c s.file sealed) := by
    unfold on_disk
    rw [hfile]
    exact c.serde.from_to hjson
  exact ⟨hmemory, htidy, _, hdisk, hmemory, htidy⟩

/-- After a file that was not. -/
theorem faithful_failed {s : State} (h : Faithful c s) {op : Op} {random : Option Nonce}
    {sealed : Option String} (hseal : seal_value c random op.value = .ok sealed) {lost : Prop}
    {fs : Fs Path} (hfile : lost ∧ fs c.path = none ∨ ¬ lost ∧ fs c.path = s.fs c.path) :
    Faithful c ⟨⟨op.change c s.file sealed, fs⟩, s.ledger⟩ ↔
      op.effect s.ledger = s.ledger ∧ (lost → ∀ key, s.ledger key = none) := by
  have hmemory : Answers c _ s.ledger ↔ _ := (answers_change h.memory hseal).congr_iff
  have htidy := tidy_change (c := c) h.memory_tidy op sealed
  obtain ⟨hlost, hgone⟩ | ⟨hkept, hsame⟩ := hfile
  · have hdisk : on_disk c fs = some .default := by
      unfold on_disk
      rw [hgone]
    have hempty : Answers c _ s.ledger ↔ _ := answers_default.congr_iff
    constructor
    · rintro ⟨hmem, -, file, hfile, hanswers, -⟩
      obtain rfl := Option.some.inj (hdisk.symm.trans hfile)
      exact ⟨hmemory.mp hmem, fun _ key => congrFun (hempty.mp hanswers).symm key⟩
    · rintro ⟨heffect, hnone⟩
      exact ⟨hmemory.mpr heffect, htidy, .default, hdisk,
        hempty.mpr (funext fun key => (hnone hlost key).symm), tidy_default⟩
  · obtain ⟨file, hfile, hdisk⟩ := h.disk
    constructor
    · exact fun h' => ⟨hmemory.mp h'.memory, fun hlost => absurd hlost hkept⟩
    · rintro ⟨heffect, -⟩
      exact ⟨hmemory.mpr heffect, htidy, file, (on_disk_congr hsame).trans hfile, hdisk⟩

/-- **Step lemma**: a call keeps memory and file in step with the ledger exactly if it meets its
condition. -/
theorem step_faithful_iff {s : State} (h : Faithful c s) (x : Attempt × Op) :
    Faithful c (step c s x) ↔ Keeps c s x := by
  obtain ⟨attempt, op⟩ := x
  have hstep : step c s (attempt, op) =
      match seal_and_save c s.toWorld attempt op.value (op.change c s.file) with
      | (.ok (), w) => { toWorld := w, ledger := op.effect s.ledger }
      | (.error _, w) => { toWorld := w, ledger := s.ledger } := by
    unfold step
    rw [call_eq]
  have hledger : look_up c s.file = s.ledger := h.memory.look_up
  rw [hstep]
  unfold seal_and_save Keeps
  dsimp only
  cases hseal : seal_value c attempt.random op.value with
  | error error => exact iff_of_true h nofun
  | ok sealed =>
    obtain ⟨fs, -, ⟨hwrites, ⟨json, hjson, hfile⟩, hrun⟩ | ⟨hfails, hfile, error, hrun⟩⟩ :=
      Store.write_json_cases c.serde.toSerde c.os c.pid attempt.write c.path
        (op.change c s.file sealed) s.fs
    · have hsave : save c s.toWorld attempt (op.change c s.file sealed) =
          (.ok (), ⟨op.change c s.file sealed, fs⟩) := by
        unfold save
        rw [hrun]
      dsimp only
      rw [hsave]
      refine iff_of_true (faithful_written h hseal hjson hfile) fun sealed' hsealed' => ?_
      obtain rfl := Except.ok.inj hsealed'
      exact .inl hwrites
    · have hsave : save c s.toWorld attempt (op.change c s.file sealed) =
          (.error (.write error), ⟨op.change c s.file sealed, fs⟩) := by
        unfold save
        rw [hrun]
      dsimp only
      rw [hsave]
      dsimp only
      rw [faithful_failed h hseal hfile, hledger]
      constructor
      · intro hkeeps sealed' hsealed'
        obtain rfl := Except.ok.inj hsealed'
        exact .inr hkeeps
      · intro hkeeps
        exact (hkeeps sealed rfl).resolve_left hfails

/-- **The store behaves as a map, and a call that fails changes nothing**, in memory and on disk:
in all states of a run exactly while every call whose file is not written would have changed no
answer and does not lose the file. -/
theorem faithful_iff_keeps (c : Setup) {start : State} (h : Faithful c start)
    (calls : List (Attempt × Op)) :
    (∀ s, Reached (step c) start calls s → Faithful c s) ↔
      Guarded (step c) (Keeps c) start calls :=
  forall_reached_iff_guarded (fun _ x hs => step_faithful_iff hs x) calls start h

/-! ## A run -/

/-- One password, sealed by a cipher that hides nothing. -/
def sample (plain : String) : SecretFile :=
  ⟨2, [("web", { password := some (plain_cipher.encode (zero_nonce.val ++ as_bytes plain)) })], []⟩

/-- The same as it is written. -/
def sample_json (plain : String) : Bytes :=
  as_bytes <| "\x7b\n  \"version\": 2,\n  \"entries\": \x7b\n    \"web\": \x7b\n" ++
    "      \"password\": \"" ++ String.join (List.replicate NONCE_LEN "\\u0000") ++ plain ++ "\",\n" ++
    "      \"passphrase\": null\n    \x7d\n  \x7d,\n  \"pluginSecrets\": \x7b\x7d\n\x7d"

/-- The files of the run, as they are written and read. -/
def samples : FileSerde where
  to_vec_pretty file :=
    if file = sample "old" then some (sample_json "old")
    else if file = sample "new" then some (sample_json "new") else none
  from_slice bytes :=
    if bytes = sample_json "old" ++ [10] then some (sample "old")
    else if bytes = sample_json "new" ++ [10] then some (sample "new") else none
  from_to {file json} h := by
    have hne : ¬ sample_json "new" ++ [10] = sample_json "old" ++ [10] := by decide +kernel
    split at h
    next hfile =>
      obtain rfl := Option.some.inj h
      rw [if_pos rfl, hfile]
    · split at h
      next hfile =>
        obtain rfl := Option.some.inj h
        rw [if_neg hne, if_pos rfl, hfile]
      · cases h

def sample_setup : Setup := ⟨plain_cipher, samples, ["/", "data"], .unix, 7⟩

/-- An empty directory that was opened. -/
def fresh : State := ⟨⟨⟨2, [], []⟩, fun _ => none⟩, fun _ => none⟩

theorem fresh_faithful (c : Setup) : Faithful c fresh := by
  have hempty : Answers c fresh.file fun _ => none := fun key => by cases key <;> exact ⟨rfl, rfl⟩
  exact ⟨hempty, ⟨nofun, nofun, nofun⟩, .default, rfl, answers_default, tidy_default⟩

def written : Attempt := ⟨some zero_nonce, ⟨true, true, none, true, true, true, true, true⟩, 0⟩

/-- The disk is full. -/
def full : Attempt := ⟨some zero_nonce, ⟨true, true, some 0, true, true, true, true, true⟩, 1⟩

theorem faithful_iff_keeps_written :
    Faithful sample_setup fresh ∧
      ∀ s, Reached (step sample_setup) fresh [(written, .set_password "web" (some "old"))] s →
        Faithful sample_setup s := by
  refine ⟨fresh_faithful _, (faithful_iff_keeps _ (fresh_faithful _) _).mpr ⟨?_, trivial⟩⟩
  intro sealed hsealed
  obtain rfl := Except.ok.inj hsealed
  left
  decide +kernel

/-- A password is replaced while the disk is full: the call fails, and the store answers the new
password, the file the old one. -/
theorem failed_call_answers :
    let s := run (step sample_setup) fresh
      [(written, .set_password "web" (some "old")), (full, .set_password "web" (some "new"))]
    s.ledger (.password "web") = some "old" ∧
      password sample_setup s.file "web" = some "new" ∧
      ((on_disk sample_setup s.fs).bind fun file => password sample_setup file "web") =
        some "old" ∧
      ¬ Faithful sample_setup s := by
  intro s
  have hledger : s.ledger (.password "web") = some "old" := by decide +kernel
  have hmemory : password sample_setup s.file "web" = some "new" := by decide +kernel
  have hdisk : ((on_disk sample_setup s.fs).bind fun file => password sample_setup file "web") =
      some "old" := by decide +kernel
  refine ⟨hledger, hmemory, hdisk, fun h => ?_⟩
  have hsame := (h.memory (.password "web")).1
  rw [hledger] at hsame
  have hnew := hmemory.symm.trans hsame
  revert hnew
  decide

end WaSSH.Vault.Secrets
