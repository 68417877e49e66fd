import WaSSH.Vault.Fields

/-!
# The vault

`SecretsStore` keeps one sealed text per scope, plugin and field.

* `Cipher`: what sealing takes from outside; `unseal_seal_text`: what is sealed is read back;
* `SecretsStore`, `plugin_secret`, `set_plugin_secret`;
* `sealed_edit_fields`, **`plugin_secret_set_plugin_secret`**: a write changes the slot it names, to
  the text it is given or to nothing for an empty one;
* `set_plugin_secret_of_not_takes`: what cannot be sealed changes nothing.
-/

namespace WaSSH.Vault

open Assoc

/-- Scope of a plugin secret that belongs to the app, not to one host. -/
def APP_SCOPE : String := "app"

def NONCE_LEN : ℕ := 12

abbrev Nonce := { bytes : List UInt8 // bytes.length = NONCE_LEN }

/-! ## Sealing -/

/-- AES-256-GCM under the machine's key, and base64 in the standard alphabet. -/
structure Cipher where
  encrypt (nonce : Nonce) (plain : List UInt8) : Option (List UInt8)
  decrypt (nonce : Nonce) (ciphertext : List UInt8) : Option (List UInt8)
  encode : List UInt8 → String
  decode : String → Option (List UInt8)
  decrypt_encrypt {nonce : Nonce} {plain ciphertext : List UInt8} :
    encrypt nonce plain = some ciphertext → decrypt nonce ciphertext = some plain
  decode_encode (blob : List UInt8) : decode (encode blob) = some blob

/-- Why a secret is not saved. -/
inductive StoreError
  | random
  | secret
  | io
  deriving DecidableEq

/-- What one call meets: the random bytes it is given, and whether `secrets.json` is written. -/
structure Call where
  random : Option Nonce
  written : Bool

/-- The UTF-8 bytes of a text. -/
def as_bytes (text : String) : List UInt8 := text.toByteArray.data.toList

def from_utf8 (bytes : List UInt8) : Option String := String.fromUTF8? ⟨bytes.toArray⟩

theorem from_utf8_as_bytes (text : String) : from_utf8 (as_bytes text) = some text := by
  unfold from_utf8 as_bytes String.fromUTF8?
  rw [Array.toArray_toList, dif_pos text.isValidUTF8]
  rfl

namespace Cipher

variable (c : Cipher)

/-- `seal`. -/
def seal_text (random : Option Nonce) (plain : String) : Except StoreError String :=
  match random with
  | none => .error .random
  | some nonce =>
    match c.encrypt nonce (as_bytes plain) with
    | none => .error .secret
    | some sealed => .ok (c.encode (nonce.val ++ sealed))

/-- `unseal`. -/
def unseal_text (sealed : String) : Option String := do
  let blob ← c.decode sealed
  if h : NONCE_LEN ≤ blob.length then
    let plain ← c.decrypt ⟨blob.take NONCE_LEN, List.length_take_of_le h⟩ (blob.drop NONCE_LEN)
    from_utf8 plain
  else none

variable {c}

/-- What is sealed is read back. -/
theorem unseal_seal_text {random : Option Nonce} {plain sealed : String}
    (h : c.seal_text random plain = .ok sealed) : c.unseal_text sealed = some plain := by
  unfold seal_text at h
  rcases random with _ | nonce
  · exact nomatch h
  rcases hc : c.encrypt nonce (as_bytes plain) with _ | ciphertext
  · simp only [hc] at h
    exact nomatch h
  simp only [hc] at h
  obtain rfl := Except.ok.inj h
  have htake : (nonce.val ++ ciphertext).take NONCE_LEN = nonce.val := List.take_left' nonce.2
  have hdrop : (nonce.val ++ ciphertext).drop NONCE_LEN = ciphertext := List.drop_left' nonce.2
  have hlen : NONCE_LEN ≤ (nonce.val ++ ciphertext).length := by
    rw [List.length_append, nonce.2]
    exact Nat.le_add_right _ _
  unfold unseal_text
  simp only [c.decode_encode, Option.bind_eq_bind, Option.bind_some, dif_pos hlen, htake, hdrop,
    c.decrypt_encrypt hc, from_utf8_as_bytes]

end Cipher

/-- A cipher that hides nothing, for runs on fixed inputs. -/
def plain_cipher : Cipher where
  encrypt _ plain := some plain
  decrypt _ ciphertext := some ciphertext
  encode blob := String.ofList (blob.map fun b => Char.ofNat b.toNat)
  decode text := some (text.toList.map fun c => UInt8.ofNat c.toNat)
  decrypt_encrypt h := h.symm
  decode_encode blob := by
    rw [String.toList_ofList, List.map_map]
    refine congrArg some ((List.map_congr_left fun b _ => ?_).trans (List.map_id _))
    have hb := b.toNat_lt
    have hvalid : Nat.isValidChar b.toNat := .inl (by omega)
    have hnat : (Char.ofNat b.toNat).toNat = b.toNat := by
      unfold Char.ofNat
      rw [dif_pos hvalid]
      rfl
    show UInt8.ofNat (Char.ofNat b.toNat).toNat = b
    rw [hnat, UInt8.ofNat_toNat]

def zero_nonce : Nonce := ⟨List.replicate NONCE_LEN 0, List.length_replicate⟩

/-! ## The store -/

/-- The encrypted storage: scope, plugin, field, sealed text. -/
structure SecretsStore where
  cipher : Cipher
  plugin_secrets : Map String (Map String (Map String String)) := []

namespace SecretsStore

variable (store : SecretsStore)

/-- The sealed text in a slot. -/
def sealed (scope plugin field : String) : Option String := do
  let plugins ← get store.plugin_secrets scope
  let fields ← get plugins plugin
  get fields field

/-- Stored plugin secret, if one is saved and decryptable. -/
def plugin_secret (scope plugin field : String) : Option String :=
  (store.sealed scope plugin field).bind store.cipher.unseal_text

/-- The edit of one plugin's fields in one scope: empty plugins and scopes are dropped. -/
def edit_fields (scope plugin : String) (change : Map String String → Map String String) :
    SecretsStore :=
  let plugins := (get store.plugin_secrets scope).getD []
  let fields := change ((get plugins plugin).getD [])
  let plugins := if fields.isEmpty then remove plugins plugin else insert plugins plugin fields
  { store with
    plugin_secrets :=
      if plugins.isEmpty then remove store.plugin_secrets scope
      else insert store.plugin_secrets scope plugins }

/-- Save (`some`) or delete (`none`) one plugin secret. What was sealed stays in memory where the
file is not written. -/
def set_plugin_secret (call : Call) (scope plugin field : String) (value : Option String) :
    SecretsStore × Except StoreError Unit :=
  let written := if call.written then .ok () else .error .io
  match value.filter fun value => value ≠ "" with
  | some value =>
    match store.cipher.seal_text call.random value with
    | .error e => (store, .error e)
    | .ok sealed =>
      (store.edit_fields scope plugin fun fields => insert fields field sealed, written)
  | none => (store.edit_fields scope plugin fun fields => remove fields field, written)

/-- The value can be sealed, or there is nothing to seal. -/
def takes (call : Call) (value : Option String) : Bool :=
  match value.filter fun value => value ≠ "" with
  | none => true
  | some value => (store.cipher.seal_text call.random value).isOk

variable {store} {scope plugin field : String}

theorem takes_iff {call : Call} {value : Option String} :
    store.takes call value ↔ ∀ v, value.filter (fun value => value ≠ "") = some v →
      ∃ sealed, store.cipher.seal_text call.random v = .ok sealed := by
  unfold takes
  rcases value.filter (fun value => value ≠ "") with _ | v
  · simp
  · rcases h : store.cipher.seal_text call.random v with e | sealed <;> simp [h, Except.isOk,
      Except.toBool]

theorem getD_remove_of_isEmpty {κ ν : Type*} [DecidableEq κ] {m : Map κ (List ν)} {k k' : κ}
    {v : List ν} :
    (get (if v.isEmpty then remove m k else insert m k v) k').getD [] =
      if k' = k then v else (get m k').getD [] := by
  by_cases hv : v.isEmpty
  · rw [if_pos hv, get_remove, List.isEmpty_iff.mp hv]
    split <;> rfl
  · rw [if_neg hv, get_insert]
    split <;> rfl

theorem sealed_eq (scope plugin field : String) :
    store.sealed scope plugin field =
      get ((get ((get store.plugin_secrets scope).getD []) plugin).getD []) field := by
  unfold sealed
  rcases get store.plugin_secrets scope with _ | plugins
  · rfl
  rcases h : get plugins plugin with _ | fields
  · simp [h]
  · simp [h]

/-- An edit reaches one plugin in one scope. -/
theorem sealed_edit_fields (change : Map String String → Map String String) (s p f : String) :
    (store.edit_fields scope plugin change).sealed s p f =
      if s = scope ∧ p = plugin then
        get (change ((get ((get store.plugin_secrets scope).getD []) plugin).getD [])) f
      else store.sealed s p f := by
  rw [sealed_eq, sealed_eq]
  unfold edit_fields
  rw [getD_remove_of_isEmpty]
  by_cases hs : s = scope
  · subst hs
    rw [if_pos rfl, getD_remove_of_isEmpty]
    by_cases hp : p = plugin
    · rw [if_pos hp, if_pos ⟨rfl, hp⟩]
    · rw [if_neg hp, if_neg fun h => hp h.2]
  · rw [if_neg hs, if_neg fun h => hs h.1]

@[simp] theorem cipher_set_plugin_secret (call : Call) (value : Option String) :
    (store.set_plugin_secret call scope plugin field value).1.cipher = store.cipher := by
  unfold set_plugin_secret
  rcases value.filter (fun value => value ≠ "") with _ | v
  · rfl
  rcases hs : store.cipher.seal_text call.random v with e | sealed <;> simp only [hs]
  rfl

/-- What cannot be sealed changes nothing, and is reported. -/
theorem set_plugin_secret_of_not_takes {call : Call} {value : Option String}
    (h : ¬ store.takes call value) (scope plugin field : String) :
    ∃ e, store.set_plugin_secret call scope plugin field value = (store, .error e) := by
  rw [takes_iff] at h
  push Not at h
  obtain ⟨v, hv, hfail⟩ := h
  unfold set_plugin_secret
  rcases hs : store.cipher.seal_text call.random v with e | sealed
  · exact ⟨e, by simp only [hv, hs]⟩
  · exact absurd hs (hfail sealed)

/-- **A write** changes the slot it names: to the text, or to nothing for an empty one. -/
theorem plugin_secret_set_plugin_secret {call : Call} {value : Option String}
    (h : store.takes call value) (s p f : String) :
    (store.set_plugin_secret call scope plugin field value).1.plugin_secret s p f =
      if s = scope ∧ p = plugin ∧ f = field then value.filter fun value => value ≠ ""
      else store.plugin_secret s p f := by
  unfold plugin_secret
  rw [cipher_set_plugin_secret]
  unfold set_plugin_secret
  rcases hv : value.filter (fun value => value ≠ "") with _ | v
  · dsimp only
    rw [sealed_edit_fields]
    by_cases hsp : s = scope ∧ p = plugin
    · obtain ⟨rfl, rfl⟩ := hsp
      rw [if_pos ⟨rfl, rfl⟩, get_remove, sealed_eq]
      by_cases hf : f = field
      · rw [if_pos hf, if_pos ⟨rfl, rfl, hf⟩]
        rfl
      · rw [if_neg hf, if_neg fun h => hf h.2.2]
    · rw [if_neg hsp, if_neg fun h => hsp ⟨h.1, h.2.1⟩]
  · obtain ⟨sealed, hsealed⟩ := takes_iff.mp h v hv
    simp only [hsealed]
    rw [sealed_edit_fields]
    by_cases hsp : s = scope ∧ p = plugin
    · obtain ⟨rfl, rfl⟩ := hsp
      rw [if_pos ⟨rfl, rfl⟩, get_insert, sealed_eq]
      by_cases hf : f = field
      · rw [if_pos hf, if_pos ⟨rfl, rfl, hf⟩]
        exact Cipher.unseal_seal_text hsealed
      · rw [if_neg hf, if_neg fun h => hf h.2.2]
    · rw [if_neg hsp, if_neg fun h => hsp ⟨h.1, h.2.1⟩]

/-- A write succeeds where the value is taken and the file is written. -/
theorem set_plugin_secret_ok_iff {call : Call} {value : Option String} :
    (store.set_plugin_secret call scope plugin field value).2 = .ok () ↔
      store.takes call value ∧ call.written := by
  by_cases ht : store.takes call value
  · rw [and_iff_right ht]
    unfold set_plugin_secret
    rcases hv : value.filter (fun value => value ≠ "") with _ | v
    · cases call.written <;> simp
    · obtain ⟨sealed, hsealed⟩ := takes_iff.mp ht v hv
      cases call.written <;> simp [hsealed]
  · obtain ⟨e, he⟩ := set_plugin_secret_of_not_takes ht scope plugin field
    rw [he]
    exact iff_of_false (fun h => nomatch h) fun h => ht h.1

end SecretsStore

end WaSSH.Vault
