import WaSSH.Lib.Assoc
import WaSSH.Lib.Run
import WaSSH.Lib.Trimmed

/-!
# The cache of the knowledge base

An index is kept under a text made of its folders and its embedding model.

* `cache_key`, `cached`: the key, and the index of a search, built or reused;
* `Same`: searches that an index may be shared between; `Alone`: searches whose key no other search
  has;
* **`key_unshared_iff`**: they are the ones with at most one folder, no embedding model, and no
  separator in the folder that could have come from a key;
* **`cached_answers_own_iff`**: only they are always answered from an index of their own.
-/

namespace WaSSH.Agent.Rag

open Text

/-! ## Keys -/

inductive Protocol
  | openai | anthropic
  deriving DecidableEq

def Protocol.as_str : Protocol → List Char
  | openai => ['o', 'p', 'e', 'n', 'a', 'i']
  | anthropic => ['a', 'n', 't', 'h', 'r', 'o', 'p', 'i', 'c']

/-- Settings for the embedding model behind `rag_search`. -/
structure EmbedConfig where
  base_url : List Char
  api_key : List Char
  protocol : Protocol
  model : List Char

/-- The trimmed folders that are not blank. -/
def folder_list (folders : List (List Char)) : List (List Char) :=
  (folders.map trim).filter (· ≠ [])

/-- The cache key for one set of folders and embedding settings. -/
def cache_key (folders : List (List Char)) (embed : Option EmbedConfig) : List Char :=
  let folders := ['|'].intercalate (folder_list folders)
  match embed with
  | some config => folders ++ '@' :: (config.base_url ++ config.model ++ config.protocol.as_str)
  | none => folders

/-! ## The cache -/

/-- One slice of a document. -/
structure Chunk (V : Type) where
  path : List Char
  start_line : ℕ
  text : List Char
  vector : Option V

/-- A built knowledge base. -/
structure Index (V : Type) where
  folders : List (List Char)
  chunks : List (Chunk V)
  embedded : Bool

/-- Attach embeddings to every chunk. -/
def attach_vectors {V : Type} (index : Index V) (vectors : List V) : Index V :=
  if vectors.length ≠ index.chunks.length then index
  else
    { index with
      chunks := index.chunks.zipWith (fun chunk vector => { chunk with vector := some vector })
        vectors
      embedded := true }

/-- What a search is for. -/
structure Input where
  folders : List (List Char)
  embed : Option EmbedConfig

def Input.key (x : Input) : List Char := cache_key x.folders x.embed

/-- What reading the folders and asking the provider give at some time. -/
structure World (V : Type) where
  build : List (List Char) → Index V
  embeddings : EmbedConfig → List (List Char) → Except (List Char) (List V)

variable {V : Type}

/-- The index of a search, when none is kept. -/
def make (world : World V) (x : Input) : Except (List Char) (Index V) :=
  let index := world.build x.folders
  if index.chunks.isEmpty then
    .error
      (if index.folders.isEmpty then "No knowledge folder is configured.".toList
        else "No readable documents under ".toList ++ [',', ' '].intercalate index.folders ++ ['.'])
  else
    match x.embed with
    | none => .ok index
    | some config =>
      match world.embeddings config (index.chunks.map Chunk.text) with
      | .error error => .error error
      | .ok vectors => .ok (attach_vectors index vectors)

/-- An index with the search it was built for. -/
abbrev Built (V : Type) := Input × Index V

/-- The indexes that are kept. -/
abbrev Cache (V : Type) := Assoc.Map (List Char) (Built V)

/-- Build (or reuse) the index of a search. -/
def cached (cache : Cache V) (world : World V) (x : Input) :
    Cache V × Except (List Char) (Built V) :=
  match Assoc.get cache x.key with
  | some built => (cache, .ok built)
  | none =>
    match make world x with
    | .error error => (cache, .error error)
    | .ok index => (Assoc.insert cache x.key (x, index), .ok (x, index))

/-- A search, and what it finds in the world. -/
abbrev Call (V : Type) := World V × Input

/-- The cache after a search. -/
def step (cache : Cache V) (call : Call V) : Cache V := (cached cache call.1 call.2).1

/-! ## Keys that are not shared -/

/-- What of an embedding model decides which vectors there are. -/
def EmbedConfig.model_of (config : EmbedConfig) : List Char × List Char × Protocol :=
  (config.base_url, config.model, config.protocol)

/-- Searches with the same folders and the same embedding model. -/
def Same (x y : Input) : Prop :=
  folder_list x.folders = folder_list y.folders ∧
    x.embed.map EmbedConfig.model_of = y.embed.map EmbedConfig.model_of

/-- A folder that is not also several folders, or folders and an embedding model: no `|` stands
between two characters that show, and what is in front of an `@` with a protocol at the end is
something that ends in white space. -/
def Unambiguous (folder : List Char) : Prop :=
  (∀ a c d b, folder = a ++ c :: '|' :: d :: b → is_whitespace c ∨ is_whitespace d) ∧
    ∀ t w protocol, folder = t ++ '@' :: (w ++ Protocol.as_str protocol) → t ≠ [] ∧ ¬ Ends t

/-- A search without an embedding model and with at most one folder, which is unambiguous. -/
def Alone (x : Input) : Prop :=
  x.embed = none ∧
    (folder_list x.folders = [] ∨
      ∃ folder, folder_list x.folders = [folder] ∧ Unambiguous folder)

theorem trimmed_of_mem {folders : List (List Char)} {folder : List Char}
    (h : folder ∈ folder_list folders) : Trimmed folder := by
  obtain ⟨hmem, hsome⟩ := List.mem_filter.mp h
  obtain ⟨raw, -, rfl⟩ := List.mem_map.mp hmem
  exact trimmed_trim (of_decide_eq_true hsome)

/-- Trimmed folders are listed as they are. -/
theorem folder_list_of_trimmed {folders : List (List Char)} (h : ∀ f ∈ folders, Trimmed f) :
    folder_list folders = folders := by
  have hmap : folders.map trim = folders := by
    conv_rhs => rw [← List.map_id folders]
    exact List.map_congr_left fun f hf => trim_of_trimmed (h f hf)
  rw [folder_list, hmap, List.filter_eq_self]
  exact fun f hf => decide_eq_true (h f hf).1.ne_nil

/-- The folders of a key. -/
def joined (x : Input) : List Char := ['|'].intercalate (folder_list x.folders)

theorem key_none {x : Input} (h : x.embed = none) : x.key = joined x := by
  unfold Input.key cache_key
  rw [h]
  rfl

theorem key_some {x : Input} {config : EmbedConfig} (h : x.embed = some config) :
    x.key = joined x ++ '@' :: (config.base_url ++ config.model ++ config.protocol.as_str) := by
  unfold Input.key cache_key
  rw [h]
  rfl

theorem trimmed_joined {x : Input} (h : folder_list x.folders ≠ []) : Trimmed (joined x) :=
  ⟨starts_intercalate h fun _ hp => (trimmed_of_mem hp).1,
    ends_intercalate h fun _ hp => (trimmed_of_mem hp).2⟩

theorem joined_eq_nil_iff (x : Input) : joined x = [] ↔ folder_list x.folders = [] := by
  refine ⟨fun h => ?_, fun h => by rw [joined, h]; rfl⟩
  by_contra hne
  exact (trimmed_joined hne).1.ne_nil h

theorem ends_as_str (protocol : Protocol) : Ends protocol.as_str := by
  cases protocol
  · exact ⟨['o', 'p', 'e', 'n', 'a'], 'i', rfl, by decide⟩
  · exact ⟨['a', 'n', 't', 'h', 'r', 'o', 'p', 'i'], 'c', rfl, by decide⟩

/-- A key with an embedding model is a folder, too. -/
theorem trimmed_key_some {x : Input} {config : EmbedConfig} (h : x.embed = some config) :
    Trimmed x.key := by
  rw [key_some h]
  refine ⟨?_, (((ends_as_str config.protocol).append _).cons '@').append _⟩
  by_cases hne : folder_list x.folders = []
  · rw [(joined_eq_nil_iff x).mpr hne]
    exact (starts_iff _ _).mpr (by decide)
  · exact (trimmed_joined hne).1.append _

/-- A search for one folder. -/
def one_folder (folder : List Char) : Input := ⟨[folder], none⟩

theorem key_one_folder {folder : List Char} (h : Trimmed folder) :
    (one_folder folder).key = folder ∧ folder_list (one_folder folder).folders = [folder] := by
  have hlist : folder_list (one_folder folder).folders = [folder] :=
    folder_list_of_trimmed (List.forall_mem_singleton.mpr h)
  refine ⟨?_, hlist⟩
  rw [key_none rfl, joined, hlist]
  exact List.intercalate_singleton

/-- A search whose key is its own. -/
def Unshared (x : Input) : Prop := ∀ y : Input, y.key = x.key → Same y x

/-- Searches for other folders, or with an embedding model, share the key of an ambiguous one. -/
theorem unambiguous_of_unshared {x : Input} {folder : List Char} (h : Unshared x)
    (hembed : x.embed = none) (hfolder : folder_list x.folders = [folder]) :
    Unambiguous folder := by
  have hkey : x.key = folder := by
    rw [key_none hembed, joined, hfolder]
    exact List.intercalate_singleton
  have htrimmed : Trimmed folder := trimmed_of_mem (hfolder ▸ List.mem_singleton_self folder)
  constructor
  · intro a c d b hsplit
    by_contra hblank
    obtain ⟨hc, hd⟩ := not_or.mp hblank
    -- the two folders on both sides of the `|`
    rw [hsplit] at htrimmed
    have hsplit' : folder = (a ++ [c]) ++ '|' :: d :: b := by rw [hsplit, List.append_assoc]; rfl
    have hfirst : Trimmed (a ++ [c]) := by
      refine ⟨?_, (ends_concat_iff a c).mpr hc⟩
      have hstart := htrimmed.1
      rw [← List.singleton_append, ← List.append_assoc] at hstart
      exact hstart.of_append (List.append_ne_nil_of_right_ne_nil a (List.cons_ne_nil c []))
    have hsecond : Trimmed (d :: b) := by
      refine ⟨(starts_iff d b).mpr hd, ?_⟩
      have hend := htrimmed.2
      rw [show a ++ c :: '|' :: d :: b = (a ++ [c, '|']) ++ d :: b by simp] at hend
      exact hend.of_append (List.cons_ne_nil d b)
    have hlist : folder_list [a ++ [c], d :: b] = [a ++ [c], d :: b] :=
      folder_list_of_trimmed
        (List.forall_mem_cons.mpr ⟨hfirst, List.forall_mem_singleton.mpr hsecond⟩)
    have hsame := h ⟨[a ++ [c], d :: b], none⟩ (by
      rw [key_none rfl, hkey, joined, hlist, hsplit', List.intercalate_cons_cons,
        List.intercalate_singleton, List.append_assoc]
      rfl)
    have hlists := hsame.1
    rw [hlist, hfolder] at hlists
    exact absurd (congrArg List.length hlists) (by simp)
  · intro t w protocol hsplit
    by_contra hmodel
    -- an embedding model in which `w` is the address
    have hlist : ['|'].intercalate (folder_list [t]) = t := by
      by_cases ht : t = []
      · subst ht
        rfl
      · have hends : Ends t := by
          by_contra hends
          exact hmodel ⟨ht, hends⟩
        rw [hsplit] at htrimmed
        rw [folder_list_of_trimmed (List.forall_mem_singleton.mpr ⟨htrimmed.1.of_append ht, hends⟩)]
        exact List.intercalate_singleton
    have hsame := h ⟨[t], some ⟨w, [], protocol, []⟩⟩ (by
      rw [key_some rfl, hkey, joined, hlist, hsplit, List.append_nil])
    have hembeds := hsame.2
    rw [hembed] at hembeds
    cases hembeds

/-- **Alone is unshared.** -/
theorem unshared_of_alone {x : Input} (h : Alone x) : Unshared x := by
  obtain ⟨hembed, hfolders⟩ := h
  intro y hkey
  rw [key_none hembed] at hkey
  cases hy : y.embed with
  | none =>
    rw [key_none hy] at hkey
    refine ⟨?_, by rw [hy, hembed]⟩
    obtain hnil | ⟨folder, hfolder, hunambiguous, -⟩ := hfolders
    · rw [hnil, ← joined_eq_nil_iff, hkey, joined_eq_nil_iff, hnil]
    have hx : joined x = folder := by
      rw [joined, hfolder]
      exact List.intercalate_singleton
    rw [hx] at hkey
    have htrimmed : ∀ g ∈ folder_list y.folders, Trimmed g := fun g hg => trimmed_of_mem hg
    rw [joined] at hkey
    match hlist : folder_list y.folders with
    | [] =>
      rw [hlist] at hkey
      exact absurd hkey.symm
        (trimmed_of_mem (hfolder ▸ List.mem_singleton_self folder)).1.ne_nil
    | [g] =>
      rw [hlist] at hkey
      rw [hfolder, ← hkey, List.intercalate_singleton]
    | g :: g' :: gs =>
      -- more than one folder: a `|` between characters that show
      rw [hlist] at hkey htrimmed
      obtain ⟨hg, hgs⟩ := List.forall_mem_cons.mp htrimmed
      obtain ⟨a, c, rfl, hc⟩ := hg.2
      have hrest : Starts (['|'].intercalate (g' :: gs)) :=
        starts_intercalate (List.cons_ne_nil g' gs) fun p hp => (hgs p hp).1
      obtain ⟨d, b, hb, hd⟩ := hrest
      have hsplit : folder = a ++ c :: '|' :: d :: b := by
        rw [← hkey, List.intercalate_cons_cons, hb]
        simp
      exact absurd (hunambiguous a c d b hsplit) (not_or.mpr ⟨hc, hd⟩)
  | some config =>
    rw [key_some hy] at hkey
    obtain hnil | ⟨folder, hfolder, -, hmodel⟩ := hfolders
    · rw [(joined_eq_nil_iff x).mpr hnil] at hkey
      exact absurd hkey (List.append_ne_nil_of_right_ne_nil _ (List.cons_ne_nil _ _))
    · have hx : joined x = folder := by
        rw [joined, hfolder]
        exact List.intercalate_singleton
      obtain ⟨hsome, hends⟩ := hmodel _ _ _ (hx ▸ hkey.symm)
      have hlist : folder_list y.folders ≠ [] := fun hnil => hsome ((joined_eq_nil_iff y).mpr hnil)
      exact absurd (trimmed_joined hlist).2 hends

/-- **Keys that are not shared** are those of searches without an embedding model and with at most
one folder, which is unambiguous. -/
theorem key_unshared_iff (x : Input) : Unshared x ↔ Alone x := by
  refine ⟨fun h => ?_, unshared_of_alone⟩
  have hembed : x.embed = none := by
    cases hx : x.embed with
    | none => rfl
    | some config =>
      obtain ⟨hkey, -⟩ := key_one_folder (trimmed_key_some hx)
      have hembeds := (h (one_folder x.key) hkey).2
      rw [hx] at hembeds
      cases hembeds
  refine ⟨hembed, ?_⟩
  match hlist : folder_list x.folders with
  | [] => exact .inl rfl
  | [folder] => exact .inr ⟨folder, rfl, unambiguous_of_unshared h hembed hlist⟩
  | f :: g :: fs =>
    -- the folders in one
    have hne : folder_list x.folders ≠ [] := by
      rw [hlist]
      exact List.cons_ne_nil _ _
    obtain ⟨hkey, hone⟩ := key_one_folder (trimmed_joined hne)
    have hlists := (h (one_folder (joined x)) (hkey.trans (key_none hembed).symm)).1
    rw [hone, hlist] at hlists
    exact absurd (congrArg List.length hlists) (by simp)

/-! ## Answers from the cache -/

/-- Every index is kept under the key of the search it was built for. -/
def Sound (cache : Cache V) : Prop :=
  ∀ key built, Assoc.get cache key = some built → built.1.key = key

theorem sound_nil : Sound ([] : Cache V) := fun _ _ h => nomatch h

/-- **Step lemma**: a search answers from an index under its key, and keeps the cache sound. -/
theorem Sound.cached {cache : Cache V} (h : Sound cache) (world : World V) (x : Input) :
    Sound (cached cache world x).1 ∧
      ∀ built, (Rag.cached cache world x).2 = .ok built → built.1.key = x.key := by
  unfold Rag.cached
  split
  · next built hget =>
    refine ⟨h, fun b hb => ?_⟩
    obtain rfl := Except.ok.inj hb
    exact h _ _ hget
  · next hget =>
    split
    · exact ⟨h, fun _ hb => nomatch hb⟩
    · next index _ =>
      refine ⟨fun key built hkey => ?_, fun b hb => ?_⟩
      · rw [Assoc.get_insert] at hkey
        split at hkey
        · next heq => rw [← Option.some.inj hkey, heq]
        · exact h key built hkey
      · rw [← Except.ok.inj hb]

theorem sound_run (calls : List (Call V)) : Sound (StepRun.run step ([] : Cache V) calls) := by
  have hany : StepRun.Guarded step (fun _ _ => True) ([] : Cache V) calls :=
    StepRun.guarded_of_forall fun _ _ => trivial
  exact StepRun.run_inv (fun cache call hs _ => (hs.cached call.1 call.2).1) calls _ sound_nil hany

/-- A world with a document in every folder, and a provider that answers nothing. -/
def some_world (V : Type) : World V where
  build folders := ⟨folders, [⟨[], 1, ['a'], none⟩], false⟩
  embeddings _ _ := .ok []

theorem make_some_world (x : Input) : ∃ index, make (some_world V) x = .ok index := by
  unfold make
  cases x.embed with
  | none => exact ⟨_, rfl⟩
  | some config => exact ⟨_, rfl⟩

/-- A search with the key of another one is answered from its index. -/
theorem cached_shared {x y : Input} (h : y.key = x.key) :
    ∃ index : Index V,
      (cached (StepRun.run step [] [(some_world V, y)]) (some_world V) x).2 = .ok (y, index) := by
  obtain ⟨index, hindex⟩ := make_some_world (V := V) y
  refine ⟨index, ?_⟩
  have hstep : StepRun.run step [] [(some_world V, y)] = Assoc.insert [] y.key (y, index) := by
    show (cached [] (some_world V) y).1 = _
    unfold cached
    rw [Assoc.get_nil, hindex]
  unfold cached
  rw [hstep, Assoc.get_insert, if_pos h.symm]

/-- **The cache answers from an index of the search's own**, after any searches, exactly when the
key is not shared, which is when the search has no embedding model and at most one folder, an
unambiguous one. -/
theorem cached_answers_own_iff (V : Type) (x : Input) :
    ((∀ y : Input, y.key = x.key → Same y x) ↔ Alone x) ∧
    ((∀ (calls : List (Call V)) (world : World V) (built : Built V),
        (cached (StepRun.run step [] calls) world x).2 = .ok built → Same built.1 x) ↔
      Alone x) := by
  refine ⟨key_unshared_iff x, fun h => ?_, fun h calls world built hbuilt => ?_⟩
  · refine (key_unshared_iff x).mp fun y hy => ?_
    obtain ⟨index, hindex⟩ := cached_shared (V := V) hy
    exact h _ _ _ hindex
  · exact unshared_of_alone h built.1 (((sound_run calls).cached world x).2 built hbuilt)

/-- Two folders and the folder of that name; a model and an address with a letter moved. -/
theorem keys_are_shared :
    cache_key [['a'], ['b']] none = cache_key [['a', '|', 'b']] none ∧
      ¬ Same ⟨[['a'], ['b']], none⟩ ⟨[['a', '|', 'b']], none⟩ ∧
      cache_key [['d']] (some ⟨['u'], [], .openai, ['v', 'w']⟩) =
        cache_key [['d']] (some ⟨['u', 'v'], [], .openai, ['w']⟩) ∧
      ¬ Same ⟨[['d']], some ⟨['u'], [], .openai, ['v', 'w']⟩⟩
        ⟨[['d']], some ⟨['u', 'v'], [], .openai, ['w']⟩⟩ := by
  refine ⟨by decide, fun h => ?_, by decide, fun h => ?_⟩
  · exact absurd h.1 (by decide)
  · exact absurd h.2 (by decide)

end WaSSH.Agent.Rag
