import Mathlib.Data.Char
import Mathlib.Data.List.Lex
import WaSSH.Lib.UnixPath
import WaSSH.Lib.Text
import WaSSH.Lib.Utf8

/-!
# Listing this machine

What the pane shows of a directory, and the paths that come back from it.

* `home`, `local_path`, `display`, `join_shown`, `entry`, `list`: the source;
* `list_perm`: the entries of a listing;
* `body_local_path_join_shown`: a shown path, component by component;
* `body_lossy`: decoding leaves the components of a path apart;
* **`maps_back_iff`**, **`list_maps_back_iff`**: the entries whose path leads back to their file.
-/

namespace WaSSH.Files.LocalList

open UnixPath Utf8

/-! ## The source -/

/-- The environment variables that are looked at. -/
structure Vars where
  HOME : Option Bytes
  USERPROFILE : Option Bytes

/-- The user's home directory. -/
def home (v : Vars) : Bytes :=
  ((v.HOME.orElse fun _ => v.USERPROFILE).filter fun home => home ≠ []).getD [SLASH]

/-- The local filesystem path a pane path means. -/
def local_path (v : Vars) (text : List Char) : Bytes :=
  let trimmed := Text.trim text
  let expanded :=
    if trimmed = [] ∨ trimmed = ['~'] then home v
    else
      match (Text.strip_prefix ['~', '/'] trimmed).or (Text.strip_prefix ['~', '\\'] trimmed) with
      | some rest => join (home v) (encode rest)
      | none => encode trimmed
  if is_absolute expanded then expanded else join (home v) expanded

/-- A path as the pane shows it: always `/` separated. -/
def display (path : Bytes) : List Char :=
  (from_utf8_lossy path).map fun c => if c = '\\' then '/' else c

/-- Join a shown directory and a name with exactly one `/` between them. -/
def join_shown (dir name : List Char) : List Char :=
  if dir = [] ∨ dir = ['/'] then '/' :: name
  else Text.trim_end_matches '/' dir ++ '/' :: name

/-- What `symlink_metadata` says. -/
structure Metadata where
  is_dir : Bool
  is_symlink : Bool
  len : ℕ
  modified : Option ℕ
  mode : Option ℕ

/-- An entry of a directory, with its metadata if they can be read. -/
structure DirEntry where
  name : { name : Bytes // IsName name }
  metadata : Option Metadata

/-- An entry as the pane has it. -/
structure SftpEntry where
  path : List Char
  name : List Char
  is_dir : Bool
  is_link : Bool
  size : ℕ
  modified : Option ℕ
  permissions : Option ℕ

/-- A listed file. -/
def entry (shown : List Char) (name : Bytes) (metadata : Metadata) : SftpEntry where
  path := join_shown shown (from_utf8_lossy name)
  name := from_utf8_lossy name
  is_dir := metadata.is_dir
  is_link := metadata.is_symlink
  size := if metadata.is_dir then 0 else metadata.len
  modified := metadata.modified
  permissions := metadata.mode

/-- The files whose metadata can be read. -/
def files (read : List DirEntry) : List (Bytes × Metadata) :=
  read.filterMap fun file => file.metadata.map fun metadata => (file.name.1, metadata)

/-- Directories first, then case-insensitive by name, as `to_lowercase` has it. -/
def sort_entries (to_lowercase : List Char → List Char) (entries : List SftpEntry) :
    List SftpEntry :=
  entries.mergeSort fun left right =>
    if left.is_dir = right.is_dir then decide (to_lowercase left.name ≤ to_lowercase right.name)
    else left.is_dir

/-- `list`: `read` is what `read_dir` gives, and an entry may fail to be read. -/
def list (v : Vars) (to_lowercase : List Char → List Char) (path : List Char)
    (read : Bytes → Option (List (Option DirEntry))) : Option (List SftpEntry) :=
  let directory := local_path v path
  let shown := display directory
  (read directory).bind fun entries =>
    (entries.mapM id).map fun entries =>
      sort_entries to_lowercase ((files entries).map fun file => entry shown file.1 file.2)

/-! ## What has to hold -/

/-- Two paths are the same file in every tree. -/
def SamePath (p q : Bytes) : Prop := components p = components q

/-- Every entry of the listing is that of a file, and its path leads back to that file. -/
def MapsBack (v : Vars) (to_lowercase : List Char → List Char) (path : List Char)
    (read : Bytes → Option (List (Option DirEntry))) : Prop :=
  ∀ result, list v to_lowercase path read = some result →
    ∃ entries, (read (local_path v path)).bind (List.mapM id) = some entries ∧
      result.Perm ((files entries).map fun file =>
        entry (display (local_path v path)) file.1 file.2) ∧
      ∀ file ∈ files entries,
        SamePath (local_path v (entry (display (local_path v path)) file.1 file.2).path)
          (join (local_path v path) file.1)

/-- The name is a text without blanks at its end. -/
def Shown (name : Bytes) : Prop := ∃ text, name = encode text ∧ Text.trim_end text = text

/-! ## Texts -/

theorem rdropWhile_append_cons {α : Type*} {p : α → Bool} {a : α} (ha : p a = false)
    (l r : List α) : (l ++ a :: r).rdropWhile p = l ++ a :: r.rdropWhile p := by
  induction r using List.reverseRecOn with
  | nil =>
    rw [List.rdropWhile_nil]
    exact List.rdropWhile_concat_neg _ _ _ (by rw [ha]; exact Bool.false_ne_true)
  | append_singleton r b ih =>
    rw [← List.cons_append, ← List.append_assoc]
    by_cases hb : p b = true
    · rw [List.rdropWhile_concat_pos _ _ _ hb, List.rdropWhile_concat_pos _ _ _ hb, ih]
    · rw [List.rdropWhile_concat_neg _ _ _ hb, List.rdropWhile_concat_neg _ _ _ hb,
        List.append_assoc]
      rfl

theorem slash_not_whitespace : Text.is_whitespace '/' = false := by decide

/-- A path from the root comes through as it is, but for the blanks at its end. -/
theorem local_path_of_slash (v : Vars) (text : List Char) :
    local_path v ('/' :: text) = encode ('/' :: Text.trim_end text) := by
  have htrim : Text.trim ('/' :: text) = '/' :: Text.trim_end text := by
    unfold Text.trim
    have hstart : Text.trim_start ('/' :: text) = '/' :: text :=
      List.dropWhile_cons_of_neg (by rw [slash_not_whitespace]; exact Bool.false_ne_true)
    rw [hstart]
    exact rdropWhile_append_cons slash_not_whitespace [] text
  have hne : ¬ ('/' :: Text.trim_end text = [] ∨ '/' :: Text.trim_end text = ['~']) := by
    simp
  have hstrip (second : Char) :
      Text.strip_prefix ['~', second] ('/' :: Text.trim_end text) = none := rfl
  unfold local_path
  rw [htrim]
  dsimp only
  rw [if_neg hne, hstrip, hstrip]
  exact if_pos rfl

theorem display_head {path : Bytes} (h : is_absolute path) : (display path).head? = some '/' := by
  cases path with
  | nil => cases h
  | cons b path =>
    obtain rfl : b = SLASH := Option.some.inj (of_decide_eq_true h)
    have hlossy := from_utf8_lossy_append_ascii [] (n := 0x2f) (by decide) path
    unfold display
    change ((from_utf8_lossy ([] ++ UInt8.ofNat 0x2f :: path)).map _).head? = _
    rw [hlossy]
    rfl

theorem encode_slash (t : List Char) : encode ('/' :: t) = SLASH :: encode t := rfl

/-- The slashes that are trimmed do not count. -/
theorem body_trim_end_matches (t : List Char) :
    body (encode (Text.trim_end_matches '/' t)) = body (encode t) := by
  have hsplit : t = Text.trim_end_matches '/' t ++ t.rtakeWhile fun c => c = '/' :=
    (List.rdropWhile_append_rtakeWhile).symm
  conv_rhs => rw [hsplit, encode_append]
  refine (body_append_slashes _ fun b hb => ?_).symm
  obtain ⟨c, hc, hbc⟩ := List.mem_flatMap.mp hb
  have hslash : c = '/' := by simpa using List.mem_rtakeWhile_imp hc
  subst hslash
  exact List.mem_singleton.mp hbc

/-- A shown path: the components of the directory, and what is left of the name. -/
theorem body_local_path_join_shown (v : Vars) {shown : List Char} (hshown : shown.head? = some '/')
    (name : List Char) :
    is_absolute (local_path v (join_shown shown name)) ∧
      body (local_path v (join_shown shown name)) =
        body (encode shown) ++ body (encode (Text.trim_end name)) := by
  have hpath (dir : List Char) (hdir : dir = [] ∨ dir.head? = some '/') :
      is_absolute (local_path v (dir ++ '/' :: name)) ∧ body (local_path v (dir ++ '/' :: name)) =
        body (encode dir) ++ body (encode (Text.trim_end name)) := by
    have hbody (l r : List Char) :
        body (encode (l ++ '/' :: r)) = body (encode l) ++ body (encode r) := by
      rw [encode_append, encode_slash, body_append_slash]
    cases dir with
    | nil =>
      rw [List.nil_append, local_path_of_slash]
      exact ⟨rfl, hbody [] _⟩
    | cons c dir =>
      obtain rfl := Option.some.inj (hdir.resolve_left (List.cons_ne_nil _ _))
      have htrim : Text.trim_end (dir ++ '/' :: name) = dir ++ '/' :: Text.trim_end name :=
        rdropWhile_append_cons slash_not_whitespace dir name
      rw [List.cons_append, local_path_of_slash, htrim]
      exact ⟨rfl, hbody ('/' :: dir) _⟩
  unfold join_shown
  split_ifs with hroot
  · rcases hroot with rfl | rfl
    · cases hshown
    · exact hpath [] (.inl rfl)
  · obtain ⟨habs, hbody⟩ := hpath (Text.trim_end_matches '/' shown) (by
      obtain ⟨rest, hrest⟩ : Text.trim_end_matches '/' shown <+: shown := List.rdropWhile_prefix _ _
      cases htrimmed : Text.trim_end_matches '/' shown with
      | nil => exact .inl rfl
      | cons c t =>
        rw [htrimmed] at hrest
        rw [← hrest] at hshown
        exact .inr hshown)
    exact ⟨habs, by rw [hbody, body_trim_end_matches]⟩

/-! ## What decoding does to a path -/

/-- **Decoding** leaves the parts of a path apart. -/
theorem parts_lossy (path : Bytes) :
    parts (encode (from_utf8_lossy path)) =
      (parts path).map fun part => encode (from_utf8_lossy part) := by
  induction hn : path.length using Nat.strong_induction_on generalizing path with
  | h n ih =>
    have hfree {p : Bytes} (h : SLASH ∉ p) : SLASH ∉ encode (from_utf8_lossy p) := fun hmem =>
      h (mem_of_mem_from_utf8_lossy (c := '/') (by decide)
        (mem_of_mem_encode (b := SLASH) (by decide) hmem))
    by_cases hslash : SLASH ∈ path
    · obtain ⟨p, q, rfl, hp⟩ := List.eq_append_cons_of_mem hslash
      have hlossy : from_utf8_lossy (p ++ SLASH :: q) =
          from_utf8_lossy p ++ '/' :: from_utf8_lossy q :=
        from_utf8_lossy_append_ascii p (n := 0x2f) (by decide) q
      have hq : q.length < n := by
        rw [← hn, List.length_append, List.length_cons]
        omega
      rw [hlossy, encode_append, encode_slash, parts_append_slash, parts_append_slash,
        parts_of_not_mem hp, parts_of_not_mem (hfree hp), ih q.length hq q rfl]
      rfl
    · rw [parts_of_not_mem hslash, parts_of_not_mem (hfree hslash)]
      rfl

/-- A name is blank or a dot after decoding if it was. -/
theorem stays_lossy (part : Bytes) : Stays (encode (from_utf8_lossy part)) ↔ Stays part := by
  constructor
  · rintro (h | h)
    · exact .inl ((from_utf8_lossy_eq_nil_iff part).mp (encode_injective h))
    · have hdot : from_utf8_lossy part = ['.'] := encode_injective h
      have hmem : UInt8.ofNat 0x2e ∈ part := by
        refine mem_of_mem_from_utf8_lossy (c := '.') (by decide) ?_
        rw [hdot]
        exact List.mem_singleton_self _
      obtain ⟨p, q, rfl⟩ := List.append_of_mem hmem
      rw [from_utf8_lossy_append_ascii p (n := 0x2e) (by decide) q] at hdot
      obtain ⟨hp, hq⟩ : from_utf8_lossy p = [] ∧ from_utf8_lossy q = [] := by
        have hlength := congrArg List.length hdot
        rw [List.length_append, List.length_cons, List.length_singleton] at hlength
        exact ⟨List.length_eq_zero_iff.mp (by omega), List.length_eq_zero_iff.mp (by omega)⟩
      rw [(from_utf8_lossy_eq_nil_iff p).mp hp, (from_utf8_lossy_eq_nil_iff q).mp hq]
      exact .inr rfl
  · rintro (rfl | rfl)
    · exact .inl rfl
    · exact .inr (by decide)

/-- **The components** of a decoded path are the decoded components. -/
theorem body_lossy (path : Bytes) :
    body (encode (from_utf8_lossy path)) =
      (body path).map fun part => encode (from_utf8_lossy part) := by
  unfold body
  rw [parts_lossy, List.filter_map]
  congr 1
  refine List.filter_congr fun part _ => ?_
  simp [stays_lossy]

/-! ## What is shown -/

/-- A backslash is shown as a slash. -/
theorem backslash_not_mem_display (path : Bytes) : 0x5c ∉ encode (display path) := by
  intro h
  have hmem := mem_of_mem_encode (b := 0x5c) (by decide) h
  obtain ⟨c, -, hc⟩ := List.mem_map.mp hmem
  split_ifs at hc with hslash
  · exact absurd hc (by decide)
  · exact hslash (hc.trans (by decide))

/-- Without backslashes the components that are shown are the decoded ones. -/
theorem body_display {path : Bytes} (h : 0x5c ∉ path) :
    body (encode (display path)) = (body path).map fun part => encode (from_utf8_lossy part) := by
  have hsame : display path = from_utf8_lossy path := by
    unfold display
    refine (List.map_congr_left fun c hc => if_neg ?_).trans (List.map_id _)
    rintro rfl
    exact h (mem_of_mem_from_utf8_lossy (c := '\\') (by decide) hc)
  rw [hsame, body_lossy]

/-- A name that comes through trimming and decoding is a text without blanks at its end. -/
theorem shown_iff {name : Bytes} :
    encode (Text.trim_end (from_utf8_lossy name)) = name ↔ Shown name := by
  constructor
  · intro h
    refine ⟨_, h.symm, ?_⟩
    exact List.rdropWhile_idempotent _ _
  · rintro ⟨text, rfl, htext⟩
    rw [from_utf8_lossy_encode, htext]

theorem slash_not_mem_trim_end {name : Bytes} (h : SLASH ∉ name) :
    SLASH ∉ encode (Text.trim_end (from_utf8_lossy name)) := by
  intro hmem
  have hchar := mem_of_mem_encode (b := SLASH) (by decide) hmem
  have hlossy := (List.rdropWhile_prefix _ _).subset hchar
  exact h (mem_of_mem_from_utf8_lossy (c := '/') (by decide) hlossy)

/-- The components that are shown, with what is left of the name, are those of the file. -/
theorem components_iff {dir name : Bytes} (hname : IsName name) :
    body (encode (display dir)) ++ body (encode (Text.trim_end (from_utf8_lossy name))) =
        body dir ++ [name] ↔
      body (encode (display dir)) = body dir ∧ Shown name := by
  have hlast := body_of_not_mem (slash_not_mem_trim_end hname.2.1)
  have hstays : ¬ Stays name := fun h => h.elim hname.1 hname.2.2.1
  constructor
  · intro h
    have hsub : ∀ part ∈ body dir, part ∈ body (encode (display dir)) := by
      intro part hpart
      rw [hlast] at h
      split_ifs at h
      · rw [List.append_nil] at h
        rw [h]
        exact List.mem_append_left _ hpart
      · rwa [List.append_inj_left' h rfl]
    have hslash : 0x5c ∉ dir := by
      intro hmem
      obtain ⟨part, hpart, hb⟩ := mem_body_of_mem hmem (by decide) (by decide)
      have hparts := (List.mem_filter.mp (hsub part hpart)).1
      exact backslash_not_mem_display dir (mem_of_mem_parts hparts hb)
    have hlength := congrArg List.length h
    rw [List.length_append, List.length_append, List.length_singleton, body_display hslash,
      List.length_map, hlast] at hlength
    split_ifs at hlength with hnone
    · rw [List.length_nil] at hlength
      omega
    · rw [hlast, if_neg hnone] at h
      obtain ⟨hdir, hsame⟩ := List.append_inj' h rfl
      exact ⟨hdir, shown_iff.mp (List.singleton_inj.mp hsame)⟩
  · rintro ⟨hdir, hshown⟩
    rw [hdir, hlast, shown_iff.mpr hshown, if_neg hstays]

/-- **A shown path** leads back to the file exactly when the directory is shown as it is, and the
name is a text without blanks at its end. -/
theorem maps_back_iff (v : Vars) {dir name : Bytes} (hdir : is_absolute dir) (hname : IsName name) :
    SamePath (local_path v (join_shown (display dir) (from_utf8_lossy name))) (join dir name) ↔
      SamePath (encode (display dir)) dir ∧ Shown name := by
  obtain ⟨habs, hbody⟩ := body_local_path_join_shown v (display_head hdir) (from_utf8_lossy name)
  have hne : dir ≠ [] := by
    rintro rfl
    cases hdir
  have hshown : is_absolute (encode (display dir)) := by
    obtain ⟨rest, hrest⟩ : ∃ rest, display dir = '/' :: rest := by
      have hhead := display_head hdir
      cases hdisplay : display dir with
      | nil =>
        rw [hdisplay] at hhead
        cases hhead
      | cons c rest =>
        rw [hdisplay] at hhead
        exact ⟨rest, by rw [Option.some.inj hhead]⟩
    rw [hrest]
    rfl
  unfold SamePath
  rw [components_of_absolute habs, components_of_absolute (is_absolute_join hdir),
    components_of_absolute hshown, components_of_absolute hdir, hbody,
    body_join hne hname.1 hname.2.1, body_of_not_mem hname.2.1,
    if_neg fun h => h.elim hname.1 hname.2.2.1]
  simp only [Prod.mk.injEq, true_and]
  exact components_iff hname

/-! ## Listings -/

theorem name_of_mem_files {read : List DirEntry} {file : Bytes × Metadata}
    (h : file ∈ files read) : IsName file.1 := by
  obtain ⟨dirent, -, hfile⟩ := List.mem_filterMap.mp h
  obtain ⟨metadata, -, rfl⟩ := Option.map_eq_some_iff.mp hfile
  exact dirent.name.2

/-- **The listing** has an entry for every file whose metadata can be read, and no other. -/
theorem list_perm {v : Vars} {to_lowercase : List Char → List Char} {path : List Char}
    {read : Bytes → Option (List (Option DirEntry))} {result : List SftpEntry}
    (h : list v to_lowercase path read = some result) :
    ∃ entries, (read (local_path v path)).bind (List.mapM id) = some entries ∧
      result.Perm ((files entries).map fun file =>
        entry (display (local_path v path)) file.1 file.2) := by
  unfold list at h
  dsimp only at h
  obtain ⟨found, hfound, h⟩ := Option.bind_eq_some_iff.mp h
  obtain ⟨entries, hentries, rfl⟩ := Option.map_eq_some_iff.mp h
  refine ⟨entries, ?_, List.mergeSort_perm _ _⟩
  rw [hfound]
  exact hentries

/-- **The listing of a directory** leads back to its files exactly when the directory is shown as it
is and every name is a text without blanks at its end. -/
theorem list_maps_back_iff (v : Vars) (to_lowercase : List Char → List Char) (path : List Char)
    (read : Bytes → Option (List (Option DirEntry))) (hdir : is_absolute (local_path v path)) :
    MapsBack v to_lowercase path read ↔
      ∀ entries, (read (local_path v path)).bind (List.mapM id) = some entries →
        ∀ file ∈ files entries,
          SamePath (encode (display (local_path v path))) (local_path v path) ∧ Shown file.1 := by
  constructor
  · intro h entries hentries file hfile
    have hlist : list v to_lowercase path read = some (sort_entries to_lowercase
        ((files entries).map fun file => entry (display (local_path v path)) file.1 file.2)) := by
      obtain ⟨found, hfound, hmap⟩ := Option.bind_eq_some_iff.mp hentries
      unfold list
      dsimp only
      rw [hfound, Option.bind_some, hmap]
      rfl
    obtain ⟨entries', hentries', -, hall⟩ := h _ hlist
    rw [hentries] at hentries'
    obtain rfl := Option.some.inj hentries'
    exact (maps_back_iff v hdir (name_of_mem_files hfile)).mp (hall file hfile)
  · intro h result hresult
    obtain ⟨entries, hentries, hperm⟩ := list_perm hresult
    refine ⟨entries, hentries, hperm, fun file hfile => ?_⟩
    exact (maps_back_iff v hdir (name_of_mem_files hfile)).mpr (h entries hentries file hfile)

/-- A home directory. -/
def vars : Vars := ⟨some (encode "/h".toList), none⟩

/-- A file of the home directory, without metadata worth mentioning. -/
def one_file (name : Bytes) (hname : IsName name) : Bytes → Option (List (Option DirEntry)) :=
  fun _ => some [some ⟨⟨name, hname⟩, some ⟨false, false, 0, none, none⟩⟩]

/-- A plain name. -/
theorem plain_maps_back :
    MapsBack vars id "/h".toList (one_file (encode ['a']) (by unfold IsName; decide)) ↔
      ∀ entries, (one_file (encode ['a']) (by unfold IsName; decide)
          (local_path vars "/h".toList)).bind (List.mapM id) = some entries →
        ∀ file ∈ files entries,
          SamePath (encode (display (local_path vars "/h".toList))) (local_path vars "/h".toList) ∧
            Shown file.1 :=
  list_maps_back_iff vars id "/h".toList _ (by decide +kernel)

/-- A name that is not UTF-8 leads to another file. -/
theorem broken_name : ¬ MapsBack vars id "/h".toList (one_file [0xff] (by unfold IsName; decide)) := by
  intro h
  obtain ⟨entries, hentries, -, hall⟩ := h _ rfl
  obtain rfl := Option.some.inj hentries
  have hsame := hall ([0xff], ⟨false, false, 0, none, none⟩) (List.mem_singleton_self _)
  revert hsame
  unfold SamePath
  decide +kernel

end WaSSH.Files.LocalList
