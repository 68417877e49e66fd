import WaSSH.Lib.Checked
import WaSSH.Store.Zip

/-!
# The entries of an archive

The viewer lists what is in a ZIP file from the directory at its end. The end record is looked for
backwards: the last place where its signature stands is taken for it.

* `zip_entries`: with the places it adds up to in 64 bits, and the slices it takes;
* `listing`: the same in numbers that never leave their width; `zip_entries_eq`: for every bytes;
* `Archive`: a ZIP file, with anything in front of its directory, behind it and in its comment;
* `listing_of_read`: what the reader of backups reads is what is listed;
* **`zip_entries_right`**: the archives that are listed as they are.
-/

namespace WaSSH.Files.ZipEntries

open LittleEndian (Bytes slice from_le_bytes record width)
open Utf8 (encode from_utf8_lossy)
open Store.Zip (CENTRAL_HEADER END_OF_DIRECTORY read_field)

/-! ## The code -/

/-- One entry of a ZIP archive, read from its central directory. -/
structure ZipEntry where
  name : List Char
  size : ℕ
  is_dir : Bool
  deriving DecidableEq

def ZipEntry.of_name (name : List Char) (size : ℕ) : ZipEntry :=
  ⟨name, size, name.getLast? = some '/'⟩

def EOCD : Bytes := [0x50, 0x4b, 0x05, 0x06]

def CENTRAL : Bytes := [0x50, 0x4b, 0x01, 0x02]

/-- What a run can break off with. -/
inductive Panic
  | overflow
  | range

abbrev Run := OptionT (Except Panic)

/-- What a run comes to without breaking off. -/
def ok {α : Type} (found : Option α) : Run α := OptionT.mk (.ok found)

/-- `a + b` of places. -/
def add (a b : ℕ) : Run ℕ :=
  if a + b < 2 ^ 64 then pure (a + b) else OptionT.mk (.error .overflow)

/-- `&bytes[start..]`. -/
def from_place (bytes : Bytes) (start : ℕ) : Run Bytes :=
  if start ≤ bytes.length then pure (bytes.drop start) else OptionT.mk (.error .range)

/-- `bytes.get(start..start + len)?`. -/
def get (bytes : Bytes) (start len : ℕ) : Run Bytes := do
  let _ ← add start len
  ok (slice bytes start len)

def read (bytes : Bytes) (start len : ℕ) : Run ℕ := do
  let found ← get bytes start len
  pure (from_le_bytes found)

/-- The last window that is the signature. -/
def rposition : Bytes → Option ℕ
  | [] => none
  | b :: t =>
    match rposition t with
    | some offset => some (offset + 1)
    | none => if EOCD <+: b :: t then some 0 else none

/-- One round of the loop: an entry, and where the next one starts. -/
def read_entry (bytes : Bytes) (start : ℕ) : Run (ZipEntry × ℕ) := do
  let size ← read bytes (← add start 24) 4
  let name_len ← read bytes (← add start 28) 2
  let extra_len ← read bytes (← add start 30) 2
  let comment_len ← read bytes (← add start 32) 2
  let name ← get bytes (← add start 46) name_len
  let behind_name ← add 46 name_len
  let behind_extra ← add behind_name extra_len
  let behind ← add behind_extra comment_len
  let next ← add start behind
  pure (ZipEntry.of_name (from_utf8_lossy name) size, next)

/-- The loop. -/
def read_entries (bytes : Bytes) : ℕ → ℕ → Run (List ZipEntry)
  | 0, _ => pure []
  | count + 1, start => do
    let signature ← get bytes start 4
    if signature ≠ CENTRAL then pure []
    else
      let (entry, next) ← read_entry bytes start
      let entries ← read_entries bytes count next
      pure (entry :: entries)

/-- Entry names of a ZIP archive. -/
def zip_entries (bytes : Bytes) : Run (List ZipEntry) :=
  if bytes.length < 22 then ok none
  else do
    let window := bytes.length - 65557
    let tail ← from_place bytes window
    let offset ← ok (rposition tail)
    let eocd ← add window offset
    let count ← read bytes (← add eocd 10) 2
    let directory_at ← read bytes (← add eocd 16) 4
    let directory_size ← read bytes (← add eocd 12) 4
    if directory_size = 0 ∧ count = 0xffff then ok none
    else read_entries bytes count directory_at

/-! ## Without the machine -/

/-- An entry, and where the next one starts. -/
def entry_at (bytes : Bytes) (start : ℕ) : Option (ZipEntry × ℕ) :=
  (LittleEndian.read 4 bytes (start + 24)).bind fun size =>
  (LittleEndian.read 2 bytes (start + 28)).bind fun name_len =>
  (LittleEndian.read 2 bytes (start + 30)).bind fun extra_len =>
  (LittleEndian.read 2 bytes (start + 32)).bind fun comment_len =>
  (slice bytes (start + 46) name_len).bind fun name =>
    some (ZipEntry.of_name (from_utf8_lossy name) size,
      start + (46 + name_len + extra_len + comment_len))

/-- Entries, up to the first that is none. -/
def entries_at (bytes : Bytes) : ℕ → ℕ → Option (List ZipEntry)
  | 0, _ => some []
  | count + 1, start =>
    (slice bytes start 4).bind fun signature =>
      if signature ≠ CENTRAL then some []
      else (entry_at bytes start).bind fun found =>
        (entries_at bytes count found.2).bind fun entries => some (found.1 :: entries)

/-- What the record at a place leads to. -/
def record_at (bytes : Bytes) (eocd : ℕ) : Option (List ZipEntry) :=
  (LittleEndian.read 2 bytes (eocd + 10)).bind fun count =>
  (LittleEndian.read 4 bytes (eocd + 16)).bind fun directory_at =>
  (LittleEndian.read 4 bytes (eocd + 12)).bind fun directory_size =>
    if directory_size = 0 ∧ count = 0xffff then none else entries_at bytes count directory_at

/-- The record that is found. -/
def listing (bytes : Bytes) : Option (List ZipEntry) :=
  if bytes.length < 22 then none
  else
    let window := bytes.length - 65557
    (rposition (bytes.drop window)).bind fun offset => record_at bytes (window + offset)

section

variable {α β : Type}

theorem ok_bind {found : Option α} {f : α → Run β} {g : α → Option β}
    (h : ∀ a, found = some a → f a = ok (g a)) : ok found >>= f = ok (found.bind g) := by
  cases found with
  | none => rfl
  | some a => exact h a rfl

theorem ok_some_bind (a : α) (f : α → Run β) : ok (some a) >>= f = f a := rfl

end

theorem add_eq {a b : ℕ} (h : a + b < 2 ^ 64) : add a b = ok (some (a + b)) := if_pos h

theorem get_eq {bytes : Bytes} {start len : ℕ} (h : start + len < 2 ^ 64) :
    get bytes start len = ok (slice bytes start len) := by
  unfold get
  rw [add_eq h]
  rfl

theorem read_eq {bytes : Bytes} {start len : ℕ} (h : start + len < 2 ^ 64) :
    read bytes start len = ok (LittleEndian.read len bytes start) := by
  unfold read LittleEndian.read
  rw [get_eq h]
  cases slice bytes start len <;> rfl

/-- No place of an entry leaves 64 bits. -/
theorem read_entry_eq {bytes : Bytes} {start : ℕ} (h : start < 2 ^ 63) :
    read_entry bytes start = ok (entry_at bytes start) := by
  unfold read_entry entry_at
  rw [add_eq (by omega), ok_some_bind, read_eq (by omega)]
  refine ok_bind fun size hsize => ?_
  rw [add_eq (by omega), ok_some_bind, read_eq (by omega)]
  refine ok_bind fun name_len hname => ?_
  have hname := LittleEndian.read_lt hname
  rw [add_eq (by omega), ok_some_bind, read_eq (by omega)]
  refine ok_bind fun extra_len hextra => ?_
  have hextra := LittleEndian.read_lt hextra
  rw [add_eq (by omega), ok_some_bind, read_eq (by omega)]
  refine ok_bind fun comment_len hcomment => ?_
  have hcomment := LittleEndian.read_lt hcomment
  rw [add_eq (by omega), ok_some_bind, get_eq (by omega)]
  refine ok_bind fun name _ => ?_
  rw [add_eq (by omega), ok_some_bind, add_eq (by omega), ok_some_bind, add_eq (by omega),
    ok_some_bind, add_eq (by omega), ok_some_bind]
  rfl

theorem next_lt {bytes : Bytes} {start next : ℕ} {entry : ZipEntry}
    (h : entry_at bytes start = some (entry, next)) : next < start + 2 ^ 18 := by
  unfold entry_at at h
  simp only [Option.bind_eq_some_iff] at h
  obtain ⟨size, -, name_len, hname, extra_len, hextra, comment_len, hcomment, name, -, heq⟩ := h
  have hnext := (Prod.mk.inj (Option.some.inj heq)).2
  have hname := LittleEndian.read_lt hname
  have hextra := LittleEndian.read_lt hextra
  have hcomment := LittleEndian.read_lt hcomment
  omega

/-- **Run lemma**: no place of the loop leaves 64 bits. -/
theorem read_entries_eq {bytes : Bytes} : ∀ {count start : ℕ}, start + count * 2 ^ 18 < 2 ^ 63 →
    read_entries bytes count start = ok (entries_at bytes count start)
  | 0, _, _ => rfl
  | count + 1, start, h => by
    unfold read_entries entries_at
    rw [get_eq (by omega)]
    refine ok_bind fun signature _ => ?_
    split_ifs with hsignature
    · rfl
    · rw [read_entry_eq (by omega)]
      refine ok_bind fun ⟨entry, next⟩ hentry => ?_
      have hnext := next_lt hentry
      dsimp only
      rw [read_entries_eq (by omega)]
      exact ok_bind fun entries _ => rfl

theorem rposition_lt : ∀ {t : Bytes} {offset : ℕ}, rposition t = some offset → offset < t.length
  | [], offset, h => by cases h
  | b :: t, offset, h => by
    unfold rposition at h
    cases hrest : rposition t with
    | some p =>
      rw [hrest] at h
      have hp := rposition_lt hrest
      rw [← Option.some.inj h, List.length_cons]
      omega
    | none =>
      rw [hrest] at h
      dsimp only at h
      split_ifs at h
      rw [← Option.some.inj h]
      exact Nat.succ_pos _

/-- **Whatever the bytes are, nothing breaks off.** -/
theorem zip_entries_eq {bytes : Bytes} (h : bytes.length < 2 ^ 63) :
    zip_entries bytes = ok (listing bytes) := by
  unfold zip_entries listing
  split_ifs with hshort
  · rfl
  · have htail : from_place bytes (bytes.length - 65557) =
        ok (some (bytes.drop (bytes.length - 65557))) := if_pos (Nat.sub_le _ _)
    dsimp only
    rw [htail, ok_some_bind]
    refine ok_bind fun offset hoffset => ?_
    have hlt := rposition_lt hoffset
    rw [List.length_drop] at hlt
    unfold record_at
    rw [add_eq (by omega), ok_some_bind, add_eq (by omega), ok_some_bind, read_eq (by omega)]
    refine ok_bind fun count hcount => ?_
    have hcount := LittleEndian.read_lt hcount
    rw [add_eq (by omega), ok_some_bind, read_eq (by omega)]
    refine ok_bind fun directory_at hat => ?_
    have hat := LittleEndian.read_lt hat
    rw [add_eq (by omega), ok_some_bind, read_eq (by omega)]
    refine ok_bind fun directory_size _ => ?_
    split_ifs
    · rfl
    · exact read_entries_eq (by omega)

/-! ## The signature that is found -/

theorem rposition_eq_none_iff : ∀ {t : Bytes}, rposition t = none ↔ ¬ EOCD <:+: t
  | [] => by
    refine iff_of_true rfl ?_
    rw [List.infix_nil]
    exact List.cons_ne_nil _ _
  | b :: t => by
    have ih := @rposition_eq_none_iff t
    unfold rposition
    rw [List.infix_cons_iff]
    cases hrest : rposition t with
    | some p =>
      rw [hrest] at ih
      have hin : EOCD <:+: t := by
        by_contra hnot
        exact absurd (ih.mpr hnot) (Option.some_ne_none p)
      exact iff_of_false (Option.some_ne_none _) (not_not_intro (.inr hin))
    | none =>
      have hnot := ih.mp hrest
      dsimp only
      rw [or_iff_left hnot]
      by_cases hprefix : EOCD <+: b :: t
      · rw [if_pos hprefix]
        exact iff_of_false (Option.some_ne_none _) (not_not_intro hprefix)
      · rw [if_neg hprefix]
        exact iff_of_true rfl hprefix

theorem rposition_append {u : Bytes} {offset : ℕ} (h : rposition u = some offset) :
    ∀ before : Bytes, rposition (before ++ u) = some (before.length + offset)
  | [] => by rw [List.nil_append, h, List.length_nil, Nat.zero_add]
  | b :: before => by
    rw [List.cons_append, rposition, rposition_append h before, List.length_cons,
      Nat.add_right_comm]

/-- A signature does not begin in another one. -/
theorem infix_behind {behind : Bytes} (h : EOCD <:+: [0x4b, 0x05, 0x06] ++ behind) :
    EOCD <:+: behind := by
  rcases List.infix_cons_iff.mp h with h | h
  · exact absurd (List.cons_prefix_cons.mp h).1 (by decide)
  · rcases List.infix_cons_iff.mp h with h | h
    · exact absurd (List.cons_prefix_cons.mp h).1 (by decide)
    · rcases List.infix_cons_iff.mp h with h | h
      · exact absurd (List.cons_prefix_cons.mp h).1 (by decide)
      · exact h

/-- The last signature is found. -/
theorem rposition_last {behind : Bytes} (h : ¬ EOCD <:+: behind) (before : Bytes) :
    rposition (before ++ (EOCD ++ behind)) = some before.length := by
  refine rposition_append (show rposition (EOCD ++ behind) = some 0 from ?_) before
  have hrest : rposition ([0x4b, 0x05, 0x06] ++ behind) = none :=
    rposition_eq_none_iff.mpr fun hin => h (infix_behind hin)
  change rposition (0x50 :: ([0x4b, 0x05, 0x06] ++ behind)) = _
  rw [rposition, hrest]
  exact if_pos ⟨behind, rfl⟩

/-- What is found stands at a signature or behind it. -/
theorem rposition_ge (before behind : Bytes) : ∃ offset,
    rposition (before ++ (EOCD ++ behind)) = some offset ∧ before.length ≤ offset := by
  cases hrest : rposition (EOCD ++ behind) with
  | none => exact absurd ⟨[], behind, rfl⟩ (rposition_eq_none_iff.mp hrest)
  | some offset => exact ⟨_, rposition_append hrest before, Nat.le_add_right _ _⟩

/-- The signature of the end record is in the last window. -/
theorem listing_last {before behind : Bytes} (hlength : 18 ≤ behind.length)
    (hfits : behind.length ≤ 18 + 65535) (h : ¬ EOCD <:+: behind) :
    listing (before ++ (EOCD ++ behind)) =
      record_at (before ++ (EOCD ++ behind)) before.length := by
  have hlen : (before ++ (EOCD ++ behind)).length = before.length + (4 + behind.length) := by
    rw [List.length_append, List.length_append]
    rfl
  unfold listing
  rw [hlen, if_neg (by omega)]
  dsimp only
  rw [List.drop_append_of_le_length (by omega), rposition_last h, Option.bind_some,
    List.length_drop, Nat.add_sub_cancel' (by omega)]

/-- A signature with too little behind it for a record hides the end record. -/
theorem listing_hidden {before behind : Bytes} (hfits : behind.length < 16) :
    listing (before ++ (EOCD ++ behind)) = none := by
  have hlen : (before ++ (EOCD ++ behind)).length = before.length + (4 + behind.length) := by
    rw [List.length_append, List.length_append]
    rfl
  unfold listing
  split_ifs with hshort
  · rfl
  · dsimp only
    have hwindow : (before ++ (EOCD ++ behind)).length - 65557 ≤ before.length := by omega
    generalize (before ++ (EOCD ++ behind)).length - 65557 = window at hwindow ⊢
    rw [List.drop_append_of_le_length hwindow]
    obtain ⟨offset, hoffset, hge⟩ := rposition_ge (before.drop window) behind
    rw [List.length_drop] at hge
    rw [hoffset, Option.bind_some]
    have hnone : LittleEndian.read 4 (before ++ (EOCD ++ behind)) (window + offset + 16) =
        none := by
      unfold LittleEndian.read slice
      rw [if_neg (by omega)]
      rfl
    unfold record_at
    rw [hnone]
    cases LittleEndian.read 2 (before ++ (EOCD ++ behind)) (window + offset + 10) <;> rfl

/-! ## ZIP files -/

/-- An entry of a directory. Its field for the size may be full, with the size in the extra
bytes. -/
structure Central where
  made_by : ℕ
  needed : ℕ
  flags : ℕ
  method : ℕ
  time : ℕ
  date : ℕ
  crc : ℕ
  compressed : ℕ
  size : ℕ
  size_field : ℕ
  disk : ℕ
  internal : ℕ
  external : ℕ
  offset : ℕ
  name : Bytes
  extra : Bytes
  comment : Bytes
  size_said : size_field = size ∨ size_field = 2 ^ 32 - 1
  size_fits : size_field < 2 ^ 32
  name_fits : name.length < 2 ^ 16
  extra_fits : extra.length < 2 ^ 16
  comment_fits : comment.length < 2 ^ 16

namespace Central

variable (e : Central)

def fields : List (ℕ × ℕ) :=
  [(4, CENTRAL_HEADER), (2, e.made_by), (2, e.needed), (2, e.flags), (2, e.method), (2, e.time),
    (2, e.date), (4, e.crc), (4, e.compressed), (4, e.size_field), (2, e.name.length),
    (2, e.extra.length), (2, e.comment.length), (2, e.disk), (2, e.internal), (4, e.external),
    (4, e.offset)]

def block : Bytes := record e.fields ++ (e.name ++ (e.extra ++ e.comment))

/-- The entry with its size. -/
def entry : ZipEntry := .of_name (from_utf8_lossy e.name) e.size

/-- The entry with what its field says. -/
def shown : ZipEntry := .of_name (from_utf8_lossy e.name) e.size_field

theorem shown_eq_iff : e.shown = e.entry ↔ e.size_field = e.size := by
  unfold shown entry ZipEntry.of_name
  rw [ZipEntry.mk.injEq, and_iff_right rfl, and_iff_left rfl]

theorem width_fields : width e.fields = 46 := by simp [fields]

theorem length_block : e.block.length = 46 + e.name.length + e.extra.length + e.comment.length := by
  unfold block
  rw [List.length_append, LittleEndian.length_record, width_fields, List.length_append,
    List.length_append]
  omega

end Central

/-- A ZIP file in one piece. A field of its end record may be full, with the number in a record of
`between`. -/
structure Archive where
  front : Bytes
  entries : List Central
  between : Bytes
  disk : ℕ
  directory_disk : ℕ
  count_here : ℕ
  count : ℕ
  directory_size : ℕ
  directory_at : ℕ
  comment : Bytes
  count_said : count = entries.length ∨ count = 2 ^ 16 - 1
  count_fits : count < 2 ^ 16
  size_said : directory_size = (entries.flatMap Central.block).length ∨
    directory_size = 2 ^ 32 - 1
  size_fits : directory_size < 2 ^ 32
  at_said : directory_at = front.length ∨ directory_at = 2 ^ 32 - 1
  at_fits : directory_at < 2 ^ 32
  comment_fits : comment.length < 2 ^ 16
  between_ends : ¬ CENTRAL <+: between ++ EOCD

namespace Archive

variable (a : Archive)

/-- The end record behind its signature. -/
def fields : List (ℕ × ℕ) :=
  [(2, a.disk), (2, a.directory_disk), (2, a.count_here), (2, a.count), (4, a.directory_size),
    (4, a.directory_at), (2, a.comment.length)]

/-- What comes behind the signature of the end record. -/
def behind : Bytes := record a.fields ++ a.comment

def before : Bytes := a.front ++ a.entries.flatMap Central.block ++ a.between

def bytes : Bytes := a.before ++ (EOCD ++ a.behind)

/-- The entries of the directory. -/
def listed : List ZipEntry := a.entries.map Central.entry

/-- The fields say as many entries as there are, and their sizes. -/
structure Said : Prop where
  count : a.entries.length ≤ a.count
  sizes : ∀ e ∈ a.entries, e.size_field = e.size
  taken : ¬ (a.directory_size = 0 ∧ a.count = 0xffff)

end Archive

/-- **An entry** is read where it stands. -/
theorem entry_at_block {bytes before after : Bytes} {e : Central}
    (h : bytes = before ++ e.block ++ after) :
    slice bytes before.length 4 = some CENTRAL ∧
      entry_at bytes before.length = some (e.shown, before.length + e.block.length) := by
  have hfields : bytes = before ++ record e.fields ++
      (e.name ++ (e.extra ++ e.comment) ++ after) := by
    rw [h, Central.block]
    simp only [List.append_assoc]
  have hsignature : LittleEndian.read 4 bytes before.length = some CENTRAL_HEADER :=
    read_field hfields 0 0 rfl rfl (by decide)
  have hsize : LittleEndian.read 4 bytes (before.length + 24) = some e.size_field :=
    read_field hfields 9 24 rfl (by simp [Central.fields]) e.size_fits
  have hname : LittleEndian.read 2 bytes (before.length + 28) = some e.name.length :=
    read_field hfields 10 28 rfl (by simp [Central.fields]) e.name_fits
  have hextra : LittleEndian.read 2 bytes (before.length + 30) = some e.extra.length :=
    read_field hfields 11 30 rfl (by simp [Central.fields]) e.extra_fits
  have hcomment : LittleEndian.read 2 bytes (before.length + 32) = some e.comment.length :=
    read_field hfields 12 32 rfl (by simp [Central.fields]) e.comment_fits
  have hslice : slice bytes (before.length + 46) e.name.length = some e.name := by
    have hbytes : bytes = (before ++ record e.fields) ++ e.name ++
        (e.extra ++ e.comment ++ after) := by
      rw [hfields]
      simp only [List.append_assoc]
    refine Store.Zip.slice_eq hbytes ?_ rfl
    rw [List.length_append, LittleEndian.length_record, e.width_fields]
  refine ⟨LittleEndian.slice_of_read hsignature, ?_⟩
  unfold entry_at
  rw [hsize, Option.bind_some, hname, Option.bind_some, hextra, Option.bind_some, hcomment,
    Option.bind_some, hslice, Option.bind_some, e.length_block]
  rfl

/-- **Run lemma**: the directory is read as far as it is counted. -/
theorem entries_at_directory {bytes after signature : Bytes}
    (hafter : after.take 4 = signature ∧ signature.length = 4 ∧ signature ≠ CENTRAL) :
    ∀ {entries : List Central} {before : Bytes} {count : ℕ},
      bytes = before ++ entries.flatMap Central.block ++ after →
        entries_at bytes count before.length = some ((entries.take count).map Central.shown)
  | entries, before, 0, _ => rfl
  | [], before, count + 1, h => by
    obtain ⟨hsignature, hlength, hne⟩ := hafter
    have hbytes : bytes = before ++ signature ++ after.drop 4 := by
      rw [h, List.flatMap_nil, List.append_nil, ← hsignature, List.append_assoc,
        List.take_append_drop]
    have hslice : slice bytes before.length 4 = some signature :=
      Store.Zip.slice_eq hbytes rfl hlength.symm
    rw [entries_at, hslice, Option.bind_some, if_pos hne]
    rfl
  | e :: entries, before, count + 1, h => by
    rw [List.flatMap_cons] at h
    have hfirst : bytes = before ++ e.block ++ (entries.flatMap Central.block ++ after) := by
      rw [h]
      simp only [List.append_assoc]
    have hrest : bytes = (before ++ e.block) ++ entries.flatMap Central.block ++ after := by
      rw [hfirst, List.append_assoc _ _ after]
    obtain ⟨hslice, hentry⟩ := entry_at_block hfirst
    have ih := @entries_at_directory bytes after signature hafter entries _ count hrest
    rw [List.length_append] at ih
    rw [entries_at, hslice, Option.bind_some, if_neg (not_not_intro rfl), hentry, Option.bind_some,
      ih]
    rfl

/-- What an end record in the bytes leads to. -/
theorem record_at_fields {bytes before after : Bytes}
    {disk directory_disk count_here count directory_size directory_at comment : ℕ}
    (h : bytes = before ++ record [(4, END_OF_DIRECTORY), (2, disk), (2, directory_disk),
      (2, count_here), (2, count), (4, directory_size), (4, directory_at), (2, comment)] ++ after)
    (hcount : count < 2 ^ 16) (hsize : directory_size < 2 ^ 32) (hat : directory_at < 2 ^ 32) :
    record_at bytes before.length = if directory_size = 0 ∧ count = 0xffff then none
      else entries_at bytes count directory_at := by
  have hread_count : LittleEndian.read 2 bytes (before.length + 10) = some count :=
    read_field h 4 10 rfl rfl hcount
  have hread_at : LittleEndian.read 4 bytes (before.length + 16) = some directory_at :=
    read_field h 6 16 rfl rfl hat
  have hread_size : LittleEndian.read 4 bytes (before.length + 12) = some directory_size :=
    read_field h 5 12 rfl rfl hsize
  unfold record_at
  rw [hread_count, Option.bind_some, hread_at, Option.bind_some, hread_size, Option.bind_some]

theorem record_eq (fields : List (ℕ × ℕ)) :
    EOCD ++ record fields = record ((4, END_OF_DIRECTORY) :: fields) := rfl

namespace Archive

variable (a : Archive)

theorem length_fields : (record a.fields).length = 18 := by
  rw [LittleEndian.length_record]
  simp [fields]

/-- The listing of a file whose end record is found, and says where the directory is. -/
theorem listing_bytes (hfound : ¬ EOCD <:+: a.behind) (hat : a.directory_at = a.front.length) :
    listing a.bytes = if a.directory_size = 0 ∧ a.count = 0xffff then none
      else some ((a.entries.take a.count).map Central.shown) := by
  have hrecord : a.bytes = a.before ++ record ((4, END_OF_DIRECTORY) :: a.fields) ++ a.comment := by
    rw [← record_eq, bytes, behind]
    simp only [List.append_assoc]
  have hdirectory : a.bytes = a.front ++ a.entries.flatMap Central.block ++
      (a.between ++ (EOCD ++ a.behind)) := by
    rw [bytes, before]
    simp only [List.append_assoc]
  have hafter : (a.between ++ (EOCD ++ a.behind)).take 4 = (a.between ++ EOCD).take 4 := by
    rw [← List.append_assoc, List.take_append_of_le_length]
    rw [List.length_append]
    exact Nat.le_add_left _ _
  have hlength : ((a.between ++ EOCD).take 4).length = 4 := by
    rw [List.length_take, List.length_append]
    exact Nat.min_eq_left (Nat.le_add_left _ _)
  have hends : (a.between ++ EOCD).take 4 ≠ CENTRAL := fun h =>
    a.between_ends (h ▸ List.take_prefix _ _)
  have hbehind : a.behind.length = 18 + a.comment.length := by
    rw [behind, List.length_append, length_fields]
  have hcomment := a.comment_fits
  have hlast : listing a.bytes = record_at a.bytes a.before.length :=
    listing_last (by omega) (by omega) hfound
  rw [hlast, record_at_fields hrecord a.count_fits a.size_fits a.at_fits, hat,
    entries_at_directory ⟨hafter, hlength, hends⟩ hdirectory]

/-- **What is listed is what is there** where the fields say so. -/
theorem listed_iff (hfound : ¬ EOCD <:+: a.behind) (hat : a.directory_at = a.front.length) :
    listing a.bytes = some a.listed ↔ a.Said := by
  rw [a.listing_bytes hfound hat]
  constructor
  · intro h
    split_ifs at h with htaken
    have hmap : (a.entries.take a.count).map Central.shown = a.listed := Option.some.inj h
    have hlength := congrArg List.length hmap
    rw [listed, List.length_map, List.length_map, List.length_take] at hlength
    have hcount : a.entries.length ≤ a.count := by omega
    rw [List.take_of_length_le hcount, listed, List.map_inj_left] at hmap
    exact ⟨hcount, fun e he => e.shown_eq_iff.mp (hmap e he), htaken⟩
  · intro h
    rw [if_neg h.taken, List.take_of_length_le h.count]
    exact congrArg some (List.map_congr_left fun e he => e.shown_eq_iff.mpr (h.sizes e he))

/-- A signature near the end of the file hides the end record. -/
theorem listing_of_hidden {x y : Bytes} (h : a.behind = x ++ (EOCD ++ y)) (hy : y.length < 16) :
    listing a.bytes = none := by
  have hbytes : a.bytes = (a.before ++ (EOCD ++ x)) ++ (EOCD ++ y) := by
    rw [bytes, h]
    simp only [List.append_assoc]
  rw [hbytes]
  exact listing_hidden hy

end Archive

/-! ## The archives of the writer -/

section

open Store

variable {crc32 : Bytes → UInt32}

/-- A file of an archive, as it is listed. -/
def listed_file (file : Zip.Entry) : ZipEntry := .of_name file.1 file.2.length

/-- What the reader reads at a place is listed there. -/
theorem ok_or_eq_ok_iff {α : Type} {found : Option α} {error : String} {a : α} :
    Zip.ok_or found error = .ok a ↔ found = some a := by
  cases found with
  | none => exact iff_of_false nofun nofun
  | some b =>
    exact ⟨fun h => congrArg some (Except.ok.inj h), fun h => congrArg _ (Option.some.inj h)⟩

theorem unless_eq_ok_iff {α β : Type} {c : Prop} [Decidable c] {error : String}
    {f : α → Except String β} {x : Except String β} {b : β} :
    (if c then throw error >>= f else x) = .ok b ↔ ¬ c ∧ x = .ok b := by
  by_cases h : c
  · rw [if_pos h]
    exact iff_of_false nofun fun hx => hx.1 h
  · rw [if_neg h]
    exact (and_iff_right h).symm

theorem entry_at_of_read {bytes : Bytes} {cursor next : ℕ} {file : Zip.Entry}
    (h : Zip.read_entry crc32 bytes cursor = .ok (file, next)) :
    slice bytes cursor 4 = some CENTRAL ∧
      entry_at bytes cursor = some (listed_file file, next) := by
  unfold Zip.read_entry at h
  simp only [unless_eq_ok_iff, Checked.bind_eq_ok_iff, ok_or_eq_ok_iff] at h
  obtain ⟨hsignature, method, -, crc, -, size, hsize, name_length, hname_length, extra_length,
    hextra, comment_length, hcomment, offset, -, name, hname, -, -, local_name, -, local_extra, -,
    data, hdata, -, heq⟩ := h
  obtain ⟨rfl, rfl⟩ := Prod.mk.inj (Except.ok.inj heq)
  refine ⟨LittleEndian.slice_of_read (not_not.mp hsignature), ?_⟩
  unfold Zip.read_u16 at hname_length hextra hcomment
  unfold Zip.read_u32 at hsize
  unfold entry_at
  rw [hsize, Option.bind_some, hname_length, Option.bind_some, hextra, Option.bind_some, hcomment,
    Option.bind_some, hname, Option.bind_some]
  unfold listed_file
  rw [LittleEndian.length_of_slice hdata]
  rfl

theorem entries_at_of_read {bytes : Bytes} : ∀ {count cursor : ℕ} {files : List Zip.Entry},
    Zip.read_entries crc32 bytes count cursor = .ok files →
      entries_at bytes count cursor = some (files.map listed_file)
  | 0, _, files, h => by
    cases h
    rfl
  | count + 1, cursor, files, h => by
    rw [Zip.read_entries] at h
    obtain ⟨⟨file, next⟩, hfile, h⟩ := Checked.bind_eq_ok_iff.mp h
    obtain ⟨more, hmore, h⟩ := Checked.bind_eq_ok_iff.mp h
    obtain ⟨hslice, hentry⟩ := entry_at_of_read hfile
    rw [← Except.ok.inj h, entries_at, hslice, Option.bind_some, if_neg (not_not_intro rfl), hentry,
      Option.bind_some, entries_at_of_read hmore]
    rfl

/-- The fields of the end record that the writer leaves, behind the signature. -/
def end_fields (w : Zip.ZipWriter) : Bytes :=
  record (Zip.end_record (w.entries.length % 2 ^ 16)
    ((w.entries.flatMap Zip.central_block).length % 2 ^ 32) (w.out.length % 2 ^ 32)).tail

theorem length_end_fields (w : Zip.ZipWriter) : (end_fields w).length = 18 := by
  unfold end_fields
  rw [LittleEndian.length_record]
  simp [Zip.end_record]

theorem finish_eq (w : Zip.ZipWriter) :
    w.finish = (w.out ++ w.entries.flatMap Zip.central_block) ++ (EOCD ++ end_fields w) := rfl

/-- **An archive of the writer is listed as it is read** where its end record has one signature. -/
theorem listing_finish_iff {w : Zip.ZipWriter} {files : List Zip.Entry}
    (h : Zip.read crc32 w.finish = .ok files) :
    listing w.finish = some (files.map listed_file) ↔ ¬ EOCD <:+: end_fields w ∧
      ¬ ((w.entries.flatMap Zip.central_block).length % 2 ^ 32 = 0 ∧
        w.entries.length % 2 ^ 16 = 0xffff) := by
  rw [Zip.read_finish_eq] at h
  have hentries := entries_at_of_read h
  have hlength := length_end_fields w
  by_cases hfound : EOCD <:+: end_fields w
  · refine iff_of_false ?_ fun hnot => hnot.1 hfound
    obtain ⟨x, y, hxy⟩ := hfound
    have hhidden : listing w.finish = none := by
      have hbytes : w.finish =
          (w.out ++ w.entries.flatMap Zip.central_block ++ (EOCD ++ x)) ++ (EOCD ++ y) := by
        rw [finish_eq, ← hxy]
        simp only [List.append_assoc]
      have hlengths := congrArg List.length hxy
      rw [List.length_append, List.length_append, hlength] at hlengths
      rw [hbytes]
      refine listing_hidden ?_
      have hfour : EOCD.length = 4 := rfl
      omega
    rw [hhidden]
    exact (Option.some_ne_none _).symm
  · have hrecord : w.finish = (w.out ++ w.entries.flatMap Zip.central_block) ++
        record (Zip.end_record (w.entries.length % 2 ^ 16)
          ((w.entries.flatMap Zip.central_block).length % 2 ^ 32) (w.out.length % 2 ^ 32)) ++ [] :=
      (List.append_nil _).symm
    have hlast : listing w.finish =
        record_at w.finish (w.out ++ w.entries.flatMap Zip.central_block).length :=
      listing_last hlength.ge (hlength.le.trans (Nat.le_add_right _ _)) hfound
    rw [hlast, record_at_fields hrecord (Nat.mod_lt _ (by decide)) (Nat.mod_lt _ (by decide))
      (Nat.mod_lt _ (by decide)), and_iff_right hfound, hentries]
    by_cases htaken : (w.entries.flatMap Zip.central_block).length % 2 ^ 32 = 0 ∧
        w.entries.length % 2 ^ 16 = 0xffff
    · rw [if_pos htaken]
      exact iff_of_false (Option.some_ne_none _).symm (not_not_intro htaken)
    · rw [if_neg htaken]
      exact iff_of_true rfl htaken

end

/-! ## What is listed -/

/-- The end record's signature is its own: none comes behind it in the file. -/
def Archive.Found (a : Archive) : Prop := ¬ EOCD <:+: a.behind

/-- A signature so near to the end of the file that no record stands there. -/
def Archive.Hidden (a : Archive) : Prop := ∃ x y, a.behind = x ++ (EOCD ++ y) ∧ y.length < 16

/-- **A ZIP file is listed as it is where nothing behind its end record's signature spells one, and
the fields say its numbers. Nothing breaks off, whatever the bytes are.** -/
theorem zip_entries_right (crc32 : Bytes → UInt32) {bytes : Bytes} (h : bytes.length < 2 ^ 63) :
    (∃ found, zip_entries bytes = ok found) ∧
    (∀ a : Archive, bytes = a.bytes → a.directory_at = a.front.length → a.Found ∨ a.Hidden →
      (zip_entries bytes = ok (some a.listed) ↔ a.Found ∧ a.Said)) ∧
    ∀ (w : Store.Zip.ZipWriter) (files : List Store.Zip.Entry), bytes = w.finish →
      Store.Zip.read crc32 bytes = .ok files →
        (zip_entries bytes = ok (some (files.map listed_file)) ↔ ¬ EOCD <:+: end_fields w ∧
          ¬ ((w.entries.flatMap Store.Zip.central_block).length % 2 ^ 32 = 0 ∧
            w.entries.length % 2 ^ 16 = 0xffff)) := by
  have hok : ∀ found other : Option (List ZipEntry), ok found = ok other ↔ found = other :=
    fun found other => ⟨fun heq => Except.ok.inj heq, fun heq => congrArg ok heq⟩
  rw [zip_entries_eq h]
  refine ⟨⟨_, rfl⟩, ?_, ?_⟩
  · rintro a rfl hat hor
    rw [hok]
    by_cases hfound : a.Found
    · rw [a.listed_iff hfound hat]
      exact (and_iff_right hfound).symm
    · obtain ⟨x, y, hbehind, hy⟩ := hor.resolve_left hfound
      rw [a.listing_of_hidden hbehind hy]
      exact iff_of_false (Option.some_ne_none _).symm fun hboth => hfound hboth.1
  · rintro w files rfl hread
    rw [hok]
    exact listing_finish_iff hread

/-- A file of five bytes in front of its directory, and a comment. -/
def with_comment (comment : Bytes) (h : comment.length < 2 ^ 16) : Archive where
  front := [0x68, 0x65, 0x6c, 0x6c, 0x6f]
  entries := [{
    made_by := 20, needed := 20, flags := 0, method := 8, time := 0, date := 0, crc := 0
    compressed := 5, size := 9, size_field := 9, disk := 0, internal := 0, external := 0
    offset := 0
    name := [0x61, 0x2f], extra := [1, 2, 0, 0], comment := EOCD
    size_said := .inl rfl, size_fits := by decide, name_fits := by decide
    extra_fits := by decide, comment_fits := by decide }]
  between := []
  disk := 0
  directory_disk := 0
  count_here := 1
  count := 1
  directory_size := 56
  directory_at := 5
  comment := comment
  count_said := .inl rfl
  count_fits := by decide
  size_said := .inl (by decide)
  size_fits := by decide
  at_said := .inl rfl
  at_fits := by decide
  comment_fits := h
  between_ends := by decide

theorem zip_entries_right_commented :
    zip_entries (with_comment [0x68, 0x69] (by decide)).bytes =
      ok (some (with_comment [0x68, 0x69] (by decide)).listed) := by
  have hfound : (with_comment [0x68, 0x69] (by decide)).Found := by
    unfold Archive.Found
    decide
  exact ((zip_entries_right (fun _ => 0) (by decide)).2.1 _ rfl rfl (.inl hfound)).mpr
    ⟨hfound, le_rfl, by decide, by decide⟩

/-- A comment that is the signature hides the end record. -/
theorem signature_in_comment : ¬ ∀ a : Archive, zip_entries a.bytes = ok (some a.listed) := by
  intro h
  have hlisted := h (with_comment EOCD (by decide))
  have hnone : zip_entries (with_comment EOCD (by decide)).bytes = ok none :=
    (zip_entries_eq (by decide)).trans (congrArg ok (by decide +kernel))
  rw [hnone] at hlisted
  cases Except.ok.inj hlisted

end WaSSH.Files.ZipEntries
