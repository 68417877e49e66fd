import WaSSH.Lib.LittleEndian
import WaSSH.Lib.Utf8

/-!
# The ZIP writer and reader

Entries are stored as they are; the directory behind them says where each one starts.

* `ZipWriter`, `add`, `finish`: the writer, with every number narrowed to its field;
* `find_end_record`, `read_entry`, `read`: the reader; `is_safe_entry_name`;
* `Recorded`: a directory entry that points at its file; `recorded_add`, `recorded_add_all`;
* `read_finish`: the reader on what the writer made, where the numbers fit their fields;
* **`read_archive`**: an archive within the limits of the format is read back, whatever its names
  and contents.
-/

namespace WaSSH.Store.Zip

open LittleEndian Utf8

def LOCAL_HEADER : ℕ := 0x04034b50
def CENTRAL_HEADER : ℕ := 0x02014b50
def END_OF_DIRECTORY : ℕ := 0x06054b50
/-- Version we claim to need. -/
def VERSION : ℕ := 20
/-- Method 0: stored. -/
def METHOD_STORE : ℕ := 0
/-- Largest comment the end record can hold. -/
def MAX_COMMENT : ℕ := 65535
def LOCAL_HEADER_SIZE : ℕ := 30
def CENTRAL_HEADER_SIZE : ℕ := 46
def END_RECORD_SIZE : ℕ := 22

/-! ## Writing -/

/-- An entry's metadata in the directory. -/
structure DirectoryEntry where
  name : List Char
  crc : UInt32
  size : ℕ
  offset : ℕ

/-- Builds an archive in one buffer. -/
structure ZipWriter where
  out : Bytes := []
  entries : List DirectoryEntry := []

/-- The fields before a name and its data. -/
def local_header (crc : UInt32) (size name_length : ℕ) : List (ℕ × ℕ) :=
  [(4, LOCAL_HEADER), (2, VERSION), (2, 0), (2, METHOD_STORE), (2, 0), (2, 0), (4, crc.toNat),
    (4, size), (4, size), (2, name_length), (2, 0)]

/-- The fields before a name in the directory. -/
def central_header (entry : DirectoryEntry) : List (ℕ × ℕ) :=
  [(4, CENTRAL_HEADER), (2, VERSION), (2, VERSION), (2, 0), (2, METHOD_STORE), (2, 0), (2, 0),
    (4, entry.crc.toNat), (4, entry.size), (4, entry.size),
    (2, (encode entry.name).length % 2 ^ 16), (2, 0), (2, 0), (2, 0), (2, 0), (4, 0),
    (4, entry.offset)]

/-- The fields of the end record. -/
def end_record (count directory_size directory_offset : ℕ) : List (ℕ × ℕ) :=
  [(4, END_OF_DIRECTORY), (2, 0), (2, 0), (2, count), (2, count), (4, directory_size),
    (4, directory_offset), (2, 0)]

/-- A file in the archive: its name and its contents. -/
abbrev Entry := List Char × Bytes

section

variable (crc32 : Bytes → UInt32)

/-- The bytes of one file in the archive. -/
def local_block (entry : Entry) : Bytes :=
  record (local_header (crc32 entry.2) (entry.2.length % 2 ^ 32)
    ((encode entry.1).length % 2 ^ 16)) ++ encode entry.1 ++ entry.2

/-- The bytes of one entry of the directory. -/
def central_block (entry : DirectoryEntry) : Bytes :=
  record (central_header entry) ++ encode entry.name

namespace ZipWriter

variable (w : ZipWriter)

/-- Add `data` under `name`. -/
def add (name : List Char) (data : Bytes) : ZipWriter where
  out := w.out ++ local_block crc32 (name, data)
  entries := w.entries ++
    [{ name, crc := crc32 data, size := data.length % 2 ^ 32, offset := w.out.length % 2 ^ 32 }]

/-- Serialise the central directory and return the archive. -/
def finish : Bytes :=
  let directory := w.entries.flatMap central_block
  w.out ++ directory ++
    record (end_record (w.entries.length % 2 ^ 16) (directory.length % 2 ^ 32)
      (w.out.length % 2 ^ 32))

def add_all (entries : List Entry) : ZipWriter :=
  entries.foldl (fun w entry => w.add crc32 entry.1 entry.2) w

end ZipWriter

/-- The archive of a list of entries. -/
def archive (entries : List Entry) : Bytes := (ZipWriter.add_all crc32 {} entries).finish

end

/-! ## Reading -/

def read_u16 (bytes : Bytes) (offset : ℕ) : Option ℕ := LittleEndian.read 2 bytes offset

def read_u32 (bytes : Bytes) (offset : ℕ) : Option ℕ := LittleEndian.read 4 bytes offset

/-- Find the end-of-central-directory record, which may be followed by a comment. -/
def find_end_record (bytes : Bytes) : Option ℕ :=
  if bytes.length < END_RECORD_SIZE then none
  else
    let start := bytes.length - (END_RECORD_SIZE + MAX_COMMENT)
    let last := bytes.length - END_RECORD_SIZE
    (List.range' start (last + 1 - start)).reverse.find? fun offset =>
      read_u32 bytes offset = some END_OF_DIRECTORY

def ok_or {α : Type} : Option α → String → Except String α
  | some a, _ => .ok a
  | none, error => .error error

variable (crc32 : Bytes → UInt32)

/-- One round of the loop of `read`: an entry, and where the next one starts in the directory. -/
def read_entry (bytes : Bytes) (cursor : ℕ) : Except String (Entry × ℕ) := do
  if read_u32 bytes cursor ≠ some CENTRAL_HEADER then throw "damaged central directory"
  let method ← ok_or (read_u16 bytes (cursor + 10)) "truncated entry"
  let crc ← ok_or (read_u32 bytes (cursor + 16)) "truncated entry"
  let size ← ok_or (read_u32 bytes (cursor + 24)) "truncated entry"
  let name_length ← ok_or (read_u16 bytes (cursor + 28)) "truncated entry"
  let extra_length ← ok_or (read_u16 bytes (cursor + 30)) "truncated entry"
  let comment_length ← ok_or (read_u16 bytes (cursor + 32)) "truncated entry"
  let local_offset ← ok_or (read_u32 bytes (cursor + 42)) "truncated entry"
  let name_bytes ← ok_or (slice bytes (cursor + 46) name_length) "truncated name"
  let name := from_utf8_lossy name_bytes
  if method ≠ METHOD_STORE then
    throw s!"{String.ofList name}: compressed entries are not supported"
  if read_u32 bytes local_offset ≠ some LOCAL_HEADER then
    throw s!"{String.ofList name}: bad local header"
  let local_name ← ok_or (read_u16 bytes (local_offset + 26)) "truncated header"
  let local_extra ← ok_or (read_u16 bytes (local_offset + 28)) "truncated header"
  let data ← ok_or (slice bytes (local_offset + LOCAL_HEADER_SIZE + local_name + local_extra) size)
    s!"{String.ofList name}: truncated data"
  if (crc32 data).toNat ≠ crc then throw s!"{String.ofList name}: checksum mismatch"
  return ((name, data),
    cursor + (CENTRAL_HEADER_SIZE + name_length + extra_length + comment_length))

/-- The loop of `read`. -/
def read_entries (bytes : Bytes) : ℕ → ℕ → Except String (List Entry)
  | 0, _ => .ok []
  | count + 1, cursor => do
    let (entry, cursor) ← read_entry crc32 bytes cursor
    let entries ← read_entries bytes count cursor
    return entry :: entries

/-- Read the archive, returning `(name, data)` pairs. -/
def read (bytes : Bytes) : Except String (List Entry) := do
  let found ← ok_or (find_end_record bytes) "not a zip archive"
  let count ← ok_or (read_u16 bytes (found + 10)) "truncated directory"
  let directory_offset ← ok_or (read_u32 bytes (found + 16)) "truncated directory"
  read_entries crc32 bytes count directory_offset

/-- Whether `name` stays inside the extraction directory. -/
def is_safe_entry_name (name : List Char) : Bool :=
  name ≠ [] && name.head? ≠ some '/' && name.head? ≠ some '\\' && !name.contains ':' &&
    (name.splitOnP fun c => c = '/' || c = '\\').all fun part =>
      part ≠ [] && part ≠ ['.'] && part ≠ ['.', '.']

/-! ## What the writer leaves -/

variable {crc32}

/-- A directory entry points at its file. -/
structure Recorded (crc32 : Bytes → UInt32) (out : Bytes) (entry : DirectoryEntry) (file : Entry) :
    Prop where
  name : entry.name = file.1
  crc : entry.crc = crc32 file.2
  size : entry.size = file.2.length % 2 ^ 32
  block : ∃ before after, out = before ++ local_block crc32 file ++ after ∧
    entry.offset = before.length % 2 ^ 32

theorem Recorded.append {out : Bytes} {entry : DirectoryEntry} {file : Entry}
    (h : Recorded crc32 out entry file) (more : Bytes) : Recorded crc32 (out ++ more) entry file := by
  obtain ⟨before, after, hout, hoffset⟩ := h.block
  refine ⟨h.name, h.crc, h.size, before, after ++ more, ?_, hoffset⟩
  rw [hout, List.append_assoc _ after more]

/-- Every entry of the directory points at its file. -/
def Writer (crc32 : Bytes → UInt32) (w : ZipWriter) (files : List Entry) : Prop :=
  List.Forall₂ (Recorded crc32 w.out) w.entries files

/-- **Step lemma**: adding a file. -/
theorem recorded_add {w : ZipWriter} {files : List Entry} (h : Writer crc32 w files) (file : Entry) :
    Writer crc32 (w.add crc32 file.1 file.2) (files ++ [file]) := by
  refine List.rel_append (h.imp fun entry x hx => hx.append (local_block crc32 file)) ?_
  refine .cons ⟨rfl, rfl, rfl, w.out, [], ?_, rfl⟩ .nil
  rw [List.append_nil]
  rfl

/-- **Run lemma**: adding files. -/
theorem recorded_add_all {w : ZipWriter} {files : List Entry} (h : Writer crc32 w files)
    (more : List Entry) : Writer crc32 (w.add_all crc32 more) (files ++ more) := by
  induction more generalizing w files with
  | nil => rwa [List.append_nil]
  | cons file more ih =>
    rw [List.append_cons]
    exact ih (recorded_add h file)

/-- A directory entry that points at its file, with every number as it is. -/
structure Placed (crc32 : Bytes → UInt32) (bytes : Bytes) (entry : DirectoryEntry) (file : Entry) :
    Prop where
  name : entry.name = file.1
  name_fits : (encode file.1).length < 2 ^ 16
  crc : entry.crc = crc32 file.2
  size : entry.size = file.2.length
  size_fits : file.2.length < 2 ^ 32
  block : ∃ before after, bytes = before ++ local_block crc32 file ++ after ∧
    entry.offset = before.length
  offset_fits : entry.offset < 2 ^ 32

/-- In a buffer shorter than 4 GiB no number was cut. -/
theorem Recorded.placed {out : Bytes} {entry : DirectoryEntry} {file : Entry}
    (h : Recorded crc32 out entry file) (hname : (encode file.1).length < 2 ^ 16)
    (hout : out.length < 2 ^ 32) (more : Bytes) : Placed crc32 (out ++ more) entry file := by
  obtain ⟨before, after, hblock, hoffset⟩ := h.block
  have hlen : before.length + file.2.length ≤ out.length := by
    rw [hblock, local_block]
    simp only [List.length_append]
    omega
  have hbefore : entry.offset = before.length := hoffset.trans (Nat.mod_eq_of_lt (by omega))
  refine ⟨h.name, hname, h.crc, h.size.trans (Nat.mod_eq_of_lt (by omega)), by omega,
    ⟨before, after ++ more, ?_, hbefore⟩, by omega⟩
  rw [hblock, List.append_assoc _ after more]

theorem out_add_all (w : ZipWriter) (files : List Entry) :
    (w.add_all crc32 files).out = w.out ++ files.flatMap (local_block crc32) := by
  induction files generalizing w with
  | nil => exact (List.append_nil _).symm
  | cons file files ih =>
    rw [List.flatMap_cons, ← List.append_assoc]
    exact ih _

theorem width_local_header (crc : UInt32) (size name_length : ℕ) :
    width (local_header crc size name_length) = LOCAL_HEADER_SIZE := by
  simp [local_header, LOCAL_HEADER_SIZE]

theorem width_central_header (entry : DirectoryEntry) :
    width (central_header entry) = CENTRAL_HEADER_SIZE := by
  simp [central_header, CENTRAL_HEADER_SIZE]

theorem length_local_block (file : Entry) :
    (local_block crc32 file).length = LOCAL_HEADER_SIZE + (encode file.1).length + file.2.length := by
  unfold local_block
  rw [List.length_append, List.length_append, length_record, width_local_header]

/-- The bytes of one file in the archive, counted. -/
def block_length (file : Entry) : ℕ := LOCAL_HEADER_SIZE + (encode file.1).length + file.2.length

theorem length_out_add_all (crc32 : Bytes → UInt32) (files : List Entry) :
    (ZipWriter.add_all crc32 {} files).out.length = (files.map block_length).sum := by
  rw [out_add_all, List.nil_append, List.length_flatMap]
  exact congrArg List.sum (List.map_congr_left fun file _ => length_local_block file)

theorem length_central_block (entry : DirectoryEntry) :
    (central_block entry).length = CENTRAL_HEADER_SIZE + (encode entry.name).length := by
  unfold central_block
  rw [List.length_append, length_record, width_central_header]

/-! ## What the reader finds -/

/-- The end record is the last thing in an archive without a comment. -/
theorem find_end_record_append (before : Bytes) (count size offset : ℕ) :
    find_end_record (before ++ record (end_record count size offset)) = some before.length := by
  have hlen : (before ++ record (end_record count size offset)).length =
      before.length + END_RECORD_SIZE := by
    rw [List.length_append, length_record]
    simp [end_record, END_RECORD_SIZE]
  have hsignature : read_u32 (before ++ record (end_record count size offset)) before.length =
      some END_OF_DIRECTORY := by
    have hfield : (end_record count size offset)[0]? = some (4, END_OF_DIRECTORY) := rfl
    have h := read_record hfield before []
    rwa [List.append_nil] at h
  unfold find_end_record
  rw [hlen, if_neg (by omega)]
  dsimp only
  rw [Nat.add_sub_cancel]
  have hstart : before.length + END_RECORD_SIZE - (END_RECORD_SIZE + MAX_COMMENT) ≤
      before.length := by omega
  generalize before.length + END_RECORD_SIZE - (END_RECORD_SIZE + MAX_COMMENT) = start at hstart ⊢
  -- the search goes backwards, so the last place is tried first
  obtain ⟨k, hk⟩ := Nat.exists_eq_add_of_le hstart
  have hcount : before.length + 1 - start = k + 1 := by omega
  rw [hcount, List.range'_1_concat, ← hk, List.reverse_append, List.reverse_singleton,
    List.singleton_append, List.find?_cons_of_pos (by simpa using hsignature)]

/-- A header's field, in the buffer. -/
theorem read_field {bytes before after : Bytes} {fields : List (ℕ × ℕ)}
    (hbytes : bytes = before ++ record fields ++ after) (i offset : ℕ) {w n : ℕ}
    (hfield : fields[i]? = some (w, n)) (hoffset : width (fields.take i) = offset)
    (hfits : n < 256 ^ w) : LittleEndian.read w bytes (before.length + offset) = some n := by
  rw [hbytes, ← hoffset, read_record hfield, Nat.mod_eq_of_lt hfits]

theorem slice_eq {bytes before middle after : Bytes} (hbytes : bytes = before ++ middle ++ after)
    {offset len : ℕ} (hoffset : offset = before.length) (hlen : len = middle.length) :
    slice bytes offset len = some middle := by
  rw [hbytes, hoffset, hlen, slice_append]

/-- A round of the loop in which every field is there. -/
theorem read_entry_of_fields {bytes name_bytes data : Bytes} {cursor size name_length extra_length
    comment_length local_offset local_name local_extra : ℕ}
    (hsignature : read_u32 bytes cursor = some CENTRAL_HEADER)
    (hmethod : read_u16 bytes (cursor + 10) = some METHOD_STORE)
    (hcrc : read_u32 bytes (cursor + 16) = some (crc32 data).toNat)
    (hsize : read_u32 bytes (cursor + 24) = some size)
    (hname_length : read_u16 bytes (cursor + 28) = some name_length)
    (hextra_length : read_u16 bytes (cursor + 30) = some extra_length)
    (hcomment_length : read_u16 bytes (cursor + 32) = some comment_length)
    (hlocal_offset : read_u32 bytes (cursor + 42) = some local_offset)
    (hname : slice bytes (cursor + 46) name_length = some name_bytes)
    (hlocal : read_u32 bytes local_offset = some LOCAL_HEADER)
    (hlocal_name : read_u16 bytes (local_offset + 26) = some local_name)
    (hlocal_extra : read_u16 bytes (local_offset + 28) = some local_extra)
    (hdata : slice bytes (local_offset + LOCAL_HEADER_SIZE + local_name + local_extra) size =
      some data) :
    read_entry crc32 bytes cursor = .ok ((from_utf8_lossy name_bytes, data),
      cursor + (CENTRAL_HEADER_SIZE + name_length + extra_length + comment_length)) := by
  unfold read_entry
  rw [if_neg (not_not.mpr hsignature), hmethod, hcrc, hsize, hname_length, hextra_length,
    hcomment_length, hlocal_offset]
  dsimp only [ok_or, bind, Except.bind]
  rw [hname]
  dsimp only
  rw [if_neg (not_not.mpr rfl), if_neg (not_not.mpr hlocal), hlocal_name, hlocal_extra]
  dsimp only
  rw [hdata]
  dsimp only
  rw [if_neg (not_not.mpr rfl)]
  rfl

/-- **One entry** is read back from the directory and the place it points at. -/
theorem read_entry_placed {bytes before after : Bytes} {entry : DirectoryEntry} {file : Entry}
    (hbytes : bytes = before ++ central_block entry ++ after) (h : Placed crc32 bytes entry file) :
    read_entry crc32 bytes before.length =
      .ok (file, before.length + (central_block entry).length) := by
  obtain ⟨name, data⟩ := file
  obtain ⟨hname', hname, hcrc, hsize', hsize_fits, ⟨front, back, hlocal, hoffset'⟩, hoffset_fits⟩ :=
    h
  dsimp only at hname hname' hcrc hsize' hsize_fits
  have hnamelen : (encode entry.name).length % 2 ^ 16 = (encode name).length := by
    rw [hname', Nat.mod_eq_of_lt hname]
  have hcrclt : entry.crc.toNat < 256 ^ 4 := entry.crc.toNat_lt
  -- the directory entry
  have hcentral : bytes = before ++ record (central_header entry) ++ (encode entry.name ++ after) := by
    rw [hbytes, central_block]
    simp only [List.append_assoc]
  have hsignature : read_u32 bytes before.length = some CENTRAL_HEADER :=
    read_field hcentral 0 0 rfl rfl (by decide)
  have hmethod : read_u16 bytes (before.length + 10) = some METHOD_STORE :=
    read_field hcentral 4 10 rfl (by simp [central_header]) (by decide)
  have hread_crc : read_u32 bytes (before.length + 16) = some entry.crc.toNat :=
    read_field hcentral 7 16 rfl (by simp [central_header]) hcrclt
  have hread_size : read_u32 bytes (before.length + 24) = some entry.size :=
    read_field hcentral 9 24 rfl (by simp [central_header]) (by omega)
  have hread_name : read_u16 bytes (before.length + 28) = some (encode name).length := by
    rw [← hnamelen]
    exact read_field hcentral 10 28 rfl (by simp [central_header]) (Nat.mod_lt _ (by decide))
  have hread_extra : read_u16 bytes (before.length + 30) = some 0 :=
    read_field hcentral 11 30 rfl (by simp [central_header]) (by decide)
  have hread_comment : read_u16 bytes (before.length + 32) = some 0 :=
    read_field hcentral 12 32 rfl (by simp [central_header]) (by decide)
  have hread_offset : read_u32 bytes (before.length + 42) = some entry.offset :=
    read_field hcentral 16 42 rfl (by simp [central_header]) (by omega)
  have hslice_name : slice bytes (before.length + 46) (encode name).length =
      some (encode name) := by
    have hat : bytes = (before ++ record (central_header entry)) ++ encode name ++ after := by
      rw [hcentral, hname', List.append_assoc _ (encode name)]
    have hstart : before.length + 46 = (before ++ record (central_header entry)).length := by
      rw [List.length_append, length_record, width_central_header, CENTRAL_HEADER_SIZE]
    exact slice_eq hat hstart rfl
  -- the file it points at
  have hblock : bytes = front ++ record (local_header (crc32 data) (data.length % 2 ^ 32)
      ((encode name).length % 2 ^ 16)) ++ (encode name ++ (data ++ back)) := by
    rw [hlocal, local_block]
    simp only [List.append_assoc]
  have hlocal_signature : read_u32 bytes entry.offset = some LOCAL_HEADER := by
    rw [hoffset']
    exact read_field hblock 0 0 rfl rfl (by decide)
  have hlocal_name : read_u16 bytes (entry.offset + 26) = some (encode name).length := by
    have hfield := read_field hblock 9 26 rfl (by simp [local_header]) (Nat.mod_lt _ (by decide))
    rw [Nat.mod_eq_of_lt hname] at hfield
    rw [hoffset']
    exact hfield
  have hlocal_extra : read_u16 bytes (entry.offset + 28) = some 0 := by
    rw [hoffset']
    exact read_field hblock 10 28 rfl (by simp [local_header]) (by decide)
  have hslice_data : slice bytes (entry.offset + LOCAL_HEADER_SIZE + (encode name).length + 0)
      entry.size = some data := by
    have hat : bytes = (front ++ record (local_header (crc32 data) (data.length % 2 ^ 32)
        ((encode name).length % 2 ^ 16)) ++ encode name) ++ data ++ back := by
      rw [hblock]
      simp only [List.append_assoc]
    refine slice_eq hat ?_ hsize'
    rw [List.length_append, List.length_append, length_record, width_local_header, hoffset',
      Nat.add_zero]
  rw [hcrc] at hread_crc
  rw [read_entry_of_fields hsignature hmethod hread_crc hread_size hread_name hread_extra
    hread_comment hread_offset hslice_name hlocal_signature hlocal_name hlocal_extra hslice_data,
    from_utf8_lossy_encode, length_central_block, hname']
  rfl

/-- **The loop** reads back every entry of a directory that points at its files. -/
theorem read_entries_placed {bytes before after : Bytes} {entries : List DirectoryEntry}
    {files : List Entry} (hbytes : bytes = before ++ entries.flatMap central_block ++ after)
    (h : List.Forall₂ (Placed crc32 bytes) entries files) :
    read_entries crc32 bytes files.length before.length = .ok files := by
  induction h generalizing before with
  | nil => rfl
  | @cons entry file entries files hentry _ ih =>
    rw [List.flatMap_cons] at hbytes
    have hfirst : bytes =
        before ++ central_block entry ++ (entries.flatMap central_block ++ after) := by
      rw [hbytes]
      simp only [List.append_assoc]
    have hrest : bytes =
        (before ++ central_block entry) ++ entries.flatMap central_block ++ after := by
      rw [hfirst, List.append_assoc _ _ after]
    rw [List.length_cons, read_entries, read_entry_placed hfirst hentry]
    have hloop := ih hrest
    rw [List.length_append] at hloop
    simp only [bind, Except.bind, hloop]
    rfl

/-- What the end record of a finished archive says. -/
theorem read_finish_eq (w : ZipWriter) :
    Zip.read crc32 w.finish =
      read_entries crc32 w.finish (w.entries.length % 2 ^ 16) (w.out.length % 2 ^ 32) := by
  obtain ⟨before, size, hfinish⟩ : ∃ before size, w.finish =
      before ++ record (end_record (w.entries.length % 2 ^ 16) size (w.out.length % 2 ^ 32)) :=
    ⟨_, _, rfl⟩
  have hbytes := hfinish.trans (List.append_nil _).symm
  have hcount : read_u16 w.finish (before.length + 10) = some (w.entries.length % 2 ^ 16) :=
    read_field hbytes 4 10 rfl (by simp [end_record]) (Nat.mod_lt _ (by decide))
  have hoffset : read_u32 w.finish (before.length + 16) = some (w.out.length % 2 ^ 32) :=
    read_field hbytes 6 16 rfl (by simp [end_record]) (Nat.mod_lt _ (by decide))
  have hfound : find_end_record w.finish = some before.length := by
    rw [hfinish]
    exact find_end_record_append before _ _ _
  unfold Zip.read
  rw [hfound]
  dsimp only [ok_or, bind, Except.bind]
  rw [hcount, hoffset]

/-- **The reader on what the writer made**, where the numbers fit their fields. -/
theorem read_finish {w : ZipWriter} {files : List Entry} (h : Writer crc32 w files)
    (hcount : files.length < 2 ^ 16) (hnames : ∀ file ∈ files, (encode file.1).length < 2 ^ 16)
    (hout : w.out.length < 2 ^ 32) : Zip.read crc32 w.finish = .ok files := by
  have hlength : w.entries.length = files.length := h.length_eq
  rw [read_finish_eq, hlength, Nat.mod_eq_of_lt hcount, Nat.mod_eq_of_lt hout]
  refine read_entries_placed rfl ?_
  have hboth := ((List.forall₂_and_left files w.entries).mpr ⟨hnames, h.flip⟩).flip
  refine hboth.imp fun entry file ⟨hname, hrecorded⟩ => ?_
  have hplaced := hrecorded.placed hname hout (w.entries.flatMap central_block ++
    record (end_record (w.entries.length % 2 ^ 16)
      ((w.entries.flatMap central_block).length % 2 ^ 32) (w.out.length % 2 ^ 32)))
  rwa [← List.append_assoc] at hplaced

/-- An archive whose numbers fit their fields is read back. -/
theorem read_archive_of_fits {files : List Entry} (hcount : files.length < 2 ^ 16)
    (hnames : ∀ file ∈ files, (encode file.1).length < 2 ^ 16)
    (hlength : (files.map block_length).sum < 2 ^ 32) :
    Zip.read crc32 (archive crc32 files) = .ok files := by
  have hempty : Writer crc32 {} [] := List.Forall₂.nil
  refine read_finish (recorded_add_all hempty files) hcount hnames ?_
  rwa [length_out_add_all]

/-- **An archive is read back**, with the same entries in the same order, whatever their names and
contents: up to 65535 entries, names of up to 65535 bytes and an archive below 4 GiB. -/
theorem read_archive (crc32 : Bytes → UInt32) (entries : List Entry)
    (hcount : entries.length ≤ 65535) (hnames : ∀ entry ∈ entries, (encode entry.1).length ≤ 65535)
    (hlength : (archive crc32 entries).length < 2 ^ 32) :
    Zip.read crc32 (archive crc32 entries) = .ok entries := by
  refine read_archive_of_fits (by omega) (fun entry hentry => ?_) ?_
  · exact Nat.lt_succ_of_le (hnames entry hentry)
  · refine lt_of_le_of_lt ?_ hlength
    rw [← length_out_add_all crc32]
    unfold archive ZipWriter.finish
    simp only [List.length_append]
    omega

/-- CRC-32 (IEEE). -/
def ieee (data : Bytes) : UInt32 :=
  let round (crc : UInt32) (_ : ℕ) : UInt32 :=
    if crc &&& 1 = 1 then (crc >>> 1) ^^^ 0xEDB88320 else crc >>> 1
  let add (crc : UInt32) (b : UInt8) : UInt32 :=
    (List.range 8).foldl round (crc ^^^ b.toUInt32)
  data.foldl add 0xFFFFFFFF ^^^ 0xFFFFFFFF

example : ieee [0x31, 0x32, 0x33, 0x34, 0x35, 0x36, 0x37, 0x38, 0x39] = 0xCBF43926 := by
  decide +kernel

/-- Two files of one name, one without a name, and contents that spell the three signatures. -/
theorem read_archive_signatures :
    Zip.read ieee (archive ieee
        [(['a'], [0x50, 0x4b, 0x05, 0x06]), ([], [0x50, 0x4b, 0x01, 0x02]),
          (['a'], [0x50, 0x4b, 0x03, 0x04])]) =
      .ok [(['a'], [0x50, 0x4b, 0x05, 0x06]), ([], [0x50, 0x4b, 0x01, 0x02]),
        (['a'], [0x50, 0x4b, 0x03, 0x04])] :=
  read_archive ieee _ (by decide) (by decide) (by decide +kernel)

end WaSSH.Store.Zip
