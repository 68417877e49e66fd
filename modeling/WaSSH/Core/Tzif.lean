import Mathlib.Data.List.GetD
import WaSSH.Lib.BigEndian

/-!
# The local zone

A zone file, as the format lays it out, and the parser that reads it for the panes that show a
wall-clock time.

* `parse_tzif`, `search`, `local_offset_seconds`: the parser and the search in its table;
* `Block`, `File`, `encode`: what a file says, and its bytes; `offset_at`: the offset the format
  assigns to a time;
* `counts_encode`, `parse_block_encode`, `parse_tzif_encode`: the parser on the bytes of a file
  without leap seconds;
* `search_eq`: the search finds the last transition at or before a time;
* **`local_offset_iff`**: where the parser follows the format and where it does not.
-/

namespace WaSSH.Core.Tzif

open LittleEndian BigEndian

/-! ## The parser -/

/-- A parsed POSIX TZ database file. -/
structure Zone where
  /-- Offset in effect before the first transition. -/
  initial : ℤ
  /-- `(transition time, offset)` pairs, ascending. -/
  transitions : List (ℤ × ℤ)

/-- The counts of a header, in file order. -/
structure Counts where
  isut : ℕ
  isstd : ℕ
  leap : ℕ
  time : ℕ
  types : ℕ
  chars : ℕ

def HEADER_SIZE : ℕ := 44

def MAGIC : Bytes := [0x54, 0x5a, 0x69, 0x66]

def counts (bytes : Bytes) (header : ℕ) : Option Counts :=
  match read_items (fun slice => some (from_be_bytes slice)) 4 bytes (header + 20) 6 with
  | some [isut, isstd, leap, time, types, chars] => some ⟨isut, isstd, leap, time, types, chars⟩
  | _ => none

def block_len (c : Counts) (size : ℕ) : ℕ :=
  HEADER_SIZE + c.time * size + c.time + c.types * 6 + c.chars + c.leap * (size + 4) + c.isstd +
    c.isut

/-- One local time type record, where it is sane. -/
def record_offset (char_count : ℕ) (entry : Bytes) : Option ℤ :=
  let offset := from_be_signed (entry.take 4)
  let is_dst := (entry.getD 4 0).toNat
  let designation := (entry.getD 5 0).toNat
  if 24 * 3600 < offset.natAbs ∨ 1 < is_dst ∨ max char_count 1 ≤ designation then none
  else some offset

def records (bytes : Bytes) (c : Counts) (start : ℕ) : Option (List ℤ) :=
  read_items (record_offset c.chars) 6 bytes start c.types

def parse_block (bytes : Bytes) (header : ℕ) (c : Counts) (size : ℕ) : Option Zone := do
  let start := header + HEADER_SIZE
  let times ← read_items (fun slice => some (from_be_signed slice)) size bytes start c.time
  let kinds ← read_items (fun slice => some (from_be_bytes slice)) 1 bytes
    (start + c.time * size) c.time
  -- the leap-second records are skipped here, in front of the type records
  let place := start + c.time * size + c.time + c.leap * (size + 4)
  let offsets ← (records bytes c place).or (records bytes c (place + c.isstd + c.isut))
  if kinds.any (c.types ≤ ·) then none
  else some ⟨offsets.head?.getD 0, (times.zip kinds).map fun t => (t.1, offsets.getD t.2 0)⟩

def parse_tzif (bytes : Bytes) : Option Zone := do
  if bytes.length < HEADER_SIZE ∨ bytes.take 4 ≠ MAGIC then none
  else
    let version := bytes.getD 4 0
    let head ← counts bytes 0
    if version = 0 then parse_block bytes 0 head 4
    else
      let second := block_len head 4
      let tail ← counts bytes second
      parse_block bytes second tail 8

/-- The loop over the transitions. -/
def search («at» offset : ℤ) : List (ℤ × ℤ) → ℤ
  | [] => offset
  | (when_, value) :: rest => if «at» < when_ then offset else search «at» value rest

/-- `seconds as i64`. -/
def as_i64 (seconds : ℕ) : ℤ := Int.bmod seconds (2 ^ 64)

def local_offset_seconds (zone : Option Zone) (seconds : ℕ) : ℤ :=
  match zone with
  | none => 0
  | some zone => search (as_i64 seconds) zone.initial zone.transitions

/-! ## What a file says -/

structure LocalTimeType where
  utoff : ℤ
  is_dst : Bool
  designation : ℕ

/-- A data block. -/
structure Block where
  /-- Each transition with the number of the type that begins there. -/
  transitions : List (ℤ × ℕ)
  types : List LocalTimeType
  chars : Bytes
  /-- Each leap second with the correction that begins there. -/
  leaps : List (ℤ × ℤ)
  std : List Bool
  ut : List Bool

/-- A version 1 file, or a later one with its 64-bit block and its TZ string. -/
inductive File
  | v1 (block : Block)
  | v2 (version : UInt8) (first second : Block) (footer : Bytes)

/-- What the format asks of a block whose times have `size` bytes. -/
structure Block.Valid (size : ℕ) (b : Block) : Prop where
  ascending : b.transitions.Pairwise fun s t => s.1 < t.1
  times_fit : ∀ t ∈ b.transitions, Fits size t.1
  kinds_fit : ∀ t ∈ b.transitions, t.2 < b.types.length ∧ t.2 < 256
  types_ne : b.types ≠ []
  offsets_fit : ∀ t ∈ b.types, Fits 4 t.utoff ∧ t.utoff ≠ -2 ^ 31
  designated : ∀ t ∈ b.types, t.designation < 256 ∧ 0 ∈ b.chars.drop t.designation
  leaps_fit : ∀ l ∈ b.leaps, Fits size l.1 ∧ 0 ≤ l.1 ∧ Fits 4 l.2
  leaps_step : ((0, 0) :: b.leaps).IsChain fun k l =>
    (k ≠ (0, 0) → k.1 + 2419199 ≤ l.1) ∧ (l.2 - k.2).natAbs = 1
  std_all : b.std = [] ∨ b.std.length = b.types.length
  ut_all : b.ut = [] ∨ b.ut.length = b.types.length
  ut_std : ∀ i : ℕ, b.ut[i]? = some true → b.std[i]? = some true
  counts_fit : b.transitions.length < 2 ^ 32 ∧ b.types.length < 2 ^ 32 ∧
    b.chars.length < 2 ^ 32 ∧ b.leaps.length < 2 ^ 32

/-- The offset of a type. -/
def Block.utoff (b : Block) (kind : ℕ) : ℤ := (b.types.map LocalTimeType.utoff).getD kind 0

/-- The last transition at or before a time. -/
def Block.last_before (b : Block) (time : ℤ) : Option (ℤ × ℕ) :=
  (b.transitions.filter fun t => t.1 ≤ time).getLast?

/-- The offset at a time by the table: that of the first type before all transitions. -/
def Block.table_offset (b : Block) (time : ℤ) : ℤ :=
  b.utoff (((b.last_before time).map Prod.snd).getD 0)

/-- The offset at the end of the table. -/
def Block.last_offset (b : Block) : ℤ := b.utoff ((b.transitions.getLast?.map Prod.snd).getD 0)

/-- The block that counts. -/
def File.block : File → Block
  | .v1 block => block
  | .v2 _ _ second _ => second

def File.footer : File → Bytes
  | .v1 _ => []
  | .v2 _ _ _ footer => footer

/-- The bytes of a time in the block that counts. -/
def File.time_size : File → ℕ
  | .v1 _ => 4
  | .v2 .. => 8

/-- Past the table: at or after the last transition, or anywhere in a file without one. -/
def File.Past (f : File) (time : ℤ) : Prop := ∀ t ∈ f.block.transitions, t.1 ≤ time

instance (f : File) (time : ℤ) : Decidable (f.Past time) :=
  inferInstanceAs (Decidable (∀ t ∈ f.block.transitions, t.1 ≤ time))

section Rule

-- the offset that a TZ string gives at a time
variable (rule : Bytes → ℤ → ℤ)

structure File.Valid (f : File) : Prop where
  version : match f with
    | .v1 _ => True
    | .v2 version _ _ _ => version = 0x32 ∨ version = 0x33
  block : f.block.Valid f.time_size
  first : match f with
    | .v1 _ => True
    | .v2 _ first _ _ => first.Valid 4
  /-- At the last transition the TZ string agrees with the table. -/
  consistent : f.footer ≠ [] → ∀ t ∈ f.block.transitions.getLast?,
    rule f.footer t.1 = f.block.utoff t.2

/-- The offset of the format at a time. -/
def File.offset_at (f : File) (time : ℤ) : ℤ :=
  if f.footer ≠ [] ∧ f.Past time then rule f.footer time else f.block.table_offset time

end Rule

/-! ## The bytes of a file -/

def Block.counts (b : Block) : Counts :=
  ⟨b.ut.length, b.std.length, b.leaps.length, b.transitions.length, b.types.length,
    b.chars.length⟩

def Counts.list (c : Counts) : List ℕ := [c.isut, c.isstd, c.leap, c.time, c.types, c.chars]

def bit (b : Bool) : Bytes := [if b then 1 else 0]

def LocalTimeType.encode (t : LocalTimeType) : Bytes :=
  to_be_signed 4 t.utoff ++ (bit t.is_dst ++ to_be_bytes 1 t.designation)

def Block.header (version : UInt8) (b : Block) : Bytes :=
  MAGIC ++ ([version] ++ (List.replicate 15 0 ++ b.counts.list.flatMap (to_be_bytes 4)))

def Block.time_table (size : ℕ) (b : Block) : Bytes :=
  b.transitions.flatMap fun t => to_be_signed size t.1

def Block.kind_table (b : Block) : Bytes := b.transitions.flatMap fun t => to_be_bytes 1 t.2

def Block.type_table (b : Block) : Bytes := b.types.flatMap LocalTimeType.encode

def Block.leap_table (size : ℕ) (b : Block) : Bytes :=
  b.leaps.flatMap fun l => to_be_signed size l.1 ++ to_be_signed 4 l.2

def Block.indicators (b : Block) : Bytes := b.std.flatMap bit ++ b.ut.flatMap bit

/-- The tables in the order of the format. -/
def Block.data (size : ℕ) (b : Block) : Bytes :=
  b.time_table size ++ (b.kind_table ++ (b.type_table ++ (b.chars ++
    (b.leap_table size ++ b.indicators))))

def File.encode : File → Bytes
  | .v1 block => block.header 0 ++ block.data 4
  | .v2 version first second footer =>
    first.header version ++ first.data 4 ++ (second.header version ++ second.data 8 ++
      ([0x0a] ++ footer ++ [0x0a]))

/-! ## The parser on a file -/

theorem length_bit (b : Bool) : (bit b).length = 1 := rfl

theorem LocalTimeType.length_encode (t : LocalTimeType) : t.encode.length = 6 := by
  simp only [encode, List.length_append, length_to_be_signed, length_to_be_bytes, length_bit]

@[simp] theorem Block.length_header (v : UInt8) (b : Block) :
    (b.header v).length = HEADER_SIZE := by
  rw [header, List.length_append, List.length_append, List.length_append, List.length_replicate,
    length_flatMap_const fun n _ => length_to_be_bytes 4 n]
  rfl

@[simp] theorem Block.length_time_table (size : ℕ) (b : Block) :
    (b.time_table size).length = b.transitions.length * size :=
  length_flatMap_const fun t _ => length_to_be_signed size t.1

@[simp] theorem Block.length_kind_table (b : Block) :
    b.kind_table.length = b.transitions.length * 1 :=
  length_flatMap_const fun t _ => length_to_be_bytes 1 t.2

@[simp] theorem Block.length_type_table (b : Block) : b.type_table.length = b.types.length * 6 :=
  length_flatMap_const fun t _ => t.length_encode

@[simp] theorem Block.length_leap_table (size : ℕ) (b : Block) :
    (b.leap_table size).length = b.leaps.length * (size + 4) :=
  length_flatMap_const fun l _ => by
    rw [List.length_append, length_to_be_signed, length_to_be_signed]

@[simp] theorem Block.length_indicators (b : Block) :
    b.indicators.length = b.std.length * 1 + b.ut.length * 1 := by
  rw [indicators, List.length_append, length_flatMap_const fun i _ => length_bit i,
    length_flatMap_const fun i _ => length_bit i]

/-- The second block stands where the first one's counts say. -/
theorem Block.length_data (size : ℕ) (b : Block) :
    HEADER_SIZE + (b.data size).length = block_len b.counts size := by
  simp only [data, block_len, Block.counts, List.length_append, length_time_table,
    length_kind_table, length_type_table, length_leap_table, length_indicators]
  omega

variable {b : Block} {size : ℕ}

theorem Block.Valid.list_fit (h : b.Valid size) : ∀ n ∈ b.counts.list, n < 256 ^ 4 := by
  obtain ⟨htime, htypes, hchars, hleaps⟩ := h.counts_fit
  have hindicator : ∀ l : List Bool, l = [] ∨ l.length = b.types.length → l.length < 2 ^ 32 := by
    rintro l (rfl | hall)
    · exact Nat.two_pow_pos 32
    · rwa [hall]
  have hstd := hindicator b.std h.std_all
  have hut := hindicator b.ut h.ut_all
  intro n hn
  simp only [Counts.list, Block.counts, List.mem_cons, List.not_mem_nil, or_false] at hn
  omega

/-- The counts of a header. -/
theorem counts_encode (h : b.Valid size) (v : UInt8) (before after : Bytes) :
    counts (before ++ b.header v ++ after) before.length = some b.counts := by
  have hbytes : before ++ b.header v ++ after =
      (before ++ (MAGIC ++ ([v] ++ List.replicate 15 0))) ++
        b.counts.list.flatMap (to_be_bytes 4) ++ after := by
    simp only [Block.header, List.append_assoc]
  have hitem : ∀ n ∈ b.counts.list, some (from_be_bytes (to_be_bytes 4 n)) = some (id n) := by
    intro n hn
    rw [from_to_be_bytes, Nat.mod_eq_of_lt (h.list_fit n hn)]
    rfl
  have hread : read_items (fun slice => some (from_be_bytes slice)) 4
      (before ++ b.header v ++ after) (before.length + 20) 6 = some (b.counts.list.map id) :=
    read_items_encode (fun n _ => length_to_be_bytes 4 n) hitem hbytes
      (by rw [List.length_append]; rfl) rfl
  rw [List.map_id] at hread
  rw [Tzif.counts, hread]
  rfl

section At

variable {bytes before after : Bytes} {v : UInt8}

theorem times_encode (h : b.Valid size)
    (hbytes : bytes = before ++ (b.header v ++ b.data size) ++ after) :
    read_items (fun slice => some (from_be_signed slice)) size bytes
      (before.length + HEADER_SIZE) b.transitions.length = some (b.transitions.map Prod.fst) := by
  have hplace : bytes = (before ++ b.header v) ++ b.time_table size ++ (b.kind_table ++
      (b.type_table ++ (b.chars ++ (b.leap_table size ++ b.indicators))) ++ after) := by
    rw [hbytes, Block.data]
    simp only [List.append_assoc]
  refine read_items_encode (fun t _ => length_to_be_signed size t.1) ?_ hplace ?_ rfl
  · intro t ht
    rw [from_to_be_signed (h.times_fit t ht)]
  · rw [List.length_append, Block.length_header]

theorem kinds_encode (h : b.Valid size)
    (hbytes : bytes = before ++ (b.header v ++ b.data size) ++ after) :
    read_items (fun slice => some (from_be_bytes slice)) 1 bytes
      (before.length + HEADER_SIZE + b.transitions.length * size) b.transitions.length =
        some (b.transitions.map Prod.snd) := by
  have hplace : bytes = (before ++ b.header v ++ b.time_table size) ++ b.kind_table ++
      (b.type_table ++ (b.chars ++ (b.leap_table size ++ b.indicators)) ++ after) := by
    rw [hbytes, Block.data]
    simp only [List.append_assoc]
  refine read_items_encode (fun t _ => length_to_be_bytes 1 t.2) ?_ hplace ?_ rfl
  · intro t ht
    rw [from_to_be_bytes, pow_one, Nat.mod_eq_of_lt (h.kinds_fit t ht).2]
  · simp only [List.length_append, Block.length_header, Block.length_time_table]

/-! ### The type records -/

/-- The offsets the parser takes for sane. -/
def LocalTimeType.Sane (t : LocalTimeType) : Prop := t.utoff.natAbs ≤ 24 * 3600

instance (t : LocalTimeType) : Decidable t.Sane := inferInstanceAs (Decidable (_ ≤ _))

theorem record_offset_encode {t : LocalTimeType} (h : b.Valid size) (ht : t ∈ b.types) :
    record_offset b.chars.length t.encode =
      if 24 * 3600 < t.utoff.natAbs then none else some t.utoff := by
  obtain ⟨hbyte, hmem⟩ := h.designated t ht
  have hlt : t.designation < b.chars.length := by
    by_contra hge
    rw [List.drop_eq_nil_of_le (by omega)] at hmem
    exact List.not_mem_nil hmem
  have hoffset : t.encode.take 4 = to_be_signed 4 t.utoff :=
    List.take_left' (length_to_be_signed 4 t.utoff)
  have hdst : (t.encode.getD 4 0).toNat ≤ 1 := by
    have hlength := Nat.le_of_eq (length_to_be_signed 4 t.utoff)
    rw [LocalTimeType.encode, List.getD_append_right _ _ _ _ hlength, length_to_be_signed]
    show (if t.is_dst then 1 else 0 : UInt8).toNat ≤ 1
    cases t.is_dst <;> decide
  have hdesignation : (t.encode.getD 5 0).toNat = t.designation := by
    rw [LocalTimeType.encode, List.getD_append_right _ _ _ _ (by rw [length_to_be_signed]; omega),
      length_to_be_signed]
    show (UInt8.ofNat t.designation).toNat = t.designation
    rw [UInt8.toNat_ofNat', Nat.mod_eq_of_lt hbyte]
  simp only [record_offset, hoffset, hdesignation, from_to_be_signed (h.offsets_fit t ht).1]
  congr 1
  exact propext ⟨fun hor => by omega, .inl⟩

/-- Where the type records stand in a block without leap seconds. -/
theorem types_place (hleaps : b.leaps = [])
    (hbytes : bytes = before ++ (b.header v ++ b.data size) ++ after) :
    bytes = (before ++ b.header v ++ b.time_table size ++ b.kind_table) ++ b.type_table ++
      (b.chars ++ (b.leap_table size ++ b.indicators) ++ after) ∧
    before.length + HEADER_SIZE + b.transitions.length * size + b.transitions.length +
        b.leaps.length * (size + 4) =
      (before ++ b.header v ++ b.time_table size ++ b.kind_table).length := by
  constructor
  · rw [hbytes, Block.data]
    simp only [List.append_assoc]
  · rw [hleaps]
    simp only [List.length_append, Block.length_header, Block.length_time_table,
      Block.length_kind_table, List.length_nil]
    omega

theorem records_encode (h : b.Valid size) (hleaps : b.leaps = []) (hsane : ∀ t ∈ b.types, t.Sane)
    (hbytes : bytes = before ++ (b.header v ++ b.data size) ++ after) :
    records bytes b.counts (before.length + HEADER_SIZE + b.transitions.length * size +
      b.transitions.length + b.leaps.length * (size + 4)) =
        some (b.types.map LocalTimeType.utoff) := by
  obtain ⟨hplace, hat⟩ := types_place hleaps hbytes
  refine read_items_encode (fun t _ => t.length_encode) ?_ hplace hat rfl
  intro t ht
  rw [show b.counts.chars = b.chars.length from rfl, record_offset_encode h ht,
    if_neg (Nat.not_lt.mpr (hsane t ht))]

/-- One offset beyond a day refuses the records. -/
theorem records_refused (h : b.Valid size) (hleaps : b.leaps = []) (hsane : ¬ ∀ t ∈ b.types, t.Sane)
    (hbytes : bytes = before ++ (b.header v ++ b.data size) ++ after) :
    records bytes b.counts (before.length + HEADER_SIZE + b.transitions.length * size +
      b.transitions.length + b.leaps.length * (size + 4)) = none := by
  obtain ⟨hplace, hat⟩ := types_place hleaps hbytes
  obtain ⟨t, ht, hlarge⟩ : ∃ t ∈ b.types, ¬ t.Sane := by
    simpa only [not_forall, exists_prop] using hsane
  refine read_items_refused (fun t _ => t.length_encode) ht ?_ hplace hat rfl
  rw [show b.counts.chars = b.chars.length from rfl, record_offset_encode h ht,
    if_pos (Nat.not_le.mp hlarge)]

/-! ### Blocks and files -/

/-- What the parser makes of a block. -/
def Block.zone (b : Block) : Zone :=
  ⟨b.utoff 0, b.transitions.map fun t => (t.1, b.utoff t.2)⟩

theorem parse_block_encode (h : b.Valid size) (hleaps : b.leaps = [])
    (hsane : ∀ t ∈ b.types, t.Sane)
    (hbytes : bytes = before ++ (b.header v ++ b.data size) ++ after) :
    parse_block bytes before.length b.counts size = some b.zone := by
  have hkinds : ¬ (b.transitions.map Prod.snd).any (b.counts.types ≤ ·) = true := by
    intro hany
    obtain ⟨kind, hkind, hge⟩ := List.any_eq_true.mp hany
    obtain ⟨t, ht, rfl⟩ := List.mem_map.mp hkind
    exact absurd (h.kinds_fit t ht).1 (Nat.not_lt.mpr (of_decide_eq_true hge))
  have hzip : ((b.transitions.map Prod.fst).zip (b.transitions.map Prod.snd)).map
      (fun t => (t.1, (b.types.map LocalTimeType.utoff).getD t.2 0)) = b.zone.transitions := by
    rw [List.zip_map', List.map_map]
    rfl
  have hinitial : (b.types.map LocalTimeType.utoff).head?.getD 0 = b.utoff 0 := by
    rw [Block.utoff, List.getD_eq_getElem?_getD, List.head?_eq_getElem?]
  have htimes := times_encode h hbytes
  have hread := kinds_encode h hbytes
  have hrecords := records_encode h hleaps hsane hbytes
  unfold parse_block
  simp only [show b.counts.time = b.transitions.length from rfl,
    show b.counts.leap = b.leaps.length from rfl, htimes, hread, hrecords, Option.bind_eq_bind,
    Option.bind_some, Option.some_or]
  rw [if_neg hkinds, hzip, hinitial]
  rfl

theorem parse_block_refused (h : b.Valid size) (hleaps : b.leaps = [])
    (hsane : ¬ ∀ t ∈ b.types, t.Sane) (hindicators : b.std = [] ∧ b.ut = [])
    (hbytes : bytes = before ++ (b.header v ++ b.data size) ++ after) :
    parse_block bytes before.length b.counts size = none := by
  have htimes := times_encode h hbytes
  have hread := kinds_encode h hbytes
  have hrecords := records_refused h hleaps hsane hbytes
  have hstd : b.counts.isstd = 0 := congrArg List.length hindicators.1
  have hut : b.counts.isut = 0 := congrArg List.length hindicators.2
  unfold parse_block
  simp only [show b.counts.time = b.transitions.length from rfl,
    show b.counts.leap = b.leaps.length from rfl, htimes, hread, hstd, hut, Nat.add_zero, hrecords,
    Option.bind_eq_bind, Option.bind_some, Option.none_or, Option.bind_none]

end At

/-- The parser comes to the block that counts. -/
theorem parse_tzif_block {rule : Bytes → ℤ → ℤ} {f : File} (h : f.Valid rule) :
    ∃ (v : UInt8) (before after : Bytes),
      f.encode = before ++ (f.block.header v ++ f.block.data f.time_size) ++ after ∧
        parse_tzif f.encode = parse_block f.encode before.length f.block.counts f.time_size := by
  have hstart : ∀ (v : UInt8) (b : Block) (rest : Bytes),
      ¬ ((b.header v ++ rest).length < HEADER_SIZE ∨ (b.header v ++ rest).take 4 ≠ MAGIC) := by
    rintro v b rest (hshort | hmagic)
    · rw [List.length_append, Block.length_header] at hshort
      omega
    · exact hmagic rfl
  cases f with
  | v1 block =>
    have hhead := counts_encode h.block 0 [] (block.data 4)
    refine ⟨0, [], [], ?_, ?_⟩
    · rw [List.append_nil]
      rfl
    · show parse_tzif (block.header 0 ++ block.data 4) = _
      rw [parse_tzif, if_neg (hstart 0 block _)]
      rw [List.nil_append] at hhead
      show (counts (block.header 0 ++ block.data 4) 0 >>= _) = _
      rw [show counts (block.header 0 ++ block.data 4) 0 = some block.counts from hhead]
      rfl
  | v2 version first second footer =>
    have hversion : version ≠ 0 := by
      rcases h.version with rfl | rfl <;> decide
    set bytes := (File.v2 version first second footer).encode with hbytes
    have hfirst : bytes = [] ++ first.header version ++ (first.data 4 ++ (second.header version ++
        second.data 8 ++ ([0x0a] ++ footer ++ [0x0a]))) := by
      rw [hbytes, File.encode]
      simp only [List.append_assoc, List.nil_append]
    have hsecond : bytes = (first.header version ++ first.data 4) ++ second.header version ++
        (second.data 8 ++ ([0x0a] ++ footer ++ [0x0a])) := by
      rw [hbytes, File.encode]
      simp only [List.append_assoc]
    have hplace : block_len first.counts 4 = (first.header version ++ first.data 4).length := by
      rw [← Block.length_data, List.length_append, Block.length_header]
    have hhead : counts bytes 0 = some first.counts := by
      rw [hfirst]
      exact counts_encode h.first version [] _
    have htail : counts bytes (block_len first.counts 4) = some second.counts := by
      rw [hplace, hsecond]
      exact counts_encode h.block version _ _
    have hbyte : bytes.getD 4 0 = version := by
      rw [hfirst]
      rfl
    have hlong := hstart version first (first.data 4 ++ (second.header version ++
      second.data 8 ++ ([0x0a] ++ footer ++ [0x0a])))
    rw [List.nil_append] at hfirst
    rw [← hfirst] at hlong
    refine ⟨version, first.header version ++ first.data 4, [0x0a] ++ footer ++ [0x0a], ?_, ?_⟩
    · rw [hsecond]
      simp only [List.append_assoc]
      rfl
    · unfold parse_tzif
      simp only [if_neg hlong, hbyte, hhead, Option.bind_eq_bind, Option.bind_some,
        if_neg hversion, htail]
      rw [← hplace]
      rfl

/-! ## The search -/

/-- In an ascending table the search stops behind the last transition at or before the time. -/
theorem search_eq (time : ℤ) {table : List (ℤ × ℤ)} (h : table.Pairwise fun s t => s.1 < t.1)
    (offset : ℤ) : search time offset table =
      ((table.filter fun t => t.1 ≤ time).getLast?.map Prod.snd).getD offset := by
  induction table generalizing offset with
  | nil => rfl
  | cons head rest ih =>
    obtain ⟨hhead, hrest⟩ := List.pairwise_cons.mp h
    rw [search]
    by_cases hlate : time < head.1
    · have hnone : (head :: rest).filter (fun t => t.1 ≤ time) = [] := by
        rw [List.filter_eq_nil_iff]
        intro t ht hle
        have hle' := of_decide_eq_true hle
        rcases List.mem_cons.mp ht with rfl | hmem
        · omega
        · have := hhead t hmem
          omega
      rw [if_pos hlate, hnone]
      rfl
    · have hkeep : (head :: rest).filter (fun t => t.1 ≤ time) =
          head :: rest.filter fun t => t.1 ≤ time :=
        List.filter_cons_of_pos (decide_eq_true (by omega))
      rw [if_neg hlate, ih hrest, hkeep, List.getLast?_cons]
      cases (rest.filter fun t => t.1 ≤ time).getLast? <;> rfl

theorem Block.search_zone (h : b.Valid size) (time : ℤ) :
    search time b.zone.initial b.zone.transitions = b.table_offset time := by
  have hsorted : b.zone.transitions.Pairwise fun s t => s.1 < t.1 :=
    List.pairwise_map.mpr h.ascending
  have hfilter : b.zone.transitions.filter (fun t => t.1 ≤ time) =
      (b.transitions.filter fun t => t.1 ≤ time).map fun t => (t.1, b.utoff t.2) := by
    rw [zone, List.filter_map]
    rfl
  rw [search_eq time hsorted, hfilter, List.getLast?_map, table_offset, last_before]
  cases (b.transitions.filter fun t => t.1 ≤ time).getLast? <;> rfl

/-- Past the table its last offset stays. -/
theorem File.table_offset_past {f : File} {time : ℤ} (h : f.Past time) :
    f.block.table_offset time = f.block.last_offset := by
  have hall : f.block.transitions.filter (fun t => t.1 ≤ time) = f.block.transitions :=
    List.filter_eq_self.mpr fun t ht => decide_eq_true (h t ht)
  rw [Block.table_offset, Block.last_before, hall, Block.last_offset]

theorem as_i64_eq {seconds : ℕ} (h : seconds < 2 ^ 63) : as_i64 seconds = seconds :=
  Int.bmod_eq_of_le (by omega) (by omega)

/-! ## Main results -/

section Offsets

variable {rule : Bytes → ℤ → ℤ} {f : File} {seconds : ℕ}

theorem local_offset_table (hvalid : f.Valid rule) (hleaps : f.block.leaps = [])
    (hsane : ∀ t ∈ f.block.types, t.Sane) :
    local_offset_seconds (parse_tzif f.encode) seconds =
      f.block.table_offset (as_i64 seconds) := by
  obtain ⟨v, before, after, hbytes, hparse⟩ := parse_tzif_block hvalid
  rw [hparse, parse_block_encode hvalid.block hleaps hsane hbytes]
  show search (as_i64 seconds) f.block.zone.initial f.block.zone.transitions = _
  rw [Block.search_zone hvalid.block]

theorem local_offset_refused (hvalid : f.Valid rule) (hleaps : f.block.leaps = [])
    (hsane : ¬ ∀ t ∈ f.block.types, t.Sane) (hindicators : f.block.std = [] ∧ f.block.ut = []) :
    local_offset_seconds (parse_tzif f.encode) seconds = 0 := by
  obtain ⟨v, before, after, hbytes, hparse⟩ := parse_tzif_block hvalid
  rw [hparse, parse_block_refused hvalid.block hleaps hsane hindicators hbytes]
  rfl

/-- The table alone gives the offset of the format but past its end. -/
theorem File.table_offset_iff (f : File) (time : ℤ) :
    f.block.table_offset time = f.offset_at rule time ↔
      f.footer = [] ∨ ¬ f.Past time ∨ rule f.footer time = f.block.last_offset := by
  rw [offset_at]
  by_cases hfooter : f.footer = []
  · rw [if_neg fun h => h.1 hfooter]
    exact iff_of_true rfl (.inl hfooter)
  · by_cases hpast : f.Past time
    · rw [if_pos ⟨hfooter, hpast⟩, table_offset_past hpast]
      constructor
      · intro heq
        exact .inr (.inr heq.symm)
      · rintro (hnil | hbefore | heq)
        · exact absurd hnil hfooter
        · exact absurd hpast hbefore
        · exact heq.symm
    · rw [if_neg fun h => hpast h.2]
      exact iff_of_true rfl (.inr (.inl hpast))

/-- **The local offset** is that of the last transition at or before the time, or of the first type
before them all. So it is the format's except where the TZ string moves on from the table. A file
with an offset beyond a day is refused. -/
theorem local_offset_iff (hvalid : f.Valid rule) (hleaps : f.block.leaps = []) :
    ((∀ t ∈ f.block.types, t.Sane) →
      local_offset_seconds (parse_tzif f.encode) seconds =
        f.block.table_offset (as_i64 seconds) ∧
      (seconds < 2 ^ 63 →
        (local_offset_seconds (parse_tzif f.encode) seconds = f.offset_at rule seconds ↔
          f.footer = [] ∨ ¬ f.Past seconds ∨ rule f.footer seconds = f.block.last_offset))) ∧
    ((¬ ∀ t ∈ f.block.types, t.Sane) → f.block.std = [] ∧ f.block.ut = [] →
      local_offset_seconds (parse_tzif f.encode) seconds = 0) := by
  refine ⟨fun hsane => ?_, local_offset_refused hvalid hleaps⟩
  have htable := @local_offset_table rule f seconds hvalid hleaps hsane
  refine ⟨htable, fun hseconds => ?_⟩
  rw [htable, as_i64_eq hseconds]
  exact f.table_offset_iff seconds

end Offsets

/-- Central European time with the summer time of 2020. -/
def central_rule (_ : Bytes) (time : ℤ) : ℤ :=
  if 1585443600 ≤ time ∧ time < 1603587600 then 7200 else 3600

/-- Central European time, `CET-1CEST,M3.5.0,M10.5.0/3` after the switch of October 1996. -/
def central : File :=
  .v2 0x32 ⟨[], [⟨3600, false, 0⟩], [0x43, 0x45, 0x54, 0], [], [], []⟩
    ⟨[(846378000, 0)], [⟨3600, false, 0⟩], [0x43, 0x45, 0x54, 0], [], [], []⟩
    ("CET-1CEST,M3.5.0,M10.5.0/3".toList.map fun c => UInt8.ofNat c.toNat)

theorem central_valid : central.Valid central_rule where
  version := .inl rfl
  block := by
    constructor
    case ut_std => nofun
    all_goals decide
  first := by
    constructor
    case ut_std => nofun
    all_goals decide
  consistent := by
    decide

/-- In the winter of 2020 the table and the TZ string agree. -/
theorem central_winter :
    local_offset_seconds (parse_tzif central.encode) 1577836800 =
      central.offset_at central_rule (1577836800 : ℕ) :=
  (((local_offset_iff central_valid rfl).1 (by decide)).2 (by omega)).mpr (.inr (.inr rfl))

/-- In its summer they do not. -/
theorem central_summer : central.Valid central_rule ∧
    local_offset_seconds (parse_tzif central.encode) 1593561600 ≠
      central.offset_at central_rule (1593561600 : ℕ) :=
  ⟨central_valid, by decide +kernel⟩

/-- A leap-second record moves the place where the types are looked for. -/
example : parse_tzif (File.encode (.v2 0x32
    ⟨[], [⟨3600, false, 0⟩], [0x43, 0x45, 0x54, 0], [], [], []⟩
    ⟨[], [⟨3600, false, 0⟩], [0x43, 0x45, 0x54, 0], [(78796800, 1)], [], []⟩ [])) matches none := by
  decide +kernel

end WaSSH.Core.Tzif
