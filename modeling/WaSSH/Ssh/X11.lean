import WaSSH.Lib.Columns
import WaSSH.Lib.Prefixed
import WaSSH.Lib.Slice
import WaSSH.Lib.Utf8

/-!
# The cookie of a display

With X11 forwarding the cookie of the local display is looked up in a file of records, each of four
byte strings behind their lengths.

* `read_u16`, `read_blob`, `read_cookie_from`: the walk, with what could break it off;
* `Entry`, `Record`, `encode`: what a file says, and its bytes;
* `read_entry_eq`: a round of the walk breaks nothing off; `entry_at_eq_some_iff`: it reads the
  record that stands there;
* **`read_cookie_from_right`**: the first record of the display is found in every file, and no bytes
  break the walk off.
-/

namespace WaSSH.Ssh.X11

open LittleEndian (Bytes slice)
open Utf8 (encode from_utf8_lossy)
open Prefixed

/-! ## The code -/

/-- What a run can break off with. -/
inductive Panic
  | overflow
  | index

abbrev Run := OptionT (Except Panic)

/-- What a run comes to without breaking off. -/
def ok {α : Type} (found : Option α) : Run α := OptionT.mk (.ok found)

/-- `a.checked_add(b)` of places. -/
def checked_add (a b : ℕ) : Option ℕ := if a + b < 2 ^ 64 then some (a + b) else none

/-- `slice[i]`. -/
def byte_at (found : Bytes) (i : ℕ) : Run UInt8 :=
  match found[i]? with
  | some b => pure b
  | none => OptionT.mk (.error .index)

/-- A number, and the cursor behind it. -/
def read_u16 (bytes : Bytes) (cursor : ℕ) : Run (ℕ × ℕ) := do
  let stop ← ok (checked_add cursor 2)
  let found ← ok (Slice.range bytes cursor stop)
  let high ← byte_at found 0
  let low ← byte_at found 1
  pure (BigEndian.from_be_bytes [high, low], stop)

def read_blob (bytes : Bytes) (cursor : ℕ) : Run (Bytes × ℕ) := do
  let length ← read_u16 bytes cursor
  let stop ← ok (checked_add length.2 length.1)
  let found ← ok (Slice.range bytes length.2 stop)
  pure (found, stop)

/-- A record of the file. -/
structure Entry where
  family : ℕ
  address : Bytes
  number : Bytes
  name : Bytes
  data : Bytes

/-- What a round of the loop reads, and the cursor behind it. -/
def read_entry (bytes : Bytes) (cursor : ℕ) : Run (Entry × ℕ) := do
  let family ← read_u16 bytes cursor
  let address ← read_blob bytes family.2
  let number ← read_blob bytes address.2
  let name ← read_blob bytes number.2
  let data ← read_blob bytes name.2
  pure (⟨family.1, address.1, number.1, name.1, data.1⟩, data.2)

/-- The number and the name are those that are looked for. -/
def wanted (display_number : ℕ) (e : Entry) : Bool :=
  from_utf8_lossy e.number = Nat.toDigits 10 display_number ∧
    from_utf8_lossy e.name = "MIT-MAGIC-COOKIE-1".toList

theorem bind_eq_some_iff {α β : Type} {x : Run α} {f : α → Run β} {b : β} :
    x >>= f = ok (some b) ↔ ∃ a, x = ok (some a) ∧ f a = ok (some b) := by
  change Except Panic (Option α) at x
  rcases x with panic | _ | a
  · refine iff_of_false (fun h => ?_) ?_
    · cases h
    · rintro ⟨a, h, -⟩
      cases h
  · refine iff_of_false (fun h => ?_) ?_
    · cases h
    · rintro ⟨a, h, -⟩
      cases h
  · constructor
    · intro h
      exact ⟨a, rfl, h⟩
    · rintro ⟨a', h, hf⟩
      cases h
      exact hf

theorem ok_inj {α : Type} {found : Option α} {a : α} (h : ok found = ok (some a)) :
    found = some a := Except.ok.inj h

theorem pure_inj {α : Type} {a b : α} (h : (pure a : Run α) = ok (some b)) : a = b :=
  Option.some.inj (Except.ok.inj h)

theorem read_u16_next {bytes : Bytes} {cursor : ℕ} {read : ℕ × ℕ}
    (h : read_u16 bytes cursor = ok (some read)) : cursor < read.2 := by
  obtain ⟨stop, hstop, h⟩ := bind_eq_some_iff.mp h
  obtain ⟨found, -, h⟩ := bind_eq_some_iff.mp h
  obtain ⟨high, -, h⟩ := bind_eq_some_iff.mp h
  obtain ⟨low, -, h⟩ := bind_eq_some_iff.mp h
  have hadd := ok_inj hstop
  unfold checked_add at hadd
  split_ifs at hadd
  rw [← pure_inj h, ← Option.some.inj hadd]
  omega

theorem read_blob_next {bytes : Bytes} {cursor : ℕ} {read : Bytes × ℕ}
    (h : read_blob bytes cursor = ok (some read)) : cursor < read.2 := by
  obtain ⟨length, hlength, h⟩ := bind_eq_some_iff.mp h
  obtain ⟨stop, hstop, h⟩ := bind_eq_some_iff.mp h
  obtain ⟨found, -, h⟩ := bind_eq_some_iff.mp h
  have hbefore := read_u16_next hlength
  have hadd := ok_inj hstop
  unfold checked_add at hadd
  split_ifs at hadd
  rw [← pure_inj h, ← Option.some.inj hadd]
  omega

/-- **Each round moves the cursor**, so that the loop ends. -/
theorem read_entry_next {bytes : Bytes} {cursor : ℕ} {read : Entry × ℕ}
    (h : read_entry bytes cursor = ok (some read)) : cursor < read.2 := by
  obtain ⟨family, hfamily, h⟩ := bind_eq_some_iff.mp h
  obtain ⟨address, haddress, h⟩ := bind_eq_some_iff.mp h
  obtain ⟨number, hnumber, h⟩ := bind_eq_some_iff.mp h
  obtain ⟨name, hname, h⟩ := bind_eq_some_iff.mp h
  obtain ⟨data, hdata, h⟩ := bind_eq_some_iff.mp h
  rw [← pure_inj h]
  exact (read_u16_next hfamily).trans ((read_blob_next haddress).trans
    ((read_blob_next hnumber).trans ((read_blob_next hname).trans (read_blob_next hdata))))

/-- The loop. -/
def walk (bytes : Bytes) (display_number cursor : ℕ) : Except Panic (Option Bytes) :=
  if 2 ^ 64 ≤ cursor + 2 then .error .overflow
  else if cursor + 2 ≤ bytes.length then
    match _ : (read_entry bytes cursor).run with
    | .error panic => .error panic
    | .ok none => .ok none
    | .ok (some read) =>
      if wanted display_number read.1 then .ok (some read.1.data)
      else walk bytes display_number read.2
  else .ok none
termination_by bytes.length - cursor
decreasing_by
  have hnext := read_entry_next ‹_›
  omega

/-- The cookie of a display in the bytes of a file. -/
def read_cookie_from (bytes : Bytes) (display_number : ℕ) : Except Panic (Option Bytes) :=
  walk bytes display_number 0

/-! ## Without the machine -/

/-- A record at an offset, and the offset behind it. -/
def entry_at (bytes : Bytes) (cursor : ℕ) : Option (Entry × ℕ) :=
  (number_at 2 bytes cursor).bind fun family =>
  (blob_at 2 bytes family.2).bind fun address =>
  (blob_at 2 bytes address.2).bind fun number =>
  (blob_at 2 bytes number.2).bind fun name =>
  (blob_at 2 bytes name.2).bind fun data =>
    some (⟨family.1, address.1, number.1, name.1, data.1⟩, data.2)

theorem ok_bind {α β : Type} {found : Option α} {f : α → Run β} {g : α → Option β}
    (h : ∀ a, found = some a → f a = ok (g a)) : ok found >>= f = ok (found.bind g) := by
  cases found with
  | none => rfl
  | some a => exact h a rfl

theorem range_eq_slice (bytes : Bytes) (start len : ℕ) :
    Slice.range bytes start (start + len) = slice bytes start len := by
  unfold Slice.range slice
  rw [Nat.add_sub_cancel_left]
  exact if_congr (and_iff_right (Nat.le_add_right _ _)) rfl rfl

section

variable {bytes : Bytes} (hbytes : bytes.length < 2 ^ 63)

include hbytes

/-- A place that has no room in 64 bits is not in the file either. -/
theorem get_bind {β : Type} (start len : ℕ) (f : ℕ → Bytes → Run β) :
    (do
      let stop ← ok (checked_add start len)
      let found ← ok (Slice.range bytes start stop)
      f stop found) = ok (slice bytes start len) >>= f (start + len) := by
  by_cases h : start + len < 2 ^ 64
  · rw [checked_add, if_pos h, ← range_eq_slice]
    rfl
  · have hnone : slice bytes start len = none := if_neg (by omega)
    rw [checked_add, if_neg h, hnone]
    rfl

theorem read_u16_eq (cursor : ℕ) : read_u16 bytes cursor = ok (number_at 2 bytes cursor) := by
  unfold read_u16 number_at
  rw [get_bind hbytes, Option.map_eq_bind]
  refine ok_bind fun found hfound => ?_
  -- both bytes are there
  obtain ⟨high, low, rfl⟩ := List.length_eq_two.mp (LittleEndian.length_of_slice hfound)
  rfl

theorem read_blob_eq (cursor : ℕ) : read_blob bytes cursor = ok (blob_at 2 bytes cursor) := by
  unfold read_blob blob_at
  rw [read_u16_eq hbytes]
  refine ok_bind fun length _ => ?_
  rw [get_bind hbytes, Option.map_eq_bind]
  exact ok_bind fun found _ => rfl

/-- **A round breaks nothing off.** -/
theorem read_entry_eq (cursor : ℕ) : read_entry bytes cursor = ok (entry_at bytes cursor) := by
  unfold read_entry entry_at
  rw [read_u16_eq hbytes]
  refine ok_bind fun family _ => ?_
  rw [read_blob_eq hbytes]
  refine ok_bind fun address _ => ?_
  rw [read_blob_eq hbytes]
  refine ok_bind fun number _ => ?_
  rw [read_blob_eq hbytes]
  refine ok_bind fun name _ => ?_
  rw [read_blob_eq hbytes]
  exact ok_bind fun data _ => rfl

/-- **Step lemma**: a round of the loop, from a place in the file. -/
theorem walk_eq {cursor : ℕ} (hcursor : cursor ≤ bytes.length) (display_number : ℕ) :
    walk bytes display_number cursor = (entry_at bytes cursor).elim (.ok none) fun read =>
      if wanted display_number read.1 then .ok (some read.1.data)
      else walk bytes display_number read.2 := by
  have hread : (read_entry bytes cursor).run = .ok (entry_at bytes cursor) :=
    read_entry_eq hbytes cursor
  rw [walk, if_neg (by omega)]
  by_cases hroom : cursor + 2 ≤ bytes.length
  · rw [if_pos hroom]
    split
    next panic h => cases h.symm.trans hread
    next h => rw [← Except.ok.inj (h.symm.trans hread), Option.elim_none]
    next read h => rw [← Except.ok.inj (h.symm.trans hread), Option.elim_some]
  · have hnone : number_at 2 bytes cursor = none := by
      rw [number_at, slice, if_neg hroom, Option.map_none]
    rw [if_neg hroom, entry_at, hnone, Option.bind_none, Option.elim_none]

end

/-! ## What a file says -/

/-- A record whose parts have room for their lengths. -/
structure Record extends Entry where
  family_lt : family < 2 ^ 16
  address_lt : address.length < 2 ^ 16
  number_lt : number.length < 2 ^ 16
  name_lt : name.length < 2 ^ 16
  data_lt : data.length < 2 ^ 16

namespace Record

variable (r : Record)

def encode : Bytes :=
  BigEndian.to_be_bytes 2 r.family ++
    (blob 2 r.address ++ (blob 2 r.number ++ (blob 2 r.name ++ blob 2 r.data)))

/-- The cookie of a display. -/
def Of (display_number : ℕ) : Prop :=
  r.number = Utf8.encode (Nat.toDigits 10 display_number) ∧
    r.name = Utf8.encode "MIT-MAGIC-COOKIE-1".toList

instance (display_number : ℕ) : Decidable (r.Of display_number) :=
  inferInstanceAs (Decidable (_ ∧ _))

end Record

/-- Bytes that do not begin with a whole record. -/
def Incomplete (tail : Bytes) : Prop := ∀ r : Record, ¬ r.encode <+: tail

theorem wanted_iff (r : Record) (display_number : ℕ) :
    wanted display_number r.toEntry ↔ r.Of display_number := by
  have hdigits : ∀ c ∈ Nat.toDigits 10 display_number, c.toNat < 0x80 := fun c hc => by
    have := Text.isDigit_toNat (Nat.isDigit_of_mem_toDigits (by omega) le_rfl hc)
    omega
  have hname : ∀ c ∈ "MIT-MAGIC-COOKIE-1".toList, c.toNat < 0x80 := fun c hc =>
    have hall : ("MIT-MAGIC-COOKIE-1".toList.all fun c => c.toNat < 0x80) = true := by decide
    of_decide_eq_true (List.all_eq_true.mp hall c hc)
  rw [wanted, decide_eq_true_eq, Utf8.from_utf8_lossy_eq_ascii_iff hdigits,
    Utf8.from_utf8_lossy_eq_ascii_iff hname]
  rfl

/-- **What a round reads** stands there. -/
theorem entry_at_eq_some_iff {bytes : Bytes} {cursor : ℕ} {read : Entry × ℕ} :
    entry_at bytes cursor = some read ↔ ∃ r : Record, read.1 = r.toEntry ∧
      read.2 = cursor + r.encode.length ∧ r.encode <+: bytes.drop cursor := by
  unfold entry_at Record.encode
  simp only [Option.bind_eq_some_iff, Option.some.injEq, append_prefix_drop_iff, List.length_append,
    length_blob, BigEndian.length_to_be_bytes]
  constructor
  · rintro ⟨⟨family, first⟩, hfamily, ⟨address, second⟩, haddress, ⟨number, third⟩, hnumber,
      ⟨name, fourth⟩, hname, ⟨data, last⟩, hdata, rfl⟩
    obtain ⟨hfamily_lt, rfl, hbegins⟩ := (number_at_eq_some_iff (by omega)).mp hfamily
    obtain ⟨haddress_lt, rfl, haddress'⟩ := (blob_at_eq_some_iff (by omega)).mp haddress
    obtain ⟨hnumber_lt, rfl, hnumber'⟩ := (blob_at_eq_some_iff (by omega)).mp hnumber
    obtain ⟨hname_lt, rfl, hname'⟩ := (blob_at_eq_some_iff (by omega)).mp hname
    obtain ⟨hdata_lt, rfl, hdata'⟩ := (blob_at_eq_some_iff (by omega)).mp hdata
    exact ⟨⟨⟨family, address, number, name, data⟩, hfamily_lt, haddress_lt, hnumber_lt, hname_lt,
      hdata_lt⟩, rfl, by simp only [Nat.add_assoc], hbegins, haddress', hnumber', hname', hdata'⟩
  · rintro ⟨r, hentry, hnext, hbegins, haddress, hnumber, hname, hdata⟩
    obtain ⟨entry, next⟩ := read
    dsimp only at hentry hnext
    subst hentry hnext
    refine ⟨_, (number_at_eq_some_iff (by omega)).mpr ⟨r.family_lt, rfl, hbegins⟩,
      _, (blob_at_eq_some_iff (by omega)).mpr ⟨r.address_lt, rfl, haddress⟩,
      _, (blob_at_eq_some_iff (by omega)).mpr ⟨r.number_lt, rfl, hnumber⟩,
      _, (blob_at_eq_some_iff (by omega)).mpr ⟨r.name_lt, rfl, hname⟩,
      _, (blob_at_eq_some_iff (by omega)).mpr ⟨r.data_lt, rfl, hdata⟩, ?_⟩
    simp only [Nat.add_assoc]

theorem Record.encode_ne_nil (r : Record) : r.encode ≠ [] := by
  apply List.ne_nil_of_length_pos
  rw [encode, List.length_append, BigEndian.length_to_be_bytes]
  omega

/-- A round from a place in the file ends at one. -/
theorem entry_at_within {bytes : Bytes} {cursor : ℕ} {read : Entry × ℕ}
    (h : entry_at bytes cursor = some read) : cursor < read.2 ∧ read.2 ≤ bytes.length := by
  obtain ⟨r, -, hnext, hbegins⟩ := entry_at_eq_some_iff.mp h
  have hpos := List.length_pos_of_ne_nil r.encode_ne_nil
  have hwithin := add_length_le hbegins r.encode_ne_nil
  omega

/-- A record that is cut off is none. -/
theorem incomplete_of_truncated {r : Record} {tail : Bytes} (h : tail <+: r.encode)
    (hne : tail ≠ r.encode) : Incomplete tail := by
  intro r' h'
  have hread {q : Record} (hq : q.encode <+: r.encode) :
      entry_at r.encode 0 = some (q.toEntry, 0 + q.encode.length) :=
    entry_at_eq_some_iff.mpr ⟨q, rfl, rfl, hq⟩
  have hsame := (hread (h'.trans h)).symm.trans (hread List.prefix_rfl)
  have hlength := (Prod.mk.inj (Option.some.inj hsame)).2
  have hshort := h'.length_le
  exact hne (h.eq_of_length_le (by omega))

section

variable {bytes : Bytes} (hbytes : bytes.length < 2 ^ 63) (display_number : ℕ)

include hbytes

/-- **Run lemma**: from a place in the file the loop ends, and nothing breaks it off. -/
theorem walk_ends {cursor : ℕ} (hcursor : cursor ≤ bytes.length) :
    ∃ found, walk bytes display_number cursor = .ok found := by
  induction hrest : bytes.length - cursor using Nat.strong_induction_on generalizing cursor with
  | h rest ih =>
    rw [walk_eq hbytes hcursor]
    cases hread : entry_at bytes cursor with
    | none => exact ⟨none, rfl⟩
    | some read =>
      obtain ⟨hnext, hend⟩ := entry_at_within hread
      rw [Option.elim_some]
      split_ifs
      · exact ⟨some read.1.data, rfl⟩
      · exact ih (bytes.length - read.2) (by omega) hend rfl

/-- **Run lemma**: the loop finds the first of the records that stand behind a place. -/
theorem walk_records {records : List Record} {tail : Bytes} (htail : Incomplete tail) {cursor : ℕ}
    (hcursor : cursor ≤ bytes.length)
    (hfile : bytes.drop cursor = records.flatMap Record.encode ++ tail) :
    walk bytes display_number cursor =
      .ok ((records.find? fun r => r.Of display_number).map fun r => r.data) := by
  induction records generalizing cursor with
  | nil =>
    have hnone : entry_at bytes cursor = none := by
      rw [Option.eq_none_iff_forall_not_mem]
      intro read hread
      obtain ⟨r, -, -, hbegins⟩ := entry_at_eq_some_iff.mp hread
      rw [hfile] at hbegins
      exact htail r hbegins
    rw [walk_eq hbytes hcursor, hnone]
    rfl
  | cons r records ih =>
    rw [List.flatMap_cons, List.append_assoc] at hfile
    have hread : entry_at bytes cursor = some (r.toEntry, cursor + r.encode.length) :=
      entry_at_eq_some_iff.mpr ⟨r, rfl, rfl, hfile ▸ List.prefix_append _ _⟩
    have hrest : bytes.drop (cursor + r.encode.length) =
        records.flatMap Record.encode ++ tail := by
      rw [← List.drop_drop, hfile, List.drop_left]
    rw [walk_eq hbytes hcursor, hread, Option.elim_some]
    by_cases hof : r.Of display_number
    · rw [if_pos ((wanted_iff r display_number).mpr hof), List.find?_cons_of_pos (by simpa using hof)]
      rfl
    · rw [if_neg fun hwanted => hof ((wanted_iff r display_number).mp hwanted),
        ih (entry_at_within hread).2 hrest, List.find?_cons_of_neg (by simpa using hof)]

end

/-- **The cookie of a display** is the one of the first record of it, whatever records a file has
and whatever is left of a last one; and the walk ends without a panic in any bytes. -/
theorem read_cookie_from_right (display_number : ℕ) :
    (∀ (records : List Record) (tail : Bytes), Incomplete tail →
      (records.flatMap Record.encode ++ tail).length < 2 ^ 63 →
        read_cookie_from (records.flatMap Record.encode ++ tail) display_number =
          .ok ((records.find? fun r => r.Of display_number).map fun r => r.data)) ∧
      ∀ bytes : Bytes, bytes.length < 2 ^ 63 →
        ∃ found, read_cookie_from bytes display_number = .ok found :=
  ⟨fun _ _ htail hbytes => walk_records hbytes display_number htail (Nat.zero_le _) rfl,
    fun _ hbytes => walk_ends hbytes display_number (Nat.zero_le _)⟩

/-- A record for every host. -/
def wild (number : String) (data : Bytes) (h : (Utf8.encode number.toList).length < 2 ^ 16)
    (h' : data.length < 2 ^ 16) : Record where
  family := 0xffff
  address := []
  number := Utf8.encode number.toList
  name := Utf8.encode "MIT-MAGIC-COOKIE-1".toList
  data := data
  family_lt := by decide
  address_lt := by decide
  number_lt := h
  name_lt := by decide
  data_lt := h'

/-- The second record, with a third one cut off behind it. -/
theorem read_cookie_from_truncated : read_cookie_from
    ([wild "0" [1, 2, 3, 4] (by decide) (by decide),
      wild "10" [9, 9] (by decide) (by decide)].flatMap Record.encode ++
      (wild "7" [5] (by decide) (by decide)).encode.take 6) 10 = .ok (some [9, 9]) :=
  (read_cookie_from_right 10).1 _ _ (incomplete_of_truncated (List.take_prefix 6 _) (by decide))
    (by decide)

end WaSSH.Ssh.X11
