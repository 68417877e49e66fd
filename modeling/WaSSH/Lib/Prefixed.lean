import WaSSH.Lib.BigEndian

/-!
# Strings behind their length

A number of `w` bytes with its highest byte first, and a byte string behind a number that says how
long it is. What a reader finds at an offset is what begins there.

* `number_at`, `blob_at`: the readers, each with the offset behind what it read;
* `blob`: the bytes of a string and its length;
* **`number_at_eq_some_iff`**, **`blob_at_eq_some_iff`**: what they find is written there.
-/

namespace Prefixed

open LittleEndian (Bytes slice slice_eq_some_iff)
open BigEndian

/-- A part behind another one. -/
theorem append_prefix_drop_iff {α : Type*} {a b l : List α} {n : ℕ} :
    a ++ b <+: l.drop n ↔ a <+: l.drop n ∧ b <+: l.drop (n + a.length) := by
  rw [← List.drop_drop]
  generalize l.drop n = rest
  constructor
  · rintro ⟨t, rfl⟩
    rw [List.append_assoc, List.drop_left]
    exact ⟨List.prefix_append _ _, List.prefix_append _ _⟩
  · rintro ⟨⟨t, rfl⟩, hb⟩
    rw [List.drop_left] at hb
    exact (List.prefix_append_right_inj a).mpr hb

/-- A prefix of what an offset leaves reaches no further than the end. -/
theorem add_length_le {α : Type*} {a l : List α} {n : ℕ} (h : a <+: l.drop n) (hne : a ≠ []) :
    n + a.length ≤ l.length := by
  have hlength := h.length_le
  have hpos := List.length_pos_of_ne_nil hne
  rw [List.length_drop] at hlength
  omega

variable (w : ℕ) (bytes : Bytes)

/-- A number at an offset, and the offset behind it. -/
def number_at (n : ℕ) : Option (ℕ × ℕ) :=
  (slice bytes n w).map fun found => (from_be_bytes found, n + w)

/-- A byte string behind its length. -/
def blob (b : Bytes) : Bytes := to_be_bytes w b.length ++ b

/-- A byte string at an offset, and the offset behind it. -/
def blob_at (n : ℕ) : Option (Bytes × ℕ) :=
  (number_at w bytes n).bind fun length =>
    (slice bytes length.2 length.1).map fun found => (found, length.2 + length.1)

variable {w bytes}

@[simp] theorem length_blob (b : Bytes) : (blob w b).length = w + b.length := by
  rw [blob, List.length_append, length_to_be_bytes]

/-- **A number that is found** is written there. -/
theorem number_at_eq_some_iff {n value next : ℕ} (hw : 0 < w) :
    number_at w bytes n = some (value, next) ↔
      value < 256 ^ w ∧ next = n + w ∧ to_be_bytes w value <+: bytes.drop n := by
  unfold number_at
  rw [Option.map_eq_some_iff]
  constructor
  · rintro ⟨found, hfound, heq⟩
    obtain ⟨rfl, rfl⟩ := Prod.mk.inj heq
    obtain ⟨-, rfl, hbegins⟩ := slice_eq_some_iff.mp hfound
    exact ⟨from_be_bytes_lt found, rfl, (to_from_be_bytes found).symm ▸ hbegins⟩
  · rintro ⟨hvalue, rfl, hbegins⟩
    have hlength := length_to_be_bytes w value
    have hne : to_be_bytes w value ≠ [] := List.ne_nil_of_length_pos (hlength.symm ▸ hw)
    have hwithin := add_length_le hbegins hne
    refine ⟨to_be_bytes w value, slice_eq_some_iff.mpr ⟨by omega, hlength, hbegins⟩, ?_⟩
    rw [from_to_be_bytes, Nat.mod_eq_of_lt hvalue]

/-- **A string that is found** is written there with its length. -/
theorem blob_at_eq_some_iff {n next : ℕ} {b : Bytes} (hw : 0 < w) :
    blob_at w bytes n = some (b, next) ↔
      b.length < 256 ^ w ∧ next = n + (w + b.length) ∧ blob w b <+: bytes.drop n := by
  unfold blob_at blob
  rw [Option.bind_eq_some_iff, append_prefix_drop_iff, length_to_be_bytes]
  constructor
  · rintro ⟨⟨length, behind⟩, hlength, hfound⟩
    obtain ⟨hlt, rfl, hbegins⟩ := (number_at_eq_some_iff hw).mp hlength
    obtain ⟨found, hslice, heq⟩ := Option.map_eq_some_iff.mp hfound
    obtain ⟨rfl, rfl⟩ := Prod.mk.inj heq
    obtain ⟨-, rfl, hrest⟩ := slice_eq_some_iff.mp hslice
    exact ⟨hlt, Nat.add_assoc _ _ _, hbegins, hrest⟩
  · rintro ⟨hlt, rfl, hbegins, hrest⟩
    have hlength := length_to_be_bytes w b.length
    have hne : to_be_bytes w b.length ≠ [] := List.ne_nil_of_length_pos (hlength.symm ▸ hw)
    have hwithin := add_length_le hbegins hne
    refine ⟨(b.length, n + w), (number_at_eq_some_iff hw).mpr ⟨hlt, rfl, hbegins⟩, ?_⟩
    rw [Option.map_eq_some_iff]
    exact ⟨b, slice_eq_some_iff.mpr ⟨by omega, rfl, hrest⟩, by rw [Nat.add_assoc]⟩

end Prefixed
