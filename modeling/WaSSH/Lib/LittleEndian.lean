import Mathlib.Tactic
import Mathlib.Algebra.BigOperators.Group.List.Basic
import Mathlib.Data.List.Basic

/-!
# Little-endian records

Numbers of a fixed width, one behind the other in a buffer, and how they are read back at an offset.

* `to_le_bytes`, `from_le_bytes`, `from_to_le_bytes`: a number of `w` bytes, up to `256 ^ w`;
* `slice`, **`slice_append`**: the bytes at an offset;
* `record`, **`read_record`**: a field of a record is read back wherever the record stands;
* `read_within`: what is read inside a piece of the buffer.
-/

namespace LittleEndian

abbrev Bytes := List UInt8

/-! ## One number -/

/-- The `w` low bytes of a number, the lowest first. -/
def to_le_bytes : ℕ → ℕ → Bytes
  | 0, _ => []
  | w + 1, n => UInt8.ofNat n :: to_le_bytes w (n / 256)

def from_le_bytes : Bytes → ℕ
  | [] => 0
  | b :: bs => b.toNat + 256 * from_le_bytes bs

@[simp] theorem length_to_le_bytes : ∀ w n : ℕ, (to_le_bytes w n).length = w
  | 0, _ => rfl
  | w + 1, n => congrArg (· + 1) (length_to_le_bytes w (n / 256))

theorem from_to_le_bytes : ∀ w n : ℕ, from_le_bytes (to_le_bytes w n) = n % 256 ^ w
  | 0, n => (Nat.mod_one n).symm
  | w + 1, n => by
    have hsplit : n % (256 * 256 ^ w) = n % 256 + 256 * (n / 256 % 256 ^ w) := Nat.mod_mul
    have hbyte : (UInt8.ofNat n).toNat = n % 256 := UInt8.toNat_ofNat'
    rw [to_le_bytes, from_le_bytes, from_to_le_bytes w, hbyte, pow_succ', hsplit]

theorem from_le_bytes_lt : ∀ bs : Bytes, from_le_bytes bs < 256 ^ bs.length
  | [] => Nat.one_pos
  | b :: bs => by
    have ih := from_le_bytes_lt bs
    have hb := b.toNat_lt
    rw [from_le_bytes, List.length_cons, pow_succ]
    omega

theorem to_from_le_bytes : ∀ bs : Bytes, to_le_bytes bs.length (from_le_bytes bs) = bs
  | [] => rfl
  | b :: bs => by
    have hb : b.toNat < 256 := b.toNat_lt
    have hlow : UInt8.ofNat (b.toNat + 256 * from_le_bytes bs) = b := by
      apply UInt8.toNat_inj.mp
      rw [UInt8.toNat_ofNat']
      omega
    have hrest : (b.toNat + 256 * from_le_bytes bs) / 256 = from_le_bytes bs := by omega
    rw [from_le_bytes, List.length_cons, to_le_bytes, hlow, hrest, to_from_le_bytes bs]

/-! ## At an offset -/

/-- `bytes.get(at..at + len)`. -/
def slice (bytes : Bytes) (at_ len : ℕ) : Option Bytes :=
  if at_ + len ≤ bytes.length then some ((bytes.drop at_).take len) else none

theorem slice_append (before middle after : Bytes) :
    slice (before ++ middle ++ after) before.length middle.length = some middle := by
  unfold slice
  rw [if_pos (by rw [List.length_append, List.length_append]; exact Nat.le_add_right _ _),
    List.append_assoc, List.drop_left, List.take_left]

/-- Inside a piece of the buffer. -/
theorem slice_within {at_ len : ℕ} (before middle after : Bytes)
    (h : at_ + len ≤ middle.length) :
    slice (before ++ middle ++ after) (before.length + at_) len = slice middle at_ len := by
  unfold slice
  rw [if_pos h, if_pos (by simp only [List.length_append]; omega), List.append_assoc,
    ← List.drop_drop, List.drop_left, List.drop_append_of_le_length (by omega),
    List.take_append_of_le_length (by rw [List.length_drop]; omega)]

/-- A number of `w` bytes. -/
def read (w : ℕ) (bytes : Bytes) (at_ : ℕ) : Option ℕ := (slice bytes at_ w).map from_le_bytes

theorem length_of_slice {bytes found : Bytes} {at_ len : ℕ} (h : slice bytes at_ len = some found) :
    found.length = len := by
  unfold slice at h
  split_ifs at h with hlen
  rw [← Option.some.inj h, List.length_take, List.length_drop]
  omega

/-- The bytes at an offset are those that begin there. -/
theorem slice_eq_some_iff {bytes found : Bytes} {at_ len : ℕ} :
    slice bytes at_ len = some found ↔
      at_ ≤ bytes.length ∧ found.length = len ∧ found <+: bytes.drop at_ := by
  constructor
  · intro h
    have hlength := length_of_slice h
    unfold slice at h
    split_ifs at h with hle
    refine ⟨by omega, hlength, ?_⟩
    rw [← Option.some.inj h]
    exact List.take_prefix len _
  · rintro ⟨hat, rfl, rest, hrest⟩
    have hdrop := congrArg List.length hrest
    rw [List.length_append, List.length_drop] at hdrop
    rw [slice, if_pos (by omega), ← hrest, List.take_left]

theorem read_lt {w at_ n : ℕ} {bytes : Bytes} (h : read w bytes at_ = some n) : n < 256 ^ w := by
  obtain ⟨found, hfound, rfl⟩ := Option.map_eq_some_iff.mp h
  rw [← length_of_slice hfound]
  exact from_le_bytes_lt found

/-- A number that is read says which bytes stand there. -/
theorem slice_of_read {w at_ n : ℕ} {bytes : Bytes} (h : read w bytes at_ = some n) :
    slice bytes at_ w = some (to_le_bytes w n) := by
  obtain ⟨found, hfound, rfl⟩ := Option.map_eq_some_iff.mp h
  rw [hfound, ← length_of_slice hfound, to_from_le_bytes]

theorem read_within {w at_ : ℕ} (before middle after : Bytes) (h : at_ + w ≤ middle.length) :
    read w (before ++ middle ++ after) (before.length + at_) = read w middle at_ := by
  unfold read
  rw [slice_within before middle after h]

/-! ## Records -/

/-- Numbers one behind the other, each with its width. -/
def record (fields : List (ℕ × ℕ)) : Bytes := fields.flatMap fun f => to_le_bytes f.1 f.2

/-- The bytes of a record. -/
def width (fields : List (ℕ × ℕ)) : ℕ := (fields.map Prod.fst).sum

@[simp] theorem width_nil : width [] = 0 := rfl

@[simp] theorem width_cons (f : ℕ × ℕ) (fields : List (ℕ × ℕ)) :
    width (f :: fields) = f.1 + width fields := List.sum_cons

@[simp] theorem length_record (fields : List (ℕ × ℕ)) : (record fields).length = width fields := by
  unfold record width
  rw [List.length_flatMap]
  congr 1
  exact List.map_congr_left fun f _ => length_to_le_bytes f.1 f.2

theorem record_append (fields fields' : List (ℕ × ℕ)) :
    record (fields ++ fields') = record fields ++ record fields' := List.flatMap_append

/-- **A field of a record** is read back, as far as its width goes. -/
theorem read_record {fields : List (ℕ × ℕ)} {i w n : ℕ} (hfield : fields[i]? = some (w, n))
    (before after : Bytes) :
    read w (before ++ record fields ++ after) (before.length + width (fields.take i)) =
      some (n % 256 ^ w) := by
  obtain ⟨hlt, hget⟩ := List.getElem?_eq_some_iff.mp hfield
  have hsplit : fields = fields.take i ++ (w, n) :: fields.drop (i + 1) := by
    rw [← hget, List.getElem_cons_drop, List.take_append_drop]
  have hbytes : before ++ record fields ++ after =
      (before ++ record (fields.take i)) ++ to_le_bytes w n ++
        (record (fields.drop (i + 1)) ++ after) := by
    conv_lhs => rw [hsplit, record_append]
    simp only [record, List.flatMap_cons, List.append_assoc]
  have hslice := slice_append (before ++ record (fields.take i)) (to_le_bytes w n)
    (record (fields.drop (i + 1)) ++ after)
  rw [length_to_le_bytes, List.length_append, length_record, ← hbytes] at hslice
  unfold read
  rw [hslice, Option.map_some, from_to_le_bytes]

end LittleEndian
