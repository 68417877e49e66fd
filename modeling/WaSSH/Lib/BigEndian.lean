import WaSSH.Lib.LittleEndian

/-!
# Big-endian tables

Numbers with their highest byte first, signed or not, and tables of items of one width.

* `to_be_bytes`, `from_be_bytes`, `from_to_be_bytes`: a number of `w` bytes;
* `to_be_signed`, `from_be_signed`, `from_to_be_signed`: the same in two's complement;
* `read_items`: a loop that reads one item behind the other and stops at the first that fails;
* **`read_items_encode`**: a table is read back wherever it stands in the buffer;
* `read_items_refused`: one item that fails is enough.
-/

namespace BigEndian

open LittleEndian

/-! ## Numbers -/

def to_be_bytes (w n : ℕ) : Bytes := (to_le_bytes w n).reverse

def from_be_bytes (bytes : Bytes) : ℕ := from_le_bytes bytes.reverse

@[simp] theorem length_to_be_bytes (w n : ℕ) : (to_be_bytes w n).length = w := by
  rw [to_be_bytes, List.length_reverse, length_to_le_bytes]

theorem from_to_be_bytes (w n : ℕ) : from_be_bytes (to_be_bytes w n) = n % 256 ^ w := by
  rw [from_be_bytes, to_be_bytes, List.reverse_reverse, from_to_le_bytes]

theorem from_be_bytes_lt (bs : Bytes) : from_be_bytes bs < 256 ^ bs.length := by
  rw [from_be_bytes, ← List.length_reverse]
  exact from_le_bytes_lt bs.reverse

theorem to_from_be_bytes (bs : Bytes) : to_be_bytes bs.length (from_be_bytes bs) = bs := by
  rw [to_be_bytes, from_be_bytes, ← List.length_reverse, to_from_le_bytes, List.reverse_reverse]

/-- Two's complement. -/
def to_be_signed (w : ℕ) (z : ℤ) : Bytes := to_be_bytes w (z % (256 ^ w : ℕ)).toNat

def from_be_signed (bytes : Bytes) : ℤ := Int.bmod (from_be_bytes bytes) (256 ^ bytes.length)

@[simp] theorem length_to_be_signed (w : ℕ) (z : ℤ) : (to_be_signed w z).length = w :=
  length_to_be_bytes w _

/-- The numbers of `w` bytes in two's complement. -/
def Fits (w : ℕ) (z : ℤ) : Prop := -((256 ^ w : ℕ) / 2 : ℤ) ≤ z ∧ z < (256 ^ w : ℕ) / 2

instance (w : ℕ) (z : ℤ) : Decidable (Fits w z) := inferInstanceAs (Decidable (_ ∧ _))

theorem from_to_be_signed {w : ℕ} {z : ℤ} (h : Fits w z) :
    from_be_signed (to_be_signed w z) = z := by
  have hpos : (0 : ℤ) < (256 ^ w : ℕ) := by exact_mod_cast Nat.pow_pos (by omega : 0 < 256)
  have hnonneg : 0 ≤ z % (256 ^ w : ℕ) := Int.emod_nonneg z (by omega)
  have hlt : z % (256 ^ w : ℕ) < (256 ^ w : ℕ) := Int.emod_lt_of_pos z hpos
  have hvalue : from_be_bytes (to_be_signed w z) = (z % (256 ^ w : ℕ)).toNat := by
    rw [to_be_signed, from_to_be_bytes, Nat.mod_eq_of_lt (by omega)]
  obtain ⟨hlow, hhigh⟩ := h
  rw [from_be_signed, hvalue, length_to_be_signed, Int.toNat_of_nonneg hnonneg, Int.emod_bmod]
  exact Int.bmod_eq_of_le (by omega) (by omega)

/-! ## Tables -/

variable {α β : Type}

/-- Read `n` items of `width` bytes from `at_` on. -/
def read_items (item : Bytes → Option β) (width : ℕ) (bytes : Bytes) : ℕ → ℕ → Option (List β)
  | _, 0 => some []
  | at_, n + 1 => do
    let piece ← slice bytes at_ width
    let value ← item piece
    let rest ← read_items item width bytes (at_ + width) n
    some (value :: rest)

theorem length_flatMap_const {enc : α → Bytes} {width : ℕ} {l : List α}
    (hwidth : ∀ a ∈ l, (enc a).length = width) : (l.flatMap enc).length = l.length * width := by
  induction l with
  | nil => rw [List.flatMap_nil, List.length_nil, List.length_nil, Nat.zero_mul]
  | cons a l ih =>
    rw [List.flatMap_cons, List.length_append, hwidth a List.mem_cons_self,
      ih fun b hb => hwidth b (List.mem_cons_of_mem a hb), List.length_cons,
      Nat.succ_mul, Nat.add_comm]

section Encoded

variable {item : Bytes → Option β} {enc : α → Bytes} {width : ℕ}

/-- One item is read, and the rest behind it. -/
theorem read_items_cons {piece rest before after bytes : Bytes} (hwidth : piece.length = width)
    (hbytes : bytes = before ++ (piece ++ rest) ++ after) (n : ℕ) :
    read_items item width bytes before.length (n + 1) = (item piece).bind fun value =>
      (read_items item width bytes (before ++ piece).length n).map (value :: ·) := by
  have hslice : slice bytes before.length width = some piece := by
    rw [hbytes, ← List.append_assoc, List.append_assoc, ← hwidth]
    exact slice_append before piece (rest ++ after)
  rw [read_items, hslice, List.length_append, hwidth]
  show (item piece).bind _ = _
  congr 1
  funext value
  cases read_items item width bytes (before.length + width) n <;> rfl

/-- **A table is read back** wherever it stands. -/
theorem read_items_encode {value : α → β} {l : List α} {bytes before after : Bytes} {at_ n : ℕ}
    (hwidth : ∀ a ∈ l, (enc a).length = width) (hitem : ∀ a ∈ l, item (enc a) = some (value a))
    (hbytes : bytes = before ++ l.flatMap enc ++ after) (hat : at_ = before.length)
    (hn : n = l.length) : read_items item width bytes at_ n = some (l.map value) := by
  induction l generalizing before at_ n with
  | nil =>
    subst hn
    rfl
  | cons a l ih =>
    subst hn hat
    rw [List.flatMap_cons] at hbytes
    have hrest := ih (fun b hb => hwidth b (List.mem_cons_of_mem a hb))
      (fun b hb => hitem b (List.mem_cons_of_mem a hb))
      (hbytes.trans (by simp only [List.append_assoc]) : bytes = (before ++ enc a) ++ _ ++ after)
      rfl rfl
    rw [List.length_cons, read_items_cons (hwidth a List.mem_cons_self) hbytes,
      hitem a List.mem_cons_self, Option.bind_some, hrest]
    rfl

/-- An item that is refused refuses the table. -/
theorem read_items_refused {l : List α} {bytes before after : Bytes} {at_ n : ℕ}
    (hwidth : ∀ a ∈ l, (enc a).length = width) {a : α} (ha : a ∈ l) (hitem : item (enc a) = none)
    (hbytes : bytes = before ++ l.flatMap enc ++ after) (hat : at_ = before.length)
    (hn : n = l.length) : read_items item width bytes at_ n = none := by
  induction l generalizing before at_ n with
  | nil => exact absurd ha List.not_mem_nil
  | cons b l ih =>
    subst hn hat
    rw [List.flatMap_cons] at hbytes
    rw [List.length_cons, read_items_cons (hwidth b List.mem_cons_self) hbytes]
    rcases List.mem_cons.mp ha with rfl | hmem
    · rw [hitem, Option.bind_none]
    · have hrest := ih (fun c hc => hwidth c (List.mem_cons_of_mem b hc)) hmem
        (hbytes.trans (by simp only [List.append_assoc]) : bytes = (before ++ enc b) ++ _ ++ after)
        rfl rfl
      rw [hrest]
      cases item (enc b) <;> rfl

end Encoded

end BigEndian
