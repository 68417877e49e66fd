import Mathlib.Tactic

/-!
# UTF-8

A decoder reads one byte after the other and keeps what it still expects; every maximal part of a
broken sequence becomes one replacement character.

* `encode`: the bytes of a text;
* `State`, `next`, `from_utf8_lossy`: the decoder;
* **`from_utf8_lossy_encode`**: decoding what was encoded gives it back;
* `from_utf8`: decoding that fails on broken sequences;
* **`from_utf8_lossy_append`**, `from_utf8_lossy_append_ascii`: what a byte ends;
* `encode_cut`: the parts of a text cut in two;
* `mem_of_mem_from_utf8_lossy`, `mem_of_mem_encode`, `count_encode`: ASCII characters are bytes, and
  bytes are them; `from_utf8_lossy_eq_ascii_iff`: only its own bytes decode to an ASCII text.
-/

namespace Utf8

/-- The bytes of a text. -/
def encode (t : List Char) : List UInt8 := t.flatMap String.utf8EncodeChar

@[simp] theorem encode_nil : encode [] = [] := rfl

@[simp] theorem encode_cons (c : Char) (t : List Char) :
    encode (c :: t) = String.utf8EncodeChar c ++ encode t := rfl

@[simp] theorem encode_append (t u : List Char) : encode (t ++ u) = encode t ++ encode u :=
  List.flatMap_append

theorem encode_intercalate (sep : List Char) :
    ∀ xs : List (List Char), encode (sep.intercalate xs) = (encode sep).intercalate (xs.map encode)
  | [] => rfl
  | [x] => by simp
  | x :: y :: xs => by
    rw [List.intercalate_cons_cons, encode_append, encode_append,
      encode_intercalate sep (y :: xs)]
    exact List.intercalate_cons_cons.symm

/-- No byte of a text is above `0xF7`. -/
theorem lt_of_mem_encode {t : List Char} {b : UInt8} (h : b ∈ encode t) : b.toNat < 0xF8 := by
  obtain ⟨c, -, hb⟩ := List.mem_flatMap.mp h
  unfold String.utf8EncodeChar at hb
  generalize c.val.toNat = v at hb
  dsimp only at hb
  have hofNat (n : ℕ) : (UInt8.ofNat n).toNat = n % 256 := UInt8.toNat_ofNat'
  split_ifs at hb with h1 h2 h3 <;> simp only [List.mem_cons, List.not_mem_nil, or_false] at hb
  · rw [hb, hofNat]
    omega
  · rcases hb with rfl | rfl <;> rw [hofNat] <;> omega
  · rcases hb with rfl | rfl | rfl <;> rw [hofNat] <;> omega
  · rcases hb with rfl | rfl | rfl | rfl <;> rw [hofNat] <;> omega

/-! ## The decoder -/

/-- Between characters, or inside one: how many bytes follow the next one, its bounds, and the bits
read so far. -/
inductive State
  | start
  | more (left lo hi acc : ℕ)
  deriving DecidableEq, Repr

/-- What stands for a broken sequence. -/
def replacement : Char := Char.ofNat 0xFFFD

/-- A byte between characters. -/
def first (b : UInt8) : List Char × State :=
  let n := b.toNat
  if n < 0x80 then ([Char.ofNat n], .start)
  else if 0xC2 ≤ n ∧ n ≤ 0xDF then ([], .more 0 0x80 0xBF (n - 0xC0))
  else if n = 0xE0 then ([], .more 1 0xA0 0xBF 0)
  else if n = 0xED then ([], .more 1 0x80 0x9F 0xD)
  else if 0xE1 ≤ n ∧ n ≤ 0xEF then ([], .more 1 0x80 0xBF (n - 0xE0))
  else if n = 0xF0 then ([], .more 2 0x90 0xBF 0)
  else if 0xF1 ≤ n ∧ n ≤ 0xF3 then ([], .more 2 0x80 0xBF (n - 0xF0))
  else if n = 0xF4 then ([], .more 2 0x80 0x8F 4)
  else ([replacement], .start)

/-- One byte. -/
def next (s : State) (b : UInt8) : List Char × State :=
  match s with
  | .start => first b
  | .more left lo hi acc =>
    let n := b.toNat
    if lo ≤ n ∧ n ≤ hi then
      match left with
      | 0 => ([Char.ofNat (acc * 64 + n % 64)], .start)
      | left + 1 => ([], .more left 0x80 0xBF (acc * 64 + n % 64))
    else (replacement :: (first b).1, (first b).2)

/-- The end of the bytes. -/
def finish : State → List Char
  | .start => []
  | .more _ _ _ _ => [replacement]

def decode_from (s : State) : List UInt8 → List Char
  | [] => finish s
  | b :: bs => (next s b).1 ++ decode_from (next s b).2 bs

/-- `String::from_utf8_lossy`. -/
def from_utf8_lossy (bs : List UInt8) : List Char := decode_from .start bs

/-! ## Decoding what was encoded -/

theorem next_more_zero {lo hi acc : ℕ} {b : UInt8} (h : lo ≤ b.toNat ∧ b.toNat ≤ hi) :
    next (.more 0 lo hi acc) b = ([Char.ofNat (acc * 64 + b.toNat % 64)], .start) :=
  if_pos h

theorem next_more_succ {left lo hi acc : ℕ} {b : UInt8} (h : lo ≤ b.toNat ∧ b.toNat ≤ hi) :
    next (.more (left + 1) lo hi acc) b =
      ([], .more left 0x80 0xBF (acc * 64 + b.toNat % 64)) :=
  if_pos h

/-- With the size as a number. -/
theorem toNat_ofNat {n : ℕ} (h : n < 256) : (UInt8.ofNat n).toNat = n :=
  UInt8.toNat_ofNat_of_lt' h

/-! ### Lead bytes -/

theorem first_ascii {n : ℕ} (h : n < 0x80) :
    first (UInt8.ofNat n) = ([Char.ofNat n], .start) := by
  rw [first, toNat_ofNat (by omega), if_pos h]

theorem first_two {n : ℕ} (h1 : 2 ≤ n) (h2 : n < 32) :
    first (UInt8.ofNat (n + 0xC0)) = ([], .more 0 0x80 0xBF n) := by
  rw [first, toNat_ofNat (by omega), if_neg (by omega), if_pos (by omega), Nat.add_sub_cancel]

/-- The bounds of the second byte keep out overlong forms and surrogates. -/
theorem first_three {n : ℕ} (h : n < 16) :
    first (UInt8.ofNat (n + 0xE0)) =
      ([], .more 1 (if n = 0 then 0xA0 else 0x80) (if n = 0xD then 0x9F else 0xBF) n) := by
  rw [first, toNat_ofNat (by omega), if_neg (by omega), if_neg (by omega)]
  by_cases h0 : n = 0
  · subst h0
    rfl
  · rw [if_neg (by omega), if_neg h0]
    by_cases hd : n = 0xD
    · subst hd
      rfl
    · rw [if_neg (by omega), if_neg hd, if_pos (by omega), Nat.add_sub_cancel]

theorem first_four {n : ℕ} (h : n < 5) :
    first (UInt8.ofNat (n + 0xF0)) =
      ([], .more 2 (if n = 0 then 0x90 else 0x80) (if n = 4 then 0x8F else 0xBF) n) := by
  interval_cases n <;> rfl

/-! ### Whole characters -/

theorem decode_from_cons (s : State) (b : UInt8) (bs : List UInt8) :
    decode_from s (b :: bs) = (next s b).1 ++ decode_from (next s b).2 bs := rfl

/-- A continuation byte with the bits `d`, inside the bounds. -/
theorem decode_from_tail {left lo hi acc d : ℕ} (hd : d < 64) (hlo : lo ≤ d + 0x80)
    (hhi : d + 0x80 ≤ hi) (bs : List UInt8) :
    decode_from (.more (left + 1) lo hi acc) (UInt8.ofNat (d + 0x80) :: bs) =
      decode_from (.more left 0x80 0xBF (acc * 64 + d)) bs := by
  have hb : (UInt8.ofNat (d + 0x80)).toNat = d + 0x80 := toNat_ofNat (by omega)
  have hmod : (d + 0x80) % 64 = d := by omega
  rw [decode_from_cons, next_more_succ (by rw [hb]; exact ⟨hlo, hhi⟩), hb, hmod]
  rfl

theorem decode_from_last {lo hi acc d : ℕ} (hd : d < 64) (hlo : lo ≤ d + 0x80)
    (hhi : d + 0x80 ≤ hi) (bs : List UInt8) :
    decode_from (.more 0 lo hi acc) (UInt8.ofNat (d + 0x80) :: bs) =
      Char.ofNat (acc * 64 + d) :: decode_from .start bs := by
  have hb : (UInt8.ofNat (d + 0x80)).toNat = d + 0x80 := toNat_ofNat (by omega)
  have hmod : (d + 0x80) % 64 = d := by omega
  rw [decode_from_cons, next_more_zero (by rw [hb]; exact ⟨hlo, hhi⟩), hb, hmod]
  rfl

theorem decode_from_encodeChar (c : Char) (bs : List UInt8) :
    decode_from .start (String.utf8EncodeChar c ++ bs) = c :: decode_from .start bs := by
  have hvalid : c.val.toNat < 0xD800 ∨ 0xDFFF < c.val.toNat ∧ c.val.toNat < 0x110000 := c.valid
  have hof : Char.ofNat c.val.toNat = c := Char.ofNat_toNat c
  unfold String.utf8EncodeChar
  generalize c.val.toNat = v at hvalid hof ⊢
  dsimp only
  split_ifs with h1 h2 h3
  · rw [List.singleton_append, decode_from_cons, next, first_ascii (by omega), hof]
    rfl
  · rw [List.cons_append, List.singleton_append, decode_from_cons, next,
      first_two (by omega) (by omega), List.nil_append,
      decode_from_last (by omega) (by omega) (by omega)]
    rw [show v / 64 % 0x20 * 64 + v % 0x40 = v by omega, hof]
  · rw [List.cons_append, List.cons_append, List.singleton_append, decode_from_cons, next,
      first_three (by omega), List.nil_append,
      decode_from_tail (by omega) (by split_ifs <;> omega) (by split_ifs <;> omega),
      decode_from_last (by omega) (by omega) (by omega)]
    rw [show (v / 4096 % 0x10 * 64 + v / 64 % 0x40) * 64 + v % 0x40 = v by omega, hof]
  · rw [List.cons_append, List.cons_append, List.cons_append, List.singleton_append,
      decode_from_cons, next, first_four (by omega), List.nil_append,
      decode_from_tail (by omega) (by split_ifs <;> omega) (by split_ifs <;> omega),
      decode_from_tail (by omega) (by omega) (by omega),
      decode_from_last (by omega) (by omega) (by omega)]
    rw [show ((v / 262144 % 0x08 * 64 + v / 4096 % 0x40) * 64 + v / 64 % 0x40) * 64 + v % 0x40 = v
      by omega, hof]

theorem from_utf8_lossy_encode_append (t : List Char) (bs : List UInt8) :
    from_utf8_lossy (encode t ++ bs) = t ++ from_utf8_lossy bs := by
  unfold from_utf8_lossy
  induction t with
  | nil => rfl
  | cons c t ih => rw [encode_cons, List.append_assoc, decode_from_encodeChar, ih, List.cons_append]

/-- **Decoding what was encoded gives it back.** -/
theorem from_utf8_lossy_encode (t : List Char) : from_utf8_lossy (encode t) = t := by
  have := from_utf8_lossy_encode_append t []
  have hnil : from_utf8_lossy [] = [] := rfl
  rwa [hnil, List.append_nil, List.append_nil] at this

/-- `String::from_utf8`. -/
def from_utf8 (bs : List UInt8) : Option (List Char) :=
  let t := from_utf8_lossy bs
  if encode t = bs then some t else none

theorem from_utf8_eq_some_iff {bs : List UInt8} {t : List Char} :
    from_utf8 bs = some t ↔ encode t = bs := by
  simp only [from_utf8]
  constructor
  · intro h
    split_ifs at h with he
    obtain rfl := Option.some.inj h
    exact he
  · rintro rfl
    rw [from_utf8_lossy_encode, if_pos rfl]

/-! ## Decoding in parts -/

/-- A byte that goes on with a character. -/
def Continues (b : UInt8) : Prop := 0x80 ≤ b.toNat ∧ b.toNat ≤ 0xBF

/-- With `left` more bytes, what is read so far becomes a character outside ASCII. -/
def Completes : ℕ → ℕ → Prop
  | 0, v => 0x80 ≤ v ∧ (v < 0xD800 ∨ 0xDFFF < v ∧ v < 0x110000)
  | left + 1, v => ∀ n, 0x80 ≤ n → n ≤ 0xBF → Completes left (v * 64 + n % 64)

/-- A state that waits for a byte waits for one that goes on with a character, and with any such
bytes it comes to one outside ASCII. -/
def State.Waits : State → Prop
  | .start => True
  | .more left lo hi acc =>
    0x80 ≤ lo ∧ hi ≤ 0xBF ∧ ∀ n, lo ≤ n → n ≤ hi → Completes left (acc * 64 + n % 64)

theorem first_waits (b : UInt8) : (first b).2.Waits := by
  unfold first
  dsimp only
  split_ifs <;> simp only [State.Waits, Completes] <;> grind

theorem next_waits {s : State} (hs : s.Waits) (b : UInt8) : (next s b).2.Waits := by
  rcases s with _ | ⟨left, lo, hi, acc⟩
  · exact first_waits b
  · obtain ⟨-, -, hcompletes⟩ := hs
    unfold next
    dsimp only
    split_ifs with hb
    · cases left with
      | zero => trivial
      | succ left => exact ⟨le_rfl, le_rfl, hcompletes b.toNat hb.1 hb.2⟩
    · exact first_waits b

/-- A byte that does not go on with a character ends what was open. -/
theorem next_of_not_continues {s : State} (hs : s.Waits) {b : UInt8} (hb : ¬Continues b) :
    next s b = (finish s ++ (first b).1, (first b).2) := by
  rcases s with _ | ⟨left, lo, hi, acc⟩
  · rfl
  · obtain ⟨hlo, hhi, -⟩ := hs
    have hout : ¬(lo ≤ b.toNat ∧ b.toNat ≤ hi) := fun h =>
      hb ⟨hlo.trans h.1, h.2.trans hhi⟩
    unfold next
    dsimp only
    rw [if_neg hout]
    rfl

theorem decode_from_append {b : UInt8} (hb : ¬Continues b) (ys : List UInt8) :
    ∀ (xs : List UInt8) (s : State), s.Waits →
      decode_from s (xs ++ b :: ys) = decode_from s xs ++ decode_from .start (b :: ys)
  | [], s, hs => by
    rw [List.nil_append, decode_from_cons, next_of_not_continues hs hb, List.append_assoc]
    rfl
  | x :: xs, s, hs => by
    rw [List.cons_append, decode_from_cons, decode_from_cons, List.append_assoc,
      decode_from_append hb ys xs _ (next_waits hs x)]

/-- **What comes before a character is decoded by itself**, broken or not. -/
theorem from_utf8_lossy_append (xs : List UInt8) {b : UInt8} (hb : ¬Continues b)
    (ys : List UInt8) :
    from_utf8_lossy (xs ++ b :: ys) = from_utf8_lossy xs ++ from_utf8_lossy (b :: ys) :=
  decode_from_append hb ys xs .start trivial

/-- **An ASCII byte ends what came before it**, broken or not. -/
theorem from_utf8_lossy_append_ascii (xs : List UInt8) {n : ℕ} (h : n < 0x80) (ys : List UInt8) :
    from_utf8_lossy (xs ++ UInt8.ofNat n :: ys) =
      from_utf8_lossy xs ++ Char.ofNat n :: from_utf8_lossy ys := by
  have hb : ¬Continues (UInt8.ofNat n) := fun hb => by
    have hlo := hb.1
    rw [toNat_ofNat (by omega)] at hlo
    omega
  have hcons : from_utf8_lossy (UInt8.ofNat n :: ys) = Char.ofNat n :: from_utf8_lossy ys := by
    unfold from_utf8_lossy
    rw [decode_from_cons, next, first_ascii h]
    rfl
  rw [from_utf8_lossy_append xs hb, hcons]

/-- The first byte of a character does not go on with one, the others do. -/
theorem utf8EncodeChar_eq_cons (c : Char) : ∃ b bs, String.utf8EncodeChar c = b :: bs ∧
    ¬Continues b ∧ ∀ x ∈ bs, Continues x := by
  have hvalid : c.val.toNat < 0x110000 := by
    have := c.valid
    change c.val.toNat < 0xD800 ∨ 0xDFFF < c.val.toNat ∧ c.val.toNat < 0x110000 at this
    omega
  unfold String.utf8EncodeChar
  generalize c.val.toNat = v at hvalid
  dsimp only
  have hlead {n : ℕ} (hn : n < 256) (h : n < 0x80 ∨ 0xBF < n) : ¬Continues (UInt8.ofNat n) := by
    unfold Continues
    rw [toNat_ofNat hn]
    omega
  have htail {n : ℕ} (h : n < 64) : Continues (UInt8.ofNat (n + 0x80)) := by
    unfold Continues
    rw [toNat_ofNat (by omega)]
    omega
  split_ifs with h1 h2 h3
  · exact ⟨_, _, rfl, hlead (by omega) (by omega), fun x hx => absurd hx List.not_mem_nil⟩
  all_goals
    refine ⟨_, _, rfl, hlead (by omega) (by omega), fun x hx => ?_⟩
    simp only [List.mem_cons, List.not_mem_nil, or_false] at hx
  · rw [hx]
    exact htail (by omega)
  · rcases hx with rfl | rfl <;> exact htail (by omega)
  · rcases hx with rfl | rfl | rfl <;> exact htail (by omega)

/-- **A text between bytes** is decoded as it is, whatever stands before and after it. -/
theorem from_utf8_lossy_append_encode (xs : List UInt8) {t : List Char} (ht : t ≠ [])
    (ys : List UInt8) :
    from_utf8_lossy (xs ++ (encode t ++ ys)) =
      from_utf8_lossy xs ++ (t ++ from_utf8_lossy ys) := by
  obtain ⟨c, t, rfl⟩ := List.exists_cons_of_ne_nil ht
  obtain ⟨b, bs, hc, hb, -⟩ := utf8EncodeChar_eq_cons c
  rw [← from_utf8_lossy_encode_append, encode_cons, hc]
  exact from_utf8_lossy_append xs hb _

theorem first_emits (b : UInt8) (h : (first b).2 = .start) : (first b).1 ≠ [] := by
  unfold first at h ⊢
  dsimp only at h ⊢
  split_ifs at h ⊢ <;> simp

/-- A byte that leaves nothing open has written something. -/
theorem next_emits (s : State) (b : UInt8) (h : (next s b).2 = .start) : (next s b).1 ≠ [] := by
  rcases s with _ | ⟨left, lo, hi, acc⟩
  · exact first_emits b h
  · unfold next at h ⊢
    dsimp only at h ⊢
    split_ifs at h ⊢
    · cases left with
      | zero => exact List.cons_ne_nil _ _
      | succ left => exact nomatch h
    · exact List.cons_ne_nil _ _

theorem decode_from_eq_nil : ∀ (bs : List UInt8) (s : State), decode_from s bs = [] →
    bs = [] ∧ s = .start
  | [], .start, _ => ⟨rfl, rfl⟩
  | [], .more _ _ _ _, h => nomatch h
  | b :: bs, s, h => by
    rw [decode_from_cons, List.append_eq_nil_iff] at h
    exact absurd h.1 (next_emits s b (decode_from_eq_nil bs _ h.2).2)

theorem from_utf8_lossy_eq_nil_iff (bs : List UInt8) : from_utf8_lossy bs = [] ↔ bs = [] :=
  ⟨fun h => (decode_from_eq_nil bs .start h).1, fun h => h ▸ rfl⟩

/-- A byte that goes on with a character stands for a broken one where none is open. -/
theorem from_utf8_lossy_cons {b : UInt8} (hb : Continues b) (bs : List UInt8) :
    from_utf8_lossy (b :: bs) = replacement :: from_utf8_lossy bs := by
  obtain ⟨hlo, hhi⟩ := hb
  have hfirst : first b = ([replacement], .start) := by
    unfold first
    dsimp only
    rw [if_neg (by omega), if_neg (by omega), if_neg (by omega), if_neg (by omega),
      if_neg (by omega), if_neg (by omega), if_neg (by omega), if_neg (by omega)]
  unfold from_utf8_lossy
  rw [decode_from_cons, next, hfirst]
  rfl

theorem length_from_utf8_lossy_append :
    ∀ {bs : List UInt8}, (∀ b ∈ bs, Continues b) → ∀ ys : List UInt8,
      (from_utf8_lossy (bs ++ ys)).length = bs.length + (from_utf8_lossy ys).length
  | [], _, ys => by simp
  | b :: bs, h, ys => by
    rw [List.cons_append, from_utf8_lossy_cons (h b List.mem_cons_self), List.length_cons,
      length_from_utf8_lossy_append (fun x hx => h x (List.mem_cons_of_mem _ hx)),
      List.length_cons]
    omega

/-- **A text cut in two** is cut between two characters, or its parts decode to more of them. -/
theorem encode_cut : ∀ {w : List Char} {xs ys : List UInt8}, encode w = xs ++ ys →
    (∃ u v, xs = encode u ∧ ys = encode v) ∨
      w.length < (from_utf8_lossy xs).length + (from_utf8_lossy ys).length
  | [], xs, ys, h => by
    obtain ⟨rfl, rfl⟩ := List.append_eq_nil_iff.mp h.symm
    exact .inl ⟨[], [], rfl, rfl⟩
  | c :: w, xs, ys, h => by
    rw [encode_cons] at h
    rcases List.append_eq_append_iff.mp h with ⟨xs', rfl, hw⟩ | ⟨s, hc, rfl⟩
    · -- the cut is behind the first character
      rcases encode_cut hw with ⟨u, v, rfl, hv⟩ | hlt
      · exact .inl ⟨c :: u, v, rfl, hv⟩
      · refine .inr ?_
        have hcons : from_utf8_lossy (String.utf8EncodeChar c ++ xs') = c :: from_utf8_lossy xs' :=
          decode_from_encodeChar c xs'
        rw [hcons, List.length_cons, List.length_cons]
        omega
    · rcases xs with _ | ⟨x, xs⟩
      · exact .inl ⟨[], c :: w, rfl, by rw [encode_cons, hc, List.nil_append]⟩
      rcases s with _ | ⟨y, s⟩
      · refine .inl ⟨[c], w, ?_, rfl⟩
        rw [encode_cons, hc, List.append_nil, encode_nil, List.append_nil]
      -- both parts have a piece of it, and every piece decodes to something
      refine .inr ?_
      obtain ⟨b, bs, hb, -, hbs⟩ := utf8EncodeChar_eq_cons c
      rw [hb, List.cons_append] at hc
      have htail : ∀ z ∈ y :: s, Continues z := fun z hz =>
        hbs z ((List.cons.inj hc).2 ▸ List.mem_append_right _ hz)
      have hpos : 0 < (from_utf8_lossy (x :: xs)).length :=
        List.length_pos_of_ne_nil fun hnil =>
          List.cons_ne_nil x xs ((from_utf8_lossy_eq_nil_iff _).mp hnil)
      rw [length_from_utf8_lossy_append htail, from_utf8_lossy_encode, List.length_cons,
        List.length_cons]
      omega

/-! ## ASCII characters -/

theorem toNat_ofNat_char {v : ℕ} (h : v < 0xD800 ∨ 0xDFFF < v ∧ v < 0x110000) :
    (Char.ofNat v).toNat = v := by
  unfold Char.ofNat
  rw [dif_pos h]
  rfl

/-- An ASCII character that a byte writes is the byte. -/
theorem of_mem_first {b : UInt8} {c : Char} (hc : c.toNat < 0x80) (h : c ∈ (first b).1) :
    b.toNat = c.toNat := by
  unfold first at h
  dsimp only at h
  split_ifs at h with hascii
  · rw [List.mem_singleton.mp h, toNat_ofNat_char (.inl (by omega))]
  all_goals first
    | exact absurd h List.not_mem_nil
    | (obtain rfl := List.mem_singleton.mp h
       exact absurd hc (by decide))

theorem of_mem_next {s : State} (hs : s.Waits) {b : UInt8} {c : Char} (hc : c.toNat < 0x80)
    (h : c ∈ (next s b).1) : b.toNat = c.toNat := by
  rcases s with _ | ⟨left, lo, hi, acc⟩
  · exact of_mem_first hc h
  · obtain ⟨-, -, hcompletes⟩ := hs
    unfold next at h
    dsimp only at h
    split_ifs at h with hb
    · cases left with
      | zero =>
        obtain ⟨hlarge, hvalid⟩ := hcompletes b.toNat hb.1 hb.2
        rw [List.mem_singleton.mp h, toNat_ofNat_char hvalid] at hc
        omega
      | succ left => exact absurd h List.not_mem_nil
    · rcases List.mem_cons.mp h with rfl | h
      · exact absurd hc (by decide)
      · exact of_mem_first hc h

theorem mem_of_mem_decode_from {c : Char} (hc : c.toNat < 0x80) :
    ∀ (bs : List UInt8) (s : State), s.Waits → c ∈ decode_from s bs → UInt8.ofNat c.toNat ∈ bs
  | [], .start, _, h => absurd h List.not_mem_nil
  | [], .more _ _ _ _, _, h => by
    obtain rfl := List.mem_singleton.mp h
    exact absurd hc (by decide)
  | b :: bs, s, hs, h => by
    rw [decode_from_cons, List.mem_append] at h
    rcases h with h | h
    · rw [← of_mem_next hs hc h, UInt8.ofNat_toNat]
      exact List.mem_cons_self
    · exact List.mem_cons_of_mem _ (mem_of_mem_decode_from hc bs _ (next_waits hs b) h)

/-- **An ASCII character** of what was decoded is one of the bytes. -/
theorem mem_of_mem_from_utf8_lossy {c : Char} (hc : c.toNat < 0x80)
    {bs : List UInt8} (h : c ∈ from_utf8_lossy bs) : UInt8.ofNat c.toNat ∈ bs :=
  mem_of_mem_decode_from hc bs .start trivial h

/-- **An ASCII byte** of a text is one of its characters. -/
theorem mem_of_mem_encode {b : UInt8} (hb : b.toNat < 0x80) {t : List Char} (h : b ∈ encode t) :
    Char.ofNat b.toNat ∈ t := by
  obtain ⟨c, hc, hbc⟩ := List.mem_flatMap.mp h
  have hvalue : b.toNat = c.toNat := by
    have hofNat (n : ℕ) : (UInt8.ofNat n).toNat = n % 256 := UInt8.toNat_ofNat'
    unfold String.utf8EncodeChar at hbc
    change b.toNat = c.val.toNat
    generalize c.val.toNat = v at hbc ⊢
    dsimp only at hbc
    split_ifs at hbc with h1 h2 h3 <;>
      simp only [List.mem_cons, List.not_mem_nil, or_false] at hbc
    · rw [hbc, hofNat]
      omega
    · rcases hbc with rfl | rfl <;> rw [hofNat] at hb <;> omega
    · rcases hbc with rfl | rfl | rfl <;> rw [hofNat] at hb <;> omega
    · rcases hbc with rfl | rfl | rfl | rfl <;> rw [hofNat] at hb <;> omega
  rw [hvalue, Char.ofNat_toNat]
  exact hc

theorem encodeChar_ascii {c : Char} (hc : c.toNat < 0x80) :
    String.utf8EncodeChar c = [UInt8.ofNat c.toNat] := by
  change c.val.toNat < 0x80 at hc
  unfold String.utf8EncodeChar
  dsimp only
  rw [if_pos (by omega)]
  rfl

/-- An ASCII character is a byte as often as it is a character. -/
theorem count_encode {c : Char} (hc : c.toNat < 0x80) (t : List Char) :
    (encode t).count (UInt8.ofNat c.toNat) = t.count c := by
  induction t with
  | nil => rfl
  | cons d t ih =>
    rw [encode_cons, List.count_append, ih, List.count_cons, Nat.add_comm]
    congr 1
    by_cases hd : d = c
    · rw [hd, encodeChar_ascii hc, List.count_singleton_self]
      simp
    · have hnot : UInt8.ofNat c.toNat ∉ String.utf8EncodeChar d := fun hmem => by
        have hbyte : (UInt8.ofNat c.toNat).toNat = c.toNat := toNat_ofNat (by omega)
        have hin := mem_of_mem_encode (t := [d]) (by rw [hbyte]; exact hc)
          (List.mem_append_left _ hmem)
        rw [hbyte, Char.ofNat_toNat] at hin
        exact hd (List.mem_singleton.mp hin).symm
      rw [List.count_eq_zero_of_not_mem hnot, if_neg (by simpa using hd)]

/-- **An ASCII text** is decoded from its own bytes only. -/
theorem from_utf8_lossy_eq_ascii_iff {t : List Char} (ht : ∀ c ∈ t, c.toNat < 0x80)
    {bs : List UInt8} : from_utf8_lossy bs = t ↔ bs = encode t := by
  refine ⟨fun h => ?_, fun h => by rw [h, from_utf8_lossy_encode]⟩
  induction t generalizing bs with
  | nil => exact (from_utf8_lossy_eq_nil_iff bs).mp h
  | cons c t ih =>
    obtain ⟨hc, ht⟩ := List.forall_mem_cons.mp ht
    have hmem : UInt8.ofNat c.toNat ∈ bs := mem_of_mem_from_utf8_lossy hc (by simp [h])
    obtain ⟨xs, ys, rfl, hfirst⟩ := List.eq_append_cons_of_mem hmem
    rw [from_utf8_lossy_append_ascii xs hc ys, Char.ofNat_toNat] at h
    have hxs : from_utf8_lossy xs = [] := by
      cases hfront : from_utf8_lossy xs with
      | nil => rfl
      | cons d front =>
        rw [hfront, List.cons_append] at h
        have hd : c ∈ from_utf8_lossy xs := by simp [hfront, (List.cons.inj h).1]
        exact absurd (mem_of_mem_from_utf8_lossy hc hd) hfirst
    rw [hxs] at h
    rw [(from_utf8_lossy_eq_nil_iff xs).mp hxs, ih ht (List.cons.inj h).2, encode_cons,
      encodeChar_ascii hc]
    rfl

theorem encode_injective {t u : List Char} (h : encode t = encode u) : t = u := by
  rw [← from_utf8_lossy_encode t, h, from_utf8_lossy_encode]

end Utf8
