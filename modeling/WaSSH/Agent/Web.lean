import WaSSH.Lib.Slice

/-!
# Redirect links

A result page of the search engine carries the address of a result as an escaped parameter of a
redirect.

* `percent_encode`: the escapes; `unwrap_ddg`: the address in a redirect;
* `percent_decode`, **`unwrap_loop_eq`**: what the loop over the bytes makes of them, and that it
  never panics;
* **`unwrap_ddg_iff`**: an address comes back exactly when it is ASCII, and a link comes back
  unchanged exactly when it has no marker.
-/

namespace WaSSH.Agent.Web

open Utf8

/-! ## Escapes -/

/-- A digit of `{:02X}`. -/
def upper_digit (n : ℕ) : Char := Char.ofNat (if n < 10 then 48 + n else 55 + n)

/-- The bytes that stay as they are. -/
def is_unreserved (byte : UInt8) : Bool :=
  let n := byte.toNat
  (65 ≤ n ∧ n ≤ 90) ∨ (97 ≤ n ∧ n ≤ 122) ∨ (48 ≤ n ∧ n ≤ 57) ∨ n = 45 ∨ n = 95 ∨ n = 46 ∨ n = 126

/-- `byte as char`. -/
def as_char (byte : UInt8) : Char := Char.ofNat byte.toNat

/-- One byte of a query string. -/
def percent_encode_byte (byte : UInt8) : List Char :=
  if is_unreserved byte then [as_char byte]
  else if byte = 32 then ['%', '2', '0']
  else ['%', upper_digit (byte.toNat / 16), upper_digit (byte.toNat % 16)]

/-- Percent-encode the handful of characters a query string needs. -/
def percent_encode (query : List Char) (_limit : ℕ) : List Char :=
  (encode query).flatMap percent_encode_byte

/-- `char::to_digit(16)`. -/
def to_digit (c : Char) : Option ℕ :=
  let n := c.toNat
  if 48 ≤ n ∧ n ≤ 57 then some (n - 48)
  else if 65 ≤ n ∧ n ≤ 70 then some (n - 55)
  else if 97 ≤ n ∧ n ≤ 102 then some (n - 87)
  else none

/-- `u8::from_str_radix(text, 16)`: an optional `+`, then digits, below 256. -/
def from_str_radix (text : List Char) : Option UInt8 :=
  let digits := match text with
    | '+' :: rest => rest
    | text => text
  if digits = [] then none
  else
    match digits.foldlM (fun n c => (to_digit c).map (16 * n + ·)) 0 with
    | some n => if n < 256 then some (UInt8.ofNat n) else none
    | none => none

def PERCENT : UInt8 := 37

/-- What follows a `%`, read as a number. -/
def escape_value (pair : List UInt8) : Option UInt8 := from_str_radix ((from_utf8 pair).getD [])

/-! ## Redirects -/

/-- The parameter of a redirect. -/
def MARKER : List Char := ['u', 'd', 'd', 'g', '=']

/-- The loop over the bytes of the parameter. -/
def unwrap_loop (bytes : List UInt8) (i : ℕ) (decoded : List Char) : Option (List Char) :=
  if h : i < bytes.length then
    if bytes[i] = PERCENT ∧ i + 2 < bytes.length then
      match Slice.range bytes (i + 1) (i + 3) with
      | none => none
      | some pair =>
        match escape_value pair with
        | some value => unwrap_loop bytes (i + 3) (decoded ++ [as_char value])
        | none => unwrap_loop bytes (i + 1) (decoded ++ [as_char bytes[i]])
    else unwrap_loop bytes (i + 1) (decoded ++ [as_char bytes[i]])
  else some decoded
termination_by bytes.length - i

/-- Decode the `uddg=` redirect DuckDuckGo returns in its HTML results; nothing where it panics. -/
def unwrap_ddg (url : List Char) : Option (List Char) :=
  match Slice.find MARKER url with
  | none => some url
  | some index =>
    match Slice.text_from url (index + 5) with
    | none => none
    | some rest => unwrap_loop (encode (rest.takeWhile (· ≠ '&'))) 0 []

/-! ## The loop -/

/-- The bytes with their escapes read, each as a character. -/
def percent_decode : List UInt8 → List Char
  | byte :: high :: low :: rest =>
    if byte = PERCENT then
      match escape_value [high, low] with
      | some value => as_char value :: percent_decode rest
      | none => as_char byte :: percent_decode (high :: low :: rest)
    else as_char byte :: percent_decode (high :: low :: rest)
  | byte :: rest => as_char byte :: percent_decode rest
  | [] => []

/-- One round: the byte at the offset, and the two after it if it is a `%`. -/
theorem unwrap_loop_cons (before : List UInt8) (byte : UInt8) (after : List UInt8)
    (decoded : List Char) :
    unwrap_loop (before ++ byte :: after) before.length decoded =
      match if byte = PERCENT ∧ 2 ≤ after.length then escape_value (after.take 2) else none with
      | some value =>
        unwrap_loop (before ++ byte :: after) (before.length + 3) (decoded ++ [as_char value])
      | none =>
        unwrap_loop (before ++ byte :: after) (before.length + 1) (decoded ++ [as_char byte]) := by
  have hlen : (before ++ byte :: after).length = before.length + 1 + after.length := by
    rw [List.length_append, List.length_cons]
    omega
  have hin : before.length < (before ++ byte :: after).length := by omega
  have hbyte : (before ++ byte :: after)[before.length] = byte := by simp
  have hdrop : (before ++ byte :: after).drop (before.length + 1) = after := by
    rw [← List.drop_drop, List.drop_left]
    rfl
  have hmore : before.length + 2 < (before ++ byte :: after).length ↔ 2 ≤ after.length := by omega
  rw [unwrap_loop, dif_pos hin, hbyte]
  simp only [hmore]
  by_cases hescape : byte = PERCENT ∧ 2 ≤ after.length
  · have hpair : Slice.range (before ++ byte :: after) (before.length + 1) (before.length + 3) =
        some (after.take 2) := by
      rw [Slice.range, if_pos (by omega), hdrop, Nat.add_sub_add_left]
    rw [if_pos hescape, if_pos hescape, hpair]
  · rw [if_neg hescape, if_neg hescape]

/-- **The loop never panics**, and decodes what it has not read yet. -/
theorem unwrap_loop_eq (before after : List UInt8) (decoded : List Char) :
    unwrap_loop (before ++ after) before.length decoded =
      some (decoded ++ percent_decode after) := by
  have hone : ∀ byte (rest : List UInt8) (before : List UInt8) (decoded : List Char),
      (∀ before decoded, unwrap_loop (before ++ rest) before.length decoded =
        some (decoded ++ percent_decode rest)) →
      unwrap_loop (before ++ byte :: rest) (before.length + 1) (decoded ++ [as_char byte]) =
        some (decoded ++ as_char byte :: percent_decode rest) := by
    intro byte rest before decoded ih
    have hnext := ih (before ++ [byte]) (decoded ++ [as_char byte])
    simpa only [List.append_assoc, List.singleton_append, List.length_append, List.length_singleton]
      using hnext
  fun_induction percent_decode after generalizing before decoded with
  | case1 high low rest value hvalue ih =>
    have hnext := ih (before ++ [PERCENT, high, low]) (decoded ++ [as_char value])
    have hpair : escape_value ((high :: low :: rest).take 2) = some value := hvalue
    rw [unwrap_loop_cons, if_pos ⟨rfl, by simp⟩, hpair]
    simpa only [List.append_assoc, List.cons_append, List.nil_append, List.length_append,
      List.length_cons, List.length_nil] using hnext
  | case2 high low rest hvalue ih =>
    have hpair : escape_value ((high :: low :: rest).take 2) = none := hvalue
    rw [unwrap_loop_cons, if_pos ⟨rfl, by simp⟩, hpair]
    exact hone _ _ before decoded ih
  | case3 byte high low rest hbyte ih =>
    rw [unwrap_loop_cons, if_neg fun h => hbyte h.1]
    exact hone _ _ before decoded ih
  | case4 byte rest hshort ih =>
    have htwo : ¬ 2 ≤ rest.length := fun hlen => by
      obtain ⟨high, low, more, rfl⟩ : ∃ high low more, rest = high :: low :: more := by
        match rest, hlen with
        | high :: low :: more, _ => exact ⟨high, low, more, rfl⟩
      exact hshort high low more rfl
    rw [unwrap_loop_cons, if_neg fun h => htwo h.2]
    exact hone _ _ before decoded ih
  | case5 =>
    rw [unwrap_loop, dif_neg (by simp)]
    simp

/-- What a link with a marker stands for. -/
theorem unwrap_ddg_of_find {url before after : List Char} (hurl : url = before ++ MARKER ++ after)
    (h : Slice.find MARKER url = some (encode before).length) :
    unwrap_ddg url = some (percent_decode (encode (after.takeWhile (· ≠ '&')))) := by
  have hoffset : (encode before).length + 5 = (encode (before ++ MARKER)).length := by
    rw [encode_append, List.length_append]
    rfl
  unfold unwrap_ddg
  rw [h]
  simp only [hoffset]
  rw [hurl, Slice.text_from_append]
  exact unwrap_loop_eq [] _ []

/-! ## What is decoded -/

theorem percent_decode_cons_of_ne {byte : UInt8} (h : byte ≠ PERCENT) (rest : List UInt8) :
    percent_decode (byte :: rest) = as_char byte :: percent_decode rest := by
  match rest with
  | [] => rfl
  | [_] => rfl
  | _ :: _ :: _ => rw [percent_decode, if_neg h]

theorem percent_decode_escape {high low value : UInt8}
    (h : escape_value [high, low] = some value) (rest : List UInt8) :
    percent_decode (PERCENT :: high :: low :: rest) = as_char value :: percent_decode rest := by
  rw [percent_decode, if_pos rfl, h]

theorem encode_as_char {byte : UInt8} (h : byte.toNat < 128) : encode [as_char byte] = [byte] := by
  have hchar : (as_char byte).toNat = byte.toNat := toNat_ofNat_char (by omega)
  rw [encode_cons, encodeChar_ascii (by omega), hchar, UInt8.ofNat_toNat]
  rfl

theorem escape_value_encode (text : List Char) :
    escape_value (encode text) = from_str_radix text := by
  rw [escape_value, from_utf8_eq_some_iff.mpr rfl]
  rfl

theorem to_digit_upper_digit : ∀ n < 16, to_digit (upper_digit n) = some n := by decide

theorem upper_digit_ne_plus : ∀ n < 16, upper_digit n ≠ '+' := by decide

theorem upper_digit_lt : ∀ n < 16, (upper_digit n).toNat < 128 := by decide

theorem from_str_radix_upper (byte : UInt8) :
    from_str_radix [upper_digit (byte.toNat / 16), upper_digit (byte.toNat % 16)] = some byte := by
  have hlt := byte.toNat_lt
  have hhigh := to_digit_upper_digit (byte.toNat / 16) (by omega)
  have hlow := to_digit_upper_digit (byte.toNat % 16) (by omega)
  have hvalue : 16 * (byte.toNat / 16) + byte.toNat % 16 = byte.toNat := by omega
  unfold from_str_radix
  split
  · next digits hplus =>
    exact absurd (List.cons.inj hplus).1 (upper_digit_ne_plus (byte.toNat / 16) (by omega))
  · simp [hhigh, hlow, hvalue, hlt]

/-- **An escaped byte is read back**, whatever follows it. -/
theorem percent_decode_encode_byte (byte : UInt8) (rest : List UInt8) :
    percent_decode (encode (percent_encode_byte byte) ++ rest) =
      as_char byte :: percent_decode rest := by
  have hlt := byte.toNat_lt
  unfold percent_encode_byte
  by_cases hplain : is_unreserved byte
  · have hascii : byte.toNat < 128 ∧ byte ≠ PERCENT := by
      unfold is_unreserved at hplain
      simp only [decide_eq_true_eq, Bool.decide_or, Bool.or_eq_true] at hplain
      exact ⟨by omega, fun heq => by rw [heq] at hplain; revert hplain; decide⟩
    rw [if_pos hplain, encode_as_char hascii.1]
    exact percent_decode_cons_of_ne hascii.2 rest
  rw [if_neg hplain]
  by_cases hspace : byte = 32
  · rw [if_pos hspace, hspace]
    have hvalue : escape_value [50, 48] = some 32 := escape_value_encode ['2', '0']
    exact percent_decode_escape hvalue rest
  · rw [if_neg hspace]
    have hbytes : ∀ a b : Char, a.toNat < 128 → b.toNat < 128 →
        encode ['%', a, b] = PERCENT :: encode [a, b] ∧
          encode [a, b] = [UInt8.ofNat a.toNat, UInt8.ofNat b.toNat] := by
      intro a b ha hb
      refine ⟨rfl, ?_⟩
      rw [encode_cons, encode_cons, encodeChar_ascii ha, encodeChar_ascii hb]
      rfl
    obtain ⟨hhead, hpair⟩ := hbytes _ _ (upper_digit_lt (byte.toNat / 16) (by omega))
      (upper_digit_lt (byte.toNat % 16) (by omega))
    have hvalue := escape_value_encode
      [upper_digit (byte.toNat / 16), upper_digit (byte.toNat % 16)]
    rw [from_str_radix_upper, hpair] at hvalue
    rw [hhead, hpair]
    exact percent_decode_escape hvalue rest

/-- **What was escaped** comes back byte by byte. -/
theorem percent_decode_encode (query : List Char) (limit : ℕ) :
    percent_decode (encode (percent_encode query limit)) = (encode query).map as_char := by
  unfold percent_encode
  induction encode query with
  | nil => rfl
  | cons byte bytes ih =>
    rw [List.flatMap_cons, encode_append, percent_decode_encode_byte, ih, List.map_cons]

theorem length_le_length_encode (text : List Char) : text.length ≤ (encode text).length := by
  induction text with
  | nil => exact le_refl _
  | cons c text ih =>
    have hpos := c.utf8Size_pos
    rw [Slice.length_encode_cons, List.length_cons]
    omega

theorem ascii_of_length_encode {text : List Char} (h : (encode text).length = text.length) :
    ∀ c ∈ text, c.toNat < 128 := by
  induction text with
  | nil => exact fun c hc => absurd hc List.not_mem_nil
  | cons c text ih =>
    have hpos := c.utf8Size_pos
    have hle := length_le_length_encode text
    rw [Slice.length_encode_cons, List.length_cons] at h
    refine List.forall_mem_cons.mpr ⟨?_, ih (by omega)⟩
    have hone : c.val ≤ 127 := Char.utf8Size_eq_one_iff.mp (by omega)
    have hval : c.toNat ≤ 127 := hone
    omega

/-- The bytes of a text are its characters exactly when it is ASCII. -/
theorem map_as_char_iff (text : List Char) :
    (encode text).map as_char = text ↔ ∀ c ∈ text, c.toNat < 128 := by
  constructor
  · intro h
    have hlen := congrArg List.length h
    rw [List.length_map] at hlen
    exact ascii_of_length_encode hlen
  · intro h
    induction text with
    | nil => rfl
    | cons c text ih =>
      obtain ⟨hc, htext⟩ := List.forall_mem_cons.mp h
      have hchar : as_char (UInt8.ofNat c.toNat) = c := by
        unfold as_char
        rw [toNat_ofNat (by omega), Char.ofNat_toNat]
      rw [encode_cons, encodeChar_ascii hc, List.map_append, ih htext, List.map_singleton, hchar]
      rfl

/-! ## ASCII characters -/

/-- How many characters are ASCII. -/
def ascii (text : List Char) : ℕ := text.countP (·.toNat < 128)

theorem ascii_append (s t : List Char) : ascii (s ++ t) = ascii s + ascii t := List.countP_append

theorem ascii_encode (text : List Char) :
    (encode text).countP (·.toNat < 128) = ascii text := by
  induction text with
  | nil => rfl
  | cons c text ih =>
    have hcons : ascii (c :: text) = ascii text + if c.toNat < 128 then 1 else 0 := by
      simp [ascii, List.countP_cons]
    rw [encode_cons, List.countP_append, ih, hcons, Nat.add_comm]
    congr 1
    by_cases hc : c.toNat < 128
    · rw [encodeChar_ascii hc, List.countP_singleton]
      have hbyte : (UInt8.ofNat c.toNat).toNat = c.toNat := toNat_ofNat (by omega)
      simp [hbyte]
    · rw [List.countP_eq_zero.mpr, if_neg hc]
      intro byte hbyte hsmall
      rw [decide_eq_true_eq] at hsmall
      have hin : byte ∈ encode [c] := by simpa using hbyte
      have hmem := mem_of_mem_encode hsmall hin
      have hchar : c.toNat = byte.toNat := by
        rw [← List.mem_singleton.mp hmem, toNat_ofNat_char (by omega)]
      omega

theorem as_char_lt_iff (byte : UInt8) : (as_char byte).toNat < 128 ↔ byte.toNat < 128 := by
  have hlt := byte.toNat_lt
  have hchar : (as_char byte).toNat = byte.toNat := toNat_ofNat_char (by omega)
  rw [hchar]

/-- Reading escapes makes no ASCII characters. -/
theorem ascii_percent_decode_le (bytes : List UInt8) :
    ascii (percent_decode bytes) ≤ bytes.countP (·.toNat < 128) := by
  unfold ascii
  fun_induction percent_decode bytes with
  | case1 high low rest value hvalue ih =>
    simp only [List.countP_cons]
    have hpercent : decide (PERCENT.toNat < 128) = true := by decide
    rw [if_pos hpercent]
    split_ifs <;> omega
  | case2 high low rest hvalue ih =>
    rw [List.countP_cons, List.countP_cons (a := PERCENT)]
    simp only [as_char_lt_iff]
    omega
  | case3 byte high low rest hbyte ih =>
    rw [List.countP_cons, List.countP_cons (a := byte)]
    simp only [as_char_lt_iff]
    omega
  | case4 byte rest hshort ih =>
    rw [List.countP_cons, List.countP_cons]
    simp only [as_char_lt_iff]
    omega
  | case5 => exact le_refl _

/-! ## Redirects and other links -/

/-- A redirect to `url`, as a result page carries it: a link without a marker, the marker, the
escaped address, and further parameters, if any. -/
def redirect (link url params : List Char) (limit : ℕ) : List Char :=
  link ++ MARKER ++ (percent_encode url limit ++ params)

/-- The parameters that follow one. -/
def IsParams (params : List Char) : Prop := params = [] ∨ ∃ rest, params = '&' :: rest

/-- No marker begins in front of the first one and reaches into it. -/
theorem not_prefix_marker {first second rest : List Char} (h : ¬ MARKER <:+: first ++ second)
    (hne : second ≠ []) : ¬ MARKER <+: second ++ MARKER ++ rest := by
  intro hbegins
  match second, hne with
  | [_], _ => simp [MARKER] at hbegins
  | [_, _], _ => simp [MARKER] at hbegins
  | [_, _, _], _ => simp [MARKER] at hbegins
  | [_, _, _, _], _ => simp [MARKER] at hbegins
  | a :: b :: c :: d :: e :: more, _ =>
    refine h ?_
    have hfive : MARKER <+: a :: b :: c :: d :: e :: more := by
      simp only [List.cons_append, MARKER, List.cons_prefix_cons] at hbegins ⊢
      simpa using hbegins
    exact hfive.isInfix.trans (List.suffix_append _ _).isInfix

theorem upper_digit_ne_amp : ∀ n < 16, upper_digit n ≠ '&' := by decide

/-- Nothing escaped has a `&` in it. -/
theorem amp_not_mem_percent_encode (query : List Char) (limit : ℕ) :
    ∀ c ∈ percent_encode query limit, c ≠ '&' := by
  intro c hc
  obtain ⟨byte, -, hbyte⟩ := List.mem_flatMap.mp hc
  have hlt := byte.toNat_lt
  unfold percent_encode_byte at hbyte
  split_ifs at hbyte with hplain hspace
  · rintro rfl
    have hamp : byte.toNat = 38 := by
      have hchar : (as_char byte).toNat = byte.toNat := toNat_ofNat_char (by omega)
      rw [← hchar, ← List.mem_singleton.mp hbyte]
      rfl
    unfold is_unreserved at hplain
    simp [hamp] at hplain
  · rintro rfl
    exact absurd hbyte (by decide)
  · simp only [List.mem_cons, List.not_mem_nil, or_false] at hbyte
    rcases hbyte with rfl | rfl | rfl
    · decide
    · exact upper_digit_ne_amp _ (by omega)
    · exact upper_digit_ne_amp _ (by omega)

/-- **A redirect** stands for the bytes of its address, each as a character. -/
theorem unwrap_ddg_redirect {link params : List Char} (hlink : ¬ MARKER <:+: link)
    (hparams : IsParams params) (url : List Char) (limit : ℕ) :
    unwrap_ddg (redirect link url params limit) = some ((encode url).map as_char) := by
  have hfind : Slice.find MARKER (redirect link url params limit) = some (encode link).length :=
    Slice.find_append fun first second hsplit hne => not_prefix_marker (hsplit ▸ hlink) hne
  have hvalue : (percent_encode url limit ++ params).takeWhile (· ≠ '&') =
      percent_encode url limit := by
    rw [List.takeWhile_append_of_pos fun c hc => decide_eq_true
      (amp_not_mem_percent_encode url limit c hc)]
    obtain rfl | ⟨rest, rfl⟩ := hparams
    · rw [List.takeWhile_nil, List.append_nil]
    · rw [List.takeWhile_cons_of_neg (by simp), List.append_nil]
  have h := unwrap_ddg_of_find rfl hfind
  rw [hvalue, percent_decode_encode] at h
  exact h

/-- A link without a marker is returned as it is, one with a marker never is. -/
theorem unwrap_ddg_unchanged_iff (url : List Char) :
    unwrap_ddg url = some url ↔ ¬ MARKER <:+: url := by
  rw [← Slice.find_eq_none_iff]
  cases hfind : Slice.find MARKER url with
  | none => simp [unwrap_ddg, hfind]
  | some index =>
    refine iff_of_false (fun h => ?_) (fun h => nomatch h)
    obtain ⟨before, after, hurl, rfl, -⟩ := Slice.find_cases hfind
    rw [unwrap_ddg_of_find hurl hfind] at h
    -- the link has the five characters of its marker more than can come out
    have hle := ascii_percent_decode_le (encode (after.takeWhile (· ≠ '&')))
    have hvalue : ascii (after.takeWhile (· ≠ '&')) ≤ ascii after :=
      (List.takeWhile_sublist _).countP_le
    have hmarker : ascii MARKER = 5 := by decide
    rw [Option.some.inj h, ascii_encode, hurl, ascii_append, ascii_append, hmarker] at hle
    omega

theorem unwrap_ddg_ne_none (url : List Char) : unwrap_ddg url ≠ none := by
  cases hfind : Slice.find MARKER url with
  | none => simp [unwrap_ddg, hfind]
  | some index =>
    obtain ⟨before, after, hurl, rfl, -⟩ := Slice.find_cases hfind
    rw [unwrap_ddg_of_find hurl hfind]
    exact Option.some_ne_none _

/-- **Redirects are unwrapped** exactly when the address is ASCII; any other link comes back
unchanged exactly when it has no marker; and nothing panics. -/
theorem unwrap_ddg_iff (url : List Char) :
    (∀ link params limit, ¬ MARKER <:+: link → IsParams params →
      (unwrap_ddg (redirect link url params limit) = some url ↔ ∀ c ∈ url, c.toNat < 128)) ∧
    (unwrap_ddg url = some url ↔ ¬ MARKER <:+: url) ∧ unwrap_ddg url ≠ none := by
  refine ⟨fun link params limit hlink hparams => ?_, unwrap_ddg_unchanged_iff url,
    unwrap_ddg_ne_none url⟩
  rw [unwrap_ddg_redirect hlink hparams, Option.some.injEq, map_as_char_iff]

/-- A redirect to a path with a space and a parameter. -/
theorem unwrap_ddg_iff_plain :
    unwrap_ddg (redirect ['/', 'l', '/', '?'] ['a', ' ', '&', 'b'] ['&', 'x'] 5) =
      some ['a', ' ', '&', 'b'] := by
  have hascii : (['a', ' ', '&', 'b'].all fun c => decide (c.toNat < 128)) = true := by decide
  refine ((unwrap_ddg_iff _).1 _ _ _ (by rw [← Text.contains_iff]; decide)
    (.inr ⟨_, rfl⟩)).mpr ?_
  exact fun c hc => of_decide_eq_true (List.all_eq_true.mp hascii c hc)

/-- An address with a letter outside ASCII comes back as two other letters. -/
theorem redirect_is_read_byte_by_byte :
    unwrap_ddg (redirect ['/', 'l', '/', '?'] ['é'] [] 5) = some ['Ã', '©'] ∧
      unwrap_ddg (redirect ['/', 'l', '/', '?'] ['é'] [] 5) ≠ some ['é'] := by
  have hlink : ¬ MARKER <:+: ['/', 'l', '/', '?'] := by
    rw [← Text.contains_iff]
    decide
  have h := unwrap_ddg_redirect hlink (.inl rfl) ['é'] 5
  have hbytes : (encode ['é']).map as_char = ['Ã', '©'] := by decide
  rw [h, hbytes]
  exact ⟨rfl, by decide⟩

end WaSSH.Agent.Web
