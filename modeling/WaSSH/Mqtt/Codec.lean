import Mathlib.Data.Nat.Bitwise
import Mathlib.Tactic.Ring
import WaSSH.Lib.Utf8

/-!
# MQTT packets

The packets a client exchanges with a broker, encoded and decoded.

* `encode_remaining_length`, `decode_remaining_length`, `frame`, `encode_publish_with`, `decode`;
* `LengthField`, `lengthField_encode`: what a remaining-length field says;
* **`decode_field`**, `decode_frame`: a length field is followed by the body it announces;
* `decode_append`: a packet or an error does not change when more bytes arrive.
-/

namespace WaSSH.Mqtt

open Utf8

/-- A packet the client understands. -/
inductive Packet
  | conn_ack (session_present : Bool) (code : UInt8)
  | publish (topic : List Char) (payload : List UInt8) (qos : UInt8) (retain : Bool)
      (packet_id : UInt16)
  | sub_ack (packet_id : UInt16)
  | ping_resp
  /-- Any packet the analyser does not look at. -/
  | other (kind : UInt8)
  deriving DecidableEq

/-! ## Encoding -/

/-- `u16::to_be_bytes`. -/
def to_be_bytes (n : UInt16) : List UInt8 := [UInt8.ofNat (n.toNat / 256), UInt8.ofNat n.toNat]

/-- `u16::from_be_bytes`. -/
def from_be_bytes (high low : UInt8) : UInt16 := UInt16.ofNat (high.toNat * 256 + low.toNat)

/-- A UTF-8 string with its two-byte length prefix, truncated rather than a bad packet. -/
def put_string (text : List Char) : List UInt8 :=
  let bytes := encode text
  let length := min bytes.length 65535
  to_be_bytes (UInt16.ofNat length) ++ bytes.take length

/-- Encode the MQTT remaining-length field. -/
def encode_remaining_length (length : ℕ) : List UInt8 :=
  let byte := UInt8.ofNat (length % 128)
  if 0 < length / 128 then (byte ||| 0x80) :: encode_remaining_length (length / 128) else [byte]
termination_by length
decreasing_by omega

/-- The loop over the bytes of a remaining-length field. -/
def read_length (value multiplier index : ℕ) : List UInt8 → Option (ℕ × ℕ)
  | [] => none
  | byte :: bytes =>
    let value := value + (byte &&& 0x7F).toNat * multiplier
    if byte &&& 0x80 = 0 then some (value, index + 1)
    else read_length value (multiplier * 128) (index + 1) bytes

/-- Read the MQTT remaining-length field, returning the value and how many bytes it used. -/
def decode_remaining_length (bytes : List UInt8) : Option (ℕ × ℕ) :=
  read_length 0 1 0 (bytes.take 4)

/-- Wrap `body` in a fixed header. -/
def frame (header : UInt8) (body : List UInt8) : List UInt8 :=
  header :: (encode_remaining_length body.length ++ body)

/-- Build a PUBLISH with the QoS and retain flag the user chose. -/
def encode_publish_with (topic : List Char) (payload : List UInt8) (qos : UInt8) (retain : Bool)
    (packet_id : UInt16) : List UInt8 :=
  let body := put_string topic ++ (if 0 < qos then to_be_bytes packet_id else []) ++ payload
  frame ((0x30 : UInt8) ||| ((qos &&& 0x03) <<< 1) ||| (if retain then 1 else 0)) body

/-- Build the PUBACK for a QoS 1 message we accepted. -/
def encode_puback (packet_id : UInt16) : List UInt8 := frame 0x40 (to_be_bytes packet_id)

/-! ## Decoding -/

/-- Read a length-prefixed string, returning it and the rest of the buffer. -/
def read_string (bytes : List UInt8) : Except String (List Char × List UInt8) :=
  match bytes with
  | high :: low :: after =>
    let length := (from_be_bytes high low).toNat
    if after.length < length then .error "truncated string"
    else .ok (from_utf8_lossy (after.take length), after.drop length)
  | _ => .error "truncated string length"

/-- The packet a whole body stands for. -/
def decode_body (kind flags : UInt8) (body : List UInt8) : Except String Packet :=
  if kind = 2 then
    match body with
    | present :: code :: _ => .ok (.conn_ack (present &&& 0x01 = 1) code)
    | _ => .error "truncated CONNACK"
  else if kind = 3 then
    let qos := (flags >>> 1) &&& 0x03
    let retain : Bool := flags &&& 0x01 = 1
    match read_string body with
    | .error error => .error error
    | .ok (topic, rest) =>
      if 0 < qos then
        match rest with
        | high :: low :: payload =>
          .ok (.publish topic payload qos retain (from_be_bytes high low))
        | _ => .error "truncated publish id"
      else .ok (.publish topic rest qos retain 0)
  else if kind = 4 then
    if body.length < 2 then .error "truncated PUBACK" else .ok (.other 4)
  else if kind = 9 then
    match body with
    | high :: low :: _ => .ok (.sub_ack (from_be_bytes high low))
    | _ => .error "truncated SUBACK"
  else if kind = 13 then .ok .ping_resp
  else .ok (.other kind)

/-- Decode one packet from `buffer`; nothing while it does not hold a whole packet. -/
def decode (buffer : List UInt8) : Except String (Option (Packet × ℕ)) :=
  match buffer with
  | header :: first :: rest =>
    match decode_remaining_length (first :: rest) with
    | none => .ok none
    | some (length, length_bytes) =>
      let header_len := 1 + length_bytes
      if buffer.length < header_len + length then .ok none
      else
        let body := (buffer.drop header_len).take length
        match decode_body (header >>> 4) (header &&& 0x0F) body with
        | .error error => .error error
        | .ok packet => .ok (some (packet, header_len + length))
  | _ => .ok none

/-! ## Numbers and strings -/

theorem from_be_bytes_to_be_bytes (n : UInt16) :
    from_be_bytes (UInt8.ofNat (n.toNat / 256)) (UInt8.ofNat n.toNat) = n := by
  have hn := n.toNat_lt
  apply UInt16.toNat_inj.mp
  simp only [from_be_bytes, UInt16.toNat_ofNat', UInt8.toNat_ofNat']
  omega

theorem read_string_put_string {text : List Char} (h : (encode text).length ≤ 65535)
    (rest : List UInt8) : read_string (put_string text ++ rest) = .ok (text, rest) := by
  have hmin : min (encode text).length 65535 = (encode text).length := Nat.min_eq_left h
  have hlen : (UInt16.ofNat (encode text).length).toNat = (encode text).length := by
    rw [UInt16.toNat_ofNat']
    omega
  have hbytes := from_be_bytes_to_be_bytes (UInt16.ofNat (encode text).length)
  rw [hlen] at hbytes
  simp only [put_string, hmin, List.take_length, to_be_bytes, List.cons_append, List.nil_append,
    read_string, hlen, hbytes]
  rw [if_neg (by simp), List.take_left, List.drop_left, from_utf8_lossy_encode]

/-! ## The length field -/

/-- A remaining-length field and its value: seven bits a byte, the lowest first. -/
inductive LengthField : List UInt8 → ℕ → Prop
  | last {b : UInt8} : b.toNat < 128 → LengthField [b] b.toNat
  | more {b : UInt8} {bs : List UInt8} {n : ℕ} : 128 ≤ b.toNat → LengthField bs n →
    LengthField (b :: bs) (b.toNat - 128 + 128 * n)

theorem and_continuation (b : UInt8) : b &&& 0x80 = 0 ↔ b.toNat < 128 := by
  have hb := b.toNat_lt
  have hand : (b &&& 0x80).toNat = (b.toNat.testBit 7).toNat * 2 ^ 7 := by
    rw [UInt8.toNat_and]
    exact Nat.and_two_pow b.toNat 7
  have hbit : b.toNat.testBit 7 = decide (128 ≤ b.toNat) := by
    rw [Nat.testBit_eq_decide_div_mod_eq]
    congr 1
    apply propext
    omega
  rw [← UInt8.toNat_inj, hand, hbit]
  by_cases h : 128 ≤ b.toNat
  · simp [h]
  · simp only [h]
    exact iff_of_true rfl (by omega)

theorem and_value (b : UInt8) : (b &&& 0x7F).toNat = b.toNat % 128 := by
  rw [UInt8.toNat_and]
  exact Nat.and_two_pow_sub_one_eq_mod b.toNat 7

theorem or_continuation {n : ℕ} (h : n < 128) : (UInt8.ofNat n ||| 0x80).toNat = n + 128 := by
  have hor := Nat.two_pow_add_eq_or_of_lt (i := 7) h 1
  rw [UInt8.toNat_or, toNat_ofNat (by omega), Nat.or_comm]
  rw [Nat.mul_one] at hor
  exact hor.symm.trans (Nat.add_comm _ _)

theorem encode_remaining_length_of_lt {n : ℕ} (h : n < 128) :
    encode_remaining_length n = [UInt8.ofNat n] := by
  rw [encode_remaining_length, if_neg (by omega), Nat.mod_eq_of_lt h]

theorem encode_remaining_length_of_ge {n : ℕ} (h : 128 ≤ n) :
    encode_remaining_length n =
      (UInt8.ofNat (n % 128) ||| 0x80) :: encode_remaining_length (n / 128) := by
  rw [encode_remaining_length, if_pos (by omega)]

theorem length_encode_remaining_length {k n : ℕ} (h : n < 128 ^ (k + 1)) :
    (encode_remaining_length n).length ≤ k + 1 := by
  induction k generalizing n with
  | zero =>
    rw [encode_remaining_length_of_lt (by omega)]
    exact le_refl _
  | succ k ih =>
    by_cases hn : n < 128
    · rw [encode_remaining_length_of_lt hn]
      simp
    · rw [encode_remaining_length_of_ge (by omega), List.length_cons]
      have hdiv : n / 128 < 128 ^ (k + 1) := by
        rw [Nat.div_lt_iff_lt_mul (by omega), ← Nat.pow_succ]
        exact h
      have := ih hdiv
      omega

theorem lengthField_encode (n : ℕ) : LengthField (encode_remaining_length n) n := by
  induction n using Nat.strong_induction_on with
  | _ n ih =>
    by_cases hn : n < 128
    · rw [encode_remaining_length_of_lt hn]
      have hlast : (UInt8.ofNat n).toNat = n := toNat_ofNat (by omega)
      have := LengthField.last (b := UInt8.ofNat n) (by rw [hlast]; exact hn)
      rwa [hlast] at this
    · have hmore := or_continuation (Nat.mod_lt n (by omega : 128 > 0))
      have := LengthField.more (b := UInt8.ofNat (n % 128) ||| 0x80) (by omega)
        (ih (n / 128) (by omega))
      rw [hmore, Nat.add_sub_cancel, Nat.mod_add_div] at this
      rwa [encode_remaining_length_of_ge (by omega)]

theorem LengthField.ne_nil {field : List UInt8} {n : ℕ} (h : LengthField field n) : field ≠ [] := by
  cases h <;> exact List.cons_ne_nil _ _

theorem read_length_field {field : List UInt8} {n : ℕ} (h : LengthField field n)
    (value multiplier index : ℕ) :
    read_length value multiplier index field =
      some (value + n * multiplier, index + field.length) := by
  induction h generalizing value multiplier index with
  | @last b hb =>
    rw [read_length, if_pos ((and_continuation b).mpr hb), and_value, Nat.mod_eq_of_lt hb]
    rfl
  | @more b bs n hb _ ih =>
    have hlt := b.toNat_lt
    have hvalue : (b &&& 0x7F).toNat = b.toNat - 128 := by
      rw [and_value]
      omega
    rw [read_length, if_neg (by rw [and_continuation]; omega), ih, hvalue, List.length_cons]
    simp only [Option.some.injEq, Prod.mk.injEq]
    exact ⟨by ring, by omega⟩

theorem read_length_more {bytes : List UInt8} (h : ∀ b ∈ bytes, 128 ≤ b.toNat)
    (value multiplier index : ℕ) : read_length value multiplier index bytes = none := by
  induction bytes generalizing value multiplier index with
  | nil => rfl
  | cons b bs ih =>
    obtain ⟨hb, hbs⟩ := List.forall_mem_cons.mp h
    rw [read_length, if_neg (by rw [and_continuation]; omega), ih hbs]

theorem read_length_append {bytes : List UInt8} {value multiplier index : ℕ} {r : ℕ × ℕ}
    (h : read_length value multiplier index bytes = some r) (more : List UInt8) :
    read_length value multiplier index (bytes ++ more) = some r := by
  induction bytes generalizing value multiplier index with
  | nil => cases h
  | cons byte bytes ih =>
    rw [read_length] at h
    rw [List.cons_append, read_length]
    split at h
    · next hlast => rw [if_pos hlast, h]
    · next hmore => rw [if_neg hmore, ih h]

theorem decode_remaining_length_append {bytes : List UInt8} {r : ℕ × ℕ}
    (h : decode_remaining_length bytes = some r) (more : List UInt8) :
    decode_remaining_length (bytes ++ more) = some r := by
  rw [decode_remaining_length, List.take_append]
  exact read_length_append h _

theorem decode_remaining_length_field {field : List UInt8} {n : ℕ} (h : LengthField field n)
    (hlen : field.length ≤ 4) (rest : List UInt8) :
    decode_remaining_length (field ++ rest) = some (n, field.length) := by
  rw [decode_remaining_length, List.take_append, List.take_of_length_le hlen]
  rw [read_length_append (read_length_field h 0 1 0)]
  simp

/-- The bytes of a longer field all go on. -/
theorem encode_remaining_length_more {k n : ℕ} (h : 128 ^ k ≤ n) (rest : List UInt8) :
    ∀ b ∈ (encode_remaining_length n ++ rest).take k, 128 ≤ b.toNat := by
  induction k generalizing n with
  | zero => exact fun b hb => nomatch hb
  | succ k ih =>
    have hk : 0 < 128 ^ k := Nat.pow_pos (by omega)
    have hdiv : 128 ^ k ≤ n / 128 := by
      rw [Nat.le_div_iff_mul_le (by omega), ← Nat.pow_succ]
      exact h
    have hmore := or_continuation (Nat.mod_lt n (by omega : 128 > 0))
    rw [encode_remaining_length_of_ge (by omega), List.cons_append, List.take_succ_cons,
      List.forall_mem_cons]
    exact ⟨by omega, ih hdiv⟩

/-! ## Framed packets -/

/-- The decoder on a header byte and whatever follows it. -/
theorem decode_cons (header : UInt8) {rest : List UInt8} (h : rest ≠ []) :
    decode (header :: rest) =
      match decode_remaining_length rest with
      | none => .ok none
      | some (length, length_bytes) =>
        if rest.length < length_bytes + length then .ok none
        else
          let body := (rest.drop length_bytes).take length
          match decode_body (header >>> 4) (header &&& 0x0F) body with
          | .error error => .error error
          | .ok packet => .ok (some (packet, 1 + length_bytes + length)) := by
  obtain ⟨first, rest, rfl⟩ := List.exists_cons_of_ne_nil h
  rw [decode]
  rcases decode_remaining_length (first :: rest) with _ | ⟨length, length_bytes⟩
  · rfl
  · have hlt : (header :: first :: rest).length < 1 + length_bytes + length ↔
        (first :: rest).length < length_bytes + length := by
      rw [List.length_cons]
      omega
    simp only [Nat.add_comm 1 length_bytes, List.drop_succ_cons] at hlt ⊢
    simp only [hlt]

/-- **A length field** is followed by the body it announces. -/
theorem decode_field (header : UInt8) {field : List UInt8} {n : ℕ} (h : LengthField field n)
    (hlen : field.length ≤ 4) (body : List UInt8) :
    decode (header :: (field ++ body)) =
      if body.length < n then .ok none
      else
        match decode_body (header >>> 4) (header &&& 0x0F) (body.take n) with
        | .error error => .error error
        | .ok packet => .ok (some (packet, 1 + field.length + n)) := by
  rw [decode_cons header (List.append_ne_nil_of_left_ne_nil h.ne_nil body),
    decode_remaining_length_field h hlen]
  have hlt : (field ++ body).length < field.length + n ↔ body.length < n := by
    rw [List.length_append]
    omega
  simp only [hlt, List.drop_left]

/-- Decoding a framed body is decoding the body, whatever follows it. -/
theorem decode_frame (header : UInt8) {body : List UInt8} (h : body.length < 128 ^ 4)
    (rest : List UInt8) :
    decode (frame header body ++ rest) =
      match decode_body (header >>> 4) (header &&& 0x0F) body with
      | .error error => .error error
      | .ok packet => .ok (some (packet, (frame header body).length)) := by
  have hused : (frame header body).length =
      1 + (encode_remaining_length body.length).length + body.length := by
    rw [frame, List.length_cons, List.length_append]
    omega
  rw [hused, frame, List.cons_append, List.append_assoc,
    decode_field header (lengthField_encode body.length) (length_encode_remaining_length h),
    if_neg (by rw [List.length_append]; omega), List.take_left]

/-- Bytes that all go on where the length should end are waited for. -/
theorem decode_more (header : UInt8) {rest : List UInt8} (h : ∀ b ∈ rest.take 4, 128 ≤ b.toNat) :
    decode (header :: rest) = .ok none := by
  by_cases hne : rest = []
  · rw [hne]
    rfl
  · rw [decode_cons header hne, decode_remaining_length, read_length_more h]

/-- A body whose length takes more than four bytes is waited for, however much has arrived. -/
theorem decode_frame_of_ge (header : UInt8) {body : List UInt8} (h : 128 ^ 4 ≤ body.length)
    (rest : List UInt8) : decode (frame header body ++ rest) = .ok none := by
  rw [frame, List.cons_append, List.append_assoc]
  exact decode_more header (encode_remaining_length_more h _)

/-- The number of bytes a packet uses. -/
theorem decode_used {buffer : List UInt8} {packet : Packet} {used : ℕ}
    (h : decode buffer = .ok (some (packet, used))) : 0 < used ∧ used ≤ buffer.length := by
  rcases buffer with _ | ⟨header, rest⟩
  · cases h
  by_cases hne : rest = []
  · subst hne
    cases h
  rw [decode_cons header hne] at h
  rcases hr : decode_remaining_length rest with _ | ⟨length, length_bytes⟩
  · simp [hr] at h
  · simp only [hr] at h
    split at h
    · cases h
    · split at h
      · cases h
      · cases h
        rw [List.length_cons]
        omega

/-- What the decoder answers about a whole packet does not change when more bytes arrive. -/
theorem decode_append {buffer : List UInt8} (h : decode buffer ≠ .ok none) (more : List UInt8) :
    decode (buffer ++ more) = decode buffer := by
  rcases buffer with _ | ⟨header, rest⟩
  · exact absurd rfl h
  by_cases hne : rest = []
  · subst hne
    exact absurd rfl h
  rw [List.cons_append, decode_cons header (List.append_ne_nil_of_left_ne_nil hne more)]
  rw [decode_cons header hne] at h ⊢
  rcases hr : decode_remaining_length rest with _ | ⟨length, length_bytes⟩
  · rw [hr] at h
    exact absurd rfl h
  · rw [hr] at h
    simp only [decode_remaining_length_append hr more] at h ⊢
    have hlen : ¬ rest.length < length_bytes + length := fun hlt => h (if_pos hlt)
    rw [if_neg hlen, if_neg (by rw [List.length_append]; omega),
      List.drop_append_of_le_length (by omega),
      List.take_append_of_le_length (by rw [List.length_drop]; omega)]

end WaSSH.Mqtt
