import WaSSH.Mqtt.Codec

/-!
# Well-formed packets

What a packet must be under MQTT 3.1.1, and which packets of the encoders are.

* `encode_connect`, `encode_subscribe`, `encode_unsubscribe`, `encode_publish`: the other encoders;
  `Request`, `Request.encode`: a call of one of them;
* `string_fields`: the string fields of a body; `WellFormed`: what a packet must be;
* `Fits`: a text that its field holds whole, or that is cut between two characters;
* **`well_formed_encode_iff`**: the packet of a request is well formed exactly when its texts fit,
  its body is not too long and it has no password without a user name.
-/

namespace WaSSH.Mqtt

open Utf8

/-! ## Encoders -/

/-- Protocol name for MQTT 3.1.1. -/
def PROTOCOL_NAME : List Char := ['M', 'Q', 'T', 'T']

/-- Protocol level byte for MQTT 3.1.1. -/
def PROTOCOL_LEVEL : UInt8 := 4

/-- The flags of a CONNECT, a clean session always. -/
def connect_flags (username password : Option (List Char)) : UInt8 :=
  let flags : UInt8 := 0x02
  let flags := if username.isSome then flags ||| 0x80 else flags
  if password.isSome then flags ||| 0x40 else flags

/-- The body of a CONNECT. -/
def connect_body (host_client_id : List Char) (keep_alive_s : UInt16)
    (username password : Option (List Char)) : List UInt8 :=
  put_string PROTOCOL_NAME ++ [PROTOCOL_LEVEL] ++ [connect_flags username password] ++
    to_be_bytes keep_alive_s ++ put_string host_client_id ++
    (match username with | some username => put_string username | none => []) ++
    (match password with | some password => put_string password | none => [])

/-- Build the CONNECT packet. -/
def encode_connect (host_client_id : List Char) (keep_alive_s : UInt16)
    (username password : Option (List Char)) : List UInt8 :=
  frame 0x10 (connect_body host_client_id keep_alive_s username password)

/-- Build a SUBSCRIBE for `filter` at QoS 0. -/
def encode_subscribe (packet_id : UInt16) (filter : List Char) : List UInt8 :=
  frame 0x82 (to_be_bytes packet_id ++ put_string filter ++ [0x00])

/-- Build an UNSUBSCRIBE for `filter`. -/
def encode_unsubscribe (packet_id : UInt16) (filter : List Char) : List UInt8 :=
  frame 0xA2 (to_be_bytes packet_id ++ put_string filter)

/-- Build a PUBLISH at QoS 0. -/
def encode_publish (topic : List Char) (payload : List UInt8) : List UInt8 :=
  encode_publish_with topic payload 0 false 0

/-- Build a keep-alive ping. -/
def encode_pingreq : List UInt8 := [0xC0, 0x00]

/-- Build the polite DISCONNECT sent when the analyser stops. -/
def encode_disconnect : List UInt8 := [0xE0, 0x00]

/-- A call of an encoder. -/
inductive Request
  | connect (host_client_id : List Char) (keep_alive_s : UInt16)
    (username password : Option (List Char))
  | subscribe (packet_id : UInt16) (filter : List Char)
  | unsubscribe (packet_id : UInt16) (filter : List Char)
  | publish (topic : List Char) (payload : List UInt8)
  | publish_with (topic : List Char) (payload : List UInt8) (qos : UInt8) (retain : Bool)
    (packet_id : UInt16)
  | puback (packet_id : UInt16)
  | pingreq
  | disconnect

/-- The packet it gives. -/
def Request.encode : Request → List UInt8
  | .connect host_client_id keep_alive_s username password =>
    encode_connect host_client_id keep_alive_s username password
  | .subscribe packet_id filter => encode_subscribe packet_id filter
  | .unsubscribe packet_id filter => encode_unsubscribe packet_id filter
  | .publish topic payload => encode_publish topic payload
  | .publish_with topic payload qos retain packet_id =>
    encode_publish_with topic payload qos retain packet_id
  | .puback packet_id => encode_puback packet_id
  | .pingreq => encode_pingreq
  | .disconnect => encode_disconnect

/-! ## Well-formed packets -/

/-- The bytes of a string field, and what follows it. -/
def string_field : List UInt8 → Option (List UInt8 × List UInt8)
  | high :: low :: after =>
    let length := (from_be_bytes high low).toNat
    if after.length < length then none else some (after.take length, after.drop length)
  | _ => none

/-- A string field that is there when a flag says so. -/
def flagged_field (flag : Bool) (body : List UInt8) :
    Option (List (List UInt8) × List UInt8) :=
  if flag then (string_field body).map fun (text, rest) => ([text], rest) else some ([], body)

/-- The flag of a user name. -/
def has_username (flags : UInt8) : Bool := flags &&& 0x80 != 0

/-- The flag of a password. -/
def has_password (flags : UInt8) : Bool := flags &&& 0x40 != 0

/-- The string fields of a CONNECT without a will, which must set the flag of a password only
together with that of a user name. -/
def connect_fields (body : List UInt8) : Option (List (List UInt8)) := do
  let (name, rest) ← string_field body
  match rest with
  | _level :: flags :: _ :: _ :: rest =>
    let (client_id, rest) ← string_field rest
    let (username, rest) ← flagged_field (has_username flags) rest
    let (password, rest) ← flagged_field (has_password flags) rest
    if rest = [] ∧ (has_password flags → has_username flags) then
      some (name :: client_id :: username ++ password)
    else none
  | _ => none

/-- The string fields of the body of a packet, if its other fields are there too. -/
def string_fields (kind flags : UInt8) (body : List UInt8) : Option (List (List UInt8)) :=
  if kind = 1 then connect_fields body
  else if kind = 3 then
    let qos := (flags >>> 1) &&& 0x03
    match string_field body with
    | some (topic, rest) => if 0 < qos ∧ rest.length < 2 then none else some [topic]
    | none => none
  else if kind = 4 then if body.length = 2 then some [] else none
  else if kind = 8 then
    match string_field (body.drop 2) with
    | some (filter, [_qos]) => some [filter]
    | _ => none
  else if kind = 10 then
    match string_field (body.drop 2) with
    | some (filter, []) => some [filter]
    | _ => none
  else if kind = 12 ∨ kind = 14 then if body = [] then some [] else none
  else none

/-- A packet under MQTT 3.1.1: a length of at most four bytes which is that of the body, and in the
body strings of at most 65535 bytes that are valid UTF-8. -/
def WellFormed (packet : List UInt8) : Prop :=
  ∃ header field body strings, packet = header :: (field ++ body) ∧
    LengthField field body.length ∧ field.length ≤ 4 ∧
    string_fields (header >>> 4) (header &&& 0x0F) body = some strings ∧
    ∀ s ∈ strings, s.length ≤ 65535 ∧ (from_utf8 s).isSome

/-! ## Frames -/

/-- A frame is well formed exactly when its length takes at most four bytes and its strings are
valid. -/
theorem wellFormed_frame_iff (header : UInt8) (body : List UInt8) :
    WellFormed (frame header body) ↔
      body.length < 2 ^ 28 ∧ ∃ strings,
        string_fields (header >>> 4) (header &&& 0x0F) body = some strings ∧
        ∀ s ∈ strings, s.length ≤ 65535 ∧ (from_utf8 s).isSome := by
  have hpow : (2 : ℕ) ^ 28 = 128 ^ 4 := by norm_num
  have hencoded := lengthField_encode body.length
  constructor
  · rintro ⟨header', field, body', strings, hpacket, hfield, hfour, hstrings⟩
    obtain ⟨rfl, hsplit⟩ := List.cons.inj hpacket
    have hread := decode_remaining_length_field hfield hfour body'
    rw [← hsplit] at hread
    have hlt : body.length < 2 ^ 28 := by
      by_contra hge
      have hmore := encode_remaining_length_more (k := 4) (n := body.length) (by omega) body
      rw [decode_remaining_length, read_length_more hmore] at hread
      cases hread
    have hshort : (encode_remaining_length body.length).length ≤ 4 :=
      length_encode_remaining_length (by omega)
    rw [decode_remaining_length_field hencoded hshort] at hread
    obtain ⟨-, hlength⟩ := Prod.mk.inj (Option.some.inj hread)
    obtain ⟨rfl, rfl⟩ := List.append_inj hsplit hlength
    exact ⟨hlt, strings, hstrings⟩
  · rintro ⟨hlt, strings, hstrings⟩
    exact ⟨header, _, body, strings, rfl, hencoded, length_encode_remaining_length (by omega),
      hstrings⟩

/-! ## Strings -/

/-- The bytes of a text that its field holds. -/
def kept (text : List Char) : List UInt8 := (encode text).take 65535

/-- A text that a field holds whole, or that is cut between two of its characters. -/
def Fits (text : List Char) : Prop :=
  (encode text).length ≤ 65535 ∨ ∃ i, (encode (text.take i)).length = 65535

theorem string_field_put_string (text : List Char) (rest : List UInt8) :
    string_field (put_string text ++ rest) = some (kept text, rest) := by
  have hmin : min (encode text).length 65535 ≤ 65535 := Nat.min_le_right _ _
  have hlen : (UInt16.ofNat (min (encode text).length 65535)).toNat =
      min (encode text).length 65535 := by
    rw [UInt16.toNat_ofNat']
    omega
  have hkept : (encode text).take (min (encode text).length 65535) = kept text := by
    rw [kept, List.take_eq_take_iff]
    omega
  have hlength : (kept text).length = min (encode text).length 65535 := by
    rw [kept, List.length_take, Nat.min_comm]
  have hbytes := from_be_bytes_to_be_bytes (UInt16.ofNat (min (encode text).length 65535))
  rw [hlen] at hbytes
  simp only [put_string, to_be_bytes, hkept, List.cons_append, List.nil_append, string_field, hlen,
    hbytes]
  rw [if_neg (by rw [List.length_append]; omega), ← hlength, List.take_left, List.drop_left]

theorem length_put_string_min (text : List Char) :
    (put_string text).length = 2 + min (encode text).length 65535 := by
  simp only [put_string, to_be_bytes, List.length_append, List.length_cons, List.length_nil,
    List.length_take]
  omega

/-- **What a field holds is valid** exactly when the text fits. -/
theorem isSome_kept_iff (text : List Char) : (from_utf8 (kept text)).isSome ↔ Fits text := by
  rw [Option.isSome_iff_exists]
  constructor
  · rintro ⟨start, hstart⟩
    rw [from_utf8_eq_some_iff] at hstart
    by_cases hshort : (encode text).length ≤ 65535
    · exact .inl hshort
    have hbegins : encode text = encode start ++ (encode text).drop 65535 := by
      rw [hstart, kept, List.take_append_drop]
    have htext : text = start ++ from_utf8_lossy ((encode text).drop 65535) := by
      rw [← from_utf8_lossy_encode_append, ← hbegins, from_utf8_lossy_encode]
    refine .inr ⟨start.length, ?_⟩
    rw [htext, List.take_left, hstart, kept, List.length_take]
    omega
  · rintro (hshort | ⟨i, hi⟩)
    · exact ⟨text, from_utf8_eq_some_iff.mpr (List.take_of_length_le hshort).symm⟩
    · refine ⟨text.take i, from_utf8_eq_some_iff.mpr ?_⟩
      have hcut : encode text = encode (text.take i) ++ encode (text.drop i) := by
        rw [← encode_append, List.take_append_drop]
      rw [kept, hcut, ← hi, List.take_left]

theorem length_kept_le (text : List Char) : (kept text).length ≤ 65535 := by
  rw [kept, List.length_take]
  omega

theorem valid_kept_iff (text : List Char) :
    ((kept text).length ≤ 65535 ∧ (from_utf8 (kept text)).isSome) ↔ Fits text :=
  ⟨fun h => (isSome_kept_iff text).mp h.2,
    fun h => ⟨length_kept_le text, (isSome_kept_iff text).mpr h⟩⟩

theorem fits_protocol_name : Fits PROTOCOL_NAME := .inl (by decide)

/-! ## Requests -/

theorem has_username_connect_flags (username password : Option (List Char)) :
    has_username (connect_flags username password) = username.isSome := by
  unfold connect_flags
  generalize username.isSome = named
  generalize password.isSome = locked
  cases named <;> cases locked <;> decide

theorem has_password_connect_flags (username password : Option (List Char)) :
    has_password (connect_flags username password) = password.isSome := by
  unfold connect_flags
  generalize username.isSome = named
  generalize password.isSome = locked
  cases named <;> cases locked <;> decide

/-- The field of a text that may be absent. -/
theorem flagged_field_put_string (text : Option (List Char)) (rest : List UInt8) :
    flagged_field text.isSome
        ((match text with | some text => put_string text | none => []) ++ rest) =
      some ((text.map kept).toList, rest) := by
  cases text with
  | none => rfl
  | some text =>
    show (string_field (put_string text ++ rest)).map _ = _
    rw [string_field_put_string]
    rfl

theorem connect_fields_body (host_client_id : List Char) (keep_alive_s : UInt16)
    (username password : Option (List Char)) :
    connect_fields (connect_body host_client_id keep_alive_s username password) =
      if password.isSome → username.isSome then
        some (kept PROTOCOL_NAME :: kept host_client_id ::
          (username.map kept).toList ++ (password.map kept).toList)
      else none := by
  have hlast := flagged_field_put_string password []
  rw [List.append_nil] at hlast
  unfold connect_fields connect_body to_be_bytes
  simp only [List.append_assoc, string_field_put_string, List.cons_append, List.nil_append,
    Option.bind_eq_bind, Option.bind_some, has_username_connect_flags, has_password_connect_flags,
    flagged_field_put_string, hlast, true_and]

theorem length_connect_body (host_client_id : List Char) (keep_alive_s : UInt16)
    (username password : Option (List Char)) :
    (connect_body host_client_id keep_alive_s username password).length < 2 ^ 28 := by
  have hfield : ∀ text : Option (List Char),
      (match text with | some text => put_string text | none => []).length ≤ 65537 := by
    intro text
    cases text with
    | none => exact Nat.zero_le _
    | some text =>
      show (put_string text).length ≤ _
      rw [length_put_string_min]
      omega
  have husername := hfield username
  have hpassword := hfield password
  simp only [connect_body, to_be_bytes, List.length_append, length_put_string_min,
    List.length_cons, List.length_nil]
  omega

/-- A request whose texts fit, whose body is not too long, and which has no password without a user
name. -/
def Request.Encodable : Request → Prop
  | .connect host_client_id _ username password =>
    Fits host_client_id ∧ (∀ text ∈ username, Fits text) ∧ (∀ text ∈ password, Fits text) ∧
      (password.isSome → username.isSome)
  | .subscribe _ filter | .unsubscribe _ filter => Fits filter
  | .publish topic payload =>
    Fits topic ∧ 2 + min (Utf8.encode topic).length 65535 + payload.length < 2 ^ 28
  | .publish_with topic payload qos _ _ =>
    Fits topic ∧ 2 + min (Utf8.encode topic).length 65535 + (if 0 < qos then 2 else 0) +
      payload.length < 2 ^ 28
  | .puback _ | .pingreq | .disconnect => True

theorem wellFormed_connect (host_client_id : List Char) (keep_alive_s : UInt16)
    (username password : Option (List Char)) :
    WellFormed (encode_connect host_client_id keep_alive_s username password) ↔
      (Request.connect host_client_id keep_alive_s username password).Encodable := by
  have hkind : ∀ flags body, string_fields ((0x10 : UInt8) >>> 4) flags body =
      connect_fields body := fun _ _ => rfl
  rw [encode_connect, wellFormed_frame_iff, hkind, connect_fields_body]
  have hlength := length_connect_body host_client_id keep_alive_s username password
  have hoption : ∀ text : Option (List Char),
      (∀ s ∈ (text.map kept).toList, s.length ≤ 65535 ∧ (from_utf8 s).isSome) ↔
        ∀ t ∈ text, Fits t := by
    intro text
    cases text <;> simp [valid_kept_iff]
  by_cases hflags : password.isSome → username.isSome
  · rw [if_pos hflags]
    simp only [Option.some.injEq, exists_eq_left', List.forall_mem_cons, List.forall_mem_append,
      List.cons_append, hoption, valid_kept_iff, Request.Encodable, iff_true_intro hflags,
      and_true]
    exact ⟨fun h => h.2.2, fun h => ⟨hlength, fits_protocol_name, h⟩⟩
  · rw [if_neg hflags]
    exact iff_of_false (fun h => nomatch h.2) (fun h => hflags h.2.2.2)

/-- A body with one string, whose other fields are there, is as good as its text. -/
theorem wellFormed_frame_string (header : UInt8) (body : List UInt8) (text : List Char)
    (h : string_fields (header >>> 4) (header &&& 0x0F) body = some [kept text]) :
    WellFormed (frame header body) ↔ Fits text ∧ body.length < 2 ^ 28 := by
  rw [wellFormed_frame_iff, h]
  simp only [Option.some.injEq, exists_eq_left', List.forall_mem_singleton, valid_kept_iff]
  exact and_comm

theorem wellFormed_subscribe (packet_id : UInt16) (filter : List Char) :
    WellFormed (encode_subscribe packet_id filter) ↔ Fits filter := by
  have hfields : string_fields ((0x82 : UInt8) >>> 4) (0x82 &&& 0x0F)
      (to_be_bytes packet_id ++ put_string filter ++ [0x00]) = some [kept filter] := by
    show (match string_field (put_string filter ++ [0x00]) with
      | some (filter, [_qos]) => some [filter]
      | _ => none) = _
    rw [string_field_put_string]
  unfold encode_subscribe
  rw [wellFormed_frame_string _ _ filter hfields, and_iff_left]
  simp only [to_be_bytes, List.length_append, length_put_string_min, List.length_cons,
    List.length_nil]
  omega

theorem wellFormed_unsubscribe (packet_id : UInt16) (filter : List Char) :
    WellFormed (encode_unsubscribe packet_id filter) ↔ Fits filter := by
  have hfields : string_fields ((0xA2 : UInt8) >>> 4) (0xA2 &&& 0x0F)
      (to_be_bytes packet_id ++ put_string filter) = some [kept filter] := by
    show (match string_field (put_string filter) with
      | some (filter, []) => some [filter]
      | _ => none) = _
    rw [← List.append_nil (put_string filter), string_field_put_string]
  unfold encode_unsubscribe
  rw [wellFormed_frame_string _ _ filter hfields, and_iff_left]
  simp only [to_be_bytes, List.length_append, length_put_string_min, List.length_cons,
    List.length_nil]
  omega

/-- The header byte of a PUBLISH says its kind, and that there is an id only when there is. -/
theorem publish_header_kind (qos : UInt8) (retain : Bool) :
    let header := (0x30 : UInt8) ||| ((qos &&& 0x03) <<< 1) ||| (if retain then 1 else 0)
    header >>> 4 = 3 ∧ ((0 : UInt8) < ((header &&& 0x0F) >>> 1) &&& 0x03 → 0 < qos) := by
  have hand : (qos &&& 0x03).toNat = qos.toNat % 4 := by
    rw [UInt8.toNat_and]
    exact Nat.and_two_pow_sub_one_eq_mod qos.toNat 2
  have hcases : qos &&& 0x03 = 0 ∨ qos &&& 0x03 = 1 ∨ qos &&& 0x03 = 2 ∨ qos &&& 0x03 = 3 := by
    simp only [← UInt8.toNat_inj, hand]
    show _ = 0 ∨ _ = 1 ∨ _ = 2 ∨ _ = 3
    omega
  refine ⟨?_, fun hid => ?_⟩
  · rcases hcases with h | h | h | h <;> rw [h] <;> cases retain <;> decide
  · by_contra hzero
    have hqos : qos = 0 := UInt8.toNat_inj.mp (Nat.eq_zero_of_not_pos hzero)
    rw [hqos] at hid
    cases retain <;> exact absurd hid (by decide)

theorem wellFormed_publish_with (topic : List Char) (payload : List UInt8) (qos : UInt8)
    (retain : Bool) (packet_id : UInt16) :
    WellFormed (encode_publish_with topic payload qos retain packet_id) ↔
      (Request.publish_with topic payload qos retain packet_id).Encodable := by
  obtain ⟨hkind, hqos⟩ := publish_header_kind qos retain
  have hfields : ∀ flags : UInt8, ((0 : UInt8) < (flags >>> 1) &&& 0x03 → 0 < qos) →
      string_fields 3 flags
        (put_string topic ++ (if 0 < qos then to_be_bytes packet_id else []) ++ payload) =
      some [kept topic] := by
    intro flags hflags
    show (match string_field _ with
      | some (topic, rest) =>
        if (0 : UInt8) < (flags >>> 1) &&& 0x03 ∧ rest.length < 2 then none else some [topic]
      | none => none) = _
    rw [List.append_assoc, string_field_put_string]
    refine if_neg fun ⟨hid, hshort⟩ => ?_
    rw [if_pos (hflags hid), List.length_append] at hshort
    simp only [to_be_bytes, List.length_cons, List.length_nil] at hshort
    omega
  unfold encode_publish_with
  rw [wellFormed_frame_string _ _ topic (by rw [hkind]; exact hfields _ hqos)]
  simp only [List.length_append, length_put_string_min, Request.Encodable]
  by_cases hpos : 0 < qos
  · rw [if_pos hpos, if_pos hpos]
    rfl
  · rw [if_neg hpos, if_neg hpos]
    rfl

/-- **Well-formed packets**: what an encoder emits is well formed exactly when no text is cut
inside a character, the body is shorter than 2^28 bytes, and a password comes with a user name. -/
theorem well_formed_encode_iff (r : Request) : WellFormed r.encode ↔ r.Encodable := by
  cases r with
  | connect host_client_id keep_alive_s username password =>
    exact wellFormed_connect host_client_id keep_alive_s username password
  | subscribe packet_id filter => exact wellFormed_subscribe packet_id filter
  | unsubscribe packet_id filter => exact wellFormed_unsubscribe packet_id filter
  | publish topic payload =>
    have h := wellFormed_publish_with topic payload 0 false 0
    exact h
  | publish_with topic payload qos retain packet_id =>
    exact wellFormed_publish_with topic payload qos retain packet_id
  | puback packet_id =>
    have hlength : (to_be_bytes packet_id).length < 2 ^ 28 := by
      show 2 < 2 ^ 28
      omega
    refine iff_of_true ((wellFormed_frame_iff _ _).mpr ⟨hlength, [], rfl, ?_⟩) trivial
    exact fun _ h => absurd h List.not_mem_nil
  | pingreq =>
    have hframe : encode_pingreq = frame 0xC0 [] := by
      rw [frame, List.length_nil, encode_remaining_length_of_lt (by omega)]
      rfl
    refine iff_of_true ?_ trivial
    show WellFormed encode_pingreq
    rw [hframe]
    exact (wellFormed_frame_iff _ _).mpr ⟨by decide, [], rfl, fun _ h => absurd h List.not_mem_nil⟩
  | disconnect =>
    have hframe : encode_disconnect = frame 0xE0 [] := by
      rw [frame, List.length_nil, encode_remaining_length_of_lt (by omega)]
      rfl
    refine iff_of_true ?_ trivial
    show WellFormed encode_disconnect
    rw [hframe]
    exact (wellFormed_frame_iff _ _).mpr ⟨by decide, [], rfl, fun _ h => absurd h List.not_mem_nil⟩

theorem length_encode_replicate (n : ℕ) : (encode (List.replicate n 'a')).length = n := by
  induction n with
  | zero => rfl
  | succ n ih =>
    rw [List.replicate_succ, encode_cons, List.length_append, ih]
    exact Nat.add_comm 1 n

/-- No part of such a text ends inside its last character. -/
theorem length_encode_take_ne (n i : ℕ) :
    (encode ((List.replicate n 'a' ++ ['é']).take i)).length ≠ n + 1 := by
  have hlast : (encode ['é']).length = 2 := by decide
  by_cases hle : i ≤ n
  · rw [List.take_append_of_le_length (by rw [List.length_replicate]; exact hle),
      List.take_replicate, length_encode_replicate]
    omega
  · have hwhole : (List.replicate n 'a' ++ ['é']).length ≤ i := by
      rw [List.length_append, List.length_replicate]
      exact Nat.lt_of_not_le hle
    rw [List.take_of_length_le hwhole, encode_append, List.length_append,
      length_encode_replicate, hlast]
    omega

/-- A text whose last character begins with the last byte a field holds. -/
theorem not_fits_cut : ¬ Fits (List.replicate 65534 'a' ++ ['é']) := by
  rintro (hshort | ⟨i, hi⟩)
  · have hlast : (encode ['é']).length = 2 := by decide
    rw [encode_append, List.length_append, length_encode_replicate, hlast] at hshort
    omega
  · exact length_encode_take_ne 65534 i hi

/-- A password without a user name, a text cut inside its last character, and a payload of 2^28
bytes. -/
theorem packets_not_well_formed :
    ¬ WellFormed (encode_connect ['a'] 60 none (some ['p'])) ∧
      ¬ WellFormed (encode_subscribe 1 (List.replicate 65534 'a' ++ ['é'])) ∧
      ¬ WellFormed (encode_publish ['t'] (List.replicate (2 ^ 28) 0)) := by
  refine ⟨fun h => ?_, fun h => ?_, fun h => ?_⟩
  · exact absurd ((wellFormed_connect _ _ _ _).mp h).2.2.2 (by decide)
  · exact not_fits_cut ((wellFormed_subscribe _ _).mp h)
  · have hlong := ((wellFormed_publish_with _ _ _ _ _).mp h).2
    rw [List.length_replicate] at hlong
    omega

end WaSSH.Mqtt
