import WaSSH.Lib.Framed
import WaSSH.Mqtt.Codec

/-!
# The MQTT read loop

The client reads from the broker in chunks, decodes what it can and keeps the rest.

* `handle`, `read_chunks`: the loop, as a reader of framed packets;
* `Sent`, `Sent.encode`, `Sent.view`: what is sent, its bytes, and the packet it is read as;
* **`read_loop_round_trip`**: however the bytes are cut, the loop handles exactly the packets sent,
  up to a refused connection.
-/

namespace WaSSH.Mqtt

open Utf8 Framed

/-! ## The loop -/

/-- What the session tells the view. -/
inductive MqttEvent
  | connected
  | message (topic : List Char) (payload : List UInt8) (qos : UInt8) (retain : Bool)
  | error (text : String)
  | closed
  deriving DecidableEq

/-- The reason a CONNACK code stands for. -/
def refusal_reason (code : UInt8) : String :=
  if code = 1 then "unacceptable protocol version"
  else if code = 2 then "client id rejected"
  else if code = 3 then "server unavailable"
  else if code = 4 then "bad username or password"
  else if code = 5 then "not authorised"
  else "unknown reason"

/-- The client: the packets it has handled, what it wrote for them and what it told the view. -/
structure Client where
  packets : List Packet
  written : List UInt8
  events : List MqttEvent
  deriving DecidableEq

def Client.new : Client := { packets := [], written := [], events := [] }

/-- Handle one decoded packet. Returns false when the connection should end. -/
def handle (c : Client) (packet : Packet) : Client × Bool :=
  let c := { c with packets := c.packets ++ [packet] }
  match packet with
  | .conn_ack _ code =>
    if code ≠ 0 then
      let text := "broker refused the connection: " ++ refusal_reason code
      ({ c with events := c.events ++ [.error text] }, false)
    else ({ c with events := c.events ++ [.connected] }, true)
  | .publish topic payload qos retain packet_id =>
    -- Acknowledge so the broker stops retrying.
    let c := if qos = 1 then { c with written := c.written ++ encode_puback packet_id } else c
    ({ c with events := c.events ++ [.message topic payload qos retain] }, true)
  | .sub_ack _ | .ping_resp | .other _ => (c, true)

/-- `codec::decode` as a decoder of framed packets. -/
def decoder : Decoder UInt8 Packet String where
  decode := decode
  decode_nil := rfl
  used_bound := decode_used
  packet_append := fun c h => by
    rw [decode_append (by rw [h]; exact fun h => nomatch h), h]
  error_append := fun c h => by
    rw [decode_append (by rw [h]; exact fun h => nomatch h), h]

/-- One read from the broker: everything whole is handled, the rest is kept. -/
def read_chunk (r : Client × Reader UInt8 String) (chunk : List UInt8) :
    Client × Reader UInt8 String :=
  read decoder handle r chunk

/-- The client after a stream that arrives in chunks. -/
def read_chunks (chunks : List (List UInt8)) : Client × Reader UInt8 String :=
  StepRun.run read_chunk (.new, .waiting []) chunks

/-- What the loop tells the view when it ends. -/
def last_events : Reader UInt8 String → List MqttEvent
  | .waiting _ => []
  | .failed error => [.error ("bad packet: " ++ error), .closed]
  | .stopped => [.closed]

/-! ## What is sent -/

/-- A packet on the wire. -/
inductive Sent
  | publish (topic : List Char) (payload : List UInt8) (qos : UInt8) (retain : Bool)
      (packet_id : UInt16)
  | conn_ack (session_present : Bool) (code : UInt8)
  | sub_ack (packet_id : UInt16) (return_codes : List UInt8)
  | pub_ack (packet_id : UInt16)
  | ping_resp
  deriving DecidableEq

/-- The bytes of a packet. -/
def Sent.encode : Sent → List UInt8
  | .publish topic payload qos retain packet_id =>
    encode_publish_with topic payload qos retain packet_id
  | .conn_ack session_present code => frame 0x20 [if session_present then 1 else 0, code]
  | .sub_ack packet_id return_codes => frame 0x90 (to_be_bytes packet_id ++ return_codes)
  | .pub_ack packet_id => encode_puback packet_id
  | .ping_resp => frame 0xD0 []

/-- What MQTT allows: topics of at most 65535 bytes, QoS 0 or 1, and at most 268435455 bytes after
the fixed header. -/
def Sent.WellFormed : Sent → Prop
  | .publish topic payload qos _ _ =>
    (Utf8.encode topic).length ≤ 65535 ∧ (qos = 0 ∨ qos = 1) ∧
      2 + (Utf8.encode topic).length + (if 0 < qos then 2 else 0) + payload.length ≤ 268435455
  | .sub_ack _ return_codes => 2 + return_codes.length ≤ 268435455
  | _ => True

/-- The packet with all the fields the client's type has. -/
def Sent.packet : Sent → Packet
  | .publish topic payload qos retain packet_id => .publish topic payload qos retain packet_id
  | .conn_ack session_present code => .conn_ack session_present code
  | .sub_ack packet_id _ => .sub_ack packet_id
  | .pub_ack _ => .other 4
  | .ping_resp => .ping_resp

/-- The packet as it is read: at QoS 0 there is no id on the wire. -/
def Sent.view : Sent → Packet
  | .publish topic payload qos retain packet_id =>
    .publish topic payload qos retain (if 0 < qos then packet_id else 0)
  | p => p.packet

/-- The header byte of a PUBLISH says its kind, its QoS and its retain flag. -/
theorem publish_header {qos : UInt8} (h : qos = 0 ∨ qos = 1) (retain : Bool) :
    let header := (0x30 : UInt8) ||| ((qos &&& 0x03) <<< 1) ||| (if retain then 1 else 0)
    header >>> 4 = 3 ∧ ((header &&& 0x0F) >>> 1) &&& 0x03 = qos ∧
      decide (header &&& 0x0F &&& 0x01 = 1) = retain := by
  rcases h with rfl | rfl <;> cases retain <;> decide

theorem decode_body_publish {topic : List Char} (htopic : (Utf8.encode topic).length ≤ 65535)
    (payload : List UInt8) {flags qos : UInt8} {retain : Bool} (packet_id : UInt16)
    (hqos : (flags >>> 1) &&& 0x03 = qos) (hretain : decide (flags &&& 0x01 = 1) = retain) :
    decode_body 3 flags
        (put_string topic ++ (if 0 < qos then to_be_bytes packet_id else []) ++ payload) =
      .ok (.publish topic payload qos retain (if 0 < qos then packet_id else 0)) := by
  have hstring := read_string_put_string htopic
    ((if 0 < qos then to_be_bytes packet_id else []) ++ payload)
  rw [← List.append_assoc] at hstring
  unfold decode_body
  rw [if_neg (by decide), if_pos rfl, hstring]
  simp only [hqos, hretain]
  by_cases hpos : 0 < qos
  · simp only [if_pos hpos, to_be_bytes, List.cons_append, List.nil_append,
      from_be_bytes_to_be_bytes]
  · simp only [if_neg hpos, List.nil_append]

theorem length_put_string {text : List Char} (h : (Utf8.encode text).length ≤ 65535) :
    (put_string text).length = 2 + (Utf8.encode text).length := by
  simp only [put_string, to_be_bytes, List.length_append, List.length_cons, List.length_nil,
    List.length_take]
  omega

/-- **One packet**: a well-formed packet is decoded whatever follows it. -/
theorem decode_sent (p : Sent) (h : p.WellFormed) (rest : List UInt8) :
    decode (p.encode ++ rest) = .ok (some (p.view, p.encode.length)) := by
  cases p with
  | publish topic payload qos retain packet_id =>
    obtain ⟨htopic, hqos, hlen⟩ := h
    obtain ⟨hkind, hflags, hretain⟩ := publish_header hqos retain
    have hbody : (put_string topic ++ (if 0 < qos then to_be_bytes packet_id else []) ++
        payload).length < 128 ^ 4 := by
      have hid : (if 0 < qos then to_be_bytes packet_id else []).length =
          if 0 < qos then 2 else 0 := by split <;> rfl
      simp only [List.length_append, length_put_string htopic, hid]
      omega
    rw [Sent.encode, encode_publish_with, decode_frame _ hbody, hkind,
      decode_body_publish htopic payload packet_id hflags hretain]
    rfl
  | conn_ack session_present code =>
    rw [Sent.encode, decode_frame _ (by simp)]
    cases session_present <;> rfl
  | sub_ack packet_id return_codes =>
    have hlen : (to_be_bytes packet_id ++ return_codes).length < 128 ^ 4 := by
      simp only [Sent.WellFormed] at h
      simp only [to_be_bytes, List.length_append, List.length_cons, List.length_nil]
      omega
    have hbody : decode_body ((0x90 : UInt8) >>> 4) (0x90 &&& 0x0F)
        (to_be_bytes packet_id ++ return_codes) = .ok (.sub_ack packet_id) := by
      show Except.ok (Packet.sub_ack (from_be_bytes _ _)) = _
      rw [from_be_bytes_to_be_bytes]
    rw [Sent.encode, decode_frame _ hlen, hbody]
    rfl
  | pub_ack packet_id =>
    rw [Sent.encode, encode_puback, decode_frame _ (by simp [to_be_bytes])]
    rfl
  | ping_resp =>
    rw [Sent.encode, decode_frame _ (by simp)]
    rfl

/-! ## A whole stream -/

/-- Whether the connection goes on after the packet. -/
def Packet.accepted : Packet → Bool
  | .conn_ack _ code => code = 0
  | _ => true

/-- The packets up to the first refusal, that one included. -/
def until_refusal : List Packet → List Packet
  | [] => []
  | p :: ps => if p.accepted then p :: until_refusal ps else [p]

theorem handle_packets (c : Client) (p : Packet) : (handle c p).1.packets = c.packets ++ [p] := by
  cases p <;> simp only [handle] <;> split <;> rfl

theorem handle_accepted (c : Client) (p : Packet) : (handle c p).2 = p.accepted := by
  cases p with
  | conn_ack present code =>
    simp only [handle, Packet.accepted]
    split <;> simp_all
  | _ => rfl

theorem process_handle (c : Client) (ps : List Packet) :
    (process handle c ps).1.packets = c.packets ++ until_refusal ps ∧
      (process handle c ps).2 = ps.all Packet.accepted := by
  induction ps generalizing c with
  | nil => exact ⟨(List.append_nil _).symm, rfl⟩
  | cons p ps ih =>
    have hpackets := handle_packets c p
    have hgo := handle_accepted c p
    rcases hs : handle c p with ⟨d, go⟩
    rw [hs] at hpackets hgo
    subst hgo
    simp only at hpackets
    cases hp : p.accepted
    · simp only [process, hs, hp, until_refusal, List.all_cons, Bool.false_and]
      exact ⟨hpackets, trivial⟩
    · obtain ⟨hd, hall⟩ := ih d
      simp only [process, hs, hp, until_refusal, List.all_cons, Bool.true_and, hd, hall, if_true]
      exact ⟨by rw [hpackets, List.append_assoc, List.singleton_append], trivial⟩

theorem read_chunks_eq (chunks : List (List UInt8)) :
    read_chunks chunks = drain decoder handle .new chunks.flatten :=
  run_read_nil Client.new chunks

theorem drain_sent (sent : List Sent) (hsent : ∀ p ∈ sent, p.WellFormed) :
    (drain decoder handle .new (sent.flatMap Sent.encode)).1.packets =
        until_refusal (sent.map Sent.view) ∧
      (drain decoder handle .new (sent.flatMap Sent.encode)).2 =
        if (sent.map Sent.view).all Packet.accepted then .waiting [] else .stopped := by
  rw [drain_flatMap (D := decoder) (fun p hp => decode_sent p (hsent p hp)) Client.new]
  obtain ⟨hpackets, hgo⟩ := process_handle Client.new (sent.map Sent.view)
  exact ⟨hpackets, by rw [hgo]⟩

/-- **Read loop round trip**: the bytes of well-formed packets, cut into chunks in any way, are
handled as exactly those packets, in order, with an empty buffer at the end; after a refused
connection the rest is not read. -/
theorem read_loop_round_trip (sent : List Sent) (hsent : ∀ p ∈ sent, p.WellFormed)
    (chunks : List (List UInt8)) (hchunks : chunks.flatten = sent.flatMap Sent.encode) :
    (read_chunks chunks).1.packets = until_refusal (sent.map Sent.view) ∧
      (read_chunks chunks).2 =
        if (sent.map Sent.view).all Packet.accepted then .waiting [] else .stopped := by
  rw [read_chunks_eq, hchunks]
  exact drain_sent sent hsent

/-- A QoS 0 message, a QoS 1 message and a ping answer, a byte at a time. -/
theorem read_loop_round_trip_bytes :
    let sent : List Sent :=
      [.publish ['a'] [1] 0 true 7, .publish ['b'] [2, 3] 1 false 9, .ping_resp]
    (read_chunks ((sent.flatMap Sent.encode).map fun b => [b])).1.packets =
      [.publish ['a'] [1] 0 true 0, .publish ['b'] [2, 3] 1 false 9, .ping_resp] := by
  intro sent
  have hsent : ∀ p ∈ sent, p.WellFormed := by
    simp only [sent, List.mem_cons, List.not_mem_nil, or_false]
    rintro p (rfl | rfl | rfl)
    · exact ⟨by decide, by decide, by decide⟩
    · exact ⟨by decide, by decide, by decide⟩
    · trivial
  rw [(read_loop_round_trip sent hsent _ (by simp [← List.flatMap_def])).1]
  decide

/-- What is not read as it was sent: the id of a QoS 0 message, the packets after a refused
connection, and a message whose payload alone takes the whole limit, of which nothing is read. -/
theorem read_loop_differs :
    (read_chunks [(Sent.publish ['a'] [] 0 false 7).encode]).1.packets ≠
      [(Sent.publish ['a'] [] 0 false 7).packet] ∧
    (read_chunks [[Sent.conn_ack false 5, .ping_resp].flatMap Sent.encode]).1.packets =
      [.conn_ack false 5] ∧
    (read_chunks [(Sent.publish ['a'] (List.replicate 268435455 0) 0 false 0).encode]).1.packets =
      [] := by
  have hone (p : Sent) : [p].flatMap Sent.encode = p.encode := List.append_nil _
  refine ⟨?_, ?_, ?_⟩
  · rw [read_chunks_eq, List.flatten_singleton, ← hone,
      (drain_sent [.publish ['a'] [] 0 false 7]
        (List.forall_mem_singleton.mpr ⟨by decide, by decide, by decide⟩)).1]
    decide
  · rw [read_chunks_eq, List.flatten_singleton, (drain_sent _ ?_).1]
    · decide
    · simp only [List.mem_cons, List.not_mem_nil, or_false]
      rintro p (rfl | rfl) <;> trivial
  · have hlong : decode (Sent.publish ['a'] (List.replicate 268435455 0) 0 false 0).encode =
        .ok none := by
      rw [← List.append_nil (Sent.encode _), Sent.encode, encode_publish_with]
      refine decode_frame_of_ge _ ?_ []
      rw [List.length_append, List.length_append, List.length_replicate,
        length_put_string (by decide)]
      omega
    rw [read_chunks_eq, List.flatten_singleton, drain_none (D := decoder) hlong]
    rfl

end WaSSH.Mqtt
