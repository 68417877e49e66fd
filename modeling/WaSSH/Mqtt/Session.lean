import WaSSH.Files.Request
import WaSSH.Lib.Dialog
import WaSSH.Mqtt.Client
import WaSSH.Mqtt.Encode

/-!
# The thread of an MQTT client

A client runs on a thread of its own: it dials the broker, says who it is, and then takes turns:
what the view asks for is sent, what the broker sent is read, and a ping goes out when nothing was
sent for a while. The broker, the view and the clock are its world.

* `MqttOptions`, `Command`: what a client is given, and what the view asks for;
* `Call`, `Answer`: what the thread asks of its world;
* `take_commands`, `read_packets`, `turn`, `run`: the source.
-/

namespace WaSSH.Mqtt.Session

open Files (TryRecv)

/-! ## What it is given -/

structure MqttOptions where
  host : String
  port : UInt16
  client_id : List Char
  username : Option (List Char)
  password : Option (List Char)
  /-- In seconds. -/
  keep_alive_s : UInt16
  /-- Dialled instead of the host and port, when the broker is reached through a tunnel. -/
  dial : Option String

inductive Command
  | subscribe (filter : List Char)
  | unsubscribe (filter : List Char)
  | publish (topic : List Char) (payload : List UInt8) (qos : UInt8) (retain : Bool)
  | disconnect
  deriving DecidableEq

/-- What `MqttSession::publish_qos` sends to the thread. -/
def publish_qos (topic : List Char) (payload : List UInt8) (qos : UInt8) (retain : Bool) :
    Command :=
  .publish topic payload (min qos 1) retain

/-! ## What it asks of its world -/

inductive ReadError
  /-- Nothing came within the poll. -/
  | would_block
  | lost (error : String)
  deriving DecidableEq

inductive Call
  | connect (address : String)
  | write_all (bytes : List UInt8)
  /-- In nanoseconds. -/
  | now
  | try_recv
  | read
  deriving DecidableEq

def Answer : Call → Type
  | .connect _ | .write_all _ => Except String Unit
  | .now => ℕ
  | .try_recv => TryRecv Command
  | .read => Except ReadError (List UInt8)

/-- A part of the thread; it fails where the thread ends. -/
abbrev Talk (α : Type) : Type := Dialog Call Answer MqttEvent Unit α

abbrev Trace : Type := List (Dialog.Step Call Answer MqttEvent)

open Dialog (tell)

def ask (c : Call) : Talk (Answer c) := Dialog.ask c

/-- The connection is over. -/
def close {α : Type} : Talk α := do
  tell .closed
  .fail ()

def close_with {α : Type} (error : String) : Talk α := do
  tell (.error error)
  close

/-! ## Turns -/

/-- When something was last sent, and the next packet id. -/
structure Sending where
  last_sent : ℕ
  next_id : UInt16

/-- Wrapping past the last id, and never zero. -/
def id_after (id : UInt16) : UInt16 := max (id + 1) 1

/-- Commands first, so a publish feels immediate; at most so many. -/
def take_commands : ℕ → Sending → Talk Sending
  | 0, _ => .hang
  | commands + 1, s => do
    let command : TryRecv Command ← ask .try_recv
    match command with
    | .ok (.subscribe filter) => do
      let written : Except String Unit ← ask (.write_all (encode_subscribe s.next_id filter))
      match written with
      | .error _ => close_with "sending SUBSCRIBE failed"
      | .ok () => do
        let now : ℕ ← ask .now
        take_commands commands ⟨now, id_after s.next_id⟩
    | .ok (.unsubscribe filter) => do
      let _ ← ask (.write_all (encode_unsubscribe s.next_id filter))
      let now : ℕ ← ask .now
      take_commands commands ⟨now, id_after s.next_id⟩
    | .ok (.publish topic payload qos retain) => do
      let written : Except String Unit ←
        ask (.write_all (encode_publish_with topic payload qos retain s.next_id))
      match written with
      | .error error => tell (.error ("publishing: " ++ error))
      | .ok () => pure ()
      let now : ℕ ← ask .now
      take_commands commands ⟨now, if 0 < qos then id_after s.next_id else s.next_id⟩
    | .ok .disconnect | .disconnected => do
      let _ ← ask (.write_all encode_disconnect)
      close
    | .empty => pure s

/-- Handle one decoded packet. Returns false when the connection should end. -/
def handle_packet : Packet → Talk Bool
  | .conn_ack _ code =>
    if code ≠ 0 then do
      tell (.error ("broker refused the connection: " ++ refusal_reason code))
      pure false
    else do
      tell .connected
      pure true
  | .publish topic payload qos retain packet_id => do
    -- Acknowledge so the broker stops retrying.
    if qos = 1 then
      let _ ← ask (.write_all (encode_puback packet_id))
      tell (.message topic payload qos retain)
      pure true
    else
      tell (.message topic payload qos retain)
      pure true
  | .sub_ack _ | .ping_resp | .other _ => pure true

/-- The packets that are whole; what is left of the buffer. -/
def read_packets (buffer : List UInt8) : Talk (List UInt8) :=
  match _h : decode buffer with
  | .error error => close_with ("bad packet: " ++ error)
  | .ok none => pure buffer
  | .ok (some (packet, used)) => do
    if ← handle_packet packet then read_packets (buffer.drop used) else close
termination_by buffer.length
decreasing_by
  have := decode_used _h
  rw [List.length_drop]
  omega

/-- What the broker sent. -/
def read_broker (buffer : List UInt8) : Talk (List UInt8) := do
  let chunk : Except ReadError (List UInt8) ← ask .read
  match chunk with
  | .ok [] => close
  | .ok (b :: chunk) => read_packets (buffer ++ b :: chunk)
  | .error .would_block => pure buffer
  | .error (.lost error) => close_with ("reading from the broker: " ++ error)

/-- A ping, when half the keep-alive went by since something was sent. -/
def keep_alive_ping (keep_alive : ℕ) (s : Sending) : Talk Sending := do
  let now : ℕ ← ask .now
  if keep_alive / 2 ≤ now - s.last_sent then do
    let written : Except String Unit ← ask (.write_all encode_pingreq)
    match written with
    | .error _ => close_with "keep-alive failed"
    | .ok () => do
      let now : ℕ ← ask .now
      pure { s with last_sent := now }
  else pure s

def MqttOptions.keep_alive (options : MqttOptions) : ℕ :=
  (max options.keep_alive_s 5).toNat * 1000000000

def turn (commands : ℕ) (options : MqttOptions) (s : Sending) (buffer : List UInt8) :
    Talk (Sending × List UInt8) := do
  let s ← take_commands commands s
  let buffer ← read_broker buffer
  let s ← keep_alive_ping options.keep_alive s
  pure (s, buffer)

def turns (commands : ℕ) (options : MqttOptions) : ℕ → Sending → List UInt8 → Talk Unit
  | 0, _, _ => .hang
  | n + 1, s, buffer => do
    let next ← turn commands options s buffer
    turns commands options n next.1 next.2

/-- A tunnelled broker is dialled on loopback. -/
def MqttOptions.address (options : MqttOptions) : String :=
  options.dial.getD s!"{options.host}:{options.port}"

def MqttOptions.hello (options : MqttOptions) : List UInt8 :=
  encode_connect options.client_id options.keep_alive_s options.username options.password

/-- The client thread, for so many turns. -/
def run (commands n : ℕ) (options : MqttOptions) : Talk Unit := do
  let dialled : Except String Unit ← ask (.connect options.address)
  match dialled with
  | .error error => do
    tell (.error s!"connecting to {options.host}:{options.port}: {error}")
    .fail ()
  | .ok () => do
    let written : Except String Unit ← ask (.write_all options.hello)
    match written with
    | .error error => do
      tell (.error ("sending CONNECT: " ++ error))
      .fail ()
    | .ok () => do
      let now : ℕ ← ask .now
      turns commands options n ⟨now, 1⟩ []

end WaSSH.Mqtt.Session
