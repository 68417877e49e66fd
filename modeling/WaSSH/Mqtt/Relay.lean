import WaSSH.Mqtt.Session
import WaSSH.Mqtt.Waiting

/-!
# What an MQTT client relays

The packets of the view's commands, the answers to the broker's messages and the pings share one
connection, and what the broker says comes in chunks that end anywhere.

* `asked`, `acks`, `news`: what is written for the view, what answers messages, and what the view is
  told; `taken`, `received`: what came from the view and from the broker;
* `packets`: the packets of a list of commands, with the ids counted;
* `Relaying`: the thread between two steps; `Ends`: how it ends;
* **`session_relays`**: each command is written once, in order, with the next id; each message is
  told once and answered once, in order; the end is told last.
-/

namespace WaSSH.Mqtt.Session

open Dialog Framed
open Files (TryRecv)

/-! ## What goes over the connection -/

abbrev Step : Type := Dialog.Step Call Answer MqttEvent

/-- What a step writes, or tries to. -/
def written? : Step → Option (List UInt8)
  | .called (.write_all bytes) _ | .unanswered (.write_all bytes) => some bytes
  | _ => none

def writes (t : Trace) : List (List UInt8) := t.filterMap written?

/-- The kind of packet that the first byte says. -/
def kind (packet : List UInt8) : Option UInt8 :=
  packet.head?.map fun header : UInt8 => header >>> (4 : UInt8)

def acks (t : Trace) : List (List UInt8) := (writes t).filter fun packet => kind packet = some 4

/-- What is written, apart from answers to messages and pings. -/
def asked (t : Trace) : List (List UInt8) :=
  (writes t).filter fun packet => kind packet ≠ some 4 ∧ kind packet ≠ some 12

/-- A view that is gone asks to disconnect. -/
def command_of : TryRecv Command → Option Command
  | .ok command => some command
  | .disconnected => some .disconnect
  | .empty => none

def taken? : Step → Option Command
  | .called .try_recv answer => command_of answer
  | _ => none

def taken (t : Trace) : List Command := t.filterMap taken?

def received? : Step → List UInt8
  | .called .read (.ok chunk) => chunk
  | _ => []

def received (t : Trace) : List UInt8 := t.flatMap received?

def is_news : MqttEvent → Bool
  | .connected | .message _ _ _ _ => true
  | .error _ | .closed => false

def news (t : Trace) : List MqttEvent := (said t).filter is_news

/-! ## What there is to relay -/

/-- The id of the packet that `k` packets with an id came before. -/
def id_of (k : ℕ) : UInt16 := UInt16.ofNat (k % 65535 + 1)

namespace Command

def takes_id : Command → Bool
  | .subscribe _ | .unsubscribe _ => true
  | .publish _ _ qos _ => 0 < qos
  | .disconnect => false

def packet (id : UInt16) : Command → List UInt8
  | .subscribe filter => encode_subscribe id filter
  | .unsubscribe filter => encode_unsubscribe id filter
  | .publish topic payload qos retain => encode_publish_with topic payload qos retain id
  | .disconnect => encode_disconnect

end Command

/-- The packets of these commands, after `k` packets with an id. -/
def packets : ℕ → List Command → List (List UInt8)
  | _, [] => []
  | k, c :: cs => c.packet (id_of k) :: packets (if c.takes_id then k + 1 else k) cs

/-- What the view is told of a packet. -/
def told : Packet → List MqttEvent
  | .conn_ack _ code => if code = 0 then [.connected] else []
  | .publish topic payload qos retain _ => [.message topic payload qos retain]
  | .sub_ack _ | .ping_resp | .other _ => []

/-- What answers a packet. -/
def answered : Packet → List (List UInt8)
  | .publish _ _ qos _ packet_id => if qos = 1 then [encode_puback packet_id] else []
  | _ => []

/-- The packets handled of what was received. -/
def read_all (t : Trace) : List Packet := (drain decoder handle .new (received t)).1.packets

/-! ## Ids -/

theorem id_after_id_of (k : ℕ) : id_after (id_of k) = id_of (k + 1) := by
  have hlt : k % 65535 < 65535 := Nat.mod_lt _ (by omega)
  have hid (n : ℕ) : (id_of n).toNat = n % 65535 + 1 := by
    rw [id_of, UInt16.toNat_ofNat']
    omega
  change (if id_of k + 1 ≤ 1 then 1 else id_of k + 1) = _
  split
  next hle =>
    have hle' := UInt16.le_iff_toNat_le.mp hle
    apply UInt16.toNat_inj.mp
    rw [UInt16.toNat_add, hid] at hle'
    rw [hid]
    simp at hle' ⊢
    omega
  next hgt =>
    apply UInt16.toNat_inj.mp
    have hgt' := mt UInt16.le_iff_toNat_le.mpr hgt
    rw [UInt16.toNat_add, hid] at hgt' ⊢
    rw [hid]
    simp at hgt' ⊢
    omega

theorem packets_append (k : ℕ) (cs ds : List Command) :
    packets k (cs ++ ds) = packets k cs ++ packets (k + cs.countP Command.takes_id) ds := by
  induction cs generalizing k with
  | nil => simp [packets]
  | cons c cs ih =>
    simp only [List.cons_append, packets, ih, List.countP_cons]
    split <;> simp [Nat.add_comm, Nat.add_left_comm]

/-! ## Steps -/

section Steps

variable (t t' : Trace)

@[simp] theorem asked_append : asked (t ++ t') = asked t ++ asked t' := by
  simp [asked, writes]

@[simp] theorem acks_append : acks (t ++ t') = acks t ++ acks t' := by
  simp [acks, writes]

@[simp] theorem taken_append : taken (t ++ t') = taken t ++ taken t' := List.filterMap_append

@[simp] theorem received_append : received (t ++ t') = received t ++ received t' :=
  List.flatMap_append

@[simp] theorem news_append : news (t ++ t') = news t ++ news t' := by
  simp [news]

end Steps

/-- A step that is not part of what is relayed. -/
structure Quiet (step : Step) : Prop where
  asked : asked [step] = []
  acks : acks [step] = []
  taken : taken [step] = []
  received : received [step] = []
  news : news [step] = []
  closed : .closed ∉ said [step]

theorem quiet_now (now : Answer .now) : Quiet (.called .now now) :=
  ⟨rfl, rfl, rfl, rfl, rfl, List.not_mem_nil⟩

theorem quiet_error (error : String) : Quiet (.said (.error error)) :=
  ⟨rfl, rfl, rfl, rfl, rfl, by simp⟩

theorem quiet_pinged (written : Answer (.write_all encode_pingreq)) :
    Quiet (.called (.write_all encode_pingreq) written) :=
  ⟨rfl, rfl, rfl, rfl, rfl, List.not_mem_nil⟩

theorem quiet_pinging : Quiet (.unanswered (.write_all encode_pingreq)) :=
  ⟨rfl, rfl, rfl, rfl, rfl, List.not_mem_nil⟩

theorem quiet_unanswered {call : Call} (h : ∀ bytes, call ≠ .write_all bytes) :
    Quiet (.unanswered call) := by
  cases call with
  | write_all bytes => exact absurd rfl (h bytes)
  | connect address => exact ⟨rfl, rfl, rfl, rfl, rfl, List.not_mem_nil⟩
  | now => exact ⟨rfl, rfl, rfl, rfl, rfl, List.not_mem_nil⟩
  | try_recv => exact ⟨rfl, rfl, rfl, rfl, rfl, List.not_mem_nil⟩
  | read => exact ⟨rfl, rfl, rfl, rfl, rfl, List.not_mem_nil⟩

theorem kind_packet (id : UInt16) (c : Command) :
    kind (c.packet id) ≠ some 4 ∧ kind (c.packet id) ≠ some 12 := by
  cases c with
  | publish topic payload qos retain =>
    have hkind := (publish_header_kind qos retain).1
    have h : kind (Command.packet id (.publish topic payload qos retain)) = some 3 :=
      congrArg some hkind
    rw [h]
    decide
  | subscribe filter =>
    have h : kind (Command.packet id (.subscribe filter)) = some 8 := rfl
    rw [h]
    decide
  | unsubscribe filter =>
    have h : kind (Command.packet id (.unsubscribe filter)) = some 10 := rfl
    rw [h]
    decide
  | disconnect =>
    have h : kind (Command.packet id .disconnect) = some 14 := rfl
    rw [h]
    decide

/-! ## Between two steps -/

section Invariant

variable (options : MqttOptions)

/-- What the thread wrote and told for these packets. -/
structure Told (t : Trace) (id : UInt16) (ps : List Packet) : Prop where
  asked : asked t = options.hello :: packets 0 (taken t)
  id : id = id_of ((taken t).countP Command.takes_id)
  news : news t = ps.flatMap told
  acks : acks t = ps.flatMap answered
  still_open : .closed ∉ said t

/-- The thread between two steps: all packets that are whole are handled. -/
def Relaying (t : Trace) (id : UInt16) (buffer : List UInt8) : Prop :=
  ∃ c : Client, Told options t id c.packets ∧
    drain decoder handle .new (received t) = (c, .waiting buffer)

/-- The world still owes an answer to a write. -/
def Writing (t : Trace) : Prop := ∃ bytes, t.getLast? = some (.unanswered (.write_all bytes))

/-- The thread at its end, or as far as its world lets it come. -/
structure Ends (t : Trace) (ended : Option Unit) : Prop where
  asked : asked t = options.hello :: packets 0 (taken t)
  news : news t <+: (read_all t).flatMap told
  acks : acks t <+: (read_all t).flatMap answered
  all : ¬ Writing t →
    Session.news t = (read_all t).flatMap told ∧ Session.acks t = (read_all t).flatMap answered
  closed : ended = some () → ∃ es, said t = es ++ [.closed] ∧ .closed ∉ es
  still_open : ended = none → .closed ∉ said t

end Invariant

variable {options : MqttOptions} {t : Trace} {id : UInt16} {ps : List Packet}
  {buffer : List UInt8} {step : Step}

/-- More steps, in which these packets are told of and answered. -/
theorem Told.append (h : Told options t id ps) (steps : Trace) (qs : List Packet)
    (hasked : Session.asked steps = []) (htaken : taken steps = [])
    (hnews : Session.news steps = qs.flatMap told)
    (hacks : Session.acks steps = qs.flatMap answered) (hopen : .closed ∉ said steps) :
    Told options (t ++ steps) id (ps ++ qs) where
  asked := by rw [asked_append, taken_append, hasked, htaken, List.append_nil, List.append_nil,
    h.asked]
  id := by rw [taken_append, htaken, List.append_nil, ← h.id]
  news := by rw [news_append, h.news, hnews, List.flatMap_append]
  acks := by rw [acks_append, h.acks, hacks, List.flatMap_append]
  still_open := by
    rw [said_append, List.mem_append]
    exact not_or.mpr ⟨h.still_open, hopen⟩

theorem Told.quiet (h : Told options t id ps) (hq : Quiet step) :
    Told options (t ++ [step]) id ps := by
  have := h.append [step] [] hq.asked hq.taken hq.news hq.acks hq.closed
  rwa [List.append_nil] at this

theorem Relaying.quiet (h : Relaying options t id buffer) (hq : Quiet step) :
    Relaying options (t ++ [step]) id buffer := by
  obtain ⟨c, htold, hread⟩ := h
  exact ⟨c, htold.quiet hq, by rw [received_append, hq.received, List.append_nil, hread]⟩

/-- A thread that stops here for good. -/
theorem Told.hangs (h : Told options t id ps) (hps : ps = read_all t) : Ends options t none where
  asked := h.asked
  news := by rw [h.news, hps]
  acks := by rw [h.acks, hps]
  all := fun _ => ⟨by rw [h.news, hps], by rw [h.acks, hps]⟩
  closed := by rintro ⟨⟩
  still_open := fun _ => h.still_open

theorem Told.closes (h : Told options t id ps) (hps : ps = read_all t) :
    Ends options (t ++ [.said .closed]) (some ()) := by
  have hread : read_all (t ++ [.said .closed]) = ps := by
    rw [hps, read_all, received_append]
    simp [read_all, received, received?]
  have hnews : Session.news (t ++ [.said .closed]) = ps.flatMap told := by
    rw [news_append, h.news]
    simp [Session.news, is_news]
  have hacks : Session.acks (t ++ [.said .closed]) = ps.flatMap answered := by
    rw [acks_append, h.acks]
    simp [Session.acks, writes, written?]
  refine ⟨?_, ?_, ?_, fun _ => ⟨?_, ?_⟩, fun _ => ⟨said t, ?_, h.still_open⟩, ?_⟩
  · have hasked : Session.asked [(.said .closed : Step)] = [] := rfl
    have htaken : taken [(.said .closed : Step)] = [] := rfl
    rw [asked_append, taken_append, hasked, htaken, List.append_nil, List.append_nil, h.asked]
  · rw [hnews, hread]
  · rw [hacks, hread]
  · rw [hnews, hread]
  · rw [hacks, hread]
  · simp
  · rintro ⟨⟩

theorem Told.closes_with (h : Told options t id ps) (hps : ps = read_all t) (error : String) :
    Ends options (t ++ [.said (.error error)] ++ [.said .closed]) (some ()) := by
  refine (h.quiet (quiet_error error)).closes ?_
  rw [hps, read_all, read_all, received_append, (quiet_error error).received, List.append_nil]

theorem Relaying.read_all (h : Relaying options t id buffer) :
    ∃ c : Client, Told options t id c.packets ∧ c.packets = read_all t := by
  obtain ⟨c, htold, hread⟩ := h
  exact ⟨c, htold, by rw [Session.read_all, hread]⟩

theorem Relaying.hangs (h : Relaying options t id buffer) : Ends options t none := by
  obtain ⟨c, htold, hps⟩ := h.read_all
  exact htold.hangs hps

theorem Relaying.unanswered (h : Relaying options t id buffer) {call : Call}
    (hcall : ∀ bytes, call ≠ .write_all bytes) : Ends options (t ++ [.unanswered call]) none :=
  (h.quiet (quiet_unanswered hcall)).hangs

theorem Relaying.closes (h : Relaying options t id buffer) :
    Ends options (t ++ [.said .closed]) (some ()) := by
  obtain ⟨c, htold, hps⟩ := h.read_all
  exact htold.closes hps

theorem Relaying.closes_with (h : Relaying options t id buffer) (error : String) :
    Ends options (t ++ [.said (.error error)] ++ [.said .closed]) (some ()) := by
  obtain ⟨c, htold, hps⟩ := h.read_all
  exact htold.closes_with hps error

/-! ## The parts of a turn -/

/-- A command is taken and its packet is written. -/
theorem Relaying.sends (h : Relaying options t id buffer) {answer : TryRecv Command} {c : Command}
    (hc : command_of answer = some c) {step : Step} (hw : written? step = some (c.packet id))
    (ht : taken? step = none) (hr : received? step = []) (hs : step.said? = none) :
    Relaying options (t ++ [.called .try_recv answer] ++ [step])
      (if c.takes_id then id_after id else id) buffer := by
  obtain ⟨d, htold, hread⟩ := h
  have htook : taken? (.called .try_recv answer) = some c := hc
  have htaken : taken (t ++ [.called .try_recv answer] ++ [step]) = taken t ++ [c] := by
    rw [taken_append, taken_append]
    simp only [taken, List.filterMap_cons, htook, ht, List.filterMap_nil, List.append_nil]
  have hwritten : writes [step] = [c.packet id] := by simp [writes, hw]
  have hreceived : received (t ++ [.called .try_recv answer] ++ [step]) = received t := by
    have hnone : received [(.called .try_recv answer : Step)] = [] := rfl
    rw [received_append, received_append, hnone]
    simp only [received, List.flatMap_cons, hr, List.flatMap_nil, List.append_nil]
  have hsaid : said (t ++ [.called .try_recv answer] ++ [step]) = said t := by
    have hnone : said [(.called .try_recv answer : Step)] = [] := rfl
    rw [said_append, said_append, hnone]
    simp only [said, List.filterMap_cons, hs, List.filterMap_nil, List.append_nil]
  obtain ⟨hack, hping⟩ := kind_packet id c
  refine ⟨d, ⟨?_, ?_, ?_, ?_, ?_⟩, by rw [hreceived, hread]⟩
  · have hasked : asked [step] = [c.packet id] := by simp [asked, hwritten, hack, hping]
    have hnone : asked [(.called .try_recv answer : Step)] = [] := rfl
    rw [asked_append, asked_append, hasked, hnone, List.append_nil, htaken, packets_append,
      htold.asked, List.cons_append, zero_add, htold.id]
    simp [packets]
  · rw [htaken, List.countP_append, htold.id]
    by_cases hid : c.takes_id
    · simp [hid, id_after_id_of]
    · simp [hid]
  · rw [news, hsaid]
    exact htold.news
  · have hacks : acks [step] = [] := by simp [acks, hwritten, hack]
    have hnone : acks [(.called .try_recv answer : Step)] = [] := rfl
    rw [acks_append, acks_append, hacks, hnone, List.append_nil, List.append_nil, htold.acks]
  · rw [hsaid]
    exact htold.still_open

theorem meets_stamp {α : Type} {R : Trace → α → Prop} {k : ℕ → Talk α}
    (h : Relaying options t id buffer)
    (hk : ∀ now : ℕ, Relaying options (t ++ [.called .now now]) id buffer →
      Meets R (Ends options) (t ++ [.called .now now]) (k now)) :
    Meets R (Ends options) t (ask .now >>= k) :=
  meets_asked.mpr ⟨h.unanswered fun _ => Call.noConfusion, fun now =>
    hk now (h.quiet (quiet_now now))⟩

theorem meets_take_commands (commands : ℕ) {s : Sending}
    (h : Relaying options t s.next_id buffer) :
    Meets (fun t s => Relaying options t s.next_id buffer) (Ends options) t
      (take_commands commands s) := by
  induction commands generalizing t s with
  | zero => exact h.hangs
  | succ commands ih =>
    refine meets_asked.mpr ⟨h.unanswered fun _ => Call.noConfusion, fun command => ?_⟩
    have hwrites {c : Command} (hc : command_of command = some c) :
        Ends options (t ++ [.called .try_recv command] ++
          [.unanswered (.write_all (c.packet s.next_id))]) none :=
      (h.sends hc rfl rfl rfl rfl).hangs
    have hsends {c : Command} (hc : command_of command = some c) (written) :
        Relaying options (t ++ [.called .try_recv command] ++
          [.called (.write_all (c.packet s.next_id)) written])
          (if c.takes_id then id_after s.next_id else s.next_id) buffer :=
      h.sends hc rfl rfl rfl rfl
    rcases command with (filter | filter | ⟨topic, payload, qos, retain⟩ | _) | _ | _
    · refine meets_asked.mpr ⟨hwrites (c := .subscribe filter) rfl, fun written => ?_⟩
      have hsent := hsends (c := .subscribe filter) rfl written
      cases written with
      | error error => exact hsent.closes_with _
      | ok done => exact meets_stamp hsent fun now hnow => ih hnow
    · refine meets_asked.mpr ⟨hwrites (c := .unsubscribe filter) rfl, fun written => ?_⟩
      exact meets_stamp (hsends (c := .unsubscribe filter) rfl written) fun now hnow => ih hnow
    · refine meets_asked.mpr ⟨hwrites (c := .publish topic payload qos retain) rfl,
        fun written => ?_⟩
      have hsent := hsends (c := .publish topic payload qos retain) rfl written
      simp only [Command.takes_id, decide_eq_true_eq] at hsent
      cases written with
      | error error =>
        exact meets_stamp (hsent.quiet (quiet_error _)) fun now hnow => ih hnow
      | ok done => exact meets_stamp hsent fun now hnow => ih hnow
    · refine meets_asked.mpr ⟨hwrites (c := .disconnect) rfl, fun written => ?_⟩
      exact (hsends (c := .disconnect) rfl written).closes
    · exact h.quiet ⟨rfl, rfl, rfl, rfl, rfl, List.not_mem_nil⟩
    · refine meets_asked.mpr ⟨hwrites (c := .disconnect) rfl, fun written => ?_⟩
      exact (hsends (c := .disconnect) rfl written).closes

/-- The answer to a message may be the last thing that is tried. -/
theorem Told.hangs_acking (h : Told options t id ps) {topic : List Char} {payload : List UInt8}
    {retain : Bool} {packet_id : UInt16}
    (hps : ps ++ [.publish topic payload 1 retain packet_id] <+: read_all t) :
    Ends options (t ++ [.unanswered (.write_all (encode_puback packet_id))]) none := by
  have hnone : received [(.unanswered (.write_all (encode_puback packet_id)) : Step)] = [] := rfl
  have hread : read_all (t ++ [.unanswered (.write_all (encode_puback packet_id))]) =
      read_all t := by
    rw [read_all, received_append, hnone, List.append_nil, read_all]
  obtain ⟨more, hmore⟩ := hps
  refine ⟨?_, ?_, ?_, fun hdone => ?_, ?_, fun _ => ?_⟩
  · have hasked : Session.asked [(.unanswered (.write_all (encode_puback packet_id)) : Step)] = [] :=
      rfl
    have htaken : taken [(.unanswered (.write_all (encode_puback packet_id)) : Step)] = [] := rfl
    rw [asked_append, taken_append, hasked, htaken, List.append_nil, List.append_nil, h.asked]
  · have hnews : Session.news [(.unanswered (.write_all (encode_puback packet_id)) : Step)] = [] :=
      rfl
    rw [hread, ← hmore, news_append, hnews, List.append_nil, h.news, List.append_assoc,
      List.flatMap_append]
    exact List.prefix_append _ _
  · rw [hread, ← hmore, acks_append, h.acks, List.flatMap_append, List.flatMap_append]
    exact List.prefix_append _ _
  · exact absurd ⟨_, List.getLast?_concat⟩ hdone
  · rintro ⟨⟩
  · rw [said_append, List.mem_append]
    exact not_or.mpr ⟨h.still_open, List.not_mem_nil⟩

theorem meets_handle_packet {p : Packet} (h : Told options t id ps)
    (hps : ps ++ [p] <+: read_all t) :
    Meets (fun t' go => go = p.accepted ∧ received t' = received t ∧
        Told options t' id (ps ++ [p])) (Ends options) t (handle_packet p) := by
  have hhere (hnews : told p = []) (hacks : answered p = []) : Told options t id (ps ++ [p]) := by
    have := h.append [] [p] rfl rfl (by simp [hnews, Session.news])
      (by simp [hacks, Session.acks, writes]) List.not_mem_nil
    rwa [List.append_nil] at this
  cases p with
  | conn_ack present code =>
    rw [handle_packet]
    by_cases hcode : code = 0
    · rw [if_neg (not_not.mpr hcode)]
      refine ⟨by simp [Packet.accepted, hcode], by simp [received, received?], ?_⟩
      exact h.append _ [.conn_ack present code] rfl rfl (by simp [told, hcode]; rfl) rfl
        (by simp)
    · rw [if_pos hcode]
      refine ⟨by simp [Packet.accepted, hcode], by simp [received, received?], ?_⟩
      exact h.append _ [.conn_ack present code] rfl rfl (by simp [told, hcode]; rfl) rfl
        (by simp)
  | publish topic payload qos retain packet_id =>
    rw [handle_packet]
    by_cases hqos : qos = 1
    · rw [if_pos hqos]
      subst hqos
      refine meets_asked.mpr ⟨?_, fun written => ⟨rfl, ?_, ?_⟩⟩
      · exact h.hangs_acking hps
      · rw [received_append, received_append]
        exact (List.append_nil _).trans (List.append_nil _)
      · rw [List.append_assoc]
        exact h.append _ [.publish topic payload 1 retain packet_id] rfl rfl rfl rfl (by simp)
    · rw [if_neg hqos]
      refine ⟨rfl, by simp [received, received?], ?_⟩
      exact h.append _ [.publish topic payload qos retain packet_id] rfl rfl rfl
        (by simp [answered, hqos]; rfl) (by simp)
  | sub_ack packet_id => exact ⟨rfl, rfl, hhere rfl rfl⟩
  | ping_resp => exact ⟨rfl, rfl, hhere rfl rfl⟩
  | other kind => exact ⟨rfl, rfl, hhere rfl rfl⟩

/-- A packet that is whole is among those handled. -/
theorem prefix_drain_packet (c : Client) {p : Packet} {used : ℕ}
    (hd : decode buffer = .ok (some (p, used))) :
    c.packets ++ [p] <+: (drain decoder handle c buffer).1.packets := by
  rw [← handle_packets c p]
  rcases hs : handle c p with ⟨d, go⟩
  cases go
  · rw [drain_stop (D := decoder) hd hs]
  · rw [drain_packet (D := decoder) hd hs]
    exact packets_prefix_drain d _

theorem meets_read_packets {c : Client} (h : Told options t id c.packets)
    (hread : drain decoder handle .new (received t) = drain decoder handle c buffer) :
    Meets (fun t buffer => Relaying options t id buffer) (Ends options) t
      (read_packets buffer) := by
  induction hlen : buffer.length using Nat.strong_induction_on generalizing t buffer c with
  | _ _ ih =>
    rw [read_packets]
    split
    next error hd =>
      have hdrain := hread.trans (drain_error (D := decoder) hd)
      exact h.closes_with (by rw [read_all, hdrain]) _
    next hd =>
      exact ⟨c, h, hread.trans (drain_none (D := decoder) hd)⟩
    next p used hd =>
      have hused := decode_used hd
      have hps : c.packets ++ [p] <+: read_all t := by
        rw [read_all, hread]
        exact prefix_drain_packet c hd
      rw [meets_bind]
      refine (meets_handle_packet h hps).mono ?_
      rintro t' go ⟨rfl, hreceived, htold⟩
      rw [← handle_packets c p] at htold
      have hgoes := handle_accepted c p
      rcases hs : handle c p with ⟨d, go⟩
      rw [hs] at htold hgoes
      change go = p.accepted at hgoes
      rw [← hgoes]
      cases go
      · have hdrain := hread.trans (drain_stop (D := decoder) hd hs)
        exact htold.closes (by rw [read_all, hreceived, hdrain])
      · refine ih _ ?_ htold ?_ rfl
        · rw [List.length_drop]
          omega
        · rw [hreceived, hread, drain_packet (D := decoder) hd hs]

theorem meets_read_broker (h : Relaying options t id buffer) :
    Meets (fun t buffer => Relaying options t id buffer) (Ends options) t (read_broker buffer) := by
  refine meets_asked.mpr ⟨h.unanswered fun _ => Call.noConfusion, fun chunk => ?_⟩
  have hquiet (hnone : received [(.called .read chunk : Step)] = []) :
      Relaying options (t ++ [.called .read chunk]) id buffer :=
    h.quiet ⟨rfl, rfl, rfl, hnone, rfl, List.not_mem_nil⟩
  rcases chunk with (_ | error) | (_ | ⟨b, chunk⟩)
  · exact hquiet rfl
  · exact (hquiet rfl).closes_with _
  · exact (hquiet rfl).closes
  · obtain ⟨c, htold, hread⟩ := h
    have hstep : Told options (t ++ [.called .read (.ok (b :: chunk))]) id (c.packets ++ []) :=
      htold.append _ _ rfl rfl rfl rfl List.not_mem_nil
    rw [List.append_nil] at hstep
    refine meets_read_packets hstep ?_
    have hchunk : received [(.called .read (.ok (b :: chunk)) : Step)] = b :: chunk :=
      List.append_nil _
    rw [received_append, hchunk, drain_append, hread]
    rfl

theorem meets_keep_alive_ping (keep_alive : ℕ) {s : Sending}
    (h : Relaying options t s.next_id buffer) :
    Meets (fun t s => Relaying options t s.next_id buffer) (Ends options) t
      (keep_alive_ping keep_alive s) := by
  refine meets_stamp h fun now hnow => ?_
  by_cases hdue : keep_alive / 2 ≤ now - s.last_sent
  · rw [if_pos hdue]
    refine meets_asked.mpr ⟨(hnow.quiet quiet_pinging).hangs, fun written => ?_⟩
    have hpinged := hnow.quiet (quiet_pinged written)
    cases written with
    | error error => exact hpinged.closes_with _
    | ok done => exact meets_stamp hpinged fun later hlater => hlater
  · rw [if_neg hdue]
    exact hnow

theorem meets_turn (commands : ℕ) {s : Sending} (h : Relaying options t s.next_id buffer) :
    Meets (fun t next => Relaying options t next.1.next_id next.2) (Ends options) t
      (turn commands options s buffer) := by
  rw [turn, meets_bind]
  refine (meets_take_commands commands h).mono fun t s h => ?_
  rw [meets_bind]
  refine (meets_read_broker h).mono fun t buffer h => ?_
  rw [meets_bind]
  exact (meets_keep_alive_ping _ h).mono fun t s h => h

theorem meets_turns (commands n : ℕ) {s : Sending} (h : Relaying options t s.next_id buffer) :
    Meets (fun _ _ => False) (Ends options) t (turns commands options n s buffer) := by
  induction n generalizing t s buffer with
  | zero => exact h.hangs
  | succ n ih =>
    rw [turns, meets_bind]
    exact (meets_turn commands h).mono fun t next h => ih h

/-! ## A whole run -/

/-- The broker was reached, and `CONNECT` was sent. -/
def Connected (options : MqttOptions) (t : Trace) : Prop :=
  [.called (.connect options.address) (.ok ()), .called (.write_all options.hello) (.ok ())] <+: t

theorem relaying_start : Relaying options
    [.called (.connect options.address) (.ok ()), .called (.write_all options.hello) (.ok ())] 1
    [] :=
  ⟨.new, ⟨rfl, rfl, rfl, rfl, List.not_mem_nil⟩, drain_none (D := decoder) rfl⟩

theorem meets_run (commands n : ℕ) :
    Meets (fun _ _ => False) (fun t ended => Connected options t → Ends options t ended) []
      (run commands n options) := by
  refine meets_asked.mpr ⟨fun hup => ?_, fun dialled => ?_⟩
  · cases (List.cons_prefix_cons.mp hup).1
  cases dialled with
  | error error =>
    intro hup
    cases (List.cons_prefix_cons.mp hup).1
  | ok done =>
    refine meets_asked.mpr ⟨fun hup => ?_, fun written => ?_⟩
    · cases (List.cons_prefix_cons.mp (List.cons_prefix_cons.mp hup).2).1
    cases written with
    | error error =>
      intro hup
      cases (List.cons_prefix_cons.mp (List.cons_prefix_cons.mp hup).2).1
    | ok done =>
      have hturns := meets_stamp (k := fun now => turns commands options n ⟨now, 1⟩ [])
        relaying_start fun now h => meets_turns commands n h
      exact hturns.mono_ends fun t e h _ => h

theorem run_ends {commands n : ℕ} {o : Outcome Unit Unit}
    (h : (run commands n options).Runs t o) (hup : Connected options t) :
    (o = .failed () ∧ Ends options t (some ())) ∨ (o = .hung ∧ Ends options t none) := by
  have hends := (meets_run commands n).run h
  cases o with
  | returned a => exact hends.elim
  | failed e => exact .inl ⟨rfl, hends hup⟩
  | hung => exact .inr ⟨rfl, hends hup⟩

theorem packets_drain_mono {b b' : List UInt8} (h : b <+: b') :
    (drain decoder handle .new b).1.packets <+: (drain decoder handle .new b').1.packets := by
  obtain ⟨more, rfl⟩ := h
  rw [drain_append]
  rcases drain decoder handle .new b with ⟨c, buffer | error | _⟩
  · exact packets_prefix_drain c _
  · exact List.prefix_rfl
  · exact List.prefix_rfl

/-- The packets a broker is read for. -/
def heard (sent : List Sent) : List Packet := until_refusal (sent.map Sent.view)

/-- **A session relays**: once the broker is reached, each command of the view is one packet, in
order, and those that need an id are counted through `1` to `65535` and over again; each message of
the broker is told once and each message of QoS 1 answered once, in order, as soon as they are
whole; and the end is told once, last, when the thread is done. -/
theorem session_relays {commands n : ℕ} {o : Outcome Unit Unit} {sent : List Sent}
    (h : (run commands n options).Runs t o) (hup : Connected options t)
    (hsent : ∀ p ∈ sent, p.WellFormed) (hbroker : received t <+: sent.flatMap Sent.encode) :
    asked t = options.hello :: packets 0 (taken t) ∧
      (news t <+: (heard sent).flatMap told ∧ acks t <+: (heard sent).flatMap answered) ∧
      (received t = sent.flatMap Sent.encode → ¬ Writing t →
        news t = (heard sent).flatMap told ∧ acks t = (heard sent).flatMap answered) ∧
      (o = .failed () ∧ (∃ es, said t = es ++ [.closed] ∧ .closed ∉ es) ∨
        o = .hung ∧ .closed ∉ said t) := by
  obtain ⟨ended, hends, hend⟩ : ∃ ended, Ends options t ended ∧
      (o = .failed () ∧ ended = some () ∨ o = .hung ∧ ended = none) := by
    obtain ⟨rfl, hends⟩ | ⟨rfl, hends⟩ := run_ends h hup
    · exact ⟨_, hends, .inl ⟨rfl, rfl⟩⟩
    · exact ⟨_, hends, .inr ⟨rfl, rfl⟩⟩
  have hread : read_all t <+: heard sent := by
    rw [heard, ← (drain_sent sent hsent).1]
    exact packets_drain_mono hbroker
  refine ⟨hends.asked, ⟨?_, ?_⟩, fun hall hdone => ?_, ?_⟩
  · obtain ⟨more, hmore⟩ := hread
    rw [← hmore, List.flatMap_append]
    exact hends.news.trans (List.prefix_append _ _)
  · obtain ⟨more, hmore⟩ := hread
    rw [← hmore, List.flatMap_append]
    exact hends.acks.trans (List.prefix_append _ _)
  · have heq : read_all t = heard sent := by rw [read_all, hall, (drain_sent sent hsent).1, heard]
    rw [← heq]
    exact hends.all hdone
  · obtain ⟨rfl, rfl⟩ | ⟨rfl, rfl⟩ := hend
    · exact .inl ⟨rfl, hends.closed rfl⟩
    · exact .inr ⟨rfl, hends.still_open rfl⟩

/-! ## A visit -/

def broker : MqttOptions where
  host := "broker"
  port := 1883
  client_id := ['w']
  username := none
  password := none
  keep_alive_s := 30
  dial := none

/-- The broker accepts the client and has a message for it. -/
def greeting : List Sent := [.conn_ack false 0, .publish ['t'] [1] 1 false 7]

/-- The view subscribes, and the broker greets. -/
def visit : Trace :=
  [.called (.connect broker.address) (.ok ()), .called (.write_all broker.hello) (.ok ()),
    .called .now (0 : ℕ), .called .try_recv (.ok (.subscribe ['#'])),
    .called (.write_all (encode_subscribe 1 ['#'])) (.ok ()), .called .now (1 : ℕ),
    .called .try_recv .empty, .called .read (.ok (greeting.flatMap Sent.encode)),
    .said .connected, .called (.write_all (encode_puback 7)) (.ok ()),
    .said (.message ['t'] [1] 1 false), .called .now (2 : ℕ)]

/-- A whole packet is handled before what follows it. -/
theorem read_packets_sent {p : Sent} (hp : p.WellFormed) (rest : List UInt8) :
    read_packets (p.encode ++ rest) = handle_packet p.view >>= fun go =>
      if go then read_packets rest else close := by
  have hd := decode_sent p hp rest
  rw [read_packets]
  split
  next error h => cases h.symm.trans hd
  next h => cases h.symm.trans hd
  next packet used h =>
    cases h.symm.trans hd
    rw [List.drop_left]

theorem visit_runs : (run 2 1 broker).Runs visit .hung := by
  refine .inr ⟨.ok (), _, rfl, .inr ⟨.ok (), _, rfl, .inr ⟨(0 : ℕ), _, rfl, ?_⟩⟩⟩
  refine .inr ⟨.ok (.subscribe ['#']), _, rfl, .inr ⟨.ok (), _, rfl, .inr ⟨(1 : ℕ), _, rfl, ?_⟩⟩⟩
  refine .inr ⟨.empty, _, rfl, .inr ⟨.ok (greeting.flatMap Sent.encode), _, rfl, ?_⟩⟩
  change ((read_packets (greeting.flatMap Sent.encode) >>= fun buffer =>
    keep_alive_ping broker.keep_alive ⟨1, 2⟩ >>= fun s => pure (s, buffer)) >>= fun next =>
      turns 2 broker 0 next.1 next.2).Runs _ _
  have hread : read_packets (greeting.flatMap Sent.encode) = _ :=
    read_packets_sent (p := .conn_ack false 0) trivial _
  have hrest : read_packets ([Sent.publish ['t'] [1] 1 false 7].flatMap Sent.encode) = _ :=
    read_packets_sent (p := .publish ['t'] [1] 1 false 7) ⟨by decide, by decide, by decide⟩ _
  have hnil : read_packets [] = pure [] := by
    rw [read_packets]
    rfl
  rw [hread]
  refine ⟨_, rfl, ?_⟩
  change ((read_packets ([Sent.publish ['t'] [1] 1 false 7].flatMap Sent.encode) >>= fun buffer =>
    keep_alive_ping broker.keep_alive ⟨1, 2⟩ >>= fun s => pure (s, buffer)) >>= fun next =>
      turns 2 broker 0 next.1 next.2).Runs _ _
  rw [hrest]
  refine .inr ⟨.ok (), _, rfl, _, rfl, ?_⟩
  change ((read_packets [] >>= fun buffer =>
    keep_alive_ping broker.keep_alive ⟨1, 2⟩ >>= fun s => pure (s, buffer)) >>= fun next =>
      turns 2 broker 0 next.1 next.2).Runs _ _
  rw [hnil]
  refine .inr ⟨(2 : ℕ), _, rfl, ?_⟩
  exact ⟨rfl, rfl⟩

theorem greeting_wellFormed : ∀ p ∈ greeting, p.WellFormed := by
  simp only [greeting, List.mem_cons, List.not_mem_nil, or_false]
  rintro p (rfl | rfl)
  · trivial
  · exact ⟨by decide, by decide, by decide⟩

/-- The view is told that it is connected and of the message, and the message is answered. -/
theorem greeting_relayed : asked visit = [broker.hello, encode_subscribe 1 ['#']] ∧
    news visit = [.connected, .message ['t'] [1] 1 false] ∧ acks visit = [encode_puback 7] := by
  have hreceived : received visit = greeting.flatMap Sent.encode := List.append_nil _
  obtain ⟨hasked, -, hall, -⟩ := session_relays visit_runs ⟨_, rfl⟩ greeting_wellFormed
    (hreceived ▸ List.prefix_rfl)
  obtain ⟨hnews, hacks⟩ := hall hreceived (by rintro ⟨bytes, h⟩; cases h)
  exact ⟨hasked, hnews, hacks⟩

end WaSSH.Mqtt.Session
