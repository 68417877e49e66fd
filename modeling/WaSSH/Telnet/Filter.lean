import WaSSH.Lib.Feed
import WaSSH.Lib.Utf8

/-!
# Telnet negotiation

A byte-level filter strips the commands out of the stream of a server and answers its option
requests.

* `TelnetFilter`, `step`, `feed`, `take_replies`, `escape`: the filter;
* `queue`, `step_queue`: bytes already queued for the server stay ahead of the new ones;
* **`feed_calls_eq`**: neither the chunks nor the calls of `take_replies` between them show;
* **`feed_escape`**: escaped data comes out as it was, and leaves the filter alone.
-/

namespace WaSSH.Telnet

/-- Interpret As Command. -/
def IAC : UInt8 := 255
def DONT : UInt8 := 254
def DO : UInt8 := 253
def WONT : UInt8 := 252
def WILL : UInt8 := 251
/-- Subnegotiation start. -/
def SB : UInt8 := 250
/-- Go ahead. -/
def GA : UInt8 := 249
/-- Subnegotiation end. -/
def SE : UInt8 := 240
/-- No operation. -/
def NOP : UInt8 := 241
def OPT_ECHO : UInt8 := 1
def OPT_SUPPRESS_GA : UInt8 := 3
def OPT_TERMINAL_TYPE : UInt8 := 24
def OPT_NAWS : UInt8 := 31
def TTYPE_SEND : UInt8 := 1
def TTYPE_IS : UInt8 := 0

inductive State
  | data | iac | will | wont | «do» | dont | sub | sub_iac
  deriving DecidableEq

/-- The filter of one connection. -/
structure TelnetFilter where
  state : State
  sub : List UInt8
  replies : List UInt8
  naws_enabled : Bool
  term_type : List Char
  cols : UInt16
  rows : UInt16
  deriving DecidableEq

/-! ## The filter -/

/-- Create a filter for a terminal of the given size. -/
def TelnetFilter.new (term_type : List Char) (cols rows : UInt16) : TelnetFilter :=
  { state := .data, sub := [], replies := [], naws_enabled := false, term_type, cols, rows }

/-- Re-escape outgoing application data. -/
def escape (data : List UInt8) : List UInt8 :=
  data.flatMap fun byte => if byte = IAC then [byte, IAC] else [byte]

namespace TelnetFilter

variable (f : TelnetFilter)

def naws_payload : List UInt8 :=
  [IAC, SB, OPT_NAWS] ++
    escape [(f.cols >>> 8).toUInt8, (f.cols &&& 0xff).toUInt8,
      (f.rows >>> 8).toUInt8, (f.rows &&& 0xff).toUInt8] ++ [IAC, SE]

/-- `self.replies.extend_from_slice(bytes)`. -/
def reply (bytes : List UInt8) : TelnetFilter := { f with replies := f.replies ++ bytes }

def send (command option : UInt8) : TelnetFilter := f.reply [IAC, command, option]

def on_subnegotiation : TelnetFilter :=
  match f.sub with
  | option :: request :: _ =>
    if option = OPT_TERMINAL_TYPE ∧ request = TTYPE_SEND then
      f.reply ([IAC, SB, OPT_TERMINAL_TYPE, TTYPE_IS] ++ Utf8.encode f.term_type ++ [IAC, SE])
    else f
  | _ => f

/-- One byte, with the application data it stands for. -/
def step (byte : UInt8) : TelnetFilter × List UInt8 :=
  match f.state with
  | .data => if byte = IAC then ({ f with state := .iac }, []) else (f, [byte])
  | .iac =>
    if byte = IAC then ({ f with state := .data }, [IAC])
    else if byte = WILL then ({ f with state := .will }, [])
    else if byte = WONT then ({ f with state := .wont }, [])
    else if byte = DO then ({ f with state := .do }, [])
    else if byte = DONT then ({ f with state := .dont }, [])
    else if byte = SB then ({ f with state := .sub, sub := [] }, [])
    else if byte = NOP ∨ byte = GA then ({ f with state := .data }, [])
    else ({ f with state := .data }, [])
  | .will =>
    let f := if byte = OPT_ECHO ∨ byte = OPT_SUPPRESS_GA then f.send DO byte else f.send DONT byte
    ({ f with state := .data }, [])
  | .wont =>
    let f := if byte = OPT_NAWS then { f with naws_enabled := false } else f
    ({ f with state := .data }, [])
  | .do =>
    let f :=
      if byte = OPT_SUPPRESS_GA ∨ byte = OPT_TERMINAL_TYPE then f.send WILL byte
      else if byte = OPT_NAWS then
        let f := { f with naws_enabled := true }.send WILL OPT_NAWS
        f.reply f.naws_payload
      else f.send WONT byte
    ({ f with state := .data }, [])
  | .dont =>
    let f := if byte = OPT_NAWS then { f with naws_enabled := false } else f
    ({ f with state := .data }, [])
  | .sub =>
    if byte = IAC then ({ f with state := .sub_iac }, [])
    else ({ f with sub := f.sub ++ [byte] }, [])
  | .sub_iac =>
    if byte = IAC then ({ f with sub := f.sub ++ [IAC], state := .sub }, [])
    else if byte = SE then ({ f.on_subnegotiation with sub := [], state := .data }, [])
    else ({ f with state := .sub }, [])

/-- Consume incoming bytes, returning the application data and queuing replies. -/
def feed (chunk : List UInt8) : TelnetFilter × List UInt8 := Feed.feed step f chunk

/-- Take any negotiation bytes produced since the last call. -/
def take_replies : TelnetFilter × List UInt8 := ({ f with replies := [] }, f.replies)

end TelnetFilter

/-! ## Queued replies

The filter only ever adds to the queue, and nothing it does depends on it. -/

namespace TelnetFilter

variable (f : TelnetFilter)

/-- The filter with `older` ahead of the replies it queued. -/
def queue (older : List UInt8) : TelnetFilter := { f with replies := older ++ f.replies }

@[simp] theorem queue_state (older : List UInt8) : (f.queue older).state = f.state := rfl

@[simp] theorem queue_replies (older : List UInt8) :
    (f.queue older).replies = older ++ f.replies := rfl

@[simp] theorem queue_nil : f.queue [] = f := rfl

@[simp] theorem queue_queue (first second : List UInt8) :
    (f.queue second).queue first = f.queue (first ++ second) := by
  simp only [queue, List.append_assoc]

theorem reply_queue (older bytes : List UInt8) :
    (f.queue older).reply bytes = (f.reply bytes).queue older := by
  simp only [reply, queue, List.append_assoc]

theorem send_queue (older : List UInt8) (command option : UInt8) :
    (f.queue older).send command option = (f.send command option).queue older :=
  reply_queue f older _

theorem on_subnegotiation_queue (older : List UInt8) :
    (f.queue older).on_subnegotiation = f.on_subnegotiation.queue older := by
  simp only [on_subnegotiation]
  have hsub : (f.queue older).sub = f.sub := rfl
  rw [hsub]
  split
  · split
    · exact reply_queue f older _
    · rfl
  · rfl

/-- **Step lemma**: what is already queued changes nothing in a step, and stays in front. -/
theorem step_queue (older : List UInt8) (byte : UInt8) :
    (f.queue older).step byte = ((f.step byte).1.queue older, (f.step byte).2) := by
  have hstate : (f.queue older).state = f.state := rfl
  cases h : f.state <;> simp only [step, hstate, h]
  case data => split <;> rfl
  case iac => repeat' split <;> try rfl
  case will => split <;> simp only [send_queue] <;> rfl
  case wont => split <;> rfl
  case «do» =>
    split
    · simp only [send_queue]; rfl
    split
    · simp only [queue, send, reply, naws_payload, List.append_assoc]
    · simp only [send_queue]; rfl
  case dont => split <;> rfl
  case sub => split <;> rfl
  case sub_iac =>
    split
    · rfl
    split
    · simp only [on_subnegotiation_queue]; rfl
    · rfl

theorem feed_queue (older chunk : List UInt8) :
    (f.queue older).feed chunk = ((f.feed chunk).1.queue older, (f.feed chunk).2) :=
  Feed.feed_map (queue · older) (fun f byte => step_queue f older byte) f chunk

theorem take_replies_queue : (f.take_replies).1.queue f.replies = f := by
  simp [take_replies, queue]

theorem feed_append (first second : List UInt8) :
    f.feed (first ++ second) =
      (((f.feed first).1.feed second).1, (f.feed first).2 ++ ((f.feed first).1.feed second).2) :=
  Feed.feed_append step f first second

end TelnetFilter

/-! ## Chunks -/

/-- A call of the session. -/
inductive Call
  | feed (chunk : List UInt8)
  | take_replies

/-- The bytes the calls feed. -/
def stream (calls : List Call) : List UInt8 :=
  calls.flatMap fun
    | .feed chunk => chunk
    | .take_replies => []

/-- The filter after the calls, all application data returned and all replies taken. -/
def TelnetFilter.calls (f : TelnetFilter) : List Call → TelnetFilter × List UInt8 × List UInt8
  | [] => (f, [], [])
  | .feed chunk :: rest =>
    let (g, app) := f.feed chunk
    let (h, apps, taken) := g.calls rest
    (h, app ++ apps, taken)
  | .take_replies :: rest =>
    let (g, replies) := f.take_replies
    let (h, apps, taken) := g.calls rest
    (h, apps, replies ++ taken)

/-- **Calls are one feed**: the calls give the application data of the whole stream, and putting
the taken replies back in front gives its final state. -/
theorem feed_calls_eq (f : TelnetFilter) (cs : List Call) :
    f.feed (stream cs) = ((f.calls cs).1.queue (f.calls cs).2.2, (f.calls cs).2.1) := by
  induction cs generalizing f with
  | nil => rfl
  | cons c cs ih =>
    cases c with
    | feed chunk =>
      show f.feed (chunk ++ stream cs) = _
      rw [f.feed_append, ih]
      rfl
    | take_replies =>
      show f.feed (stream cs) = _
      have hf := f.take_replies_queue
      calc f.feed (stream cs)
        _ = (f.take_replies.1.queue f.replies).feed (stream cs) := by rw [hf]
        _ = _ := by rw [TelnetFilter.feed_queue, ih, TelnetFilter.queue_queue]; rfl

/-! ## Escaped data -/

/-- **Escape round trip**: escaped data fed to a filter that is in no command comes out as it was,
and changes nothing in the filter. -/
theorem feed_escape (f : TelnetFilter) (h : f.state = .data) (d : List UInt8) :
    f.feed (escape d) = (f, d) := by
  induction d with
  | nil => rfl
  | cons byte d ih =>
    have hbyte : f.feed (if byte = IAC then [byte, IAC] else [byte]) = (f, [byte]) := by
      split
      · next hb =>
        subst hb
        have hf : { f with state := .data } = f := by rw [← h]
        simp [TelnetFilter.feed, TelnetFilter.step, h, hf]
      · next hb => simp [TelnetFilter.feed, TelnetFilter.step, h, hb]
    show f.feed ((if byte = IAC then [byte, IAC] else [byte]) ++ escape d) = _
    rw [f.feed_append, hbyte]
    simp only [ih, List.singleton_append]

theorem feed_around_escape (f : TelnetFilter) (before d after : List UInt8)
    (h : (f.feed before).1.state = .data) :
    f.feed (before ++ escape d ++ after) =
      ((f.feed (before ++ after)).1,
        (f.feed before).2 ++ d ++ ((f.feed before).1.feed after).2) := by
  rw [f.feed_append, f.feed_append, f.feed_append, feed_escape _ h]

/-- **Stream filter**: application data, replies and final state do not depend on how the stream
is cut, nor on when the replies are taken; and escaped data survives the filter whatever surrounds
it. -/
theorem filter_is_a_stream_filter :
    (∀ (f : TelnetFilter) (cs : List Call),
      (f.calls cs).2.1 = (f.feed (stream cs)).2 ∧
      (f.calls cs).2.2 ++ (f.calls cs).1.replies = (f.feed (stream cs)).1.replies ∧
      (f.calls cs).1 = { (f.feed (stream cs)).1 with replies := (f.calls cs).1.replies }) ∧
    (∀ (f : TelnetFilter) (d : List UInt8), f.state = .data → f.feed (escape d) = (f, d)) ∧
    ∀ (f : TelnetFilter) (before d after : List UInt8), (f.feed before).1.state = .data →
      f.feed (before ++ escape d ++ after) =
        ((f.feed (before ++ after)).1,
          (f.feed before).2 ++ d ++ ((f.feed before).1.feed after).2) := by
  refine ⟨fun f cs => ?_, fun f d h => feed_escape f h d, feed_around_escape⟩
  rw [feed_calls_eq]
  exact ⟨rfl, rfl, rfl⟩

/-- A window size request cut in two, its replies taken in between, and data around it. -/
theorem filter_is_a_stream_filter_naws :
    let f := TelnetFilter.new ['v', 't'] 80 255
    (f.calls [.feed [104, IAC], .take_replies, .feed [DO, OPT_NAWS, 105]]).2.1 = [104, 105] ∧
    f.feed (escape [1, IAC, 2]) = (f, [1, IAC, 2]) ∧
    (f.feed ([IAC, DO, OPT_NAWS] ++ escape [IAC] ++ [IAC, NOP])).2 = [IAC] ∧
    (f.feed [IAC, DO, OPT_NAWS]).1.replies =
      [IAC, WILL, OPT_NAWS, IAC, SB, OPT_NAWS, 0, 80, 0, IAC, IAC, IAC, SE] := by
  refine ⟨?_, ?_, ?_, by decide⟩
  · rw [(filter_is_a_stream_filter.1 _ _).1]
    decide
  · exact filter_is_a_stream_filter.2.1 _ _ rfl
  · rw [filter_is_a_stream_filter.2.2 _ _ _ _ (by decide)]
    decide

end WaSSH.Telnet
